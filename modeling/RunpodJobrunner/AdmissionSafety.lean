import RunpodJobrunner.Conduct
import RunpodJobrunner.RunAdmission

/-!
# At most one active run

A run without a plan, or closed, is idle, and no call but `plan` changes the
events of an idle run. Under the admission lock the scan finds every run idle or
raises, and after it only the chosen run is planned. So at most one run of the
store is active in every interleaving of `run` calls and of the runs they
planned, and a closed run stays as it is.
-/

namespace RunpodJobrunner

open Relation

/-! ## Idle runs -/

/-- The effective lifecycle is not closed. -/
def ActiveRun (d : RunDirectory) : Prop :=
  ∃ p, effective d.world.events d.world.snapshot = some p ∧ p.state.lifecycle ≠ .closed

/-- The run is closed, in that projection. -/
def ClosedRun (d : RunDirectory) (p : Projection) : Prop :=
  effective d.world.events d.world.snapshot = some p ∧ p.state.lifecycle = .closed

/-- Nothing of the run is in effect, or it is closed. -/
def Idle (w : World) : Prop := ∀ s, w.current = some s → s.lifecycle = .closed

/-- Any calls but `plan`. -/
def Environment.planned (answers : Answers) : Environment where
  answers := answers
  issues := fun _ call => ∀ request approved, call ≠ .plan request approved

/-- Any calls. -/
def Environment.open (answers : Answers) : Environment := ⟨answers, fun _ _ => True⟩

section

variable {ctl : Controller} {env : Environment} {answers : Answers} {w w' : World}

/-- A closed run has no further events. -/
theorem Step.closed {s : RunState} (h : Step ctl env w w') (hcur : w.current = some s)
    (hclosed : s.lifecycle = .closed) : w'.events = w.events := by
  cases h with
  | commit _ hc _ => exact absurd hclosed (hc.outcomeChange hcur).unclosed
  | saw _ _ | corrupt | request _ _ | snapshot _ | receipt _ _ => rfl

/-- Where nobody plans, an idle run has no further events. -/
theorem Step.idle (h : Step ctl (.planned answers) w w') (hidle : Idle w) :
    w'.events = w.events := by
  cases h with
  | @commit kind s' _ hc _ =>
    rcases hc.source with ⟨s, hs⟩ | ⟨-, -, ⟨_, _, hissue⟩, -⟩
    · exact absurd (hidle s hs) (hc.outcomeChange hs).unclosed
    · exact absurd rfl (hissue _ _)
  | saw _ _ | corrupt | request _ _ | snapshot _ | receipt _ _ => rfl

/-- Whether a run is idle is a matter of its events. -/
theorem idle_of_events (h : w'.events = w.events) (hidle : Idle w) : Idle w' := by
  intro s hs
  rw [World.current, h] at hs
  exact hidle s hs

/-- Without a plan, an idle run gets no events. -/
theorem Reaches.idle (h : Reaches ctl (.planned answers) w w') (hidle : Idle w) :
    w'.events = w.events := by
  induction h with
  | refl => rfl
  | tail _ hs ih => exact (hs.idle (idle_of_events ih hidle)).trans ih

/-- A closed run gets no more events. -/
theorem Reaches.closed {s : RunState} (h : Reaches ctl env w w') (hcur : w.current = some s)
    (hclosed : s.lifecycle = .closed) : w'.events = w.events := by
  induction h with
  | refl => rfl
  | tail _ hs ih =>
    have hcur' := hcur
    rw [World.current, ← ih] at hcur'
    exact (hs.closed hcur' hclosed).trans ih

/-- The effective projection of a consistent world is the one of its newest event. -/
theorem World.current_of_consistent (hw : Consistent w) :
    w.current = (effective w.events w.snapshot).map Projection.state := by
  rw [hw.effective, World.current, Option.map_map]
  rfl

end

/-- A run is active where its directory is not idle. -/
theorem activeRun_iff {d : RunDirectory} (hd : Consistent d.world) :
    ActiveRun d ↔ ¬Idle d.world := by
  rw [Idle, World.current_of_consistent hd]
  cases h : effective d.world.events d.world.snapshot with
  | none => simp [ActiveRun, h]
  | some p => simp [ActiveRun, h]

/-! ## Steps of the store -/

/-- The store as processes leave it. -/
structure Store.Sound (s : Store) : Prop where
  consistent : ∀ id, Consistent (s id).world
  absent : ∀ id, (s id).present = false → (s id).world.events = []

theorem Store.sound_empty : Store.empty.Sound :=
  ⟨fun _ => consistent_empty, fun _ _ => rfl⟩

/-- Every run has moved by steps of its controller, and no directory is gone. -/
structure Moves (ctl : RunId → Controller) (env : Environment) (s s' : Store) : Prop where
  reaches : ∀ id, Reaches (ctl id) env (s id).world (s' id).world
  present : ∀ id, (s id).present = true → (s' id).present = true

section

variable {ctl : RunId → Controller} {answers : Answers} {env : Environment} {s s' s'' : Store}
  {id : RunId}

theorem Moves.refl (s : Store) : Moves ctl env s s := ⟨fun _ => .refl, fun _ h => h⟩

theorem Moves.trans (h : Moves ctl env s s') (h' : Moves ctl env s' s'') : Moves ctl env s s'' :=
  ⟨fun id => (h.reaches id).trans (h'.reaches id), fun id hid => h'.present id (h.present id hid)⟩

/-- One directory was replaced. -/
theorem Moves.put {d : RunDirectory} (hreaches : Reaches (ctl id) env (s id).world d.world)
    (hpresent : (s id).present = true → d.present = true) : Moves ctl env s (s.put id d) := by
  refine ⟨fun id' => ?_, fun id' => ?_⟩
  · by_cases h : id' = id
    · subst h
      rwa [Store.put_same]
    · rw [Store.put_ne h]
  · by_cases h : id' = id
    · subst h
      rwa [Store.put_same]
    · rw [Store.put_ne h]
      exact fun hid => hid

/-- A directory is replaced by one with the same world. -/
theorem Store.Sound.put {d : RunDirectory} (hs : s.Sound) (hconsistent : Consistent d.world)
    (habsent : d.present = false → d.world.events = []) : (s.put id d).Sound := by
  refine ⟨fun id' => ?_, fun id' => ?_⟩
  · by_cases h : id' = id
    · subst h
      rwa [Store.put_same]
    · rw [Store.put_ne h]
      exact hs.consistent id'
  · by_cases h : id' = id
    · subst h
      rwa [Store.put_same]
    · rw [Store.put_ne h]
      exact hs.absent id'

/-- A call moves its run by steps of its controller. -/
theorem Called.moves (env : Environment) {call : Call} {o : Outcome Failure Projection}
    (hs : s.Sound) (h : Called ctl env.answers s id call o s')
    (hissue : env.issues (s id).world.current call) : Moves ctl env s s' := by
  obtain ⟨w, hrun, rfl⟩ := h
  have hstays : Stays (ctl id) env (s id).world ((ctl id).perform call) (s id).world :=
    stays_perform .refl (hs.consistent id) hissue
  exact .put (Keeps.sound hrun hstays .refl).1 fun h => by simp [RunDirectory.called, h]

/-- A call leaves a sound store. -/
theorem Called.sound {call : Call} {o : Outcome Failure Projection} (hs : s.Sound)
    (h : Called ctl answers s id call o s') : s'.Sound := by
  have hmoves := Called.moves (.open answers) hs h trivial
  have hconsistent := consistent_of_reaches (hmoves.reaches id) (hs.consistent id)
  obtain ⟨w, hrun, rfl⟩ := h
  rw [Store.put_same] at hconsistent
  refine hs.put hconsistent fun habsent => ?_
  simp only [RunDirectory.called, Bool.or_eq_false_iff] at habsent
  have hempty := hs.absent id habsent.1
  have hidle : Idle (s id).world := by
    intro t ht
    rw [World.current, hempty] at ht
    cases ht
  -- only a status call, and a plan with an invalid cap, make no directory
  cases call with
  | status =>
    have hstays : Stays (ctl id) (.planned answers) (s id).world ((ctl id).perform .status)
        (s id).world := stays_perform .refl (hs.consistent id) (by rintro _ _ ⟨⟩)
    have hreaches : Reaches (ctl id) (.planned answers) (s id).world w :=
      (Keeps.sound hrun hstays .refl).1
    exact (hreaches.idle hidle).trans hempty
  | plan request approved =>
    have hnone : moneyOf approved = none := by simpa [Call.makesDirectory] using habsent.2
    rw [Controller.perform, Controller.plan, hnone] at hrun
    cases hrun with
    | raise => exact hempty
    | halt => exact hempty
  | reconcile | recordWorkloadResult _ | recordArtifactDisposition _ _ | requestStop _ =>
    cases habsent.2

/-- Outside steps make no call but of planned runs. -/
theorem OutsideRun.moves (hs : s.Sound) (h : OutsideRun ctl answers s s') :
    Moves ctl (.planned answers) s s' ∧ s'.Sound := by
  obtain ⟨id, call, o, hcall, hcalled⟩ := h
  exact ⟨Called.moves (.planned answers) hs hcalled hcall, hcalled.sound hs⟩

/-- The runs a command can plan. -/
def StoreCommand.Plans (id : RunId) : StoreCommand → Prop
  | .call id' (.plan _ _) => id' = id
  | _ => True

/-- A command that plans no run. -/
def StoreCommand.Calm : StoreCommand → Prop
  | .call _ (.plan _ _) => False
  | _ => True

/-- A command of `establish_run` is calm or plans the run. -/
theorem StoreCommand.Plans.cases {c : StoreCommand} (h : c.Plans id) :
    c.Calm ∨ ∃ request approved, c = .call id (.plan request approved) := by
  cases c with
  | call id' call =>
    cases call with
    | plan request approved =>
      obtain rfl : id' = id := h
      exact .inr ⟨request, approved, rfl⟩
    | _ => exact .inl trivial
  | _ => exact .inl trivial

/-- A death while a run's secrets are made moves no run. -/
theorem CutMake.moves (ctl : RunId → Controller) (env : Environment) (h : CutMake s id s') :
    Moves ctl env s s' := by
  rcases h with rfl | rfl
  · exact .refl _
  · exact .put .refl fun _ => rfl

/-- A death while a run's secrets are made leaves a sound store. -/
theorem CutMake.sound (hs : s.Sound) (h : CutMake s id s') : s'.Sound := by
  rcases h with rfl | rfl
  · exact hs
  · exact hs.put (hs.consistent id) nofun

/-- A death while a secret is created moves no run. -/
theorem CutCreate.moves (ctl : RunId → Controller) (env : Environment) {secret : Secret}
    (h : CutCreate s id secret s') : Moves ctl env s s' := by
  rcases h with rfl | ⟨text, rfl⟩
  · exact .refl _
  · exact .put .refl fun h => h

/-- A death while a secret is created leaves a sound store. -/
theorem CutCreate.sound {secret : Secret} (hs : s.Sound) (h : CutCreate s id secret s') :
    s'.Sound := by
  rcases h with rfl | ⟨text, rfl⟩
  · exact hs
  · exact hs.put (hs.consistent id) (hs.absent id)

/-- A command moves the runs, and one that plans none moves them without a plan. -/
theorem storeExecute_moves {c : StoreCommand} {a : StoreAnswer c} (hs : s.Sound)
    (h : storeExecute ctl answers s c a s') :
    Moves ctl (.open answers) s s' ∧ s'.Sound ∧ (c.Calm → Moves ctl (.planned answers) s s') := by
  cases c with
  | listRuns | readSecret _ _ =>
    obtain ⟨rfl, -⟩ := h
    exact ⟨.refl _, hs, fun _ => .refl _⟩
  | newRunId | reserve _ _ _ | generate _ | now | launch _ =>
    obtain rfl := h
    exact ⟨.refl _, hs, fun _ => .refl _⟩
  | call id call =>
    refine ⟨Called.moves (.open answers) hs h trivial, Called.sound hs h, fun hcalm => ?_⟩
    refine Called.moves (.planned answers) hs h fun request approved => ?_
    rintro rfl
    exact hcalm
  | makeSecrets id =>
    have hcut : CutMake s id s' := by
      rcases h with ⟨-, rfl⟩ | ⟨-, h⟩
      · exact .inr rfl
      · exact h
    exact ⟨hcut.moves _ _, hcut.sound hs, fun _ => hcut.moves _ _⟩
  | createSecret id secret text =>
    have hcut : CutCreate s id secret s' := by
      rcases h with ⟨-, rfl⟩ | ⟨-, h⟩
      · exact .inr ⟨_, rfl⟩
      · exact h
    exact ⟨hcut.moves _ _, hcut.sound hs, fun _ => hcut.moves _ _⟩

/-- A death in any command moves runs as calls may, and plans none in a calm command. -/
theorem storeDieIn_moves {c : StoreCommand} (hs : s.Sound) (h : storeDieIn ctl answers s c s') :
    Moves ctl (.open answers) s s' ∧ s'.Sound ∧ (c.Calm → Moves ctl (.planned answers) s s') := by
  cases c with
  | listRuns | readSecret _ _ | newRunId | reserve _ _ _ | generate _ | now | launch _ =>
    obtain rfl := h
    exact ⟨.refl _, hs, fun _ => .refl _⟩
  | call id call =>
    refine ⟨Called.moves (.open answers) hs h trivial, Called.sound hs h, fun hcalm => ?_⟩
    refine Called.moves (.planned answers) hs h fun request approved => ?_
    rintro rfl
    exact hcalm
  | makeSecrets id =>
    exact ⟨CutMake.moves _ _ h, CutMake.sound hs h, fun _ => CutMake.moves _ _ h⟩
  | createSecret id secret text =>
    exact ⟨CutCreate.moves _ _ h, CutCreate.sound hs h, fun _ => CutCreate.moves _ _ h⟩

/-! ## Under the lock -/

/-- At most one run is active. -/
def OneActive (s : Store) : Prop := ∀ id id', ActiveRun (s id) → ActiveRun (s id') → id = id'

/-- All runs but that one are idle. -/
def OnlyActive (id : RunId) (s : Store) : Prop := ∀ id', id' ≠ id → Idle (s id').world

/-- What every world of the store has. -/
structure Admitted (s : Store) : Prop where
  sound : s.Sound
  one : OneActive s

/-- A store with one run that may be active has admitted. -/
theorem OnlyActive.admitted (hs : s.Sound) (h : OnlyActive id s) : Admitted s := by
  have hactive : ∀ id', ActiveRun (s id') → id' = id := by
    intro id' hactive
    by_contra hne
    exact (activeRun_iff (hs.consistent id')).mp hactive (h id' hne)
  exact ⟨hs, fun i j hi hj => (hactive i hi).trans (hactive j hj).symm⟩

/-- Without a plan, an idle run stays idle. -/
theorem Moves.idle (h : Moves ctl (.planned answers) s s') (hidle : Idle (s id).world) :
    Idle (s' id).world :=
  idle_of_events ((h.reaches id).idle hidle) hidle

/-- Without a plan no run becomes active. -/
theorem Admitted.moves (hs : Admitted s) (h : Moves ctl (.planned answers) s s')
    (hs' : s'.Sound) : Admitted s' := by
  refine ⟨hs', fun i j hi hj => hs.one i j ?_ ?_⟩
  · rw [activeRun_iff (hs.sound.consistent i)]
    exact fun hidle => (activeRun_iff (hs'.consistent i)).mp hi (h.idle hidle)
  · rw [activeRun_iff (hs.sound.consistent j)]
    exact fun hidle => (activeRun_iff (hs'.consistent j)).mp hj (h.idle hidle)

/-- Outside an admission no run is planned, and the store stays sound. -/
theorem outside_moves (hs : s.Sound) (h : ReflTransGen (OutsideRun ctl answers) s s') :
    Moves ctl (.planned answers) s s' ∧ s'.Sound := by
  induction h with
  | refl => exact ⟨.refl _, hs⟩
  | tail _ hstep ih =>
    obtain ⟨hmoves, hsound⟩ := ih
    obtain ⟨hmoves', hsound'⟩ := hstep.moves hsound
    exact ⟨hmoves.trans hmoves', hsound'⟩

/-- The store under the admission lock, with outside steps before each command. -/
abbrev sharedStore (ctl : RunId → Controller) (answers : Answers) :
    Machine Store StoreCommand StoreAnswer :=
  (storeMachine ctl answers).among (OutsideRun ctl answers)

/-- A calm command in a shared store plans no run. -/
theorem sharedStore_exec {c : StoreCommand} {a : StoreAnswer c} (hs : s.Sound) (hcalm : c.Calm)
    (h : (sharedStore ctl answers).exec s c a s') :
    Moves ctl (.planned answers) s s' ∧ s'.Sound := by
  obtain ⟨v, hout, hexec⟩ := h
  obtain ⟨hmoves, hsound⟩ := outside_moves hs hout
  obtain ⟨-, hsound', hmoves'⟩ := storeExecute_moves hsound hexec
  exact ⟨hmoves.trans (hmoves' hcalm), hsound'⟩

/-- A death in a calm command in a shared store plans no run. -/
theorem sharedStore_die {c : StoreCommand} (hs : s.Sound) (hcalm : c.Calm)
    (h : (sharedStore ctl answers).die s c s') : Moves ctl (.planned answers) s s' ∧ s'.Sound := by
  obtain ⟨v, hout, hdie⟩ := h
  obtain ⟨hmoves, hsound⟩ := outside_moves hs hout
  obtain ⟨-, hsound', hmoves'⟩ := storeDieIn_moves hsound hdie
  exact ⟨hmoves.trans (hmoves' hcalm), hsound'⟩

variable {α : Type} {Q : α → Store → Prop}

/-- A command that plans no run, and what comes after it. -/
theorem keeps_calm {c : StoreCommand} {k : StoreAnswer c → Admission α} (hs : Admitted s)
    (hcalm : c.Calm)
    (hk : ∀ a s', (sharedStore ctl answers).exec s c a s' → Moves ctl (.planned answers) s s' →
      Admitted s' → Keeps (sharedStore ctl answers) Admitted Q (fun _ => Admitted) (k a) s') :
    Keeps (sharedStore ctl answers) Admitted Q (fun _ => Admitted) (.call c k) s := by
  refine ⟨fun s' hdie => ?_, fun a s' hexec => ?_⟩
  · obtain ⟨hmoves, hsound⟩ := sharedStore_die hs.sound hcalm hdie
    exact hs.moves hmoves hsound
  · obtain ⟨hmoves, hsound⟩ := sharedStore_exec hs.sound hcalm hexec
    have hs' := hs.moves hmoves hsound
    exact ⟨hs', hk a s' hexec hmoves hs'⟩

/-- A status that returns is the one in effect. -/
theorem status_current {p : Projection} (hs : s.Sound)
    (h : (sharedStore ctl answers).exec s (.call id .status) (.ok p) s') :
    (s' id).world.current = some p.state := by
  obtain ⟨v, hout, w, hrun, rfl⟩ := h
  have hsound := (outside_moves hs hout).2
  have hkeeps := @keeps_readState answers (v id).world (fun _ _ => True) (hsound.consistent id)
    fun _ _ => trivial
  rw [Store.put_same]
  exact (Keeps.sound hrun hkeeps trivial).2.1 p rfl

/-- The loop of the scan: a run that is not listed any more is idle, or it was found active. -/
theorem keeps_scanRuns {active ids : List RunId} (hs : Admitted s)
    (hidle : active = [] → ∀ id, id ∉ ids → Idle (s id).world) :
    Keeps (sharedStore ctl answers) Admitted
      (fun active s' => Admitted s' ∧ (active = [] → ∀ id, Idle (s' id).world))
      (fun _ => Admitted) (scanRuns active ids) s := by
  induction ids generalizing active s with
  | nil => exact ⟨hs, fun h id => hidle h id (List.not_mem_nil)⟩
  | cons id ids ih =>
    refine keeps_calm hs trivial fun a s' hexec hmoves hs' => ?_
    cases a with
    | error e => exact hs'
    | ok p =>
      refine ih hs' fun hactive id' hid' => ?_
      have hcur := status_current hs.sound hexec
      by_cases hclosed : p.state.lifecycle = .closed
      · rw [if_pos hclosed] at hactive
        by_cases hid : id' = id
        · subst hid
          rintro t ht
          rw [hcur] at ht
          cases ht
          exact hclosed
        · exact hmoves.idle (hidle hactive id' (by simp [hid, hid']))
      · rw [if_neg hclosed] at hactive
        simp at hactive

/-- `active_run_ids` answers no run only where every run is idle. -/
theorem keeps_activeRunIds (hs : Admitted s) :
    Keeps (sharedStore ctl answers) Admitted
      (fun active s' => Admitted s' ∧ (active = [] → ∀ id, Idle (s' id).world))
      (fun _ => Admitted) activeRunIds s := by
  refine keeps_calm hs trivial fun a s' hexec hmoves hs' => ?_
  cases a with
  | error e => exact hs'
  | ok ids =>
    refine keeps_scanRuns hs' fun _ id hid => ?_
    -- a run that is not listed has no directory, and so no events
    obtain ⟨v, hout, rfl, hlisted⟩ := hexec
    have habsent : (s' id).present = false := by
      by_contra hpresent
      exact hid (((hlisted ids rfl).2 id).mpr (by simpa using hpresent))
    intro t ht
    rw [World.current, hs'.sound.absent id habsent] at ht
    cases ht

/-! ## The chosen run -/

/-- A failed answer is raised without a command. -/
theorem only_orFail {P : StoreCommand → Prop} (a : Except Unit α) : (orFail a).Only P := by
  cases a <;> trivial

/-- A command of the system plans no run. -/
theorem only_perform {β : Type} {c : StoreCommand} {P : StoreCommand → Prop}
    {k : StoreAnswer c → Admission β} (hc : P c) (hk : ∀ a, (k a).Only P) :
    ((Process.perform c : Admission (StoreAnswer c)) >>= k).Only P := ⟨hc, hk⟩

/-- `ensure_secret` makes, reads, generates and creates that secret only. -/
theorem only_ensureSecret {P : StoreCommand → Prop} (secret : Secret) (written : Text → Text)
    (hmake : P (.makeSecrets id)) (hread : P (.readSecret id secret))
    (hgenerate : P (.generate secret)) (hcreate : ∀ text, P (.createSecret id secret text)) :
    (ensureSecret id secret written).Only P := by
  refine only_perform hmake fun a => (only_orFail a).bind fun _ => ?_
  refine only_perform hread fun a => (only_orFail a).bind fun text => ?_
  cases text with
  | some text => trivial
  | none =>
    refine only_perform hgenerate fun a => (only_orFail a).bind fun fresh => ?_
    exact only_perform (hcreate _) fun a => (only_orFail a).bind fun _ => trivial

/-- The commands of `establishRun`. -/
def StoreCommand.Establishes (id : RunId) : StoreCommand → Prop
  | .makeSecrets id' | .readSecret id' _ | .createSecret id' _ _ | .launch id' => id' = id
  | .call id' (.plan _ _) => id' = id
  | .generate _ | .now => True
  | _ => False

/-- `establish_run` asks of the one run only. -/
theorem only_establishRun (job : Job) (id : RunId) :
    (establishRun job id).Only (StoreCommand.Establishes id) := by
  have hsecret : ∀ secret written,
      (ensureSecret id secret written).Only (StoreCommand.Establishes id) := fun secret written =>
    only_ensureSecret secret written rfl rfl trivial fun _ => rfl
  have htoken : (ensureStatusToken id).Only (StoreCommand.Establishes id) :=
    (hsecret _ _).bind fun text => by cases text <;> trivial
  have hsigner : (ensureSigner job id).Only (StoreCommand.Establishes id) := by
    rw [ensureSigner]
    split
    · refine (hsecret _ _).bind fun key => ?_
      split <;> trivial
    · trivial
  have hlaunch : ∀ forbidden,
      (ensureLaunchToken id forbidden).Only (StoreCommand.Establishes id) := by
    intro forbidden
    refine (hsecret _ _).bind fun text => ?_
    have hcheck : ∀ token, (if token = forbidden then .raise (.secret .launchToken) else pure token :
        Admission Text).Only (StoreCommand.Establishes id) := by
      intro token
      split <;> trivial
    cases text with
    | inl text =>
      simp only
      split
      · exact hcheck _
      · trivial
    | inr token => exact hcheck token
  refine htoken.bind fun statusToken => ?_
  split
  · trivial
  · refine hsigner.bind fun signer => (hlaunch _).bind fun launchToken => ?_
    refine only_perform trivial fun now => ?_
    split
    · trivial
    · refine ⟨rfl, fun a => ?_⟩
      cases a with
      | error e => trivial
      | ok p => exact only_perform rfl fun a => (only_orFail a).bind fun _ => trivial

/-- The only run that `establishRun` plans is the one it was given. -/
theorem StoreCommand.Establishes.plans {c : StoreCommand} (h : c.Establishes id) : c.Plans id := by
  cases c with
  | call id' call => cases call <;> first | exact h | trivial
  | _ => trivial

/-- Whatever plans only that run keeps all other runs idle. -/
theorem keeps_onlyActive {p : Admission α} (hp : p.Only (StoreCommand.Plans id)) (hs : s.Sound)
    (honly : OnlyActive id s) :
    Keeps (sharedStore ctl answers) Admitted (fun _ => Admitted) (fun _ => Admitted) p s := by
  have hcalm : ∀ {s s' : Store}, OnlyActive id s → Moves ctl (.planned answers) s s' →
      OnlyActive id s' := fun h hmoves id' hid' => hmoves.idle (h id' hid')
  have hplan : ∀ {s s' : Store} {call : Call} {o : Outcome Failure Projection},
      OnlyActive id s → Called ctl answers s id call o s' → OnlyActive id s' := by
    rintro s s' call o h ⟨w, -, rfl⟩ id' hid'
    rw [Store.put_ne hid']
    exact h id' hid'
  have hkeeps : Keeps (sharedStore ctl answers) (fun s => s.Sound ∧ OnlyActive id s)
      (fun _ s => s.Sound ∧ OnlyActive id s) (fun _ s => s.Sound ∧ OnlyActive id s) p s := by
    refine hp.keeps (fun s c a s' hc hs hexec => ?_) (fun s c s' hc hs hdie => ?_) ⟨hs, honly⟩
    · obtain ⟨v, hout, hexec⟩ := hexec
      obtain ⟨hmoves, hsound⟩ := outside_moves hs.1 hout
      obtain ⟨-, hsound', hmoves'⟩ := storeExecute_moves hsound hexec
      refine ⟨hsound', ?_⟩
      rcases hc.cases with hc | ⟨request, approved, rfl⟩
      · exact hcalm (hcalm hs.2 hmoves) (hmoves' hc)
      · exact hplan (hcalm hs.2 hmoves) hexec
    · obtain ⟨v, hout, hdie⟩ := hdie
      obtain ⟨hmoves, hsound⟩ := outside_moves hs.1 hout
      obtain ⟨-, hsound', hmoves'⟩ := storeDieIn_moves hsound hdie
      refine ⟨hsound', ?_⟩
      rcases hc.cases with hc | ⟨request, approved, rfl⟩
      · exact hcalm (hcalm hs.2 hmoves) (hmoves' hc)
      · exact hplan (hcalm hs.2 hmoves) hdie
  exact hkeeps.mono (fun _ h => h.2.admitted h.1) (fun _ _ h => h.2.admitted h.1)
    fun _ _ h => h.2.admitted h.1

/-- `claim_run` draws an id and reserves its budget. -/
theorem only_claimRun {P : StoreCommand → Prop} (job : Job) (hid : P .newRunId)
    (hreserve : ∀ scope total runId, P (.reserve scope total runId)) : (claimRun job).Only P := by
  refine only_perform hid fun a => (only_orFail a).bind fun runId => ?_
  have hcheck : (if h : isRunId runId = true then pure ⟨runId, h⟩ else .raise .invalidRunId :
      Admission RunId).Only P := by
    split <;> trivial
  cases job.budgetScope with
  | none =>
    cases job.budgetTotal with
    | none => exact hcheck
    | some total => trivial
  | some scope =>
    cases job.budgetTotal with
    | none => trivial
    | some total => exact only_perform (hreserve _ _ _) fun a => (only_orFail a).bind fun _ => hcheck

/-- Where all runs are idle, a process that plans none keeps them so. -/
theorem keeps_idle {p : Admission α} (hp : p.Only StoreCommand.Calm) (hs : Admitted s)
    (hidle : ∀ id, Idle (s id).world) :
    Keeps (sharedStore ctl answers) Admitted (fun _ s' => s'.Sound ∧ ∀ id, Idle (s' id).world)
      (fun _ => Admitted) p s := by
  have hkeeps : Keeps (sharedStore ctl answers) (fun s => Admitted s ∧ ∀ id, Idle (s id).world)
      (fun _ s => Admitted s ∧ ∀ id, Idle (s id).world)
      (fun _ s => Admitted s ∧ ∀ id, Idle (s id).world) p s := by
    refine hp.keeps (fun s c a s' hc hs hexec => ?_) (fun s c s' hc hs hdie => ?_) ⟨hs, hidle⟩
    · obtain ⟨hmoves, hsound⟩ := sharedStore_exec hs.1.sound hc hexec
      exact ⟨hs.1.moves hmoves hsound, fun id => hmoves.idle (hs.2 id)⟩
    · obtain ⟨hmoves, hsound⟩ := sharedStore_die hs.1.sound hc hdie
      exact ⟨hs.1.moves hmoves hsound, fun id => hmoves.idle (hs.2 id)⟩
  exact hkeeps.mono (fun _ h => h.1) (fun _ _ h => ⟨h.1.sound, h.2⟩) fun _ _ h => h.1

/-- The part of `run` that chooses the run returns only when all runs are idle. -/
theorem keeps_chooseRun (job : Job) (hs : Admitted s) :
    Keeps (sharedStore ctl answers) Admitted
      (fun _ s' => s'.Sound ∧ ∀ id, Idle (s' id).world) (fun _ => Admitted) (chooseRun job) s := by
  refine (keeps_activeRunIds hs).bind fun active s' ⟨hs', hidle⟩ => ?_
  by_cases hactive : active = []
  · rw [if_neg (not_not.mpr hactive)]
    exact keeps_idle (only_claimRun job trivial fun _ _ _ => trivial) hs' (hidle hactive)
  · rw [if_pos hactive]
    exact hs'

/-- **One call.** A section of `run` leaves at most one active run, however it ends. -/
theorem keeps_runJob (job : Job) (hs : Admitted s) :
    Keeps (sharedStore ctl answers) Admitted (fun _ => Admitted) (fun _ => Admitted)
      (runJob job) s :=
  (keeps_chooseRun job hs).bind fun id _ h =>
    keeps_onlyActive ((only_establishRun job id).mono fun _ => StoreCommand.Establishes.plans) h.1
      fun id' _ => h.2 id'

/-! ## Interleavings -/

variable {st st' : AdmissionState}

/-- In every store that is reached from the empty one, at most one run is active. -/
theorem admitted_of_steps
    (h : ReflTransGen (AdmissionStep ctl answers) ⟨.empty, none⟩ st) : Admitted st.world := by
  have hempty : Admitted Store.empty := by
    refine ⟨Store.sound_empty, fun id id' hid _ => ?_⟩
    obtain ⟨p, hp, -⟩ := hid
    cases hp
  refine lock_invariant (fun v p o v' hv hp hr => ?_) (fun v v' hv hout => ?_) hempty h
  · obtain ⟨job, rfl⟩ := hp
    exact ((keeps_runJob job hv).sound hr hv).1
  · obtain ⟨hmoves, hsound⟩ := hout.moves hv.sound
    exact hv.moves hmoves hsound

/-- A closed run has the same projection after a step. -/
theorem closed_of_moves {p : Projection} (hs : s.Sound) (hs' : s'.Sound)
    (h : Moves ctl env s s') (hclosed : ClosedRun (s id) p) : ClosedRun (s' id) p := by
  obtain ⟨heffective, hlifecycle⟩ := hclosed
  have hcur : (s id).world.current = some p.state := by
    rw [World.current_of_consistent (hs.consistent id), heffective]
    rfl
  have hevents := (h.reaches id).closed hcur hlifecycle
  refine ⟨?_, hlifecycle⟩
  rw [(hs'.consistent id).effective, hevents, ← (hs.consistent id).effective]
  exact heffective

/-- **At most one active run**, in every interleaving of `run` calls, of processes
that die anywhere, and of calls of the runs they planned; and a closed run keeps
the projection it closed with. -/
theorem at_most_one_active (h : ReflTransGen (AdmissionStep ctl answers) ⟨.empty, none⟩ st) :
    OneActive st.world ∧
      ∀ st', ReflTransGen (AdmissionStep ctl answers) st st' → ∀ id p,
        ClosedRun (st.world id) p → ClosedRun (st'.world id) p := by
  refine ⟨(admitted_of_steps h).one, fun st' h' id p hclosed => ?_⟩
  induction h' with
  | refl => exact hclosed
  | @tail a b hsteps hstep ih =>
    have ha := (admitted_of_steps (h.trans hsteps)).sound
    have hb := (admitted_of_steps ((h.trans hsteps).tail hstep)).sound
    cases hstep with
    | enter _ | leave => exact ih
    | command hexec => exact closed_of_moves ha hb (storeExecute_moves ha hexec).1 ih
    | die hdie => exact closed_of_moves ha hb (storeDieIn_moves ha hdie).1 ih
    | outside hout => exact closed_of_moves ha hb (hout.moves ha).1 ih

end

/-! ## A played call -/

/-- The system, a factory of one run id, and the script for the calls. -/
def storeRespond (ctl : RunId → Controller) (sc : Script) (runId : Text) (s : Store) :
    (c : StoreCommand) → StoreAnswer c × Store × Bool
  | .listRuns => (.error (), s, false)
  | .call id call =>
    let played := simulate sc Check.any ((ctl id).perform call) (s id).world
    let s' := s.put id ((s id).called call played.world)
    match played.outcome with
    | .returned p => (.ok p, s', played.allowed)
    | .raised e => (.error e, s', played.allowed)
    | .died => (.error .foreign, s, false)
  | .newRunId => (.ok runId, s, true)
  | .reserve _ _ _ => (.ok (), s, true)
  | .makeSecrets id => (.ok (), s.put id { s id with present := true }, true)
  | .readSecret id secret => (.ok ((s id).secrets secret), s, true)
  | .createSecret id secret text => (.ok (), s.put id ((s id).withSecret secret (some text)), true)
  | .generate secret => (.ok (if secret = .statusToken then txt "status" else txt "launch"), s, true)
  | .now => (⟨2026, 7, 4, 9, 0, 0, 0, some 0⟩, s, true)
  | .launch _ => (.ok (), s, true)

/-- An answer of the script that is allowed is one that the store may give. -/
theorem storeExecute_respond {ctl : RunId → Controller} {sc : Script} {runId : Text} {s : Store}
    {c : StoreCommand} (h : (storeRespond ctl sc runId s c).2.2 = true) :
    storeExecute ctl (Environment.any).answers s c (storeRespond ctl sc runId s c).1
      (storeRespond ctl sc runId s c).2.1 := by
  cases c with
  | listRuns => cases h
  | newRunId | reserve _ _ _ | generate _ | now | launch _ => rfl
  | readSecret id secret => exact ⟨rfl, fun text ht => (Except.ok.inj ht).symm⟩
  | makeSecrets id => exact .inl ⟨rfl, rfl⟩
  | createSecret id secret text => exact .inl ⟨rfl, rfl⟩
  | call id call =>
    have hrun := @runs_simulate _ _ sc Check.any ((ctl id).perform call) (s id).world
    simp only [storeRespond] at h ⊢
    split at h
    · next p hp =>
      have hreturned := hrun h
      rw [hp] at hreturned
      exact ⟨_, hreturned, rfl⟩
    · next e he =>
      have hraised := hrun h
      rw [he] at hraised
      exact ⟨_, hraised, rfl⟩
    · cases h

/-- The controllers of a store, with the operation ids of the sample run. -/
def sampleControllers (id : RunId) : Controller := { sampleController with runId := id }

/-- A job without a budget and without acknowledgements. -/
def sampleJob : Job where
  budgetScope := none
  budgetTotal := none
  acknowledged := false
  publicKey := fun _ => none
  durableRequest := fun _ _ _ _ _ => some sampleRequest
  approved := .inl (txt "5")

/-- The rest of the call on a store without runs. -/
def sampleAdmission : Played Store AdmissionFailure RunId :=
  (claimRun sampleJob >>= establishRun sampleJob).interpret
    (storeRespond sampleControllers sampleScript (txt "run-1")) .empty

/-- The sample run is admitted in steps. -/
theorem steps_sampleAdmission :
    ReflTransGen (AdmissionStep sampleControllers (Environment.any).answers) ⟨.empty, none⟩
      ⟨sampleAdmission.world, none⟩ := by
  have hrest : Runs (storeMachine sampleControllers (Environment.any).answers)
      (claimRun sampleJob >>= establishRun sampleJob) .empty sampleAdmission.outcome
      sampleAdmission.world :=
    @Process.runs_interpret _ _ _ _ _ (storeMachine sampleControllers (Environment.any).answers)
      (storeRespond sampleControllers sampleScript (txt "run-1"))
      (fun _ _ h => storeExecute_respond h) (claimRun sampleJob >>= establishRun sampleJob) .empty
      (by decide +kernel)
  have hlist : storeExecute sampleControllers (Environment.any).answers .empty .listRuns (.ok [])
      .empty := by
    refine ⟨rfl, fun ids hids => ?_⟩
    obtain rfl := Except.ok.inj hids
    exact ⟨.nil, fun id => by simp [Store.empty, RunDirectory.absent]⟩
  exact lock_run ⟨sampleJob, rfl⟩ (.step hlist hrest)

theorem at_most_one_active_sample :
    ∃ st id, ReflTransGen (AdmissionStep sampleControllers (Environment.any).answers)
        ⟨.empty, none⟩ st ∧
      ActiveRun (st.world id) ∧ OneActive st.world ∧
      ∀ st', ReflTransGen (AdmissionStep sampleControllers (Environment.any).answers) st st' →
        ∀ id p, ClosedRun (st.world id) p → ClosedRun (st'.world id) p := by
  have hplanned : (effective (sampleAdmission.world ⟨txt "run-1", by decide⟩).world.events
      (sampleAdmission.world ⟨txt "run-1", by decide⟩).world.snapshot).map
        (fun p => p.state.lifecycle) = some .planned := by decide +kernel
  obtain ⟨p, hp, hlifecycle⟩ := Option.map_eq_some_iff.mp hplanned
  refine ⟨_, ⟨txt "run-1", by decide⟩, steps_sampleAdmission, ⟨p, hp, ?_⟩,
    at_most_one_active steps_sampleAdmission⟩
  rw [hlifecycle]
  decide

end RunpodJobrunner
