import RunpodJobrunner.AdmissionSafety

/-!
# After a refused admission

What `active_run_ids` answers after a `run` that ended before the first event of
its run. The scan reads the runs with events as before, and a directory without
events makes it raise. So it answers as before exactly where the call ended before
the directory of its run was made, or found that directory there.
-/

namespace RunpodJobrunner

open Relation

/-! ## Reading a run -/

/-- The receipt of that projection can be made, and is not in the way. -/
def ReceiptReads (w : World) (p : Projection) : Prop :=
  receiptAccepted p.state p.eventSequence = true ∧
    ∀ r, w.receipt = some r → receiptAccepted r.state r.eventSequence = true ∧
      closeoutReceipt r.state r.eventSequence = closeoutReceipt p.state p.eventSequence

/-- The run reads back in that projection. -/
structure Healthy (w : World) (p : Projection) : Prop where
  readable : w.readable = true
  effective : effective w.events w.snapshot = some p
  receipt : p.state.lifecycle = .closed → ReceiptReads w p

section

variable {sc : Script} {w : World} {p : Projection} {answers : Answers}

/-- Reading the state of a readable run returns its effective projection. -/
theorem simulate_currentState :
    (simulate sc Check.any currentState w).outcome = .returned p ↔
      w.readable = true ∧ effective w.events w.snapshot = some p := by
  rw [simulate, currentState]
  cases hread : w.readable with
  | false => simp [Process.interpret, Script.respond, hread, orRaise]
  | true =>
    cases heff : effective w.events w.snapshot with
    | none => simp [Process.interpret, Script.respond, hread, orRaise, heff]
    | some q => simp [Process.interpret, Script.respond, hread, orRaise, heff]

/-- Reading the state changes nothing. -/
theorem simulate_currentState_world : (simulate sc Check.any currentState w).world = w := by
  rw [simulate, currentState]
  cases hread : w.readable with
  | false => simp [Process.interpret, Script.respond, hread, orRaise]
  | true =>
    cases heff : effective w.events w.snapshot with
    | none => simp [Process.interpret, Script.respond, hread, orRaise, heff]
    | some q => simp [Process.interpret, Script.respond, hread, orRaise, heff]

/-- The receipt is ensured exactly where it reads. -/
theorem simulate_ensureCloseoutReceipt :
    (simulate sc Check.any (ensureCloseoutReceipt p) w).outcome = .returned () ↔
      ReceiptReads w p := by
  rw [simulate, ensureCloseoutReceipt, ReceiptReads]
  cases hp : receiptAccepted p.state p.eventSequence with
  | false => simp [Process.interpret]
  | true =>
    cases hr : w.receipt with
    | none => simp [Process.interpret, Script.respond, orRaise, hr]
    | some r =>
      cases haccepted : receiptAccepted r.state r.eventSequence with
      | false => simp [Process.interpret, Script.respond, orRaise, hr, haccepted]
      | true =>
        by_cases hsame : closeoutReceipt r.state r.eventSequence =
          closeoutReceipt p.state p.eventSequence
        · simp [Process.interpret, Script.respond, orRaise, hr, haccepted, hsame]
        · simp [Process.interpret, Script.respond, orRaise, hr, haccepted, hsame]

/-- On a disk that serves every access, a status returns exactly where the run
reads back. -/
theorem simulate_readState :
    (simulate sc Check.any readState w).outcome = .returned p ↔ Healthy w p := by
  rw [simulate, readState, Process.interpret_bind]
  constructor
  · rintro ⟨q, hq, hrest⟩
    have hworld := @simulate_currentState_world sc w
    rw [simulate] at hworld
    rw [hworld] at hrest
    obtain ⟨hread, heffective⟩ := simulate_currentState.mp hq
    by_cases hclosed : q.state.lifecycle = .closed
    · rw [if_pos hclosed, Process.interpret_bind] at hrest
      obtain ⟨⟨⟩, hensured, hp⟩ := hrest
      cases hp
      exact ⟨hread, heffective, fun _ => simulate_ensureCloseoutReceipt.mp hensured⟩
    · rw [if_neg hclosed] at hrest
      cases hrest
      exact ⟨hread, heffective, fun h => absurd h hclosed⟩
  · intro h
    refine ⟨p, simulate_currentState.mpr ⟨h.readable, h.effective⟩, ?_⟩
    have hworld := @simulate_currentState_world sc w
    rw [simulate] at hworld
    rw [hworld]
    by_cases hclosed : p.state.lifecycle = .closed
    · rw [if_pos hclosed, Process.interpret_bind]
      exact ⟨(), simulate_ensureCloseoutReceipt.mpr (h.receipt hclosed), rfl⟩
    · rw [if_neg hclosed]
      rfl

/-! ## What keeps a run readable -/

/-- A healthy run stays so with the receipt of its projection. -/
theorem Healthy.receipted (h : Healthy w p) : Healthy { w with receipt := some p } p := by
  refine ⟨h.readable, h.effective, fun hclosed => ?_⟩
  obtain ⟨haccepted, -⟩ := h.receipt hclosed
  refine ⟨haccepted, fun r hr => ?_⟩
  cases hr
  exact ⟨haccepted, rfl⟩

/-- A status, served or not, leaves a run that reads back as it was. -/
theorem keeps_status (h : Healthy w p) :
    Keeps (machine answers) (fun w' => Healthy w' p) (fun _ w' => Healthy w' p)
      (fun _ w' => Healthy w' p) readState w := by
  rw [readState, currentState]
  simp only [Process.bind_assoc]
  refine keeps_readEvents h (fun _ => h) fun _ => ?_
  refine keeps_readSnapshot h (fun _ => h) ?_
  rw [h.effective]
  simp only [Process.pure_eq, Process.done_bind]
  split
  · refine keeps_ensureCloseoutReceipt h h.receipted (fun _ _ hw => hw) ?_
    exact fun w' hw _ => hw
  · exact h

/-- A plan of a run that reads back writes nothing. -/
theorem keeps_planned {ctl : Controller} {request : List (Text × Json)}
    {approved : Text ⊕ Decimal} (h : Healthy w p) (hrequest : w.request ≠ none) :
    Keeps (machine answers) (fun w' => Healthy w' p) (fun _ w' => Healthy w' p)
      (fun _ w' => Healthy w' p) (ctl.plan request approved) w := by
  rw [Controller.plan]
  split
  · exact h
  rw [createRun]
  refine keeps_readRequestFile h (fun _ => h) ?_
  cases hr : w.request with
  | none => exact absurd hr hrequest
  | some existing =>
    simp only
    split
    · refine keeps_readEvents h (fun _ => h) fun _ => ?_
      refine keeps_readSnapshot h (fun _ => h) ?_
      rw [h.effective]
      exact h
    · exact h

end

/-! ## Scanning the store -/

/-- `runs_root.iterdir()`, sorted. -/
def Lists (s : Store) (ids : List RunId) : Prop :=
  ids.Pairwise (fun i j => textLe i.val j.val = true ∧ i ≠ j) ∧
    ∀ id, id ∈ ids ↔ (s id).present = true

/-- A provider that is never asked. -/
def Script.unasked : Script where
  clock := fun _ => ⟨2026, 1, 1, 0, 0, 0, 0, none⟩
  find := fun _ => .error .foreign
  create := fun _ => .error .foreign
  get := fun _ => .error .foreign
  start := fun _ => .error .foreign
  delete := fun _ _ => .error .foreign
  spend := fun _ => .error .foreign

/-- `active_run_ids` returns those ids, on a disk that serves every access. -/
def Scans (ctl : RunId → Controller) (s : Store) (active : List RunId) : Prop :=
  ∃ ids, Lists s ids ∧
    ((scanRuns [] ids).interpret (storeRespond ctl .unasked []) s).outcome = .returned active

section

variable {ctl : RunId → Controller} {s s' : Store} {id : RunId} {active result : List RunId}
  {sc : Script} {runId : Text}

/-- The run is in the answer of the scan. -/
def RunDirectory.isActive (d : RunDirectory) : Bool :=
  (effective d.world.events d.world.snapshot).any fun p => p.state.lifecycle ≠ .closed

/-- `status` returns the projection of a healthy run. -/
theorem interpret_status {p : Projection} :
    ((callRun id .status).interpret (storeRespond ctl sc runId) s).outcome = .returned p ↔
      Healthy (s id).world p := by
  rw [← @simulate_readState sc]
  simp only [callRun, Process.interpret, storeRespond, Controller.perform]
  cases (simulate sc Check.any readState (s id).world).outcome with
  | returned q => simp [Process.interpret]
  | raised e => simp [Process.interpret]
  | died => simp [Process.interpret]

/-- `status` leaves every other run. -/
theorem interpret_status_world {id' : RunId} (h : id' ≠ id) :
    ((callRun id .status).interpret (storeRespond ctl sc runId) s).world id' = s id' := by
  simp only [callRun, Process.interpret, storeRespond, Controller.perform]
  cases (simulate sc Check.any readState (s id).world).outcome with
  | returned q => exact Store.put_ne h
  | raised e => exact Store.put_ne h
  | died => rfl

/-- The loop of the scan returns where every listed run reads back. -/
theorem interpret_scanRuns {ids : List RunId} (hids : ids.Nodup) :
    ((scanRuns active ids).interpret (storeRespond ctl sc runId) s).outcome = .returned result ↔
      (∀ id ∈ ids, ∃ p, Healthy (s id).world p) ∧
        result = active ++ ids.filter fun id => (s id).isActive := by
  induction ids generalizing active s with
  | nil => simp [scanRuns, Process.interpret, eq_comm]
  | cons id ids ih =>
    obtain ⟨hid, hids⟩ := List.nodup_cons.mp hids
    have hrest : ∀ id' ∈ ids,
        ((callRun id .status).interpret (storeRespond ctl sc runId) s).world id' = s id' :=
      fun id' h => interpret_status_world fun he => hid (he ▸ h)
    have hfilter := List.filter_congr fun id' h => congrArg RunDirectory.isActive (hrest id' h)
    have hhealthy : (∀ id' ∈ ids, ∃ p, Healthy
        (((callRun id .status).interpret (storeRespond ctl sc runId) s).world id').world p) ↔
          ∀ id' ∈ ids, ∃ p, Healthy (s id').world p :=
      forall₂_congr fun id' h => by rw [hrest id' h]
    rw [scanRuns, Process.interpret_bind]
    simp only [interpret_status, ih hids, hfilter, hhealthy, List.forall_mem_cons]
    constructor
    · rintro ⟨p, hp, hids, rfl⟩
      refine ⟨⟨⟨p, hp⟩, hids⟩, ?_⟩
      rw [List.filter_cons, RunDirectory.isActive, hp.effective]
      by_cases hclosed : p.state.lifecycle = .closed
      · simp [hclosed]
      · simp [hclosed]
    · rintro ⟨⟨⟨p, hp⟩, hids⟩, rfl⟩
      refine ⟨p, hp, hids, ?_⟩
      rw [List.filter_cons, RunDirectory.isActive, hp.effective]
      by_cases hclosed : p.state.lifecycle = .closed
      · simp [hclosed]
      · simp [hclosed]

/-- **The scan.** It returns where every run directory reads back. -/
theorem scans_iff : Scans ctl s active ↔
    ∃ ids, Lists s ids ∧ (∀ id, (s id).present = true → ∃ p, Healthy (s id).world p) ∧
      active = ids.filter fun id => (s id).isActive := by
  refine exists_congr fun ids => and_congr_right fun hlists => ?_
  have hnodup : ids.Nodup := hlists.1.imp fun h => h.2
  rw [interpret_scanRuns hnodup, List.nil_append]
  simp only [hlists.2]

end

/-! ## What the call keeps -/

/-- A command other than a call of a run, or one that `run` makes. -/
def StoreCommand.Tame : StoreCommand → Prop
  | .call _ .status | .call _ (.plan _ _) => True
  | .call _ _ => False
  | _ => True

/-- A command that makes no directory. -/
def StoreCommand.Looks : StoreCommand → Prop
  | .listRuns | .call _ .status | .newRunId | .reserve _ _ _ => True
  | _ => False

/-- Every run that read back reads back as it did. -/
def Preserves (s s' : Store) : Prop := ∀ id p, Healthy (s id).world p → Healthy (s' id).world p

section

variable {ctl : RunId → Controller} {answers : Answers} {s s' s'' : Store} {id : RunId}
  {active : List RunId} {job : Job} {o : Outcome AdmissionFailure RunId}

theorem Preserves.refl (s : Store) : Preserves s s := fun _ _ h => h

theorem Preserves.trans (h : Preserves s s') (h' : Preserves s' s'') : Preserves s s'' :=
  fun id p hp => h' id p (h id p hp)

/-- Changing one run preserves the others. -/
theorem Preserves.put {d : RunDirectory}
    (h : ∀ p, Healthy (s id).world p → Healthy d.world p) : Preserves s (s.put id d) := by
  intro id' p hp
  by_cases hid : id' = id
  · subst hid
    rw [Store.put_same]
    exact h p hp
  · rwa [Store.put_ne hid]

/-- A run without events does not read back. -/
theorem Healthy.events {w : World} {p : Projection} (h : Healthy w p) (hw : Consistent w) :
    w.events ≠ [] := by
  intro hnil
  have heffective := h.effective
  rw [hw.effective, hnil] at heffective
  cases heffective

/-- A tame call preserves the healthy runs. -/
theorem Called.preserves {call : Call} {o : Outcome Failure Projection} (hs : s.Sound)
    (htame : (StoreCommand.call id call).Tame) (h : Called ctl answers s id call o s') :
    Preserves s s' := by
  obtain ⟨w, hrun, rfl⟩ := h
  refine .put fun p hp => ?_
  have hkeeps : Keeps (machine answers) (fun w' => Healthy w' p) (fun _ w' => Healthy w' p)
      (fun _ w' => Healthy w' p) ((ctl id).perform call) (s id).world := by
    cases call with
    | status => exact keeps_status hp
    | plan request approved =>
      refine keeps_planned hp fun hnone => ?_
      exact hp.events (hs.consistent id) ((hs.consistent id).request hnone)
    | _ => exact htame.elim
  exact (Keeps.sound hrun hkeeps hp).1

/-- A death while secrets are made preserves the healthy runs. -/
theorem CutMake.preserves (h : CutMake s id s') : Preserves s s' := by
  rcases h with rfl | rfl
  · exact .refl _
  · exact .put fun p hp => hp

/-- A death while a secret is created preserves the healthy runs. -/
theorem CutCreate.preserves {secret : Secret} (h : CutCreate s id secret s') :
    Preserves s s' := by
  rcases h with rfl | ⟨text, rfl⟩
  · exact .refl _
  · exact .put fun p hp => hp

/-- A tame command preserves the healthy runs. -/
theorem storeExecute_preserves {c : StoreCommand} {a : StoreAnswer c} (hs : s.Sound)
    (hc : c.Tame) (h : storeExecute ctl answers s c a s') : Preserves s s' := by
  cases c with
  | listRuns | readSecret _ _ =>
    obtain ⟨rfl, -⟩ := h
    exact .refl _
  | newRunId | reserve _ _ _ | generate _ | now | launch _ =>
    obtain rfl := h
    exact .refl _
  | call id call => exact Called.preserves hs hc h
  | makeSecrets id =>
    rcases h with ⟨-, rfl⟩ | ⟨-, h⟩
    · exact .put fun p hp => hp
    · exact h.preserves
  | createSecret id secret text =>
    rcases h with ⟨-, rfl⟩ | ⟨-, h⟩
    · exact .put fun p hp => hp
    · exact h.preserves

/-- A death in a tame command preserves the healthy runs. -/
theorem storeDieIn_preserves {c : StoreCommand} (hs : s.Sound) (hc : c.Tame)
    (h : storeDieIn ctl answers s c s') : Preserves s s' := by
  cases c with
  | listRuns | readSecret _ _ | newRunId | reserve _ _ _ | generate _ | now | launch _ =>
    obtain rfl := h
    exact .refl _
  | call id call => exact Called.preserves hs hc h
  | makeSecrets id => exact CutMake.preserves h
  | createSecret id secret text => exact CutCreate.preserves h

/-- What a process of such commands leaves. -/
structure Kept (ctl : RunId → Controller) (answers : Answers) (s s' : Store) : Prop where
  sound : s'.Sound
  moves : Moves ctl (.open answers) s s'
  preserves : Preserves s s'

/-- A process of tame commands keeps the healthy runs, however it ends. -/
theorem kept_of_runs {α : Type} {p : Admission α} {o : Outcome AdmissionFailure α}
    (hp : p.Only StoreCommand.Tame) (hs : s.Sound)
    (h : Runs (storeMachine ctl answers) p s o s') : Kept ctl answers s s' := by
  have hkeeps := hp.keeps (M := storeMachine ctl answers) (I := Kept ctl answers s)
    (fun v c a v' hc hv hexec => ?_) (fun v c v' hc hv hdie => ?_) ⟨hs, .refl _, .refl _⟩
  · exact (Keeps.sound h hkeeps ⟨hs, .refl _, .refl _⟩).1
  · obtain ⟨hmoves, hsound, -⟩ := storeExecute_moves hv.sound hexec
    exact ⟨hsound, hv.moves.trans hmoves,
      hv.preserves.trans (storeExecute_preserves hv.sound hc hexec)⟩
  · obtain ⟨hmoves, hsound, -⟩ := storeDieIn_moves hv.sound hdie
    exact ⟨hsound, hv.moves.trans hmoves,
      hv.preserves.trans (storeDieIn_preserves hv.sound hc hdie)⟩

/-! ## The parts of the call -/

/-- What makes no directory is tame. -/
theorem StoreCommand.Looks.tame {c : StoreCommand} (h : c.Looks) : c.Tame := by
  cases c with
  | call id call => cases call <;> first | exact h | trivial
  | _ => first | exact h | trivial

/-- What `establish_run` asks is tame. -/
theorem StoreCommand.Establishes.tame {c : StoreCommand} (h : c.Establishes id) : c.Tame := by
  cases c with
  | call id call => cases call <;> first | exact h | trivial
  | _ => first | exact h | trivial

/-- The scan makes no directory. -/
theorem only_scanRuns {active ids : List RunId} :
    (scanRuns active ids).Only StoreCommand.Looks := by
  induction ids generalizing active with
  | nil => trivial
  | cons id ids ih =>
    refine ⟨trivial, fun a => ?_⟩
    cases a with
    | error e => trivial
    | ok p => exact ih

/-- Choosing a run makes no directory. -/
theorem only_chooseRun (job : Job) : (chooseRun job).Only StoreCommand.Looks := by
  have hscan : activeRunIds.Only StoreCommand.Looks :=
    only_perform trivial fun a => (only_orFail a).bind fun ids => only_scanRuns
  refine hscan.bind fun active => ?_
  split
  · trivial
  · exact only_claimRun job trivial fun _ _ _ => trivial

/-- `run` asks tame commands only. -/
theorem only_runJob (job : Job) : (runJob job).Only StoreCommand.Tame :=
  ((only_chooseRun job).mono fun _ => StoreCommand.Looks.tame).bind fun id =>
    (only_establishRun job id).mono fun _ => StoreCommand.Establishes.tame

/-- No directory is made. -/
def MakesNone (s s' : Store) : Prop := ∀ id, (s' id).present = true → (s id).present = true

/-- Changing what is in a directory makes no directory. -/
theorem MakesNone.put {d : RunDirectory} (h : d.present = (s id).present) :
    MakesNone s (s.put id d) := by
  intro id' hid'
  by_cases hid : id' = id
  · subst hid
    rwa [Store.put_same, h] at hid'
  · rwa [Store.put_ne hid] at hid'

/-- Choosing the run makes no directory. -/
theorem makesNone_chooseRun {o : Outcome AdmissionFailure RunId}
    (h : Runs (storeMachine ctl answers) (chooseRun job) s o s') : MakesNone s s' := by
  have hcalled : ∀ {v v' : Store} {id : RunId} {o : Outcome Failure Projection},
      Called ctl answers v id .status o v' → MakesNone v v' := by
    rintro v v' id o ⟨w, -, rfl⟩
    exact .put (by simp [RunDirectory.called, Call.makesDirectory])
  have hkeeps := (only_chooseRun job).keeps (M := storeMachine ctl answers) (I := MakesNone s)
    (fun v c a v' hc hv hexec => ?_) (fun v c v' hc hv hdie => ?_) fun _ h => h
  · exact (Keeps.sound h hkeeps fun _ h => h).1
  · cases c with
    | listRuns =>
      obtain ⟨rfl, -⟩ := hexec
      exact hv
    | newRunId | reserve _ _ _ =>
      obtain rfl := hexec
      exact hv
    | call id call =>
      cases call with
      | status => exact fun id hid => hv id (hcalled hexec id hid)
      | _ => exact hc.elim
    | _ => exact hc.elim
  · cases c with
    | listRuns | newRunId | reserve _ _ _ =>
      obtain rfl := hdie
      exact hv
    | call id call =>
      cases call with
      | status => exact fun id hid => hv id (hcalled hdie id hid)
      | _ => exact hc.elim
    | _ => exact hc.elim

/-- Making the run changes no other directory. -/
theorem others_establishRun {o : Outcome AdmissionFailure RunId}
    (h : Runs (storeMachine ctl answers) (establishRun job id) s o s') :
    ∀ id', id' ≠ id → s' id' = s id' := by
  have hput : ∀ {v v' : Store} {d : RunDirectory}, (∀ id', id' ≠ id → v id' = s id') →
      v' = v.put id d → ∀ id', id' ≠ id → v' id' = s id' := by
    rintro v v' d hv rfl id' hid'
    rw [Store.put_ne hid', hv id' hid']
  have hmake : ∀ {v v' : Store}, (∀ id', id' ≠ id → v id' = s id') → CutMake v id v' →
      ∀ id', id' ≠ id → v' id' = s id' := by
    rintro v v' hv (rfl | h)
    · exact hv
    · exact hput hv h
  have hcreate : ∀ {v v' : Store} {secret : Secret}, (∀ id', id' ≠ id → v id' = s id') →
      CutCreate v id secret v' → ∀ id', id' ≠ id → v' id' = s id' := by
    rintro v v' secret hv (rfl | ⟨text, h⟩)
    · exact hv
    · exact hput hv h
  -- what is asked is about this run, whether it answers or the process dies in it
  have hkeeps := (only_establishRun job id).keeps (M := storeMachine ctl answers)
    (I := fun v => ∀ id', id' ≠ id → v id' = s id')
    (fun v c a v' hc hv hexec => ?_) (fun v c v' hc hv hdie => ?_) fun _ _ => rfl
  · exact (Keeps.sound h hkeeps fun _ _ => rfl).1
  · cases c with
    | generate _ | now | launch _ =>
      obtain rfl := hexec
      exact hv
    | readSecret _ _ =>
      obtain ⟨rfl, -⟩ := hexec
      exact hv
    | makeSecrets id' =>
      obtain rfl : id' = id := hc
      rcases hexec with ⟨-, h⟩ | ⟨-, h⟩
      · exact hput hv h
      · exact hmake hv h
    | createSecret id' secret text =>
      obtain rfl : id' = id := hc
      rcases hexec with ⟨-, h⟩ | ⟨-, h⟩
      · exact hput hv h
      · exact hcreate hv h
    | call id' call =>
      cases call with
      | plan request approved =>
        obtain rfl : id' = id := hc
        obtain ⟨w, -, h⟩ := hexec
        exact hput hv h
      | _ => exact hc.elim
    | _ => exact hc.elim
  · cases c with
    | generate _ | now | launch _ | readSecret _ _ =>
      obtain rfl := hdie
      exact hv
    | makeSecrets id' =>
      obtain rfl : id' = id := hc
      exact hmake hv hdie
    | createSecret id' secret text =>
      obtain rfl : id' = id := hc
      exact hcreate hv hdie
    | call id' call =>
      cases call with
      | plan request approved =>
        obtain rfl : id' = id := hc
        obtain ⟨w, -, h⟩ := hdie
        exact hput hv h
      | _ => exact hc.elim
    | _ => exact hc.elim

/-- Making the run starts with its directory, and ends there when it cannot be made. -/
theorem establishRun_eq (job : Job) (id : RunId) :
    ∃ k : Except Unit Unit → Admission RunId, establishRun job id = .call (.makeSecrets id) k ∧
      k (.error ()) = .raise .outside := ⟨_, rfl, rfl⟩

/-- Where the run has no directory, making it leaves one, or the store as it was. -/
theorem makesNone_establishRun {o : Outcome AdmissionFailure RunId} (hs : s.Sound)
    (habsent : (s id).present = false)
    (h : Runs (storeMachine ctl answers) (establishRun job id) s o s') (hnone : MakesNone s s') :
    s' = s := by
  obtain ⟨k, hk, hfail⟩ := establishRun_eq job id
  have htame := (only_establishRun job id).mono fun _ => StoreCommand.Establishes.tame
  rw [hk] at h htame
  have hnot : (s' id).present ≠ true := fun hp => by simpa [habsent] using hnone id hp
  -- a directory that was made stays
  have hmade : ∀ a, Runs (storeMachine ctl answers) (k a) (s.put id { s id with present := true })
      o s' → False := by
    intro a hrun
    have hsound : (s.put id { s id with present := true }).Sound := hs.put (hs.consistent id) nofun
    have hkept := kept_of_runs (htame.2 a) hsound hrun
    exact hnot (hkept.moves.present id (by rw [Store.put_same]))
  cases h with
  | halt => rfl
  | die hdie =>
    rcases hdie with rfl | rfl
    · rfl
    · exact absurd (by rw [Store.put_same]) hnot
  | step hexec hrun =>
    rcases hexec with ⟨rfl, rfl⟩ | ⟨rfl, rfl | rfl⟩
    · exact (hmade _ hrun).elim
    · rw [hfail] at hrun
      cases hrun <;> rfl
    · exact (hmade _ hrun).elim

/-- The call ends before the directory of its run is made, or finds it there. -/
def EndsBefore (ctl : RunId → Controller) (answers : Answers) (job : Job) (s : Store)
    (o : Outcome AdmissionFailure RunId) (s' : Store) : Prop :=
  (∃ o', Runs (storeMachine ctl answers) (chooseRun job) s o' s') ∨
    ∃ id v, Runs (storeMachine ctl answers) (chooseRun job) s (.returned id) v ∧
      (s id).present = true ∧ Runs (storeMachine ctl answers) (establishRun job id) v o s'

/-- A call makes no directory exactly where it ends before that. -/
theorem makesNone_iff (hs : s.Sound) (h : Runs (storeMachine ctl answers) (runJob job) s o s') :
    MakesNone s s' ↔ EndsBefore ctl answers job s o s' := by
  constructor
  · intro hnone
    rcases runs_bind h with ⟨o', -, hchoose, -⟩ | ⟨id, v, hchoose, hestablish⟩
    · exact .inl ⟨o', hchoose⟩
    have hkept := kept_of_runs ((only_chooseRun job).mono fun _ => StoreCommand.Looks.tame) hs hchoose
    cases hpresent : (s id).present with
    | true => exact .inr ⟨id, v, hchoose, hpresent, hestablish⟩
    | false =>
      have habsent : (v id).present = false := by
        by_contra hv
        simpa [hpresent] using makesNone_chooseRun hchoose id (by simpa using hv)
      obtain rfl := makesNone_establishRun hkept.sound habsent hestablish fun id' hid' =>
        hkept.moves.present id' (hnone id' hid')
      exact .inl ⟨_, hchoose⟩
  · rintro (⟨o', hchoose⟩ | ⟨id, v, hchoose, hpresent, hestablish⟩)
    · exact makesNone_chooseRun hchoose
    · intro id' hid'
      by_cases hid : id' = id
      · rwa [hid]
      · rw [others_establishRun hestablish id' hid] at hid'
        exact makesNone_chooseRun hchoose id' hid'

/-! ## The scan after the call -/

/-- Where no directory was made, the scan answers as it did. -/
theorem scans_of_makesNone (hkept : Kept ctl answers s s') (hnone : MakesNone s s')
    (h : Scans ctl s active) : Scans ctl s' active := by
  obtain ⟨ids, hlists, hhealthy, rfl⟩ := scans_iff.mp h
  refine scans_iff.mpr ⟨ids, ⟨hlists.1, fun id => ?_⟩, fun id hid => ?_, ?_⟩
  · rw [hlists.2]
    exact ⟨hkept.moves.present id, hnone id⟩
  · obtain ⟨p, hp⟩ := hhealthy id (hnone id hid)
    exact ⟨p, hkept.preserves id p hp⟩
  · refine List.filter_congr fun id hid => ?_
    obtain ⟨p, hp⟩ := hhealthy id ((hlists.2 id).mp hid)
    rw [RunDirectory.isActive, RunDirectory.isActive, hp.effective,
      (hkept.preserves id p hp).effective]

/-- A directory that was made without an event makes the scan raise. -/
theorem makesNone_of_scans (hs : s.Sound) (hs' : s'.Sound)
    (hevents : ∀ id, (s' id).world.events = (s id).world.events) (h : Scans ctl s' active) :
    MakesNone s s' := by
  obtain ⟨ids, -, hhealthy, -⟩ := scans_iff.mp h
  intro id hid
  by_contra habsent
  obtain ⟨p, hp⟩ := hhealthy id hid
  refine hp.events (hs'.consistent id) ?_
  rw [hevents, hs.absent id (by simpa using habsent)]

/-- **After a call without an event.** However a `run` ends before an event is
committed, the scan answers as it did exactly where the call ends before the
directory of its run is made, or finds it there. -/
theorem scan_unchanged
    (hreach : ReflTransGen (AdmissionStep ctl answers) ⟨.empty, none⟩ ⟨s, none⟩)
    (hscan : Scans ctl s active) (hrun : Runs (storeMachine ctl answers) (runJob job) s o s')
    (hevents : ∀ id, (s' id).world.events = (s id).world.events) :
    Scans ctl s' active ↔ EndsBefore ctl answers job s o s' := by
  have hs : s.Sound := (admitted_of_steps hreach).sound
  have hkept := kept_of_runs (only_runJob job) hs hrun
  rw [← makesNone_iff hs hrun]
  exact ⟨makesNone_of_scans hs hkept.sound hevents, fun hnone => scans_of_makesNone hkept hnone hscan⟩

end

/-! ## A process that dies after its first directory -/

/-- The id of the sample run. -/
def sampleRunId : RunId := ⟨txt "run-1", isRunId_run1⟩

/-- A store with the directory of one run, and nothing else in it. -/
def abandonedStore : Store := Store.empty.put sampleRunId { RunDirectory.absent with present := true }

theorem lists_empty : Lists .empty [] :=
  ⟨.nil, fun id => by simp [Store.empty, RunDirectory.absent]⟩

theorem scans_empty : Scans sampleControllers .empty [] :=
  ⟨[], lists_empty, rfl⟩

/-- How a call chooses its run once it has listed the others. -/
def afterListing (job : Job) (ids : List RunId) : Admission RunId := do
  let active ← scanRuns [] ids
  if active ≠ [] then .raise (.active active) else claimRun job

/-- Listing the runs, and then choosing among them. -/
theorem runs_chooseRun {ctl : RunId → Controller} {answers : Answers} {job : Job} {ids : List RunId}
    {s s' : Store} {o : Outcome AdmissionFailure RunId} (hlists : Lists s ids)
    (h : Runs (storeMachine ctl answers) (afterListing job ids) s o s') :
    Runs (storeMachine ctl answers) (chooseRun job) s o s' := by
  have hlist : storeExecute ctl answers s .listRuns (.ok ids) s := by
    refine ⟨rfl, fun ids' hids' => ?_⟩
    obtain rfl := Except.ok.inj hids'
    exact hlists
  exact .step hlist h

/-- On a store without runs the call goes on to make the run its factory names. -/
theorem runs_runJob_empty {o : Outcome AdmissionFailure RunId} {s' : Store}
    (h : Runs (storeMachine sampleControllers (Environment.any).answers)
      (establishRun sampleJob sampleRunId) .empty o s') :
    Runs (storeMachine sampleControllers (Environment.any).answers) (runJob sampleJob) .empty o
      s' := by
  have hnew : storeExecute sampleControllers (Environment.any).answers .empty .newRunId
      (.ok (txt "run-1")) .empty := rfl
  refine (runs_chooseRun lists_empty (.step (a := (.ok (txt "run-1") : Except Unit Text))
    hnew ?_)).bind h
  change Runs _ (if h : isRunId (txt "run-1") = true then pure ⟨txt "run-1", h⟩
    else .raise .invalidRunId : Admission RunId) _ _ _
  rw [dif_pos isRunId_run1]
  exact .done _ _

/-- A process that dies right after it has made the directory of its run. -/
theorem runs_abandoned :
    Runs (storeMachine sampleControllers (Environment.any).answers) (runJob sampleJob) .empty .died
      abandonedStore := by
  have hmake : storeExecute sampleControllers (Environment.any).answers .empty
      (.makeSecrets sampleRunId) (.ok ()) abandonedStore := .inl ⟨rfl, rfl⟩
  exact runs_runJob_empty (.step hmake (.halt _ _))

/-- A process that dies there leaves a store whose scan always raises. -/
theorem scan_disabled :
    Scans sampleControllers .empty [] ∧
      Runs (storeMachine sampleControllers (Environment.any).answers) (runJob sampleJob) .empty
        .died abandonedStore ∧
      (∀ id, (abandonedStore id).world.events = (Store.empty id).world.events) ∧
      ∀ active, ¬Scans sampleControllers abandonedStore active := by
  have hevents : ∀ id, (abandonedStore id).world.events = (Store.empty id).world.events := by
    intro id
    by_cases hid : id = sampleRunId
    · subst hid
      rw [abandonedStore, Store.put_same]
      rfl
    · rw [abandonedStore, Store.put_ne hid]
  refine ⟨scans_empty, runs_abandoned, hevents, fun active hscan => ?_⟩
  have hkept := kept_of_runs (only_runJob sampleJob) Store.sound_empty runs_abandoned
  have hnone := makesNone_of_scans Store.sound_empty hkept.sound hevents hscan
  have hmade : (abandonedStore sampleRunId).present = true := by
    rw [abandonedStore, Store.put_same]
  cases hnone sampleRunId hmade

/-! ## A run refused beside a closed one -/

/-- The call plans the run. -/
def Call.isPlan : Call → Bool
  | .plan _ _ => true
  | _ => false

/-- Play calls of a planned run, in order. -/
def playOutside (ctl : RunId → Controller) (sc : Script) (id : RunId) :
    List Call → Store → Store × Bool
  | [], s => (s, true)
  | call :: calls, s =>
    let played := simulate sc Check.any ((ctl id).perform call) (s id).world
    let rest := playOutside ctl sc id calls (s.put id ((s id).called call played.world))
    (rest.1, !call.isPlan && played.allowed && rest.2)

section

variable {ctl : RunId → Controller} {sc : Script} {s : Store} {id : RunId} {calls : List Call}

/-- Calls that are played are made by other processes. -/
theorem steps_playOutside (h : (playOutside ctl sc id calls s).2 = true) :
    ReflTransGen (AdmissionStep ctl (Environment.any).answers) ⟨s, none⟩
      ⟨(playOutside ctl sc id calls s).1, none⟩ := by
  induction calls generalizing s with
  | nil => exact .refl
  | cons call calls ih =>
    obtain ⟨hcall, hrest⟩ := Bool.and_eq_true_iff.mp h
    obtain ⟨hplan, hallowed⟩ := Bool.and_eq_true_iff.mp hcall
    refine .head (.outside ⟨id, call, _, fun request approved he => ?_, _,
      runs_simulate hallowed, rfl⟩)
      (ih hrest)
    rw [he] at hplan
    cases hplan

/-- They leave the other directories alone. -/
theorem playOutside_ne {id' : RunId} (h : id' ≠ id) :
    (playOutside ctl sc id calls s).1 id' = s id' := by
  induction calls generalizing s with
  | nil => rfl
  | cons call calls ih => exact ih.trans (Store.put_ne h)

end

/-- The sample run, made on a store without runs. -/
def plannedStore : Played Store AdmissionFailure RunId :=
  (establishRun sampleJob sampleRunId).interpret (storeRespond sampleControllers sampleScript [])
    .empty

/-- The store once that run is stopped and closed. -/
def closedStore : Store × Bool :=
  playOutside sampleControllers sampleScript sampleRunId sampleCalls.tail plannedStore.world

/-- A budget scope without a total. -/
def unpairedJob : Job := { sampleJob with budgetScope := some (txt "team") }

/-- A call for that job, after it has listed the closed run. -/
def refusedRun : Played Store AdmissionFailure RunId :=
  (afterListing unpairedJob [sampleRunId]).interpret
    (storeRespond sampleControllers sampleScript (txt "run-2")) closedStore.1

/-- The sample job is established in the empty store. -/
theorem runs_plannedStore :
    Runs (storeMachine sampleControllers (Environment.any).answers)
      (establishRun sampleJob sampleRunId) .empty plannedStore.outcome plannedStore.world :=
  @Process.runs_interpret _ _ _ _ _ (storeMachine sampleControllers (Environment.any).answers)
    (storeRespond sampleControllers sampleScript []) (fun _ _ h => storeExecute_respond h)
    (establishRun sampleJob sampleRunId) .empty (by decide +kernel)

/-- The sample run is driven to its end in steps. -/
theorem steps_closedStore :
    ReflTransGen (AdmissionStep sampleControllers (Environment.any).answers) ⟨.empty, none⟩
      ⟨closedStore.1, none⟩ :=
  (lock_run ⟨sampleJob, rfl⟩ (runs_runJob_empty runs_plannedStore)).trans
    (steps_playOutside (by decide +kernel))

/-- The store holds that run, and no other. -/
theorem lists_closedStore : Lists closedStore.1 [sampleRunId] := by
  refine ⟨List.pairwise_singleton .., fun id => ?_⟩
  rw [List.mem_singleton]
  constructor
  · rintro rfl
    decide +kernel
  · intro hpresent
    by_contra hid
    rw [closedStore, playOutside_ne hid, others_establishRun runs_plannedStore id hid] at hpresent
    cases hpresent

/-- A job with one half of the budget pair is refused after the scan. -/
theorem runs_refusedRun :
    Runs (storeMachine sampleControllers (Environment.any).answers) (chooseRun unpairedJob)
      closedStore.1 (.raised .budgetPair) refusedRun.world := by
  have hplayed : refusedRun.allowed = true ∧ refusedRun.outcome = .raised .budgetPair := by
    decide +kernel
  rw [← hplayed.2]
  exact runs_chooseRun lists_closedStore (@Process.runs_interpret _ _ _ _ _
    (storeMachine sampleControllers (Environment.any).answers)
    (storeRespond sampleControllers sampleScript (txt "run-2"))
    (fun _ _ h => storeExecute_respond h) _ _ hplayed.1)

/-- A run that is refused for its budget, beside one that is closed, changes nothing. -/
theorem scan_unchanged_sample :
    (closedStore.1 sampleRunId).present = true ∧
      (Scans sampleControllers refusedRun.world [] ↔
        EndsBefore sampleControllers (Environment.any).answers unpairedJob closedStore.1
          (.raised .budgetPair) refusedRun.world) := by
  have hscan : ((scanRuns [] [sampleRunId]).interpret (storeRespond sampleControllers .unasked [])
      closedStore.1).outcome = .returned [] := by decide +kernel
  have hclosed : (refusedRun.world sampleRunId).world.events =
      (closedStore.1 sampleRunId).world.events := by decide +kernel
  refine ⟨(lists_closedStore.2 _).mp List.mem_cons_self, scan_unchanged steps_closedStore
    ⟨_, lists_closedStore, hscan⟩ (.bind_raised runs_refusedRun) fun id => ?_⟩
  by_cases hid : id = sampleRunId
  · rw [hid, hclosed]
  -- no other run has a directory, before or after
  have hs := (admitted_of_steps steps_closedStore).sound
  have hkept := kept_of_runs ((only_chooseRun unpairedJob).mono fun _ => StoreCommand.Looks.tame) hs
    runs_refusedRun
  have habsent : (closedStore.1 id).present = false := by
    by_contra hpresent
    exact hid (List.mem_singleton.mp ((lists_closedStore.2 id).mpr (by simpa using hpresent)))
  have habsent' : (refusedRun.world id).present = false := by
    by_contra hpresent
    rw [makesNone_chooseRun runs_refusedRun id (by simpa using hpresent)] at habsent
    cases habsent
  rw [hs.absent id habsent, hkept.sound.absent id habsent']

end RunpodJobrunner
