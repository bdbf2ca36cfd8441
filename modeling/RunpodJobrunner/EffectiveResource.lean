import RunpodJobrunner.CloseoutProgress

/-!
# The executor's resource

The engine reads the effective state, the executor reads `state.json`. A commit
that ends between its append and the replacement of `state.json` leaves that file
behind the journal, and nothing repairs it before the workload: where two of them
hid the resource, the executor cannot be started again. In the runs where no such
commit of a running or recovering state is left behind, the executor works on the
resource the engine has read.
-/

namespace RunpodJobrunner

/-- `_resource_id`: the id `state.json` has, or nothing where it raises. -/
def resourceIdOf (snapshot : Option Projection) : Option Text :=
  match snapshot with
  | none => none
  | some p =>
    match p.state.resourceId with
    | some (c :: cs) => some (c :: cs)
    | _ => none

/-- The resource of a projection is found by its id. -/
theorem resourceIdOf_some {p : Projection} {id : Text} (hid : p.state.resourceId = some id)
    (hne : id ≠ []) : resourceIdOf (some p) = some id := by
  cases id with
  | nil => exact absurd rfl hne
  | cons c cs => simp [resourceIdOf, hid]

/-- A call ended between the append of a running or recovering state and the
replacement of `state.json`, which has another resource, or none. -/
def CutBehind (w w' : World) : Prop :=
  ∃ e, w'.events.head? = some e ∧ w.events.length < w'.events.length ∧
    (e.projection.state.lifecycle = .running ∨ e.projection.state.lifecycle = .recovering) ∧
    w'.snapshot ≠ some e.projection ∧ resourceIdOf w'.snapshot ≠ e.projection.state.resourceId

variable {c : Conduct} {ctl : Controller} {answers : Answers} {w w' : World}

/-! ## The resource of a running run -/

/-- A state whose request is executed has a resource, when the provider names its
resources. -/
structure Resourced (w : World) : Prop where
  named : ∀ e ∈ w.trace, e.Named
  resource : ∀ s, w.current = some s → Executes s → ∃ id, s.resourceId = some id ∧ id ≠ []

/-- The empty world has no run to resource. -/
theorem resourced_empty : Resourced .empty := ⟨fun _ he => (by cases he), fun _ hs => by cases hs⟩

/-- An execution only goes on in a recovery that may dispatch the workload. -/
theorem executes_iff_of_recovering {s : RunState} (h : s.lifecycle = .recovering) :
    Executes s ↔ recoveryMustNotDispatchWorkload s = false := by
  refine ⟨fun hex => ?_, fun hmust => .inr ⟨h, hmust⟩⟩
  rcases hex with hrunning | ⟨-, hmust⟩
  · rw [h] at hrunning
    cases hrunning
  · exact hmust

/-- A commit makes the run running with a resource the provider has just shown, or
records the result of a running run. -/
theorem Commit.executes_cases {kind : Text} {s' : RunState}
    (h : Commit ctl (.driven answers c) w kind s') (hex : Executes s') :
    (∃ r, s'.resource = some (.projected r) ∧ ∃ e ∈ w.trace, e.Named → r.id ≠ []) ∨
      ∃ s, w.current = some s ∧ Executes s ∧ s'.resource = s.resource := by
  have hother : ∀ {P : Prop}, s'.lifecycle ≠ .running → s'.lifecycle ≠ .recovering → P := by
    intro P hrunning hrecovering
    rcases hex with h | ⟨h, -⟩
    · exact absurd h hrunning
    · exact absurd h hrecovering
  cases h with
  | planned _ _ _ _ => exact hother (by simp) (by simp)
  | workloadTerminal hc hissue hnone _ =>
    obtain ⟨state, hstate, hwork⟩ := hissue
    obtain rfl := Option.some.inj hstate
    rcases hwork with hrunning | hdecided
    · exact .inr ⟨_, hc, .inl hrunning, rfl⟩
    · exact absurd hnone hdecided
  | dispositionRecorded _ _ _ _ | stopRequested _ _ _ => exact hother (by simp) (by simp)
  | intended _ _ => exact hother (by simp) (by simp)
  | duplicates _ _ | findRejected _ _ | createRejected _ _ | getRejected _ _ | startRejected _ _
  | missing _ _ => exact hother (by simp) (by simp)
  | dispatched hp _ _ | createFailed hp _ _ | visibilityPending hp _ _ =>
    exact hother (by simp [hp.lifecycle]) (by simp [hp.lifecycle])
  | found _ _ | created _ _ => exact hother (by simp) (by simp)
  | visibilityExhausted _ _ _ =>
    -- a recovery for this reason does not dispatch the workload
    rw [executes_iff_of_recovering (by simp)] at hex
    simp [recoveryMustNotDispatchWorkload] at hex
  | @observedRunning s op resource observed rest _ ht =>
    refine .inl ⟨observed, rfl, .get resource.id (some (.ok (some observed))), ?_, id⟩
    rw [ht]
    exact List.mem_cons_self
  | startFailed hs _ _ => exact hother (by simp [hs.lifecycle]) (by simp [hs.lifecycle])
  | @started s op resource observed started rest _ _ _ _ ht =>
    refine .inl ⟨started, rfl, .start resource.id op.id (some (.ok started)), ?_, id⟩
    rw [ht]
    exact List.mem_cons_self
  | adoptRejected hu _ _ | adoptDuplicates hu _ | adopted hu _ | notDispatched hu _
  | deadlinePending hu _ | absenceObserved hu _ _ _ _ _ | absencePending hu _
  | absenceConfirmed hu _ _ _ _ _ _ _ _ _ =>
    exact hother (by simp [hu.lifecycle]) (by simp [hu.lifecycle])
  | nothingPending hd _ _ | deleteFailed hd _ _ | deleted hd _ _ _ _ _ _ | absent hd _ _ _
  | deletionPending hd _ _ | spendObserved hd _ _ _ _ _ _ _ =>
    exact hother (by simp [hd.lifecycle]) (by simp [hd.lifecycle])
  | closed _ _ _ _ _ _ _ => exact hother (by simp) (by simp)

/-- A commit of a run that executes has a named resource. -/
theorem Resourced.commit {kind : Text} {s' : RunState} (h : Resourced w)
    (hc : Commit ctl (.driven answers c) w kind s') (hex : Executes s') :
    ∃ id, s'.resourceId = some id ∧ id ≠ [] := by
  rcases hc.executes_cases hex with ⟨r, hr, e, he, hid⟩ | ⟨s, hcur, hs, hr⟩
  · exact ⟨r.id, by simp [RunState.resourceId, hr, Resource.id], hid (h.named e he)⟩
  · obtain ⟨id, hid, hne⟩ := h.resource s hcur hs
    exact ⟨id, by rw [← hid, RunState.resourceId, RunState.resourceId, hr], hne⟩

/-- A step leaves runs that execute with a named resource. -/
theorem Step.resourced (hnamed : ∀ w e, answers w e → e.Named)
    (hstep : Step ctl (.driven answers c) w w') (h : Resourced w) : Resourced w' := by
  cases hstep with
  | @saw e hallow _ =>
    refine ⟨fun e' he => ?_, h.resource⟩
    rcases List.mem_cons.mp he with rfl | hold
    · cases e' with
      | find op a | create r a | get id a | start id op a | delete id op a | spend id a =>
        cases a with
        | none => trivial
        | some a => exact hnamed w _ hallow
      | clock t | commit e => trivial
    · exact h.named e' hold
  | @commit kind s' _ hc _ =>
    refine ⟨fun e he => ?_, fun s hs hex => ?_⟩
    · rcases List.mem_cons.mp he with rfl | hold
      · trivial
      · exact h.named e hold
    · obtain rfl : s' = s := by simpa using hs
      exact h.commit hc hex
  | corrupt | request _ _ | snapshot _ | receipt _ _ => exact ⟨h.named, h.resource⟩

/-! ## What `state.json` shows -/

/-- `state.json` shows the resource of a run whose request may be executed. -/
def Shown (w : World) : Prop :=
  ∀ s, w.current = some s → Executes s → ∃ id, s.resourceId = some id ∧
    resourceIdOf w.snapshot = some id

/-- During a call from `w₀`: the file shows the resource, unless this call has
appended the state and not replaced the file yet. -/
structure ShownSince (w₀ w : World) : Prop extends Resourced w where
  longer : w₀.events.length ≤ w.events.length
  shown : Shown w ∨ CutBehind w₀ w

/-- A commit leaves what was shown since an earlier world. -/
theorem ShownSince.append {w₀ : World} {kind : Text} {s' : RunState} {n : ℕ}
    (h : ShownSince w₀ w) (hc : Commit ctl (.driven answers c) w kind s') :
    Shown (w.append ⟨kind, ⟨n, s'⟩⟩) ∨ CutBehind w₀ (w.append ⟨kind, ⟨n, s'⟩⟩) := by
  by_cases hex : Executes s'
  · obtain ⟨id, hid, hne⟩ := h.toResourced.commit hc hex
    by_cases hshows : resourceIdOf w.snapshot = some id
    · refine .inl fun s hs _ => ?_
      obtain rfl : s' = s := by simpa using hs
      exact ⟨id, hid, hshows⟩
    · -- the file is behind until it is replaced
      refine .inr ⟨_, rfl, Nat.lt_succ_of_le h.longer, hex.imp_right And.left, ?_, ?_⟩
      · intro hsnapshot
        have hsnapshot' : w.snapshot = some ⟨n, s'⟩ := hsnapshot
        exact hshows (by rw [hsnapshot', resourceIdOf_some hid hne])
      · intro heq
        exact hshows (heq.trans hid)
  · refine .inl fun s hs hs' => ?_
    obtain rfl : s' = s := by simpa using hs
    exact absurd hs' hex

/-- A step leaves what was shown since an earlier world. -/
theorem Step.shownSince {w₀ : World} (hnamed : ∀ w e, answers w e → e.Named)
    (hstep : Step ctl (.driven answers c) w w') (h : ShownSince w₀ w) : ShownSince w₀ w' := by
  have hresourced := hstep.resourced hnamed h.toResourced
  cases hstep with
  | commit _ hc _ => exact ⟨hresourced, Nat.le_succ_of_le h.longer, h.append hc⟩
  | @snapshot e he =>
    refine ⟨hresourced, h.longer, .inl fun s hs hex => ?_⟩
    obtain ⟨id, hid, hne⟩ := h.resource s hs hex
    obtain rfl : e.projection.state = s := by simpa [World.current, he] using hs
    exact ⟨id, hid, resourceIdOf_some hid hne⟩
  | saw _ _ | corrupt | request _ _ | receipt _ _ => exact ⟨hresourced, h.longer, h.shown⟩

/-- Where no call is cut behind, `state.json` shows the resource between calls. -/
theorem Conduct.Visits.shown (hnamed : ∀ w e, answers w e → e.Named)
    (hends : ∀ w w', c.ends w w' → ¬CutBehind w w') (h : c.Visits ctl answers w) :
    Resourced w ∧ Shown w := by
  induction h with
  | empty => exact ⟨resourced_empty, fun s hs => by cases hs⟩
  | @call w w' call o hw hissue hrun hend ih =>
    have hsteps : Reaches ctl (.driven answers c) w w' :=
      (Keeps.sound hrun (stays_perform .refl hw.consistent hissue) .refl).1
    have hsince : ShownSince w w' :=
      invariant_of_steps (fun _ _ hstep hI => hstep.shownSince hnamed hI) hsteps
        ⟨ih.1, le_rfl, .inl ih.2⟩
    exact ⟨hsince.toResourced, hsince.shown.resolve_right (hends w w' hend)⟩

/-! ## Other processes -/

/-- The run has that resource, in the journal and in `state.json`. -/
def HoldsResource (id : Text) (w : World) : Prop :=
  (∃ s, w.current = some s ∧ s.resourceId = some id) ∧ resourceIdOf w.snapshot = some id

/-- Every world a commit that keeps the resource can leave has it. -/
theorem HoldsResource.commitLeaves {id : Text} {e : Event} (h : HoldsResource id w) (hne : id ≠ [])
    (he : e.projection.state.resourceId = some id) (hw : CommitLeaves w e w') :
    HoldsResource id w' := by
  have hevent : ∀ w₁, Appended w e w₁ → (∃ s, w₁.current = some s ∧ s.resourceId = some id) := by
    rintro w₁ (rfl | rfl)
    · exact ⟨_, rfl, he⟩
    · exact ⟨_, rfl, he⟩
  have hshown := resourceIdOf_some he hne
  cases hw with
  | nothing => exact h
  | torn => exact h
  | event happ =>
    refine ⟨hevent w' happ, ?_⟩
    rcases happ with rfl | rfl
    · exact h.2
    · exact h.2
  | @snapshot w₁ happ => exact ⟨hevent w₁ happ, hshown⟩
  | @receipt w₁ happ _ => exact ⟨hevent w₁ happ, hshown⟩

/-- A resource that is held has a name. -/
theorem HoldsResource.ne_nil {id : Text} (h : HoldsResource id w) : id ≠ [] := by
  rintro rfl
  have hshown := h.2
  unfold resourceIdOf at hshown
  split at hshown
  · cases hshown
  · split at hshown
    · cases hshown
    · cases hshown

/-- Reading, planning and stopping leave the resource where it is. -/
theorem keeps_holdsResource {id : Text} {call : Call} (houtside : call.IsOutside)
    (hw : Consistent w) (h : HoldsResource id w) :
    Keeps (machine answers) (HoldsResource id) (fun _ _ => True) (fun _ _ => True)
      (ctl.perform call) w := by
  obtain ⟨s, hcur, hid⟩ := h.1
  have hevents : w.events ≠ [] := by
    intro hnil
    simp [World.current, hnil] at hcur
  cases call with
  | reconcile | recordWorkloadResult result | recordArtifactDisposition d detail => cases houtside
  | plan request approved =>
    rw [Controller.perform, Controller.plan]
    cases moneyOf approved with
    | none => trivial
    | some text =>
      refine keeps_readRequestFile h (fun _ => trivial) ?_
      cases hr : w.request with
      | none => exact absurd (hw.request hr) hevents
      | some existing =>
        -- the run is there, so there is nothing to plan
        dsimp only
        split
        · refine keeps_readEvents h (fun _ => trivial) fun _ => ?_
          refine keeps_readSnapshot h (fun _ => trivial) ?_
          rw [hw.effective]
          cases he : w.events with
          | nil => exact absurd he hevents
          | cons e es => trivial
        · trivial
  | status =>
    rw [Controller.perform, readState]
    refine keeps_currentState h (fun _ => trivial) hw (fun _ => trivial) fun e _ _ => ?_
    split
    · exact keeps_ensureCloseoutReceipt h h (fun _ _ _ => trivial) fun _ _ _ => trivial
    · trivial
  | requestStop reason =>
    rw [Controller.perform, Controller.requestStop]
    refine keeps_currentState h (fun _ => trivial) hw (fun _ => trivial) fun e _ he => ?_
    obtain rfl := World.current_unique hcur he
    by_cases hclosed : e.projection.state.lifecycle = .closed
    · simp only [if_pos hclosed]
      trivial
    · simp only [if_neg hclosed]
      rw [← Process.bind_done (commitState _ _)]
      have hkept : (ctl.stoppedState e.projection.state reason).resourceId = some id := by
        rw [← hid, RunState.resourceId, RunState.resourceId, stoppedState_resource]
      refine keeps_commitState h (fun _ _ _ => trivial) (fun _ _ => trivial)
        (fun _ _ w' hleaves => h.commitLeaves h.ne_nil hkept hleaves) fun _ _ _ _ => trivial

/-- Interference leaves the resource that is held. -/
theorem Conduct.Interferes.holdsResource {id : Text} (h : c.Interferes ctl answers w w')
    (hw : c.Visits ctl answers w) (hid : HoldsResource id w) : HoldsResource id w' := by
  induction h with
  | refl => exact hid
  | @tail w₁ w₂ hbefore hcall ih =>
    obtain ⟨call, o, houtside, hrun, -⟩ := hcall
    have hconsistent := (Conduct.Interferes.visits hbefore hw).1.consistent
    exact (Keeps.sound hrun (keeps_holdsResource houtside hconsistent ih) ih).1

/-! ## The executor works on the effective resource -/

/-- The engine has just read a state with a resource, and `state.json` has it. -/
def OnEffectiveResource (history : EngineHistory) (w : World) : Prop :=
  ∃ p rest id, history = ⟨.readRequest, .ok ()⟩ :: ⟨.call .status, .ok p⟩ :: rest ∧
    p.state.resourceId = some id ∧ resourceIdOf w.snapshot = some id

/-- **The executor works on the effective resource.** In every driven run whose
provider names its resources, and in which no call is cut between the append of a
running or recovering state and the replacement of a `state.json` with another
resource: whenever `drive` executes the request, the id in `state.json` is the one
of the state it has just read. -/
theorem executes_on_effective_resource (ctl : Controller) (answers : Answers) (c : Conduct)
    (hnamed : ∀ w e, answers w e → e.Named) (hends : ∀ w w', c.ends w w' → ¬CutBehind w w')
    {w : World} (h : c.Driven ctl answers w) (maxSteps : ℕ) :
    Issues (c.engineMachine ctl answers) (fun history cmd w' =>
      cmd = .execute → OnEffectiveResource history w') [] (drive maxSteps) w := by
  have hhandles : c.Handles ctl answers OnEffectiveResource [] (drive maxSteps) w := by
    refine handles_driveSteps (fun history p w₁ w₂ hw₁ hcur hex hi => ?_) maxSteps h.visits
      fun _ ho => nomatch ho
    obtain ⟨id, hid, hshown⟩ := (hw₁.shown hnamed hends).2 p.state hcur hex
    have hholds := hi.holdsResource hw₁ ⟨⟨p.state, hcur, hid⟩, hshown⟩
    exact ⟨p, history, id, rfl, hid, hholds.2⟩
  exact hhandles.2

/-- The ids are named, and no call is cut behind. -/
def Conduct.uncut : Conduct := ⟨fun w w' => ¬CutBehind w w', fun _ _ => True⟩

/-- From the plan of the sample run on. -/
theorem executes_on_effective_resource_sample :
    Issues (Conduct.uncut.engineMachine sampleController fun _ e => e.Named) (fun history cmd w' =>
      cmd = .execute → OnEffectiveResource history w') [] (drive 8)
      (plannedRun sampleScript .named).world := by
  have hplayed : (plannedRun sampleScript .named).allowed = true ∧
      (plannedRun sampleScript .named).world.events.head?.all (fun e =>
        e.projection.state.lifecycle = .planned) = true := by decide +kernel
  obtain ⟨hplan, hplanned⟩ := hplayed
  have huncut : ¬CutBehind .empty (plannedRun sampleScript .named).world := by
    rintro ⟨e, he, -, hlife, -⟩
    rw [he] at hplanned
    have hl : e.projection.state.lifecycle = .planned := by simpa using hplanned
    rcases hlife with h | h
    · rw [h] at hl
      cases hl
    · rw [h] at hl
      cases hl
  have hdriven : Conduct.uncut.Driven sampleController (fun _ e => e.Named)
      (plannedRun sampleScript .named).world := Conduct.driven_plannedRun huncut hplan
  exact executes_on_effective_resource sampleController _ Conduct.uncut (fun _ _ h => h)
    (fun _ _ h => h) hdriven 8

/-! ## Two processes that die behind -/

/-- The process dies when an event of one of those kinds has reached the journal. -/
def diesAfter (kinds : List Text) (w : World) : Command → Option World
  | .appendEvent e => if e.kind ∈ kinds then some (w.append e) else none
  | _ => none

/-- A death after a commit of some kinds is a death in a command. -/
theorem dieIn_diesAfter {kinds : List Text} {cmd : Command} (h : diesAfter kinds w cmd = some w') :
    dieIn w cmd w' := by
  cases cmd with
  | appendEvent e =>
    simp only [diesAfter] at h
    split at h
    · cases h
      exact .inr (.inr (.inl rfl))
    · cases h
  | _ => cases h

/-- The two commits that are cut. -/
def cutKinds : List Text := [txt "resource_provisioned", txt "resource_running"]

/-- The engine dies where one of its calls does. -/
def engineDies (w : World) : EngineCommand → Option World
  | .call call =>
    let r := simulateUntil (diesAfter cutKinds) sampleScript Check.named
      (sampleController.perform call) w
    match r.outcome with
    | .died => if r.allowed then some r.world else none
    | _ => none
  | _ => none

/-- The sample death is a death in a command of the engine. -/
theorem engineDieIn_engineDies {cmd : EngineCommand} (h : engineDies w cmd = some w') :
    engineDieIn sampleController (fun _ e => e.Named) w cmd w' := by
  cases cmd with
  | call call =>
    simp only [engineDies] at h
    split at h
    · next hdied =>
      split at h
      · next hallowed =>
        cases h
        have hrun := runs_simulateUntil (fun _ _ _ => dieIn_diesAfter) hallowed
        rw [hdied] at hrun
        exact ⟨w, .refl, hrun⟩
      · cases h
    · cases h
  | _ => cases h

/-- A process that is cut behind, or runs its steps. -/
def cutDrive (w : World) : Played World EngineFailure Projection :=
  (drive 4).interpretUntil engineDies
    (engineRespond sampleController sampleScript Check.named sampleObservation) w

/-- The sample run after one process, and after the next one. -/
def cutOnce : Played World EngineFailure Projection := cutDrive (plannedRun sampleScript .named).world

/-- Both commits were cut: the run is running, and `state.json` has no resource. -/
def cutTwice : Played World EngineFailure Projection := cutDrive cutOnce.world

/-- What the engine executes once it has read that the run is running. -/
theorem Issues.execute_of_running {M : Machine World EngineCommand EngineAnswer}
    {P : EngineHistory → EngineCommand → World → Prop} {history : EngineHistory} {n : ℕ}
    {observation : Option ExecutionObservation} {w₁ w₂ : World} {p : Projection}
    (h : Issues M P history (driveSteps (n + 1) observation) w)
    (hstatus : M.exec w (.call .status) (.ok p) w₁) (hrun : p.state.lifecycle = .running)
    (hread : M.exec w₁ .readRequest (.ok ()) w₂) :
    P (⟨.readRequest, .ok ()⟩ :: ⟨.call .status, .ok p⟩ :: history) .execute w₂ := by
  rw [driveSteps] at h
  have hread' := h.2 (.ok p) w₁ hstatus
  simp only [Process.bind, Process.pure_eq, hrun] at hread'
  exact (hread'.2 (.ok ()) w₂ hread).1

/-- The answer of a played `status`, if the run is running. -/
def runningStatus (w : World) : Option Projection :=
  match (engineRespond sampleController sampleScript Check.named sampleObservation w
    (.call .status)).1 with
  | .ok p => if p.state.lifecycle = .running then some p else none
  | .error _ => none

theorem of_runningStatus (h : (runningStatus w).isSome = true) :
    ∃ p, (engineRespond sampleController sampleScript Check.named sampleObservation w
      (.call .status)).1 = .ok p ∧ p.state.lifecycle = .running := by
  rw [runningStatus] at h
  split at h
  · next p hp =>
    split at h
    · next hrun => exact ⟨p, hp, hrun⟩
    · cases h
  · cases h

/-- The drive that is cut off is a drive. -/
theorem driven_cutDrive (hw : Driven sampleController (fun _ e => e.Named) w)
    (h : (cutDrive w).allowed = true) :
    Driven sampleController (fun _ e => e.Named) (cutDrive w).world :=
  .drive hw (Process.runs_interpretUntil (fun _ _ _ => engineDieIn_engineDies)
    (fun _ _ => engineExecute_respond) h)

/-- After two processes that were cut behind, the next one executes without a
resource in `state.json`. -/
theorem cut_behind_hides_resource :
    ∃ w, Driven sampleController (fun _ e => e.Named) w ∧
      ¬Issues (engineMachine sampleController fun _ e => e.Named) (fun history cmd w' =>
        cmd = .execute → OnEffectiveResource history w') [] (drive 1) w := by
  have hplayed : (plannedRun sampleScript .named).allowed = true ∧ cutOnce.allowed = true ∧
      cutTwice.allowed = true ∧ (runningStatus cutTwice.world).isSome = true ∧
      (engineRespond sampleController sampleScript Check.named sampleObservation cutTwice.world
        (.call .status)).2.2 = true ∧
      resourceIdOf (engineRespond sampleController sampleScript Check.named sampleObservation
        cutTwice.world (.call .status)).2.1.snapshot = none := by decide +kernel
  obtain ⟨hplan, honce, htwice, hrunning, hallowed, hhidden⟩ := hplayed
  have hplanned :
      Driven sampleController (fun _ e => e.Named) (plannedRun sampleScript .named).world :=
    driven_plannedRun hplan
  have hcut : Driven sampleController (fun _ e => e.Named) cutTwice.world :=
    driven_cutDrive (driven_cutDrive hplanned honce) htwice
  refine ⟨cutTwice.world, hcut, fun h => ?_⟩
  have hstatus := engineExecute_respond hallowed
  obtain ⟨p, hanswer, hrun⟩ := of_runningStatus hrunning
  rw [hanswer] at hstatus
  have hread : (engineMachine sampleController fun _ e => e.Named).exec
      (engineRespond sampleController sampleScript Check.named sampleObservation cutTwice.world
        (.call .status)).2.1 .readRequest (.ok ()) _ := .refl
  obtain ⟨q, rest, id, -, -, hshown⟩ := h.execute_of_running hstatus hrun hread rfl
  rw [hhidden] at hshown
  cases hshown

end RunpodJobrunner
