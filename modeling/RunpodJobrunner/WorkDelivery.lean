import RunpodJobrunner.EffectiveResource

/-!
# Delivery of the work

The engine executes a request in `running`, and in `recovering`, which is also where
a create that was never seen ends. A run gets from `running` to `recovering` by its
result alone, and until then nothing was quarantined and nothing went wrong: so
whatever is executed was seen running.
-/

namespace RunpodJobrunner

/-- Nothing went wrong with the resources of the run. -/
structure Untroubled (s : RunState) : Prop where
  recoveryReason : s.recoveryReason = none
  quarantined : s.quarantinedResourceIds = none

/-- The run was seen running. -/
def SeenRunning (w : World) : Prop :=
  ∃ e ∈ w.events, e.projection.state.lifecycle = .running

variable {c : Conduct} {ctl : Controller} {answers : Answers} {env : Environment} {w w' : World}

/-! ## Trouble ends the way to the workload -/

/-- Whether a run is troubled is a matter of two fields. -/
theorem Untroubled.of_eq {s s' : RunState} (h : Untroubled s)
    (hreason : s'.recoveryReason = s.recoveryReason)
    (hquarantined : s'.quarantinedResourceIds = s.quarantinedResourceIds) : Untroubled s' :=
  ⟨hreason.trans h.recoveryReason, hquarantined.trans h.quarantined⟩

/-- A commit that leaves the run under way leaves it untroubled. -/
theorem Commit.untroubled {kind : Text} {s' : RunState} (h : Commit ctl env w kind s')
    (hw : ∀ s, w.current = some s → s.lifecycle.isUnderway = true → Untroubled s)
    (hunder : s'.lifecycle.isUnderway = true) : Untroubled s' := by
  have hover : ∀ {P : Prop}, s'.lifecycle.isUnderway = false → P := by
    intro P hover
    rw [hover] at hunder
    cases hunder
  cases h with
  | planned _ _ _ _ => exact ⟨rfl, rfl⟩
  | workloadTerminal _ _ _ _ | dispositionRecorded _ _ _ _ | stopRequested _ _ _ => exact hover rfl
  | intended hc hlife => exact (hw _ hc (by rw [hlife]; rfl)).of_eq rfl rfl
  | duplicates _ _ | missing _ _ | visibilityExhausted _ _ _ | closed _ _ _ _ _ _ _ => exact hover rfl
  | findRejected _ _ | createRejected _ _ | getRejected _ _ | startRejected _ _ =>
    exact hover rfl
  | dispatched hp _ _ | createFailed hp _ _ | visibilityPending hp _ _ | found hp _ | created hp _ =>
    exact (hw _ hp.current (by rw [hp.lifecycle]; rfl)).of_eq rfl rfl
  | observedRunning hr _ | startFailed hr _ _ | started hr _ _ =>
    exact (hw _ hr.current (by rw [hr.lifecycle]; rfl)).of_eq rfl rfl
  | adoptRejected hd _ _ | adoptDuplicates hd _ | adopted hd _ | notDispatched hd _
  | deadlinePending hd _ | absenceObserved hd _ _ _ _ _ | absencePending hd _
  | absenceConfirmed hd _ _ _ _ _ _ _ _ _ =>
    exact hover (by simp [hd.lifecycle, LifecycleState.isUnderway])
  | nothingPending hd _ _ | deleteFailed hd _ _ | deleted hd _ _ _ _ _ _ | absent hd _ _ _
  | deletionPending hd _ _ | spendObserved hd _ _ _ _ _ _ _ =>
    exact hover (by simp [hd.lifecycle, LifecycleState.isUnderway])

/-- A commit leads to a recovery from a running run, or where a create was never seen. -/
theorem Commit.recovers {kind : Text} {s' : RunState} (h : Commit ctl (.driven answers c) w kind s')
    (hlife : s'.lifecycle = .recovering) :
    s'.recoveryReason = some (txt "provision_dispatch_unresolved") ∨
      ∃ s, w.current = some s ∧ s.lifecycle = .running := by
  have hother : ∀ {P : Prop} {l : LifecycleState}, l ≠ .recovering → s'.lifecycle = l → P :=
    fun hne hl => absurd (hl.symm.trans hlife) hne
  cases h with
  | planned _ _ _ _ | dispositionRecorded _ _ _ _ | stopRequested _ _ _ | intended _ _
  | duplicates _ _ | missing _ _ | closed _ _ _ _ _ _ _ | found _ _ | created _ _
  | observedRunning _ _ => cases hlife
  | workloadTerminal hc hissue hnone _ =>
    obtain ⟨state, hstate, hwork⟩ := hissue
    obtain rfl := Option.some.inj hstate
    exact .inr ⟨_, hc, hwork.resolve_right fun hdecided => hdecided hnone⟩
  | visibilityExhausted _ _ _ => exact .inl rfl
  | findRejected _ _ | createRejected _ _ | getRejected _ _ | startRejected _ _ =>
    exact hother (l := .deleting) (by decide) rfl
  | dispatched hp _ _ | createFailed hp _ _ | visibilityPending hp _ _ =>
    exact hother (by decide) hp.lifecycle
  | startFailed hr _ _ => exact hother (by decide) hr.lifecycle
  | started hr hl _ =>
    rcases hl with ⟨-, rfl⟩ | ⟨-, rfl⟩
    · cases hlife
    · exact hother (by decide) hr.lifecycle
  | adoptRejected hd _ _ | adoptDuplicates hd _ | adopted hd _ | notDispatched hd _
  | deadlinePending hd _ | absenceObserved hd _ _ _ _ _ | absencePending hd _
  | absenceConfirmed hd _ _ _ _ _ _ _ _ _ =>
    refine hother (l := .deleting) (by decide) ?_
    simp [hd.lifecycle]
  | nothingPending hd _ _ | deleteFailed hd _ _ | deleted hd _ _ _ _ _ _ | absent hd _ _ _
  | deletionPending hd _ _ | spendObserved hd _ _ _ _ _ _ _ =>
    refine hother (l := .deleting) (by decide) ?_
    simp [hd.lifecycle]

/-! ## Recoveries of runs that ran -/

/-- A run under way is untroubled, and a recovery is one of a create that was never
seen or of a run that was seen running. -/
structure Delivered (w : World) : Prop where
  underway : ∀ s, w.current = some s → s.lifecycle.isUnderway = true → Untroubled s
  recovering : ∀ s, w.current = some s → s.lifecycle = .recovering →
    s.recoveryReason = some (txt "provision_dispatch_unresolved") ∨ SeenRunning w

/-- The empty world has no run to trouble. -/
theorem delivered_empty : Delivered .empty :=
  ⟨fun _ hs => (by cases hs), fun _ hs => by cases hs⟩

/-- A run that is running was seen running. -/
theorem seenRunning_of_current {s : RunState} (hcur : w.current = some s)
    (hlife : s.lifecycle = .running) : SeenRunning w := by
  obtain ⟨e, he, rfl⟩ := Option.map_eq_some_iff.mp hcur
  exact ⟨e, List.mem_of_head? he, hlife⟩

/-- A run that was seen running stays so after a step. -/
theorem SeenRunning.step (hstep : Step ctl env w w') (h : SeenRunning w) : SeenRunning w' := by
  obtain ⟨e, he, hlife⟩ := h
  cases hstep with
  | commit _ _ _ => exact ⟨e, List.mem_cons_of_mem _ he, hlife⟩
  | saw _ _ | corrupt | request _ _ | snapshot _ | receipt _ _ => exact ⟨e, he, hlife⟩

/-- A run that was seen running stays so. -/
theorem seenRunning_of_reaches (hsteps : Reaches ctl env w w') (h : SeenRunning w) :
    SeenRunning w' :=
  @invariant_of_steps World (Step ctl env) SeenRunning (fun _ _ => SeenRunning.step) w w' hsteps h

/-- A step leaves runs under way untroubled, and a recovery with its reason. -/
theorem Step.delivered (hstep : Step ctl (.driven answers c) w w') (h : Delivered w) :
    Delivered w' := by
  have hseen : SeenRunning w → SeenRunning w' := SeenRunning.step hstep
  cases hstep with
  | saw _ _ | corrupt | request _ _ | snapshot _ | receipt _ _ => exact ⟨h.underway, h.recovering⟩
  | @commit kind s' _ hc _ =>
    refine ⟨fun s hs hunder => ?_, fun s hs hlife => ?_⟩
    · obtain rfl : s' = s := by simpa using hs
      exact hc.untroubled h.underway hunder
    · obtain rfl : s' = s := by simpa using hs
      rcases hc.recovers hlife with hreason | ⟨t, hcur, hrunning⟩
      · exact .inl hreason
      · exact .inr (hseen (seenRunning_of_current hcur hrunning))

/-- In the worlds that are visited, runs under way are untroubled. -/
theorem Conduct.Visits.delivered (h : c.Visits ctl answers w) : Delivered w :=
  reachable_invariant delivered_empty (fun _ _ hstep hw => hstep.delivered hw) h.reachable

/-! ## Work is delivered to a running run -/

/-- The reasons for which no work is delivered. -/
def failClosedReasons : List Text :=
  [txt "duplicate_provider_resources", txt "provision_dispatch_unresolved",
    txt "resource_disappeared_before_start"]

/-- No resource is quarantined, and no reason stands against the work. -/
def FreeToWork (s : RunState) : Prop :=
  s.quarantinedResourceIds.getD [] = [] ∧ ∀ reason ∈ failClosedReasons, s.recoveryReason ≠ some reason

/-- The engine has just read a state that is free to work, of a run that was seen
running. -/
def ToRunningRun (history : EngineHistory) (w : World) : Prop :=
  ∃ p rest, history = ⟨.readRequest, .ok ()⟩ :: ⟨.call .status, .ok p⟩ :: rest ∧
    FreeToWork p.state ∧ SeenRunning w

/-- An untroubled run is free to work. -/
theorem Untroubled.freeToWork {s : RunState} (h : Untroubled s) : FreeToWork s := by
  refine ⟨by simp [h.quarantined], fun reason _ => ?_⟩
  simp [h.recoveryReason]

/-- A run whose recovery may dispatch the workload is free to work. -/
theorem freeToWork_of_recovers {s : RunState} (h : recoveryMustNotDispatchWorkload s = false) :
    FreeToWork s := by
  simp only [recoveryMustNotDispatchWorkload, Bool.or_eq_false_iff, Bool.not_eq_false',
    List.isEmpty_iff] at h
  obtain ⟨⟨-, hreason⟩, hquarantined⟩ := h
  refine ⟨hquarantined, fun reason hmem heq => ?_⟩
  simp only [failClosedReasons, List.mem_cons, List.not_mem_nil, or_false] at hmem
  rw [heq] at hreason
  rcases hmem with rfl | rfl | rfl <;> simp at hreason

/-- A state of which the engine executes the request. -/
theorem Delivered.executes {s : RunState} (h : Delivered w) (hcur : w.current = some s)
    (hex : Executes s) : FreeToWork s ∧ SeenRunning w := by
  rcases hex with hrunning | ⟨hlife, hmust⟩
  · exact ⟨(h.underway s hcur (by rw [hrunning]; rfl)).freeToWork,
      seenRunning_of_current hcur hrunning⟩
  · have hfree := freeToWork_of_recovers hmust
    refine ⟨hfree, (h.recovering s hcur hlife).resolve_left ?_⟩
    exact hfree.2 _ (by simp [failClosedReasons])

/-- **Work is delivered to a run that was seen running.** In every driven run, whenever
`drive` executes the request, an event of the run is running, and the state it has just
read has no quarantined resource and no reason against the work. -/
theorem executes_on_running_run (ctl : Controller) (answers : Answers) {w : World}
    (h : Driven ctl answers w) (maxSteps : ℕ) :
    Issues (engineMachine ctl answers) (fun history cmd w' =>
      cmd = .execute → ToRunningRun history w') [] (drive maxSteps) w := by
  have hhandles : Conduct.any.Handles ctl answers ToRunningRun [] (drive maxSteps) w := by
    refine handles_driveSteps (fun history p w₁ w₂ hw₁ hcur hex hi => ?_) maxSteps h.any.visits
      fun _ ho => nomatch ho
    obtain ⟨hfree, hseen⟩ := hw₁.delivered.executes hcur hex
    exact ⟨p, history, rfl, hfree, seenRunning_of_reaches (hi.visits hw₁).2 hseen⟩
  exact hhandles.2.mono fun _ _ _ _ hexec => engineExecute_any hexec

/-- From the plan of the sample run on. -/
theorem executes_on_running_run_sample :
    Issues (engineMachine sampleController fun _ _ => True) (fun history cmd w' =>
      cmd = .execute → ToRunningRun history w') [] (drive 8) (plannedRun sampleScript .any).world :=
  executes_on_running_run sampleController _ (driven_plannedRun (by decide +kernel)) 8

end RunpodJobrunner
