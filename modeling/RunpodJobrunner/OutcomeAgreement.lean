import RunpodJobrunner.Conduct

/-!
# Outcome and evidence at closeout

The two halves of an observation are recorded by two transactions. A disposition
the engine records is backed by an observation of the same success as the recorded
result, unless an executor that is asked again after a crash changes its mind; the
other dispositions are unavailable, and of a run that has not succeeded, unless a
stop came between the two halves.
-/

namespace RunpodJobrunner

/-- An observation succeeds exactly when its artifacts are verified. -/
def ExecutionObservation.Coherent (o : ExecutionObservation) : Prop :=
  o.result = .succeeded ↔ o.disposition = .verified

/-- An observation made when the result is recorded, and no disposition is, agrees
with that result. -/
def ExecutionObservation.Repeats (w : World) (o : ExecutionObservation) : Prop :=
  ∀ s, w.current = some s → s.workloadResult ≠ none → s.closeout.artifactDisposition = none →
    (o.result = .succeeded ↔ s.workloadResult = some .succeeded)

/-- The artifacts of the state are verified. -/
def RunState.IsVerified (s : RunState) : Prop :=
  ∃ detail, s.closeout.artifactDisposition = some ⟨.verified, detail⟩

/-- A stop recorded the disposition: its event is the first that has one. -/
def StopRecorded (events : List Event) : Prop :=
  ∃ newer e older detail, events = newer ++ e :: older ∧ e.kind = stopKind ∧
    e.projection.state.closeout.artifactDisposition = some ⟨.unavailable, detail⟩ ∧
    ∀ e' ∈ older, e'.projection.state.closeout.artifactDisposition = none

/-- A stop stays recorded. -/
theorem StopRecorded.cons {events : List Event} (h : StopRecorded events) (e : Event) :
    StopRecorded (e :: events) := by
  obtain ⟨newer, stop, older, detail, rfl, hrest⟩ := h
  exact ⟨e :: newer, stop, older, detail, rfl, hrest⟩

variable {c : Conduct} {ctl : Controller} {answers : Answers} {w w' : World}

/-- What backs a disposition agrees with the recorded result. -/
theorem Conduct.Backs.verified_iff {s : RunState} {o : ExecutionObservation}
    (hcoherent : ∀ w o, c.observes w o → o.Coherent) (hrepeats : ∀ w o, c.observes w o → o.Repeats w)
    (hresult : s.workloadResult ≠ none) (h : c.Backs s o) :
    o.disposition = .verified ↔ s.workloadResult = some .succeeded := by
  obtain ⟨w, hobs, hback⟩ := h
  have hverdict : o.result = .succeeded ↔ o.disposition = .verified := hcoherent w o hobs
  rcases hback with hsame | ⟨s₁, hcur, hsame, hnone⟩
  · rw [hsame, ← hverdict]
    exact ⟨fun h => congrArg some h, fun h => Option.some.inj h⟩
  · rw [← hsame] at hresult
    rw [← hsame, ← hverdict, hrepeats w o hobs s₁ hcur hresult hnone]

/-- A closed run has a disposition. Where there is one there is a result, and the
two agree, or a stop recorded the disposition. -/
structure OutcomeAgrees (w : World) : Prop extends WrittenOnce w where
  disposed : ∀ s, w.current = some s → s.lifecycle = .closed →
    s.closeout.artifactDisposition ≠ none
  decided : ∀ s, w.current = some s → s.closeout.artifactDisposition ≠ none →
    s.workloadResult ≠ none
  agrees : ∀ s d, w.current = some s → s.closeout.artifactDisposition = some d →
    (d.status = .verified ↔ s.workloadResult = some .succeeded) ∨
      StopRecorded w.events ∧ d.status = .unavailable

theorem outcomeAgrees_empty : OutcomeAgrees .empty :=
  ⟨writtenOnce_empty, fun _ h => (by cases h), fun _ h => (by cases h), fun _ _ h => by cases h⟩

/-- A run is closed with a disposition. -/
theorem OutcomeChange.disposed {env : Environment} {kind : Text} {s s' : RunState}
    (h : OutcomeChange ctl env kind s s') (hclosed : s'.lifecycle = .closed) :
    s'.closeout.artifactDisposition ≠ none := by
  cases h with
  | same _ _ hdisposition hlife =>
    rw [hdisposition]
    rcases hlife with ⟨-, hunder⟩ | ⟨-, hd, -⟩
    · rw [hclosed] at hunder
      cases hunder
    · exact hd
  | result _ _ _ _ _ hl | disposition _ _ _ _ _ hl =>
    rw [hclosed] at hl
    cases hl
  | stopped _ _ hs' => simp [hs']
  | cancelled _ _ hdisposition _ => simp [hdisposition]

/-- A disposition that a stop records is the first one. -/
theorem WrittenOnce.stopRecorded {s : RunState} {n : ℕ} {reason kind : Text} (h : WrittenOnce w)
    (hkind : kind = stopKind) (hcur : w.current = some s)
    (hnone : s.closeout.artifactDisposition = none) :
    StopRecorded (w.append ⟨kind, ⟨n, ctl.stoppedState s reason⟩⟩).events := by
  refine ⟨[], _, w.events, some reason, rfl, hkind, by simp [hnone], fun e he => ?_⟩
  by_contra hsome
  obtain ⟨d, hd⟩ := Option.ne_none_iff_exists'.mp hsome
  -- it would still be there in the newest event
  match hevents : w.events, he with
  | newest :: rest, he =>
    obtain rfl : newest.projection.state = s := by simpa [World.current, hevents] using hcur
    rcases List.mem_cons.mp he with rfl | hrest
    · rw [hd] at hnone
      cases hnone
    · have hpair := h.succeeds
      rw [hevents] at hpair
      rw [(List.rel_of_pairwise_cons hpair hrest).disposition d hd] at hnone
      cases hnone

/-- A commit leaves the two halves in agreement. -/
theorem OutcomeAgrees.append {kind : Text} {s' : RunState} {n : ℕ}
    (hcoherent : ∀ w o, c.observes w o → o.Coherent) (hrepeats : ∀ w o, c.observes w o → o.Repeats w)
    (h : OutcomeAgrees w) (hc : Commit ctl (.driven answers c) w kind s') :
    OutcomeAgrees (w.append ⟨kind, ⟨n, s'⟩⟩) := by
  have hwritten := h.toWrittenOnce.append (n := n) hc
  have hdisposed : s'.lifecycle = .closed → s'.closeout.artifactDisposition ≠ none := by
    rcases hc.source with ⟨s, hcur⟩ | ⟨-, -, -, text, -, rfl⟩
    · exact (hc.outcomeChange hcur).disposed
    · exact fun hclosed => by cases hclosed
  suffices hnew : (s'.closeout.artifactDisposition ≠ none → s'.workloadResult ≠ none) ∧
      ∀ d, s'.closeout.artifactDisposition = some d →
        (d.status = .verified ↔ s'.workloadResult = some .succeeded) ∨
          StopRecorded (w.append ⟨kind, ⟨n, s'⟩⟩).events ∧ d.status = .unavailable by
    refine ⟨hwritten, fun s hs => ?_, fun s hs => ?_, fun s d hs => ?_⟩
    · obtain rfl : s' = s := by simpa using hs
      exact hdisposed
    · obtain rfl : s' = s := by simpa using hs
      exact hnew.1
    · obtain rfl : s' = s := by simpa using hs
      exact hnew.2 d
  rcases hc.source with ⟨s, hcur⟩ | ⟨-, -, -, text, -, rfl⟩
  · have hkept : s'.workloadResult = s.workloadResult →
        s'.closeout.artifactDisposition = s.closeout.artifactDisposition →
        (s'.closeout.artifactDisposition ≠ none → s'.workloadResult ≠ none) ∧
          ∀ d, s'.closeout.artifactDisposition = some d →
            (d.status = .verified ↔ s'.workloadResult = some .succeeded) ∨
              StopRecorded (w.append ⟨kind, ⟨n, s'⟩⟩).events ∧ d.status = .unavailable := by
      intro hresult hdisposition
      rw [hresult, hdisposition]
      refine ⟨h.decided s hcur, fun d hd => (h.agrees s d hcur hd).imp_right fun hstop => ?_⟩
      exact ⟨hstop.1.cons _, hstop.2⟩
    cases hc.outcomeChange hcur with
    | same _ hresult hdisposition _ => exact hkept hresult hdisposition
    | result _ _ hnone _ hdisposition _ =>
      -- a disposition would have come with a result
      have hnodisposition : s'.closeout.artifactDisposition = none := by
        rw [hdisposition]
        by_contra hsome
        exact h.decided s hcur hsome hnone
      rw [hnodisposition]
      exact ⟨fun hne => absurd rfl hne, fun d hd => by cases hd⟩
    | disposition hissue _ hnone hresult hdisposition _ =>
      obtain ⟨state, hstate, hdecided, hback⟩ := hissue
      obtain rfl := Option.some.inj hstate
      obtain ⟨o, ho, hverdict, -⟩ := hback hnone
      rw [hresult, hdisposition]
      refine ⟨fun _ => hdecided, fun d hd => .inl ?_⟩
      obtain rfl := Option.some.inj hd
      rw [← ho.verified_iff hcoherent hrepeats hdecided, hverdict]
    | @stopped reason hkind _ hs' =>
      cases hd : s.closeout.artifactDisposition with
      | none =>
        refine ⟨fun _ => by simp [hs'], fun d hd' => .inr ⟨?_, ?_⟩⟩
        · rw [hs']
          exact h.toWrittenOnce.stopRecorded hkind hcur hd
        · rw [hs'] at hd'
          obtain rfl : (⟨.unavailable, some reason⟩ : RecordedDisposition) = d := by
            simpa [hd] using hd'
          rfl
      | some d =>
        have hdecided := h.decided s hcur (by simp [hd])
        obtain ⟨r, hr⟩ := Option.ne_none_iff_exists'.mp hdecided
        exact hkept (by simp [hs', hr]) (by simp [hs', hd])
    | cancelled _ hresult hdisposition _ =>
      rw [hresult, hdisposition]
      refine ⟨fun _ => by simp, fun d hd => .inl ?_⟩
      obtain rfl := Option.some.inj hd
      simp
  · exact ⟨fun hne => absurd rfl hne, fun d hd => by cases hd⟩

/-- A step leaves the two halves in agreement. -/
theorem Step.outcomeAgrees (hcoherent : ∀ w o, c.observes w o → o.Coherent)
    (hrepeats : ∀ w o, c.observes w o → o.Repeats w)
    (hstep : Step ctl (.driven answers c) w w') (h : OutcomeAgrees w) : OutcomeAgrees w' := by
  cases hstep with
  | commit _ hc _ => exact h.append hcoherent hrepeats hc
  | saw _ _ | corrupt | request _ _ | snapshot _ | receipt _ _ =>
    exact ⟨⟨h.outcomeOpen, h.succeeds⟩, h.disposed, h.decided, h.agrees⟩

/-- A closed event is the newest one. -/
theorem WrittenOnce.current_of_closed {e : Event} (h : WrittenOnce w) (he : e ∈ w.events)
    (hclosed : e.projection.state.lifecycle = .closed) : w.current = some e.projection.state := by
  match hevents : w.events, he with
  | newest :: rest, he =>
    rcases List.mem_cons.mp he with rfl | hrest
    · simp [World.current, hevents]
    · have hpair := h.succeeds
      rw [hevents] at hpair
      exact absurd hclosed (List.rel_of_pairwise_cons hpair hrest).unclosed

/-- **Outcome and evidence agree at closeout.** In every driven run whose executor
is coherent, and agrees with the recorded result when it is asked again: a closed
run with verified artifacts has succeeded, and one that has succeeded has verified
artifacts unless a stop recorded that they are unavailable. -/
theorem outcome_agrees_at_closeout (ctl : Controller) (answers : Answers) (c : Conduct)
    (hcoherent : ∀ w o, c.observes w o → o.Coherent)
    (hrepeats : ∀ w o, c.observes w o → o.Repeats w) {w : World} (h : c.Driven ctl answers w)
    {e : Event} (he : e ∈ w.events) (hclosed : e.projection.state.lifecycle = .closed) :
    (e.projection.state.IsVerified → e.projection.state.workloadResult = some .succeeded) ∧
      (e.projection.state.workloadResult = some .succeeded →
        e.projection.state.IsVerified ∨ StopRecorded w.events ∧
          ∃ detail, e.projection.state.closeout.artifactDisposition =
            some ⟨.unavailable, detail⟩) := by
  have hagrees : OutcomeAgrees w := reachable_invariant outcomeAgrees_empty
    (fun _ _ hs hw => hs.outcomeAgrees hcoherent hrepeats hw) h.visits.reachable
  have hcur := hagrees.current_of_closed he hclosed
  obtain ⟨d, hd⟩ := Option.ne_none_iff_exists'.mp (hagrees.disposed _ hcur hclosed)
  refine ⟨?_, fun hsucceeded => ?_⟩
  · rintro ⟨detail, hverified⟩
    obtain rfl : d = ⟨.verified, detail⟩ := Option.some.inj (hd.symm.trans hverified)
    rcases hagrees.agrees _ _ hcur hd with hiff | ⟨-, hunavailable⟩
    · exact hiff.mp rfl
    · cases hunavailable
  · obtain ⟨status, detail⟩ := d
    rcases hagrees.agrees _ _ hcur hd with hiff | ⟨hstop, hunavailable⟩
    · obtain rfl : status = .verified := hiff.mpr hsucceeded
      exact .inl ⟨detail, hd⟩
    · obtain rfl : status = .unavailable := hunavailable
      exact .inr ⟨hstop, detail, hd⟩

/-- The newest event is closed, with that result and that disposition. -/
def World.closedWith (w : World) (result : WorkloadResult) (disposition : ArtifactDisposition) :
    Bool :=
  w.events.head?.any fun e => e.projection.state.lifecycle = .closed &&
    e.projection.state.workloadResult = some result &&
    e.projection.state.closeout.artifactDisposition.map RecordedDisposition.status =
      some disposition

/-- A run that is closed with an outcome has a closing event with it. -/
theorem World.mem_of_closedWith {result : WorkloadResult} {disposition : ArtifactDisposition}
    (h : w.closedWith result disposition = true) :
    ∃ e ∈ w.events, e.projection.state.lifecycle = .closed ∧
      e.projection.state.workloadResult = some result ∧
      (e.projection.state.IsVerified ↔ disposition = .verified) := by
  obtain ⟨e, he, hstate⟩ := (Option.any_eq_true _ _).mp h
  simp only [Bool.and_eq_true, decide_eq_true_eq] at hstate
  obtain ⟨⟨hclosed, hresult⟩, hdisposition⟩ := hstate
  obtain ⟨d, hd, hstatus⟩ := Option.map_eq_some_iff.mp hdisposition
  refine ⟨e, List.mem_of_head? he, hclosed, hresult, ?_⟩
  rw [← hstatus]
  refine ⟨fun ⟨detail, hverified⟩ => ?_, fun hverified => ⟨d.detail, ?_⟩⟩
  · rw [hd] at hverified
    rw [Option.some.inj hverified]
  · rw [hd, ← hverified]

/-- The result is not recorded yet, or is a success. -/
def World.maySucceed (w : World) : Bool :=
  w.current.all fun s => s.workloadResult = none || s.workloadResult = some .succeeded

/-- An executor that observes the sample success, where that repeats the result. -/
def Conduct.succeeding : Conduct :=
  ⟨fun _ _ => True, fun w o => o = sampleObservation ∧ w.maySucceed = true⟩

/-- The commands of the sample drive, played where the success may be observed. -/
def succeedingRespond (w : World) (cmd : EngineCommand) : EngineAnswer cmd × World × Bool :=
  let r := engineRespond sampleController sampleScript Check.any sampleObservation w cmd
  (r.1, r.2.1, r.2.2 && w.maySucceed)

/-- The sample run driven to its closeout. -/
def succeededRun : Played World EngineFailure Projection :=
  (drive 8).interpret succeedingRespond (plannedRun sampleScript .any).world

/-- An answer of the sample engine is one that the conduct allows. -/
theorem engineExecute_succeedingRespond {cmd : EngineCommand}
    (h : (succeedingRespond w cmd).2.2 = true) :
    Conduct.succeeding.engineExecute sampleController Environment.any.answers w cmd
      (succeedingRespond w cmd).1 (succeedingRespond w cmd).2.1 := by
  obtain ⟨hplayed, hsucceed⟩ := Bool.and_eq_true_iff.mp h
  have hexec := Conduct.any.engineExecute_respond (fun _ _ => trivial) (fun _ => trivial) hplayed
  cases cmd with
  | call call =>
    obtain ⟨w₁, o, hi, hrun, -, hanswer⟩ := hexec
    exact ⟨w₁, o, hi, hrun, trivial, hanswer⟩
  | readRequest => exact .refl
  | execute => exact ⟨.refl, fun o ho => ⟨(Except.ok.inj ho).symm, hsucceed⟩⟩

/-- Where the result may be a success, the sample observation repeats it. -/
theorem sampleObservation_repeats (h : w.maySucceed = true) : sampleObservation.Repeats w := by
  intro s hcur hresult _
  rw [World.maySucceed, hcur] at h
  have hrecorded : s.workloadResult = some .succeeded := by simpa [hresult] using h
  exact ⟨fun _ => hrecorded, fun _ => rfl⟩

/-- The sample run succeeds, and its artifacts are verified. -/
theorem outcome_agrees_at_closeout_sample :
    ∃ e ∈ succeededRun.world.events, e.projection.state.lifecycle = .closed ∧
      e.projection.state.IsVerified ∧ e.projection.state.workloadResult = some .succeeded := by
  have hplayed : (plannedRun sampleScript .any).allowed = true ∧ succeededRun.allowed = true ∧
      succeededRun.world.closedWith .succeeded .verified = true := by decide +kernel
  obtain ⟨hplan, hrun, hend⟩ := hplayed
  obtain ⟨e, he, hclosed, -, hiff⟩ := World.mem_of_closedWith hend
  have hplanned : Conduct.succeeding.Driven sampleController Environment.any.answers
      (plannedRun sampleScript .any).world := Conduct.driven_plannedRun trivial hplan
  have hdriven : Conduct.succeeding.Driven sampleController Environment.any.answers
      succeededRun.world :=
    .drive hplanned (Process.runs_interpret (fun _ _ => engineExecute_succeedingRespond) hrun)
  have hverified := hiff.mpr rfl
  refine ⟨e, he, hclosed, hverified, (outcome_agrees_at_closeout sampleController _
    Conduct.succeeding ?_ ?_ hdriven he hclosed).1 hverified⟩
  · rintro w o ⟨rfl, -⟩
    exact ⟨fun _ => rfl, fun _ => rfl⟩
  · rintro w o ⟨rfl, hsucceed⟩
    exact sampleObservation_repeats hsucceed

/-! ## A coherent executor is not enough -/

/-- A coherent executor, and nothing else. -/
def Conduct.coherent : Conduct := ⟨fun _ _ => True, fun _ o => o.Coherent⟩

/-- The sample run driven until the observed result is recorded, and the process
goes no further. -/
def halfRun (observation : ExecutionObservation) : Played World EngineFailure Projection :=
  playDrive sampleController sampleScript .any observation 4 (plannedRun sampleScript .any).world

/-- A stop between the two halves of a success. -/
def stoppedHalf : Played World Failure Projection :=
  simulate sampleScript .any (sampleController.perform (.requestStop (txt "operator_stop")))
    (halfRun sampleObservation).world

/-- The stopped run driven to its end. -/
def stoppedRun : Played World EngineFailure Projection :=
  playDrive sampleController sampleScript .any sampleObservation 8 stoppedHalf.world

/-- The workload failed, and its artifacts are unavailable. -/
def failedObservation : ExecutionObservation := ⟨.failed, .unavailable, none⟩

/-- A failure is recorded, and the next process observes a success. -/
def repeatedRun : Played World EngineFailure Projection :=
  playDrive sampleController sampleScript .any sampleObservation 8 (halfRun failedObservation).world

/-- With a coherent executor a closed run can have succeeded without verified
artifacts, when it was stopped between the two halves, and can have failed with
verified ones, when a second process observed something else. -/
theorem halves_disagree :
    (∃ w, Conduct.coherent.Driven sampleController Environment.any.answers w ∧
        ∃ e ∈ w.events, e.projection.state.lifecycle = .closed ∧
          e.projection.state.workloadResult = some .succeeded ∧ ¬e.projection.state.IsVerified) ∧
      ∃ w, Conduct.coherent.Driven sampleController Environment.any.answers w ∧
        ∃ e ∈ w.events, e.projection.state.lifecycle = .closed ∧
          e.projection.state.workloadResult = some .failed ∧ e.projection.state.IsVerified := by
  have hsuccess : ∀ w, Conduct.coherent.observes w sampleObservation :=
    fun _ => ⟨fun _ => rfl, fun _ => rfl⟩
  have hfailure : ∀ w, Conduct.coherent.observes w failedObservation :=
    fun _ => ⟨fun h => (by cases h), fun h => by cases h⟩
  have hends : ∀ w w', Conduct.coherent.ends w w' := fun _ _ => trivial
  have hplayed : (plannedRun sampleScript .any).allowed = true ∧
      (halfRun sampleObservation).allowed = true ∧ stoppedHalf.allowed = true ∧
      stoppedRun.allowed = true ∧ stoppedRun.world.closedWith .succeeded .unavailable = true ∧
      (halfRun failedObservation).allowed = true ∧ repeatedRun.allowed = true ∧
      repeatedRun.world.closedWith .failed .verified = true := by decide +kernel
  obtain ⟨hplan, hhalf, hstop, hstopped, hunavailable, hfailed, hrepeated, hverified⟩ := hplayed
  have hplanned : Conduct.coherent.Driven sampleController Environment.any.answers
      (plannedRun sampleScript .any).world := Conduct.driven_plannedRun trivial hplan
  constructor
  · have hw : Conduct.coherent.Driven sampleController Environment.any.answers
        (halfRun sampleObservation).world := Conduct.driven_playDrive hends hsuccess hplanned hhalf
    have houtside : (Call.requestStop (txt "operator_stop")).IsOutside := trivial
    have hs : Conduct.coherent.Driven sampleController Environment.any.answers stoppedHalf.world :=
      Conduct.driven_simulate houtside hw trivial hstop
    have hdriven : Conduct.coherent.Driven sampleController Environment.any.answers
        stoppedRun.world := Conduct.driven_playDrive hends hsuccess hs hstopped
    obtain ⟨e, he, hclosed, hresult, hiff⟩ := World.mem_of_closedWith hunavailable
    exact ⟨_, hdriven, e, he, hclosed, hresult, fun h => by cases hiff.mp h⟩
  · have hw : Conduct.coherent.Driven sampleController Environment.any.answers
        (halfRun failedObservation).world := Conduct.driven_playDrive hends hfailure hplanned hfailed
    have hdriven : Conduct.coherent.Driven sampleController Environment.any.answers
        repeatedRun.world := Conduct.driven_playDrive hends hsuccess hw hrepeated
    obtain ⟨e, he, hclosed, hresult, hiff⟩ := World.mem_of_closedWith hverified
    exact ⟨_, hdriven, e, he, hclosed, hresult, hiff.mpr rfl⟩

end RunpodJobrunner
