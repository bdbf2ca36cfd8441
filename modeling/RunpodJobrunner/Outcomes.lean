import RunpodJobrunner.Simulation

/-!
# Outcomes

A run has no outcome while it is on its way to its workload or runs it, so the
steps that cancel it there overwrite nothing, and the recorders and the stop
check the old value themselves: the workload result and the artifact disposition
are written once. A stop sets both and starts the deletion, which no operation
leaves, so nothing is created or started after it.
-/

namespace RunpodJobrunner

/-- The lifecycles before an outcome. -/
def LifecycleState.isUnderway : LifecycleState → Bool
  | .planned | .provisioning | .starting | .running => true
  | .recovering | .deleting | .closed => false

/-- A run that is under way has neither half of its outcome. -/
def OutcomeOpen (s : RunState) : Prop :=
  s.lifecycle.isUnderway = true → s.workloadResult = none ∧ s.closeout.artifactDisposition = none

/-- `s'` comes after `s`: the outcome of `s` stands, and `s` was not closed. -/
structure Succeeds (s s' : RunState) : Prop where
  result : ∀ r, s.workloadResult = some r → s'.workloadResult = some r
  disposition : ∀ d, s.closeout.artifactDisposition = some d →
    s'.closeout.artifactDisposition = some d
  unclosed : s.lifecycle ≠ .closed

/-- The run is over: its outcome is complete, and it is being deleted or closed. -/
structure Ended (s : RunState) : Prop where
  lifecycle : s.lifecycle = .deleting ∨ s.lifecycle = .closed
  result : s.workloadResult ≠ none
  disposition : s.closeout.artifactDisposition ≠ none

/-- What succeeds what succeeds a state succeeds it. -/
theorem Succeeds.trans {s t u : RunState} (h : Succeeds s t) (h' : Succeeds t u) : Succeeds s u :=
  ⟨fun r hr => h'.result r (h.result r hr), fun d hd => h'.disposition d (h.disposition d hd),
    h.unclosed⟩

/-- Nothing is written over where nothing stands. -/
theorem OutcomeOpen.succeeds {s : RunState} (h : OutcomeOpen s)
    (hunder : s.lifecycle.isUnderway = true) (s' : RunState) : Succeeds s s' := by
  obtain ⟨hresult, hdisposition⟩ := h hunder
  refine ⟨fun r hr => ?_, fun d hd => ?_, fun hclosed => ?_⟩
  · rw [hresult] at hr
    cases hr
  · rw [hdisposition] at hd
    cases hd
  · rw [hclosed] at hunder
    cases hunder

/-- The same outcome, from a state that was not closed. -/
theorem Succeeds.of_eq {s s' : RunState} (hclosed : s.lifecycle ≠ .closed)
    (hresult : s'.workloadResult = s.workloadResult)
    (hdisposition : s'.closeout.artifactDisposition = s.closeout.artifactDisposition) :
    Succeeds s s' :=
  ⟨fun _ hr => hresult.trans hr, fun _ hd => hdisposition.trans hd, hclosed⟩

/-- A run that has ended goes on ended. -/
theorem Succeeds.ended {s s' : RunState} (h : Succeeds s s') (hs : Ended s)
    (hlife : s'.lifecycle = .deleting ∨ s'.lifecycle = .closed) : Ended s' := by
  obtain ⟨r, hr⟩ := Option.ne_none_iff_exists'.mp hs.result
  obtain ⟨d, hd⟩ := Option.ne_none_iff_exists'.mp hs.disposition
  exact ⟨hlife, by simp [h.result r hr], by simp [h.disposition d hd]⟩

section Stopped

variable (ctl : Controller) (s : RunState) (reason : Text)

/-- A stopped run has ended. -/
theorem ended_stoppedState : Ended (ctl.stoppedState s reason) :=
  ⟨.inl rfl, by simp, by simp⟩

/-- A stop keeps the half of the outcome that is there. -/
theorem succeeds_stoppedState (h : s.lifecycle ≠ .closed) :
    Succeeds s (ctl.stoppedState s reason) :=
  ⟨fun r hr => by simp [hr], fun d hd => by simp [hd], h⟩

end Stopped

variable {ctl : Controller} {env : Environment} {w w' : World}

/-! ## What a commit does to the outcome -/

/-- The kind of the event a stop commits. -/
def stopKind : Text := txt "stop_requested"

/-- The ways a commit treats the outcome: it keeps both halves, or writes one or
both of them. -/
inductive OutcomeChange (ctl : Controller) (env : Environment) (kind : Text) (s s' : RunState) :
    Prop where
  | same :
      s.lifecycle ≠ .closed → s'.workloadResult = s.workloadResult →
      s'.closeout.artifactDisposition = s.closeout.artifactDisposition →
      (s.lifecycle.isUnderway = true ∧ s'.lifecycle.isUnderway = true ∨
        s.lifecycle = .deleting ∧ s.closeout.artifactDisposition ≠ none ∧
          (s'.lifecycle = .deleting ∨ s'.lifecycle = .closed)) →
      OutcomeChange ctl env kind s s'
  | result {r} :
      env.issues (some s) (.recordWorkloadResult r) → s.lifecycle ≠ .closed →
      s.workloadResult = none → s'.workloadResult = some r →
      s'.closeout.artifactDisposition = s.closeout.artifactDisposition →
      s'.lifecycle = .recovering → OutcomeChange ctl env kind s s'
  | disposition {d detail} :
      env.issues (some s) (.recordArtifactDisposition d detail) → s.lifecycle ≠ .closed →
      s.closeout.artifactDisposition = none → s'.workloadResult = s.workloadResult →
      s'.closeout.artifactDisposition = some ⟨d, detail⟩ → s'.lifecycle = .deleting →
      OutcomeChange ctl env kind s s'
  | stopped {reason} :
      kind = stopKind → s.lifecycle ≠ .closed → s' = ctl.stoppedState s reason →
      OutcomeChange ctl env kind s s'
  /-- duplicates, a rejection, an exhausted visibility, a resource that disappeared -/
  | cancelled {detail} :
      s.lifecycle.isUnderway = true → s'.workloadResult = some .cancelled →
      s'.closeout.artifactDisposition = some ⟨.unavailable, detail⟩ →
      s'.lifecycle.isUnderway = false → OutcomeChange ctl env kind s s'

/-- **A commit treats the outcome** in one of the ways. -/
theorem Commit.outcomeChange {kind : Text} {s s' : RunState} (h : Commit ctl env w kind s')
    (hcur : w.current = some s) : OutcomeChange ctl env kind s s' := by
  have hsame : ∀ {t : RunState}, w.current = some t → t = s := World.current_unique hcur
  cases h with
  | planned hempty _ _ _ => simp [World.current, hempty] at hcur
  | workloadTerminal hc hissue hnone hclosed =>
    obtain rfl := hsame hc
    exact .result hissue hclosed hnone rfl rfl rfl
  | dispositionRecorded hc hissue hnone hclosed =>
    obtain rfl := hsame hc
    exact .disposition hissue hclosed hnone rfl rfl rfl
  | stopRequested hc _ hclosed =>
    obtain rfl := hsame hc
    exact .stopped rfl hclosed rfl
  | intended hc hlife =>
    obtain rfl := hsame hc
    exact .same (by simp [hlife]) rfl rfl (.inl ⟨by rw [hlife]; rfl, rfl⟩)
  -- the steps that give up before the workload write both halves
  | duplicates hp _ | findRejected hp _ | createRejected hp _ | visibilityExhausted hp _ _ =>
    obtain rfl := hsame hp.current
    exact .cancelled (by rw [hp.lifecycle]; rfl) (by simp) (by simp; rfl) (by simp; rfl)
  | dispatched hp _ _ | createFailed hp _ _ | visibilityPending hp _ _ =>
    obtain rfl := hsame hp.current
    have hunder := congrArg LifecycleState.isUnderway hp.lifecycle
    exact .same (by simp [hp.lifecycle]) rfl rfl (.inl ⟨hunder, hunder⟩)
  | found hp _ | created hp _ =>
    obtain rfl := hsame hp.current
    exact .same (by simp [hp.lifecycle]) rfl rfl (.inl ⟨by rw [hp.lifecycle]; rfl, rfl⟩)
  | missing hr _ | getRejected hr _ | startRejected hr _ =>
    obtain rfl := hsame hr.current
    exact .cancelled (by rw [hr.lifecycle]; rfl) (by simp) (by simp; rfl) (by simp; rfl)
  | observedRunning hr _ =>
    obtain rfl := hsame hr.current
    exact .same (by simp [hr.lifecycle]) rfl rfl (.inl ⟨by rw [hr.lifecycle]; rfl, rfl⟩)
  | startFailed hr _ _ =>
    obtain rfl := hsame hr.current
    have hunder := congrArg LifecycleState.isUnderway hr.lifecycle
    exact .same (by simp [hr.lifecycle]) rfl rfl (.inl ⟨hunder, hunder⟩)
  | started hr hlife _ =>
    obtain rfl := hsame hr.current
    refine .same (by simp [hr.lifecycle]) rfl rfl (.inl ⟨by rw [hr.lifecycle]; rfl, ?_⟩)
    rcases hlife with ⟨-, rfl⟩ | ⟨-, rfl⟩
    · rfl
    · simp [hr.lifecycle, LifecycleState.isUnderway]
  -- a deletion keeps what is written
  | adoptRejected hd _ _ | adoptDuplicates hd _ | adopted hd _ | notDispatched hd _
  | deadlinePending hd _ | absenceObserved hd _ _ _ _ _ | absencePending hd _
  | absenceConfirmed hd _ _ _ _ _ _ _ _ _ =>
    obtain rfl := hsame hd.current
    exact .same (by simp [hd.lifecycle]) (by simp) (by simp)
      (.inr ⟨hd.lifecycle, hd.disposition, .inl (by simp [hd.lifecycle])⟩)
  | nothingPending hd _ _ | deleteFailed hd _ _ | deleted hd _ _ _ _ _ _ | absent hd _ _ _
  | deletionPending hd _ _ | spendObserved hd _ _ _ _ _ _ _ =>
    obtain rfl := hsame hd.current
    exact .same (by simp [hd.lifecycle]) (by simp) (by simp)
      (.inr ⟨hd.lifecycle, hd.disposition, .inl (by simp [hd.lifecycle])⟩)
  | closed hd _ _ _ _ _ _ =>
    obtain rfl := hsame hd.current
    exact .same (by simp [hd.lifecycle]) rfl rfl (.inr ⟨hd.lifecycle, hd.disposition, .inr rfl⟩)

namespace OutcomeChange

variable {kind : Text} {s s' : RunState}

theorem unclosed (h : OutcomeChange ctl env kind s s') : s.lifecycle ≠ .closed := by
  cases h with
  | same hclosed _ _ _ | result _ hclosed _ _ _ _ | disposition _ hclosed _ _ _ _
  | stopped _ hclosed _ => exact hclosed
  | cancelled hunder _ _ _ =>
    intro hclosed
    rw [hclosed] at hunder
    cases hunder

/-- The outcome there is stays. -/
theorem succeeds (h : OutcomeChange ctl env kind s s') (hs : OutcomeOpen s) : Succeeds s s' := by
  have hclosed := h.unclosed
  cases h with
  | same _ hresult hdisposition _ => exact .of_eq hclosed hresult hdisposition
  | result _ _ hnone _ hdisposition _ =>
    refine ⟨fun r hr => ?_, fun d hd => hdisposition.trans hd, hclosed⟩
    rw [hnone] at hr
    cases hr
  | disposition _ _ hnone hresult _ _ =>
    refine ⟨fun r hr => hresult.trans hr, fun d hd => ?_, hclosed⟩
    rw [hnone] at hd
    cases hd
  | stopped _ _ hs' =>
    subst hs'
    exact succeeds_stoppedState ctl _ _ hclosed
  | cancelled hunder _ _ _ => exact hs.succeeds hunder s'

/-- A state left under way has no outcome yet. -/
theorem outcomeOpen (h : OutcomeChange ctl env kind s s') (hs : OutcomeOpen s) : OutcomeOpen s' := by
  intro hunder
  cases h with
  | same _ hresult hdisposition hlife =>
    rw [hresult, hdisposition]
    rcases hlife with ⟨hl, -⟩ | ⟨-, -, hl | hl⟩
    · exact hs hl
    · simp [hl, LifecycleState.isUnderway] at hunder
    · simp [hl, LifecycleState.isUnderway] at hunder
  | result _ _ _ _ _ hl | disposition _ _ _ _ _ hl =>
    simp [hl, LifecycleState.isUnderway] at hunder
  | stopped _ _ hs' =>
    subst hs'
    cases hunder
  | cancelled _ _ _ hl =>
    rw [hl] at hunder
    cases hunder

/-- A run that has ended is not taken up again. -/
theorem ended (h : OutcomeChange ctl env kind s s') (hopen : OutcomeOpen s) (hs : Ended s) :
    Ended s' := by
  cases h with
  | same hclosed hresult hdisposition hlife =>
    refine (Succeeds.of_eq hclosed hresult hdisposition).ended hs ?_
    rcases hlife with ⟨hl, -⟩ | ⟨-, -, hl⟩
    · exact absurd (hopen hl).1 hs.result
    · exact hl
  | result _ _ hnone _ _ _ => exact absurd hnone hs.result
  | disposition _ _ hnone _ _ _ => exact absurd hnone hs.disposition
  | stopped _ _ hs' =>
    subst hs'
    exact ended_stoppedState ctl _ _
  | cancelled hunder _ _ _ => exact absurd (hopen hunder).1 hs.result

end OutcomeChange

theorem outcomeOpen_initialState (text : Text) : OutcomeOpen (ctl.initialState text) :=
  fun _ => ⟨rfl, rfl⟩

/-- A commit leaves the outcome open while the run is under way. -/
theorem Commit.outcomeOpen {kind : Text} {s' : RunState} (h : Commit ctl env w kind s')
    (hw : ∀ s, w.current = some s → OutcomeOpen s) : OutcomeOpen s' := by
  rcases h.source with ⟨s, hcur⟩ | ⟨-, -, -, text, -, rfl⟩
  · exact (h.outcomeChange hcur).outcomeOpen (hw s hcur)
  · exact outcomeOpen_initialState text

/-! ## Written once -/

/-- The outcome is open while the run is under way, and every event of the journal
succeeds the ones before it. -/
structure WrittenOnce (w : World) : Prop where
  outcomeOpen : ∀ s, w.current = some s → OutcomeOpen s
  succeeds : w.events.Pairwise fun e' e => Succeeds e.projection.state e'.projection.state

/-- In the empty world nothing is written twice. -/
theorem writtenOnce_empty : WrittenOnce .empty := ⟨fun _ h => (by cases h), .nil⟩

/-- A commit writes no half again. -/
theorem WrittenOnce.append {kind : Text} {s' : RunState} {n : ℕ} (h : WrittenOnce w)
    (hc : Commit ctl env w kind s') : WrittenOnce (w.append ⟨kind, ⟨n, s'⟩⟩) := by
  refine ⟨fun s hs => ?_, List.pairwise_cons.mpr ⟨fun e he => ?_, h.succeeds⟩⟩
  · obtain rfl : s' = s := by simpa using hs
    exact hc.outcomeOpen h.outcomeOpen
  · -- the new state succeeds the newest one, which succeeds all the others
    match hevents : w.events, he with
    | newest :: rest, he =>
      have hcur : w.current = some newest.projection.state := by simp [World.current, hevents]
      have hnew := (hc.outcomeChange hcur).succeeds (h.outcomeOpen _ hcur)
      have holder := h.succeeds
      rw [hevents] at holder
      rcases List.mem_cons.mp he with rfl | hrest
      · exact hnew
      · exact (List.rel_of_pairwise_cons holder hrest).trans hnew

/-- A step writes no half again. -/
theorem Step.writtenOnce (hstep : Step ctl env w w') (h : WrittenOnce w) : WrittenOnce w' := by
  cases hstep with
  | commit _ hc _ => exact h.append hc
  | saw _ _ | corrupt | request _ _ | snapshot _ | receipt _ _ => exact ⟨h.outcomeOpen, h.succeeds⟩

/-- **Outcomes are written once, and closeout is absorbing.** In every run, of any
calls in any order, the events after one keep its workload result and its artifact
disposition, and there are none after a closed one. -/
theorem outcome_written_once (ctl : Controller) (env : Environment) {w : World}
    (h : Reachable ctl env w) {newer older : List Event} {e : Event}
    (he : w.events = newer ++ e :: older) :
    (∀ r, e.projection.state.workloadResult = some r →
        ∀ e' ∈ newer, e'.projection.state.workloadResult = some r) ∧
      (∀ d, e.projection.state.closeout.artifactDisposition = some d →
        ∀ e' ∈ newer, e'.projection.state.closeout.artifactDisposition = some d) ∧
      (e.projection.state.lifecycle = .closed → newer = []) := by
  have hw : WrittenOnce w :=
    reachable_invariant writtenOnce_empty (fun _ _ hs h => hs.writtenOnce h) h
  have hsucc : ∀ e' ∈ newer, Succeeds e.projection.state e'.projection.state := by
    intro e' hmem
    have hpair := hw.succeeds
    rw [he] at hpair
    exact (List.pairwise_append.mp hpair).2.2 e' hmem e List.mem_cons_self
  refine ⟨fun r hr e' hmem => (hsucc e' hmem).result r hr,
    fun d hd e' hmem => (hsucc e' hmem).disposition d hd, fun hclosed => ?_⟩
  cases newer with
  | nil => rfl
  | cons e' newer => exact absurd hclosed (hsucc e' List.mem_cons_self).unclosed

/-- The sample run is cancelled by its stop. -/
theorem outcome_written_once_sample :
    ∃ newer e older, sampleWorld.events = newer ++ e :: older ∧
      e.projection.state.workloadResult = some .cancelled ∧
      ∀ e' ∈ newer, e'.projection.state.workloadResult = some .cancelled := by
  have hcancelled : ∃ e ∈ sampleWorld.events,
      decide (e.projection.state.workloadResult = some .cancelled) = true :=
    List.any_eq_true.mp (by decide +kernel)
  obtain ⟨e, hmem, he⟩ := hcancelled
  obtain ⟨newer, older, hsplit⟩ := List.append_of_mem hmem
  have hresult := of_decide_eq_true he
  exact ⟨newer, e, older, hsplit, hresult,
    (outcome_written_once sampleController .any reachable_sampleWorld hsplit).1 _ hresult⟩

/-! ## Nothing paid after a stop -/

/-- A call that makes the provider charge: `provider.create` or `provider.start`. -/
def Entry.isPaid : Entry → Bool
  | .create _ _ | .start _ _ _ => true
  | _ => false

/-- The event of an error is no stop. -/
theorem eventKind_ne_stopKind (e : ProviderError) : e.eventKind ≠ stopKind := by
  have hunknown : txt "provider_outcome_unknown" ≠ stopKind := by simp [stopKind]
  have hfailed : txt "provider_operation_failed" ≠ stopKind := by simp [stopKind]
  cases e with
  | outcomeUnknown k o => exact hunknown
  | rejected r => exact hfailed
  | other m => exact hfailed

/-- Only a stop commits that kind of event, and it ends the run. -/
theorem Commit.of_stopKind {kind : Text} {s' : RunState} (h : Commit ctl env w kind s')
    (hkind : kind = stopKind) : Ended s' := by
  cases h with
  | stopRequested _ _ _ => exact ended_stoppedState ctl _ _
  | createFailed _ _ _ | startFailed _ _ _ | deleteFailed _ _ _ =>
    exact absurd hkind (eventKind_ne_stopKind _)
  | started _ h _ =>
    rcases h with ⟨rfl, -⟩ | ⟨rfl, -⟩
    · exact absurd hkind (by simp [stopKind])
    · exact absurd hkind (by simp [stopKind])
  | _ => exact absurd hkind (by simp [stopKind])

/-- A paid call is only made of a run that is provisioning or starting. -/
theorem Guarded.underway {e : Entry} (h : Guarded w e) (hpaid : e.isPaid = true) :
    ∃ s, w.current = some s ∧ s.lifecycle.isUnderway = true := by
  cases e with
  | create request a =>
    obtain ⟨e, -, -, hhead, -, -, hlife, -⟩ := h
    exact ⟨e.projection.state, by simp [World.current, hhead], by rw [hlife]; rfl⟩
  | start id op a =>
    obtain ⟨s, operation, resource, hs, -⟩ := h
    exact ⟨s, hs.current, by rw [hs.lifecycle]; rfl⟩
  | _ => cases hpaid

/-- What is in the trace after a stop, and where that leaves the run. -/
structure StopFence (w : World) : Prop extends WrittenOnce w where
  ended : ∀ newer e older, w.trace = newer ++ .commit e :: older → e.kind = stopKind →
    (∃ s, w.current = some s ∧ Ended s) ∧ (∀ x ∈ newer, x.isPaid = false) ∧
      ∀ e', .commit e' ∈ newer → Ended e'.projection.state

theorem stopFence_empty : StopFence .empty :=
  ⟨writtenOnce_empty, fun newer _ _ h => by cases newer <;> cases h⟩

/-- A guarded answer leaves the fence of a stop. -/
theorem StopFence.saw {e : Entry} (h : StopFence w) (hg : Guarded w e) : StopFence (w.saw e) := by
  refine ⟨⟨h.outcomeOpen, h.succeeds⟩, fun newer e' older ht hkind => ?_⟩
  cases newer with
  | nil =>
    obtain ⟨rfl, -⟩ := List.cons.inj ht
    exact absurd hg id
  | cons x newer =>
    obtain ⟨rfl, htail⟩ := List.cons.inj ht
    obtain ⟨⟨s, hcur, hs⟩, hunpaid, hcommits⟩ := h.ended newer e' older htail hkind
    refine ⟨⟨s, hcur, hs⟩, fun y hy => ?_, fun e₁ he₁ => ?_⟩
    · rcases List.mem_cons.mp hy with rfl | hy
      · -- a paid call needs a run under way, and this one has ended
        by_contra hpaid
        obtain ⟨t, ht, hunder⟩ := hg.underway (by simpa using hpaid)
        obtain rfl := World.current_unique hcur ht
        exact hs.result (h.outcomeOpen _ hcur hunder).1
      · exact hunpaid y hy
    · rcases List.mem_cons.mp he₁ with rfl | he₁
      · exact absurd hg id
      · exact hcommits e₁ he₁

/-- A commit leaves the fence of a stop. -/
theorem StopFence.append {kind : Text} {s' : RunState} {n : ℕ} (h : StopFence w)
    (hc : Commit ctl env w kind s') : StopFence (w.append ⟨kind, ⟨n, s'⟩⟩) := by
  refine ⟨h.toWrittenOnce.append hc, fun newer e older ht hkind => ?_⟩
  cases newer with
  | nil =>
    obtain ⟨he, -⟩ := List.cons.inj ht
    obtain rfl := Entry.commit.inj he
    exact ⟨⟨s', rfl, hc.of_stopKind hkind⟩, fun _ hx => (by cases hx), fun _ hx => by cases hx⟩
  | cons x newer =>
    obtain ⟨rfl, htail⟩ := List.cons.inj ht
    obtain ⟨⟨s, hcur, hs⟩, hunpaid, hcommits⟩ := h.ended newer e older htail hkind
    have hended := (hc.outcomeChange hcur).ended (h.outcomeOpen s hcur) hs
    refine ⟨⟨s', rfl, hended⟩, fun y hy => ?_, fun e₁ he₁ => ?_⟩
    · rcases List.mem_cons.mp hy with rfl | hy
      · rfl
      · exact hunpaid y hy
    · rcases List.mem_cons.mp he₁ with he | he₁
      · obtain rfl := Entry.commit.inj he
        exact hended
      · exact hcommits e₁ he₁

/-- A step leaves the fence of a stop. -/
theorem Step.stopFence (hstep : Step ctl env w w') (h : StopFence w) : StopFence w' := by
  cases hstep with
  | saw _ hg => exact h.saw hg
  | commit _ hc _ => exact h.append hc
  | corrupt | request _ _ | snapshot _ | receipt _ _ =>
    exact ⟨⟨h.outcomeOpen, h.succeeds⟩, h.ended⟩

/-- **Nothing paid after a stop.** In every run, once a stop has committed, the
provider is not asked to create or start anything, and every later event leaves
the run deleting or closed. -/
theorem nothing_paid_after_stop (ctl : Controller) (env : Environment) {w : World}
    (h : Reachable ctl env w) {newer older : List Entry} {e : Event}
    (ht : w.trace = newer ++ .commit e :: older) (hkind : e.kind = stopKind) :
    (∀ x ∈ newer, x.isPaid = false) ∧
      ∀ e', .commit e' ∈ newer →
        e'.projection.state.lifecycle = .deleting ∨ e'.projection.state.lifecycle = .closed := by
  have hw : StopFence w := reachable_invariant stopFence_empty (fun _ _ hs h => hs.stopFence h) h
  obtain ⟨-, hunpaid, hcommits⟩ := hw.ended newer e older ht hkind
  exact ⟨hunpaid, fun e' he' => (hcommits e' he').lifecycle⟩

/-- The entry is the commit of a stop. -/
def Entry.isStop : Entry → Bool
  | .commit e => e.kind = stopKind
  | _ => false

/-- The sample run has a stop, after its create. -/
theorem nothing_paid_after_stop_sample :
    ∃ newer e older, sampleWorld.trace = newer ++ .commit e :: older ∧ e.kind = stopKind ∧
      (∀ x ∈ newer, x.isPaid = false) ∧
      ∀ e', .commit e' ∈ newer →
        e'.projection.state.lifecycle = .deleting ∨ e'.projection.state.lifecycle = .closed := by
  have hstop : ∃ x ∈ sampleWorld.trace, x.isStop = true := List.any_eq_true.mp (by decide +kernel)
  obtain ⟨x, hmem, hx⟩ := hstop
  obtain ⟨newer, older, ht⟩ := List.append_of_mem hmem
  cases x with
  | commit e =>
    have hkind : e.kind = stopKind := by simpa [Entry.isStop] using hx
    exact ⟨newer, e, older, ht, hkind,
      nothing_paid_after_stop sampleController .any reachable_sampleWorld ht hkind⟩
  | _ => cases hx

end RunpodJobrunner
