import RunpodJobrunner.Simulation

/-!
# At most one create

A create is fenced by the commit of its dispatch: the journal holds the
dispatched operation before the provider is asked, and once an operation is
dispatched no commit makes it `intended` again or returns the run to `planned`,
whatever the provider answers and wherever a process dies.
-/

namespace RunpodJobrunner

/-! ## The committed events of a trace -/

/-- The events committed in a trace, newest first. -/
def committed : List Entry → List Event
  | [] => []
  | .commit e :: rest => e :: committed rest
  | _ :: rest => committed rest

/-- A call of `provider.create`. -/
def Entry.isCreate : Entry → Bool
  | .create _ _ => true
  | _ => false

/-- The creates of a trace. -/
def creates (trace : List Entry) : List Entry := trace.filter Entry.isCreate

/-- A guarded answer commits nothing. -/
theorem committed_saw {w : World} {e : Entry} (h : Guarded w e) :
    committed (w.saw e).trace = committed w.trace := by
  cases e with
  | commit e => exact absurd h id
  | _ => rfl

/-- Among the answers, only that of a create is one. -/
theorem creates_saw {w : World} {e : Entry} :
    creates (w.saw e).trace = if e.isCreate then e :: creates w.trace else creates w.trace := by
  rw [World.saw, creates, List.filter_cons]
  rfl

theorem creates_append {w : World} {e : Event} : creates (w.append e).trace = creates w.trace := rfl

variable {ctl : Controller} {env : Environment} {w w' : World}

/-- The trace records exactly the commits of the journal, in order. -/
theorem Step.committed (h : Step ctl env w w') (hw : committed w.trace = w.events) :
    committed w'.trace = w'.events := by
  cases h with
  | saw _ hg => rw [committed_saw hg]; exact hw
  | commit _ _ _ => exact congrArg _ hw
  | corrupt | request _ _ | snapshot _ | receipt _ _ => exact hw

/-! ## What a commit does to the provision operation -/

/-- A commit keeps the provision operation, makes it when the run is planned, or
changes it while provisioning, never back to `intended`. No commit follows a
closed state and none makes the run planned again. -/
theorem Commit.provision_cases {kind : Text} {s s' : RunState} (h : Commit ctl env w kind s')
    (hcur : w.current = some s) :
    s.lifecycle ≠ .closed ∧ s'.lifecycle ≠ .planned ∧
      (s'.operations.provision = s.operations.provision ∨
        (s.lifecycle = .planned ∧ s'.operations.provision =
          some (s.operations.provision.getD (ctl.newOperation .provision))) ∨
        ∃ op op', s.operations.provision = some op ∧ s'.operations.provision = some op' ∧
          op'.id = op.id ∧ op'.status ≠ .intended) := by
  have hsame : ∀ {t : RunState}, w.current = some t → t = s := World.current_unique hcur
  cases h with
  | planned hempty _ _ _ => simp [World.current, hempty] at hcur
  | workloadTerminal hc _ _ hlife | dispositionRecorded hc _ _ hlife | stopRequested hc _ hlife =>
    obtain rfl := hsame hc
    exact ⟨hlife, by simp, .inl (by simp)⟩
  | intended hc hlife =>
    obtain rfl := hsame hc
    exact ⟨by simp [hlife], by simp, .inr (.inl ⟨hlife, by simp⟩)⟩
  | duplicates hp _ | dispatched hp _ _ | findRejected hp _ | createRejected hp _ | found hp _
  | created hp _ | visibilityExhausted hp _ _ =>
    obtain rfl := hsame hp.current
    exact ⟨by simp [hp.lifecycle], by simp [hp.lifecycle],
      .inr (.inr ⟨_, _, hp.operation, by simp; rfl, by simp, by simp⟩)⟩
  | @createFailed _ _ e _ _ hp _ _ =>
    obtain rfl := hsame hp.current
    refine ⟨by simp [hp.lifecycle], by simp [hp.lifecycle],
      .inr (.inr ⟨_, _, hp.operation, by simp; rfl, by simp, ?_⟩)⟩
    cases e <;> simp [ProviderError.status]
  | visibilityPending hp hstatus _ =>
    obtain rfl := hsame hp.current
    exact ⟨by simp [hp.lifecycle], by simp [hp.lifecycle],
      .inr (.inr ⟨_, _, hp.operation, by simp; rfl, by simp, by simpa using hstatus⟩)⟩
  | missing hs _ | getRejected hs _ | observedRunning hs _ | startRejected hs _
  | startFailed hs _ _ =>
    obtain rfl := hsame hs.current
    exact ⟨by simp [hs.lifecycle], by simp [hs.lifecycle], .inl (by simp)⟩
  | started hs hlife _ =>
    obtain rfl := hsame hs.current
    refine ⟨by simp [hs.lifecycle], ?_, .inl (by simp)⟩
    rcases hlife with ⟨-, rfl⟩ | ⟨-, rfl⟩ <;> simp [hs.lifecycle]
  | adoptRejected hu _ _ | adoptDuplicates hu _ | adopted hu _ | notDispatched hu _
  | deadlinePending hu _ | absenceObserved hu _ _ _ _ _ | absencePending hu _
  | absenceConfirmed hu _ _ _ _ _ _ _ _ _ =>
    obtain rfl := hsame hu.current
    exact ⟨by simp [hu.lifecycle], by simp [hu.lifecycle], .inl (by simp)⟩
  | nothingPending hc _ _ | deleteFailed hc _ _ | deleted hc _ _ _ _ _ _ | absent hc _ _ _
  | deletionPending hc _ _ | spendObserved hc _ _ _ _ _ _ _ | closed hc _ _ _ _ _ _ =>
    obtain rfl := hsame hc.current
    exact ⟨by simp [hc.lifecycle], by simp [hc.lifecycle], .inl (by simp)⟩

/-- The kind of the event a dispatch commits. -/
def dispatchKind : Text := txt "provider_operation_dispatched"

/-- The event of an error is no dispatch. -/
theorem eventKind_ne_dispatchKind (e : ProviderError) : e.eventKind ≠ dispatchKind := by
  have hunknown : txt "provider_outcome_unknown" ≠ dispatchKind := by simp [dispatchKind]
  have hfailed : txt "provider_operation_failed" ≠ dispatchKind := by simp [dispatchKind]
  cases e with
  | outcomeUnknown k o => exact hunknown
  | rejected r => exact hfailed
  | other m => exact hfailed

/-- Only a dispatch commits that kind of event. -/
theorem Commit.of_dispatchKind {s' : RunState} {kind : Text} (h : Commit ctl env w kind s')
    (hkind : kind = dispatchKind) :
    ∃ s op now, Provisioning w s op ∧ op.status = .intended ∧
      s' = s.setOperation .provision (op.dispatched now) := by
  cases h with
  | dispatched hp hstatus _ => exact ⟨_, _, _, hp, hstatus, rfl⟩
  | createFailed _ _ _ | startFailed _ _ _ | deleteFailed _ _ _ =>
    exact absurd hkind (eventKind_ne_dispatchKind _)
  | started _ h _ =>
    rcases h with ⟨rfl, -⟩ | ⟨rfl, -⟩
    · exact absurd hkind (by simp [dispatchKind])
    · exact absurd hkind (by simp [dispatchKind])
  | _ => exact absurd hkind (by simp [dispatchKind])

/-! ## The fence -/

/-- The create has been dispatched: the operation is past `intended` for good. -/
def Dispatched (s : RunState) : Prop :=
  s.lifecycle ≠ .planned ∧ ∃ op, s.operations.provision = some op ∧ op.status ≠ .intended

/-- Before the dispatch: nothing is attempted, and a planned run has no operation. -/
structure Undispatched (s : RunState) : Prop where
  planned : s.lifecycle = .planned → s.operations.provision = none
  intended : ∀ op, s.operations.provision = some op → op.status = .intended → op.attempts = 0

/-- The event holds the dispatch of that request. -/
def DispatchOf (e : Event) (request : ProviderCreateRequest) : Prop :=
  ∃ op, e.projection.state.operations.provision = some op ∧ op.id = request.operationId ∧
    op.status = .dispatched ∧ op.attempts = 1

/-- The fence around `provider.create`. -/
structure Fence (w : World) : Prop where
  committed : committed w.trace = w.events
  undispatched : ∀ s, w.current = some s → Undispatched s
  once : (creates w.trace).length ≤ 1
  dispatched : creates w.trace ≠ [] → ∃ s, w.current = some s ∧ Dispatched s
  /-- right after a dispatch nothing has been created, and it is the first attempt -/
  fresh : ∀ e rest, w.trace = .commit e :: rest → e.kind = dispatchKind →
    creates rest = [] ∧ ∀ op, e.projection.state.operations.provision = some op → op.attempts = 1
  fenced : ∀ newer request a older, w.trace = newer ++ .create request a :: older →
    ∃ e ∈ RunpodJobrunner.committed older, DispatchOf e request

/-- The fence stands in the empty world. -/
theorem fence_empty : Fence .empty where
  committed := rfl
  undispatched := fun _ h => by cases h
  once := Nat.zero_le 1
  dispatched := fun h => absurd rfl h
  fresh := fun _ _ h => by cases h
  fenced := fun newer _ _ _ h => by cases newer <;> cases h

/-- An entry that is no create leaves the creates of a trace where they are. -/
theorem append_create_of_cons {e : Entry} {trace newer older : List Entry}
    {request : ProviderCreateRequest} {a} (he : e.isCreate = false)
    (h : e :: trace = newer ++ .create request a :: older) :
    ∃ newer', trace = newer' ++ .create request a :: older := by
  cases newer with
  | nil =>
    obtain ⟨rfl, -⟩ := List.cons.inj h
    cases he
  | cons x newer =>
    obtain ⟨-, rfl⟩ := List.cons.inj h
    exact ⟨newer, rfl⟩

/-- A guarded answer keeps the fence. -/
theorem Fence.saw {e : Entry} (h : Fence w) (hg : Guarded w e) : Fence (w.saw e) := by
  have hnocommit : ∀ e' rest, (w.saw e).trace ≠ .commit e' :: rest := by
    intro e' rest ht
    obtain ⟨rfl, -⟩ := List.cons.inj ht
    exact hg
  cases hcreate : e.isCreate with
  | false =>
    refine
      { committed := (committed_saw hg).trans h.committed
        undispatched := h.undispatched
        once := by simpa [creates_saw, hcreate] using h.once
        dispatched := fun hne => h.dispatched (by simpa [creates_saw, hcreate] using hne)
        fresh := fun e' rest ht => absurd ht (hnocommit e' rest)
        fenced := fun newer request a older ht => ?_ }
    obtain ⟨newer', ht'⟩ := append_create_of_cons hcreate ht
    exact h.fenced newer' request a older ht'
  | true =>
    cases e with
    | create request a =>
      obtain ⟨e, rest, op, hhead, htrace, hkind, hlife, hop, hid, hstatus⟩ := hg
      obtain ⟨hnone, hattempts⟩ := h.fresh e rest htrace hkind
      have hfirst : creates w.trace = [] := by
        rw [htrace]
        exact hnone
      refine
        { committed := h.committed
          undispatched := h.undispatched
          once := by simp [creates_saw, hfirst, Entry.isCreate]
          dispatched := fun _ => ⟨e.projection.state, ?_, ?_⟩
          fresh := fun e' rest' ht => absurd ht (hnocommit e' rest')
          fenced := fun newer request' a' older ht => ?_ }
      · rw [World.saw_current, World.current, hhead]
        rfl
      · exact ⟨by simp [hlife], op, hop, by simp [hstatus]⟩
      · cases newer with
        | nil =>
          obtain ⟨hreq, rfl⟩ := List.cons.inj ht
          obtain ⟨rfl, -⟩ := Entry.create.inj hreq
          exact ⟨e, by rw [htrace]; exact List.mem_cons_self,
            op, hop, hid, hstatus, hattempts op hop⟩
        | cons x newer =>
          -- an earlier create would contradict `hfirst`
          obtain ⟨-, ht⟩ := List.cons.inj ht
          rw [ht] at hfirst
          simp [creates, Entry.isCreate] at hfirst
    | _ => cases hcreate

/-- A commit counts no attempt before the dispatch. -/
theorem Commit.undispatched {kind : Text} {s' : RunState} (h : Commit ctl env w kind s')
    (hw : ∀ s, w.current = some s → Undispatched s) : Undispatched s' := by
  rcases h.source with ⟨s, hcur⟩ | ⟨-, -, -, text, -, rfl⟩
  · obtain ⟨-, hplanned, hop⟩ := h.provision_cases hcur
    have hs := hw s hcur
    refine ⟨fun hl => absurd hl hplanned, fun op hsome hstatus => ?_⟩
    rcases hop with hsame | ⟨hl, hnew⟩ | ⟨op₀, op', -, hop', -, hne⟩
    · exact hs.intended op (hsame ▸ hsome) hstatus
    · rw [hs.planned hl] at hnew
      obtain rfl : ctl.newOperation .provision = op := by simpa [hnew] using hsome
      rfl
    · obtain rfl : op' = op := by simpa [hop'] using hsome
      exact absurd hstatus hne
  · exact ⟨fun _ => rfl, fun op hsome => by cases hsome⟩

/-- A create that was dispatched stays so. -/
theorem Commit.dispatched_of_dispatched {kind : Text} {s s' : RunState}
    (h : Commit ctl env w kind s') (hcur : w.current = some s) (hs : Dispatched s) :
    Dispatched s' := by
  obtain ⟨-, hplanned, hop⟩ := h.provision_cases hcur
  obtain ⟨hne, op, hsome, hstatus⟩ := hs
  refine ⟨hplanned, ?_⟩
  rcases hop with hsame | ⟨hl, -⟩ | ⟨-, op', -, hop', -, hne'⟩
  · exact ⟨op, hsame.trans hsome, hstatus⟩
  · exact absurd hl hne
  · exact ⟨op', hop', hne'⟩

/-- A commit keeps the fence. -/
theorem Fence.append {kind : Text} {s' : RunState} {n : ℕ} (h : Fence w)
    (hc : Commit ctl env w kind s') : Fence (w.append ⟨kind, ⟨n, s'⟩⟩) := by
  refine
    { committed := congrArg _ h.committed
      undispatched := fun s hs => ?_
      once := h.once
      dispatched := fun hne => ?_
      fresh := fun e rest ht hkind => ?_
      fenced := fun newer request a older ht => ?_ }
  · obtain rfl : s' = s := by simpa using hs
    exact hc.undispatched h.undispatched
  · obtain ⟨s, hcur, hs⟩ := h.dispatched hne
    exact ⟨s', rfl, hc.dispatched_of_dispatched hcur hs⟩
  · obtain ⟨he, rfl⟩ := List.cons.inj ht
    obtain rfl := Entry.commit.inj he
    obtain ⟨s, op, now, hp, hstatus, rfl⟩ := hc.of_dispatchKind hkind
    have hzero := (h.undispatched s hp.current).intended op hp.operation hstatus
    refine ⟨?_, fun op' hop' => ?_⟩
    · -- a create would mean the operation is past `intended`
      by_contra hne
      obtain ⟨t, hcur, -, op', hop', hne'⟩ := h.dispatched hne
      obtain rfl : t = s := by
        rw [hp.current] at hcur
        exact (Option.some.inj hcur).symm
      obtain rfl : op' = op := by
        rw [hp.operation] at hop'
        exact (Option.some.inj hop').symm
      exact hne' hstatus
    · obtain rfl : op.dispatched now = op' := by simpa using hop'
      simp [hzero]
  · obtain ⟨newer', ht'⟩ := append_create_of_cons rfl ht
    exact h.fenced newer' request a older ht'

/-- A step keeps the fence. -/
theorem Step.fence (hstep : Step ctl env w w') (h : Fence w) : Fence w' := by
  cases hstep with
  | saw _ hg => exact h.saw hg
  | commit _ hc _ => exact h.append hc
  | corrupt | request _ _ | snapshot _ | receipt _ _ =>
    exact ⟨h.committed, h.undispatched, h.once, h.dispatched, h.fresh, h.fenced⟩

/-- **At most one create.** In every run, whatever its provider answers and
wherever its processes die, the trace has at most one create, and when it was
issued the journal already held a committed event with that operation dispatched
for the first time. -/
theorem create_fenced (ctl : Controller) (env : Environment) {w : World}
    (h : Reachable ctl env w) :
    (creates w.trace).length ≤ 1 ∧ committed w.trace = w.events ∧
      ∀ newer request a older, w.trace = newer ++ .create request a :: older →
        ∃ e ∈ committed older, DispatchOf e request := by
  have hfence : Fence w := reachable_invariant fence_empty (fun _ _ hs hw => hs.fence hw) h
  exact ⟨hfence.once, hfence.committed, hfence.fenced⟩

/-- The sample run has its create. -/
theorem create_fenced_sample :
    (creates sampleWorld.trace).length = 1 ∧ committed sampleWorld.trace = sampleWorld.events ∧
      ∀ newer request a older, sampleWorld.trace = newer ++ .create request a :: older →
        ∃ e ∈ committed older, DispatchOf e request :=
  ⟨by decide +kernel, (create_fenced sampleController .any reachable_sampleWorld).2⟩

end RunpodJobrunner
