import RunpodJobrunner.CreateFence

/-!
# A lost create and the provider's deadline

A create that neither returned a resource nor was rejected may still have bought
one. Such a run may close only when its resolution shows the operation without a
resource twice, after the provider has terminated whatever there was. That holds
as long as the operation keeps a status the deletion calls uncertain; a create
that failed with another `ProviderError` loses it, and a stop then closes the
run after the five seconds of the absence grace alone.
-/

namespace RunpodJobrunner

/-! ## Lost creates -/

/-- The answer of a create leaves open whether there is a resource: the process
died in the call, or the exception is no rejection. -/
def leavesOpen : Option (Except ProviderFault ProviderResource) → Bool
  | none => true
  | some (.ok _) => false
  | some (.error (.error (.rejected _))) => false
  | some (.error _) => true

/-- A find that produced or named a resource. -/
def Entry.shows : Entry → Bool
  | .find _ (some (.ok found)) => !found.isEmpty
  | .find _ (some (.error (.error (.rejected e)))) => !e.resourceIds.isEmpty
  | _ => false

/-- The create of that request was lost, and no later find showed a resource. -/
def Lost (trace : List Entry) (request : ProviderCreateRequest) : Prop :=
  ∃ newer a older, trace = newer ++ .create request a :: older ∧ leavesOpen a = true ∧
    ∀ e ∈ newer, e.shows = false

/-- At that time the provider had just answered that the operation has no resource. -/
def Observed (trace : List Entry) (operationId : Text) (t : DateTime) : Prop :=
  ∃ newer older, trace = newer ++ .clock t :: .find operationId (some (.ok [])) :: older

/-- The resolution shows two empty observations of the operation, both at or after
the deadline of the request and five seconds apart. -/
structure ResolvedAfterDeadline (ctl : Controller) (w : World) (operationId : Text)
    (resolution : ProvisionResolution) : Prop where
  operation : resolution.operationId = operationId
  first : Observed w.trace operationId resolution.absenceFirstObservedAt
  confirmed : Observed w.trace operationId resolution.confirmedAt
  deadline : ∃ request d, w.request = some request ∧
    ctl.terminationDeadline request = .ok (resolution.terminationDeadline, d) ∧
    d.instant ≤ resolution.absenceFirstObservedAt.instant ∧
    d.instant ≤ resolution.confirmedAt.instant
  aware : resolution.absenceFirstObservedAt.isAware = true ∧ resolution.confirmedAt.isAware = true
  apart : absenceGrace ≤ resolution.confirmedAt.elapsed resolution.absenceFirstObservedAt

/-- With a lost create, every closed state has a resolution after the deadline. -/
def ClosesAfterDeadline (ctl : Controller) (w : World) : Prop :=
  ∀ e ∈ w.events, e.projection.state.lifecycle = .closed → ∀ request, Lost w.trace request →
    ∃ resolution, e.projection.state.closeout.provisionResolution = some resolution ∧
      ResolvedAfterDeadline ctl w request.operationId resolution

/-- Any provider; the calls are `plan`, `status`, `reconcile` and `request_stop`. -/
def Environment.operated : Environment where
  answers := fun _ _ => True
  issues := fun _ call =>
    match call with
    | .recordWorkloadResult _ | .recordArtifactDisposition _ _ => False
    | _ => True

/-- The same, where no run is stopped while its create stands as failed, and no
find of a lost create is rejected without naming a resource while provisioning. -/
def Environment.patient : Environment where
  answers := fun w e =>
    match e with
    | .find _ (some (.error (.error (.rejected r)))) =>
      (∃ s, w.current = some s ∧ s.lifecycle = .provisioning) →
        (∃ request, Lost w.trace request) → r.resourceIds ≠ []
    | _ => True
  issues := fun s call =>
    match call with
    | .requestStop _ => ∀ state op, s = some state → state.resource = none →
        state.operations.provision = some op → op.status ≠ .failed
    | .recordWorkloadResult _ | .recordArtifactDisposition _ _ => False
    | _ => True

variable {ctl : Controller} {env : Environment} {w w' : World}

/-! ## What the trace keeps -/

/-- An observation stays in the trace. -/
theorem Observed.cons {trace : List Entry} {operationId : Text} {t : DateTime} (e : Entry)
    (h : Observed trace operationId t) : Observed (e :: trace) operationId t := by
  obtain ⟨newer, older, rfl⟩ := h
  exact ⟨e :: newer, older, rfl⟩

/-- An empty answer and the time after it are an observation. -/
theorem Observed.head {operationId : Text} {t : DateTime} {rest : List Entry} :
    Observed (.clock t :: .find operationId (some (.ok [])) :: rest) operationId t :=
  ⟨[], rest, rfl⟩

/-- A create is lost when its call ends, or it was lost before and the new entry
shows nothing. -/
theorem Lost.of_cons {e : Entry} {trace : List Entry} {request : ProviderCreateRequest}
    (h : Lost (e :: trace) request) :
    (∃ a, e = .create request a ∧ leavesOpen a = true) ∨ (Lost trace request ∧ e.shows = false) := by
  obtain ⟨newer, a, older, ht, ha, hnewer⟩ := h
  cases newer with
  | nil =>
    obtain ⟨rfl, -⟩ := List.cons.inj ht
    exact .inl ⟨a, rfl, ha⟩
  | cons x newer =>
    obtain ⟨rfl, rfl⟩ := List.cons.inj ht
    exact .inr ⟨⟨newer, a, older, rfl, ha, fun x hx => hnewer x (List.mem_cons_of_mem _ hx)⟩,
      hnewer e List.mem_cons_self⟩

/-- A create that is lost was sent. -/
theorem Lost.isCreate {trace : List Entry} {request : ProviderCreateRequest}
    (h : Lost trace request) : creates trace ≠ [] := by
  obtain ⟨newer, a, older, rfl, -, -⟩ := h
  simp [creates, Entry.isCreate]

/-! ## Nothing is there before the create is settled -/

/-- A run that is planned or provisioning has no resource. -/
def Unprovisioned (w : World) : Prop :=
  ∀ s, w.current = some s → s.lifecycle = .planned ∨ s.lifecycle = .provisioning → s.resource = none

/-- A planned or provisioning run is committed without a resource. -/
theorem Commit.unprovisioned {kind : Text} {s' : RunState} (h : Commit ctl env w kind s')
    (hw : Unprovisioned w) (hlife : s'.lifecycle = .planned ∨ s'.lifecycle = .provisioning) :
    s'.resource = none := by
  cases h with
  | planned _ _ _ _ => rfl
  | intended hc hl =>
    have hnone := hw _ hc (.inl hl)
    exact hnone
  | dispatched hp _ _ | createFailed hp _ _ | visibilityPending hp _ _ =>
    have hnone := hw _ hp.current (.inr hp.lifecycle)
    exact hnone
  | startFailed hs _ _ => simp [hs.lifecycle] at hlife
  | started hs hl _ =>
    rcases hl with ⟨-, rfl⟩ | ⟨-, rfl⟩
    · simp at hlife
    · simp [hs.lifecycle] at hlife
  | adoptRejected hu _ _ | adoptDuplicates hu _ | adopted hu _ | notDispatched hu _
  | deadlinePending hu _ | absenceObserved hu _ _ _ _ _ | absencePending hu _
  | absenceConfirmed hu _ _ _ _ _ _ _ _ _ => simp [hu.lifecycle] at hlife
  | nothingPending hc _ _ | deleteFailed hc _ _ | deleted hc _ _ _ _ _ _ | absent hc _ _ _
  | deletionPending hc _ _ | spendObserved hc _ _ _ _ _ _ _ => simp [hc.lifecycle] at hlife
  | _ => simp at hlife

/-- A step leaves planned and provisioning runs without a resource. -/
theorem Step.unprovisioned (hstep : Step ctl env w w') (hw : Unprovisioned w) :
    Unprovisioned w' := by
  cases hstep with
  | commit _ hc _ =>
    intro s hs
    obtain rfl := Option.some.inj hs
    exact hc.unprovisioned hw
  | saw _ _ | corrupt | request _ _ | snapshot _ | receipt _ _ => exact hw

/-! ## The recorded observations are in the trace -/

/-- Every recorded observation was made. -/
structure Evidence (trace : List Entry) (s : RunState) : Prop where
  first : ∀ t, s.closeout.provisionAbsenceFirstObservedAt = some (some t) →
    ∃ op, s.operations.provision = some op ∧ Observed trace op.id t
  resolution : ∀ r, s.closeout.provisionResolution = some r →
    Observed trace r.operationId r.absenceFirstObservedAt ∧ Observed trace r.operationId r.confirmedAt

/-- A commit keeps the first observation, clears it or makes it, and keeps the
resolution or makes it from two observations. -/
theorem Commit.observation_cases {kind : Text} {s s' : RunState} (h : Commit ctl env w kind s')
    (hcur : w.current = some s) :
    (s'.closeout.provisionAbsenceFirstObservedAt = s.closeout.provisionAbsenceFirstObservedAt ∨
      s'.closeout.provisionAbsenceFirstObservedAt = some none ∨
      ∃ op now, s.operations.provision = some op ∧ Observed w.trace op.id now ∧
        s'.closeout.provisionAbsenceFirstObservedAt = some (some now)) ∧
    (s'.closeout.provisionResolution = s.closeout.provisionResolution ∨
      ∃ op text first now, s.operations.provision = some op ∧ Observed w.trace op.id now ∧
        s.closeout.provisionAbsenceFirstObservedAt = some (some first) ∧
        s'.closeout.provisionResolution = some ⟨op.id, text, first, now⟩) := by
  have hsame : ∀ {t : RunState}, w.current = some t → t = s := World.current_unique hcur
  cases h with
  | planned hempty _ _ _ => simp [World.current, hempty] at hcur
  | stopRequested hc _ _ =>
    obtain rfl := hsame hc
    exact ⟨.inl (by simp), .inl (by simp)⟩
  | workloadTerminal hc _ _ _ | dispositionRecorded hc _ _ _ | intended hc _ =>
    obtain rfl := hsame hc
    exact ⟨.inl rfl, .inl rfl⟩
  | findRejected hp _ | createRejected hp _ =>
    obtain rfl := hsame hp.current
    exact ⟨.inl (by simp), .inl (by simp)⟩
  | duplicates hp _ | dispatched hp _ _ | found hp _ | created hp _ | visibilityPending hp _ _
  | visibilityExhausted hp _ _ | createFailed hp _ _ =>
    obtain rfl := hsame hp.current
    exact ⟨.inl rfl, .inl rfl⟩
  | getRejected hs _ | startRejected hs _ =>
    obtain rfl := hsame hs.current
    exact ⟨.inl (by simp), .inl (by simp)⟩
  | missing hs _ | observedRunning hs _ | startFailed hs _ _ | started hs _ _ =>
    obtain rfl := hsame hs.current
    exact ⟨.inl rfl, .inl rfl⟩
  | adoptRejected hu _ _ | adopted hu _ | deadlinePending hu _ =>
    obtain rfl := hsame hu.current
    exact ⟨.inr (.inl rfl), .inl (by simp)⟩
  | adoptDuplicates hu _ | notDispatched hu _ | absencePending hu _ =>
    obtain rfl := hsame hu.current
    exact ⟨.inl rfl, .inl (by simp)⟩
  | absenceObserved hu _ _ htrace _ _ =>
    obtain rfl := hsame hu.current
    rw [htrace]
    exact ⟨.inr (.inr ⟨_, _, hu.provision, .head, rfl⟩), .inl rfl⟩
  | @absenceConfirmed _ _ _ deadline _ _ _ hu _ _ htrace _ _ hfirst _ _ _ =>
    obtain rfl := hsame hu.current
    refine ⟨.inl rfl, ?_⟩
    rw [htrace]
    cases deadline with
    | none => exact .inl rfl
    | some d => exact .inr ⟨_, d.1, _, _, hu.provision, .head, hfirst, rfl⟩
  | nothingPending hc _ _ | deleteFailed hc _ _ | deleted hc _ _ _ _ _ _ | absent hc _ _ _
  | deletionPending hc _ _ | spendObserved hc _ _ _ _ _ _ _ | closed hc _ _ _ _ _ _ =>
    obtain rfl := hsame hc.current
    exact ⟨.inl rfl, .inl rfl⟩

/-- What was observed stays in the trace. -/
theorem Evidence.cons {trace : List Entry} {s : RunState} (e : Entry) (h : Evidence trace s) :
    Evidence (e :: trace) s := by
  refine ⟨fun t ht => ?_, fun r hr => ?_⟩
  · obtain ⟨op, hop, hobs⟩ := h.first t ht
    exact ⟨op, hop, hobs.cons e⟩
  · obtain ⟨hfirst, hconfirmed⟩ := h.resolution r hr
    exact ⟨hfirst.cons e, hconfirmed.cons e⟩

/-- A commit keeps the id of a provision operation there is. -/
theorem Commit.provision_id {kind : Text} {s s' : RunState} {op : Operation}
    (h : Commit ctl env w kind s') (hcur : w.current = some s)
    (hop : s.operations.provision = some op) :
    ∃ op', s'.operations.provision = some op' ∧ op'.id = op.id := by
  obtain ⟨-, -, hsame | ⟨-, hnew⟩ | ⟨op₀, op', hop₀, hop', hid, -⟩⟩ := h.provision_cases hcur
  · exact ⟨op, hsame.trans hop, rfl⟩
  · rw [hop] at hnew
    exact ⟨op, hnew, rfl⟩
  · rw [hop] at hop₀
    obtain rfl := Option.some.inj hop₀
    exact ⟨op', hop', hid⟩

/-- A commit records only observations that were made. -/
theorem Commit.evidence {kind : Text} {s' : RunState} (h : Commit ctl env w kind s')
    (hw : ∀ s, w.current = some s → Evidence w.trace s) : Evidence w.trace s' := by
  rcases h.source with ⟨s, hcur⟩ | ⟨-, -, -, text, -, rfl⟩
  · obtain ⟨hfirst, hresolution⟩ := h.observation_cases hcur
    have hs := hw s hcur
    refine ⟨fun t ht => ?_, fun r hr => ?_⟩
    · rcases hfirst with hkept | hcleared | ⟨op, now, hop, hobs, hnew⟩
      · rw [hkept] at ht
        obtain ⟨op, hop, hobs⟩ := hs.first t ht
        obtain ⟨op', hop', hid⟩ := h.provision_id hcur hop
        exact ⟨op', hop', hid ▸ hobs⟩
      · rw [hcleared] at ht
        cases ht
      · rw [hnew] at ht
        obtain rfl := Option.some.inj (Option.some.inj ht)
        obtain ⟨op', hop', hid⟩ := h.provision_id hcur hop
        exact ⟨op', hop', hid ▸ hobs⟩
    · rcases hresolution with hkept | ⟨op, text, first, now, hop, hobs, hmade, hnew⟩
      · rw [hkept] at hr
        exact hs.resolution r hr
      · rw [hnew] at hr
        obtain rfl := Option.some.inj hr
        obtain ⟨op', hop', hfirst'⟩ := hs.first first hmade
        rw [hop] at hop'
        obtain rfl := Option.some.inj hop'
        exact ⟨hfirst', hobs⟩
  · exact ⟨fun t ht => (by cases ht), fun r hr => by cases hr⟩

/-- After a step every recorded observation was made. -/
theorem Step.evidence (hstep : Step ctl env w w')
    (hw : ∀ s, w.current = some s → Evidence w.trace s) :
    ∀ s, w'.current = some s → Evidence w'.trace s := by
  cases hstep with
  | saw _ _ =>
    intro s hs
    exact (hw s hs).cons _
  | commit _ hc _ =>
    intro s hs
    obtain rfl := Option.some.inj hs
    exact (hc.evidence hw).cons _
  | corrupt | request _ _ | snapshot _ | receipt _ _ => exact hw

/-! ## Closed states -/

/-- A closed state is the newest, and its create is resolved. -/
structure ClosedLast (ctl : Controller) (w : World) : Prop where
  newest : ∀ e ∈ w.events, e.projection.state.lifecycle = .closed → w.events.head? = some e
  resolved : ∀ s, w.current = some s → s.lifecycle = .closed → ctl.Resolved w s s.closeout

/-- Only a closeout makes a state closed, and with a resolved create. -/
theorem Commit.resolved {kind : Text} {s' : RunState} (h : Commit ctl env w kind s')
    (hclosed : s'.lifecycle = .closed) : ctl.Resolved w s' s'.closeout := by
  cases h with
  | closed _ _ _ _ _ _ hres => exact hres
  | workloadTerminal _ _ _ _ | dispositionRecorded _ _ _ _ | stopRequested _ _ _ => simp at hclosed
  | dispatched hp _ _ | createFailed hp _ _ | visibilityPending hp _ _ =>
    simp [hp.lifecycle] at hclosed
  | startFailed hs _ _ => simp [hs.lifecycle] at hclosed
  | started hs hl _ =>
    rcases hl with ⟨-, rfl⟩ | ⟨-, rfl⟩
    · simp at hclosed
    · simp [hs.lifecycle] at hclosed
  | adoptRejected hu _ _ | adoptDuplicates hu _ | adopted hu _ | notDispatched hu _
  | deadlinePending hu _ | absenceObserved hu _ _ _ _ _ | absencePending hu _
  | absenceConfirmed hu _ _ _ _ _ _ _ _ _ => simp [hu.lifecycle] at hclosed
  | nothingPending hc _ _ | deleteFailed hc _ _ | deleted hc _ _ _ _ _ _ | absent hc _ _ _
  | deletionPending hc _ _ | spendObserved hc _ _ _ _ _ _ _ => simp [hc.lifecycle] at hclosed
  | _ => simp at hclosed

/-- After a step a closed state is the newest. -/
theorem Step.closedLast (hstep : Step ctl env w w') (h : ClosedLast ctl w) : ClosedLast ctl w' := by
  cases hstep with
  | @commit kind s' _ hc _ =>
    refine ⟨fun e he hclosed => ?_, fun s hs hclosed => ?_⟩
    · rcases List.mem_cons.mp he with rfl | hold
      · rfl
      · -- the controller commits nothing after a closed state
        have hhead := h.newest e hold hclosed
        have hcur : w.current = some e.projection.state := by rw [World.current, hhead]; rfl
        exact absurd hclosed (hc.provision_cases hcur).1
    · obtain rfl := Option.some.inj hs
      exact hc.resolved hclosed
  | request hempty _ =>
    refine ⟨h.newest, fun s hs => ?_⟩
    simp [World.current, hempty] at hs
  | saw _ _ | corrupt | snapshot _ | receipt _ _ => exact ⟨h.newest, h.resolved⟩

theorem closedLast_empty : ClosedLast ctl .empty where
  newest := fun _ he => by cases he
  resolved := fun _ hs => by cases hs

/-! ## A lost create stays awaited -/

/-- The run still waits for the outcome of its create: without a resource, and
with a status that the deletion treats as uncertain, or `failed` before it. -/
structure Awaited (s : RunState) (op : Operation) : Prop where
  resource : s.resource = none
  provision : s.operations.provision = some op
  attempts : op.attempts ≠ 0
  status : op.status.isUncertain = true ∨ (op.status = .failed ∧ s.lifecycle = .provisioning)
  lifecycle : s.lifecycle = .provisioning ∨ s.lifecycle = .recovering ∨ s.lifecycle = .deleting ∨
    s.lifecycle = .closed

/-- The step that keeps a lost create awaited. -/
theorem Commit.awaited {kind : Text} {s s' : RunState} {op : Operation}
    {request : ProviderCreateRequest} (h : Commit ctl .patient w kind s')
    (hcur : w.current = some s) (hs : Awaited s op) (hlost : Lost w.trace request)
    (honce : (creates w.trace).length ≤ 1)
    (hnamed : ∀ id e rest, w.trace = .find id (some (.error (.error (.rejected e)))) :: rest →
      s.lifecycle = .provisioning → e.resourceIds ≠ []) :
    ∃ op', Awaited s' op' ∧ op'.id = op.id := by
  have hsame : ∀ {t : RunState}, w.current = some t → t = s := World.current_unique hcur
  -- a find at the head of the trace would be a later find, a create there a second one
  have hshows : ∀ {e : Entry} {rest}, w.trace = e :: rest → e.isCreate = false → e.shows = false := by
    intro e rest ht hcreate
    rw [ht] at hlost
    rcases hlost.of_cons with ⟨a, rfl, -⟩ | ⟨-, hno⟩
    · cases hcreate
    · exact hno
  have hopen : ∀ {r a rest}, w.trace = .create r a :: rest → leavesOpen a = true := by
    intro r a rest ht
    rw [ht] at hlost honce
    rcases hlost.of_cons with ⟨a', heq, ha⟩ | ⟨hrest, -⟩
    · obtain ⟨-, rfl⟩ := Entry.create.inj heq
      exact ha
    · have hpos := List.length_pos_iff.mpr hrest.isCreate
      simp only [creates, List.filter_cons, Entry.isCreate, if_true, List.length_cons] at honce hpos
      omega
  have hprovisioning : ∀ {op₀}, Provisioning w s op₀ → op₀ = op := by
    intro op₀ hp
    have hop := hp.operation
    rw [hs.provision] at hop
    exact (Option.some.inj hop).symm
  have hstarting : ∀ {op₀ r}, ¬Starting w s op₀ r := by
    intro op₀ r hst
    have hres := hst.resource
    rw [hs.resource] at hres
    cases hres
  have huncertain : s.lifecycle = .deleting → op.status.isUncertain = true := by
    intro hl
    rcases hs.status with hu | ⟨-, hp⟩
    · exact hu
    · rw [hl] at hp
      cases hp
  cases h with
  | planned hempty _ _ _ => simp [World.current, hempty] at hcur
  | workloadTerminal _ hissue _ _ | dispositionRecorded _ hissue _ _ => exact hissue.elim
  | stopRequested hc hissue _ =>
    obtain rfl := hsame hc
    -- the stop was not issued on a failed create
    have hne := hissue _ _ rfl hs.resource hs.provision
    have hstatus : op.status.isUncertain = true := by
      rcases hs.status with hu | ⟨hf, -⟩
      · exact hu
      · exact absurd hf hne
    exact ⟨op, ⟨by simpa using hs.resource, by simpa using hs.provision, hs.attempts, .inl hstatus,
      .inr (.inr (.inl (by simp)))⟩, rfl⟩
  | intended hc hl =>
    obtain rfl := hsame hc
    have hlife := hs.lifecycle
    simp [hl] at hlife
  | duplicates hp ht | found hp ht =>
    have hno := hshows ht rfl
    simp [Entry.shows] at hno
  | created hp ht | createRejected hp ht =>
    have hno := hopen ht
    simp [leavesOpen] at hno
  | findRejected hp ht =>
    obtain rfl := hsame hp.current
    have hno := hshows ht rfl
    simp [Entry.shows, hnamed _ _ _ ht hp.lifecycle] at hno
  | dispatched hp hintended _ =>
    obtain rfl := hsame hp.current
    obtain rfl := hprovisioning hp
    have hstatus := hs.status
    simp [hintended, OperationStatus.isUncertain] at hstatus
  | @createFailed t op₀ e _ _ hp _ _ =>
    obtain rfl := hsame hp.current
    obtain rfl := hprovisioning hp
    have hstatus :
        e.status.isUncertain = true ∨ (e.status = .failed ∧ t.lifecycle = .provisioning) := by
      cases e with
      | outcomeUnknown _ _ => exact .inl rfl
      | _ => exact .inr ⟨rfl, hp.lifecycle⟩
    exact ⟨_, ⟨hs.resource, rfl, hs.attempts, hstatus, .inl hp.lifecycle⟩, rfl⟩
  | visibilityPending hp _ _ =>
    obtain rfl := hsame hp.current
    obtain rfl := hprovisioning hp
    exact ⟨_, ⟨hs.resource, rfl, hs.attempts, hs.status, .inl hp.lifecycle⟩, rfl⟩
  | @visibilityExhausted _ op₀ now _ hp _ _ =>
    obtain rfl := hsame hp.current
    obtain rfl := hprovisioning hp
    exact ⟨{ op₀.observedOnce now with status := .unresolved },
      ⟨hs.resource, by simp, hs.attempts, .inl rfl, .inr (.inl rfl)⟩, rfl⟩
  | missing hst _ | getRejected hst _ | observedRunning hst _ | startRejected hst _
  | startFailed hst _ _ | started hst _ _ =>
    obtain rfl := hsame hst.current
    exact absurd hst hstarting
  | adoptRejected hu hne ht =>
    have hno := hshows ht rfl
    simp [Entry.shows, hne] at hno
  | adoptDuplicates hu ht | adopted hu ht =>
    have hno := hshows ht rfl
    simp [Entry.shows] at hno
  | notDispatched hu _ | deadlinePending hu _ | absenceObserved hu _ _ _ _ _ | absencePending hu _
  | absenceConfirmed hu _ _ _ _ _ _ _ _ _ =>
    obtain rfl := hsame hu.current
    exact ⟨op, ⟨hs.resource, hs.provision, hs.attempts, .inl (huncertain hu.lifecycle),
      .inr (.inr (.inl hu.lifecycle))⟩, rfl⟩
  | nothingPending hc _ _ | deleteFailed hc _ _ | deleted hc _ _ _ _ _ _ | absent hc _ _ _
  | deletionPending hc _ _ | spendObserved hc _ _ _ _ _ _ _ =>
    obtain rfl := hsame hc.current
    exact ⟨op, ⟨hs.resource, hs.provision, hs.attempts, .inl (huncertain hc.lifecycle),
      .inr (.inr (.inl hc.lifecycle))⟩, rfl⟩
  | closed hc _ _ _ _ _ _ =>
    obtain rfl := hsame hc.current
    exact ⟨op, ⟨hs.resource, hs.provision, hs.attempts, .inl (huncertain hc.lifecycle),
      .inr (.inr (.inr rfl))⟩, rfl⟩

/-- What a patient environment keeps of a run. -/
structure Patience (ctl : Controller) (w : World) : Prop where
  fence : Fence w
  unprovisioned : Unprovisioned w
  evidence : ∀ s, w.current = some s → Evidence w.trace s
  closed : ClosedLast ctl w
  /-- a rejected find that is about to be recorded names a resource -/
  named : ∀ id e rest, w.trace = .find id (some (.error (.error (.rejected e)))) :: rest →
    (∃ s, w.current = some s ∧ s.lifecycle = .provisioning) → (∃ request, Lost w.trace request) →
    e.resourceIds ≠ []
  awaited : ∀ request, Lost w.trace request →
    ∃ s op, w.current = some s ∧ Awaited s op ∧ op.id = request.operationId

theorem patience_empty : Patience ctl .empty where
  fence := fence_empty
  unprovisioned := fun _ hs => by cases hs
  evidence := fun _ hs => by cases hs
  closed := closedLast_empty
  named := fun _ _ _ ht => by cases ht
  awaited := fun _ hlost => by
    obtain ⟨newer, a, older, ht, -, -⟩ := hlost
    cases newer <;> cases ht

/-- A patient answer keeps `Patience`. -/
theorem Patience.saw {e : Entry} (h : Patience ctl w) (hallow : Environment.patient.allows w e)
    (hg : Guarded w e) : Patience ctl (w.saw e) := by
  refine ⟨h.fence.saw hg, h.unprovisioned, fun s hs => (h.evidence s hs).cons _,
    ⟨h.closed.newest, h.closed.resolved⟩, fun id r rest ht hlife hlost => ?_,
    fun request hlost => ?_⟩
  · obtain ⟨rfl, -⟩ := List.cons.inj ht
    obtain ⟨request, hlost⟩ := hlost
    rcases hlost.of_cons with ⟨a, hc, -⟩ | ⟨hlost, -⟩
    · cases hc
    · exact hallow hlife ⟨request, hlost⟩
  · rcases hlost.of_cons with ⟨a, rfl, -⟩ | ⟨hlost, -⟩
    · -- the create that was just lost stands behind its dispatch
      obtain ⟨e, rest, op, hhead, htrace, hkind, hlife, hop, hid, hstatus⟩ := hg
      obtain ⟨-, hattempts⟩ := h.fence.fresh e rest htrace hkind
      have hcur : w.current = some e.projection.state := by rw [World.current, hhead]; rfl
      have hone := hattempts op hop
      exact ⟨e.projection.state, op, hcur,
        ⟨h.unprovisioned _ hcur (.inr hlife), hop, by rw [hone]; decide,
          .inl (by rw [hstatus]; rfl), .inl hlife⟩, hid⟩
    · exact h.awaited request hlost

/-- A commit keeps `Patience`. -/
theorem Patience.append {kind : Text} {s' : RunState} {n : ℕ} (h : Patience ctl w)
    (hc : Commit ctl .patient w kind s') (hstep : Step ctl .patient w (w.append ⟨kind, ⟨n, s'⟩⟩)) :
    Patience ctl (w.append ⟨kind, ⟨n, s'⟩⟩) := by
  refine ⟨h.fence.append hc, hstep.unprovisioned h.unprovisioned, hstep.evidence h.evidence,
    hstep.closedLast h.closed, fun id r rest ht => ?_, fun request hlost => ?_⟩
  · cases (List.cons.inj ht).1
  · rcases hlost.of_cons with ⟨a, hcreate, -⟩ | ⟨hlost, -⟩
    · cases hcreate
    obtain ⟨s, op, hcur, hs, hid⟩ := h.awaited request hlost
    have hnamed : ∀ id e rest, w.trace = .find id (some (.error (.error (.rejected e)))) :: rest →
        s.lifecycle = .provisioning → e.resourceIds ≠ [] := by
      intro id e rest ht hlife
      exact h.named id e rest ht ⟨s, hcur, hlife⟩ ⟨request, hlost⟩
    obtain ⟨op', hs', hid'⟩ := hc.awaited hcur hs hlost h.fence.once hnamed
    exact ⟨s', op', rfl, hs', hid'.trans hid⟩

/-- A step keeps `Patience`. -/
theorem Step.patience (hstep : Step ctl .patient w w') (h : Patience ctl w) : Patience ctl w' := by
  cases hstep with
  | saw hallow hg => exact h.saw hallow hg
  | commit hr hc ha => exact h.append hc (.commit hr hc ha)
  | request hempty hnone =>
    exact ⟨⟨h.fence.committed, h.fence.undispatched, h.fence.once, h.fence.dispatched,
      h.fence.fresh, h.fence.fenced⟩, h.unprovisioned, h.evidence,
      Step.closedLast (@Step.request ctl .patient _ _ hempty hnone) h.closed, h.named,
      h.awaited⟩
  | corrupt | snapshot _ | receipt _ _ =>
    exact ⟨⟨h.fence.committed, h.fence.undispatched, h.fence.once, h.fence.dispatched,
      h.fence.fresh, h.fence.fenced⟩, h.unprovisioned, h.evidence,
      ⟨h.closed.newest, h.closed.resolved⟩, h.named, h.awaited⟩

/-! ## Closing after the deadline -/

/-- In a run whose environment is patient, a lost create is closed only with two
empty observations of its operation after the provider's deadline. -/
theorem closes_after_deadline (ctl : Controller) {w : World} (h : Reachable ctl .patient w) :
    ClosesAfterDeadline ctl w := by
  have hw : Patience ctl w := reachable_invariant patience_empty (fun _ _ hs hp => hs.patience hp) h
  intro e he hclosed request hlost
  have hhead := hw.closed.newest e he hclosed
  have hcur : w.current = some e.projection.state := by rw [World.current, hhead]; rfl
  obtain ⟨s, op, hs, hawaited, hid⟩ := hw.awaited request hlost
  rw [hcur] at hs
  obtain rfl := Option.some.inj hs
  have huncertain : op.status.isUncertain = true := by
    rcases hawaited.status with hu | ⟨-, hp⟩
    · exact hu
    · rw [hclosed] at hp
      cases hp
  rcases hw.closed.resolved _ hcur hclosed with hres | hnone | ⟨provision, hop, hdone⟩
  · exact absurd hawaited.resource hres
  · rw [hawaited.provision] at hnone
    cases hnone
  rw [hawaited.provision] at hop
  obtain rfl := Option.some.inj hop
  rcases hdone with hzero | hcertain | ⟨resolution, req, text, deadline, hrec, hreq, hdl, hok⟩
  · exact absurd hzero hawaited.attempts
  · rw [huncertain] at hcertain
    cases hcertain
  simp only [resolves, Bool.and_eq_true, beq_iff_eq, decide_eq_true_eq] at hok
  obtain ⟨⟨⟨⟨⟨⟨-, hoperation⟩, htext⟩, haware⟩, haware'⟩, hfirst⟩, hapart⟩ := hok
  obtain ⟨hobs, hobs'⟩ := (hw.evidence _ hcur).resolution resolution hrec
  rw [hoperation, hid] at hobs hobs'
  have hgrace : (0 : ℤ) ≤ absenceGrace := by decide
  refine ⟨resolution, hrec, hoperation.trans hid, hobs, hobs',
    ⟨req, deadline, hreq, by rw [htext]; exact hdl, hfirst, ?_⟩, ⟨haware, haware'⟩, hapart⟩
  rw [DateTime.elapsed] at hapart
  omega

/-! ## Two stopped runs -/

/-- The newest create of a trace, if it is lost. -/
def lostCreate : List Entry → Option ProviderCreateRequest
  | [] => none
  | .create request a :: _ => if leavesOpen a then some request else none
  | e :: rest => if e.shows then none else lostCreate rest

/-- What is found to be lost is lost. -/
theorem lost_of_lostCreate {trace : List Entry} {request : ProviderCreateRequest}
    (h : lostCreate trace = some request) : Lost trace request := by
  induction trace with
  | nil => cases h
  | cons e rest ih =>
    have hrest : e.shows = false → lostCreate rest = some request → Lost (e :: rest) request := by
      intro hno hr
      obtain ⟨newer, a, older, rfl, ha, hnewer⟩ := ih hr
      exact ⟨e :: newer, a, older, rfl, ha, List.forall_mem_cons.mpr ⟨hno, hnewer⟩⟩
    cases e with
    | create r a =>
      rw [lostCreate] at h
      split at h
      · next ha =>
        obtain rfl := Option.some.inj h
        exact ⟨[], a, rest, rfl, ha, by simp⟩
      · cases h
    | find op a =>
      rw [lostCreate] at h
      · split at h
        · cases h
        · next hno => exact hrest (by simpa using hno) h
      · intro r a' hc
        cases hc
    | _ =>
      rw [lostCreate] at h
      · exact hrest rfl (by simpa [Entry.shows] using h)
      · intro r a' hc
        cases hc

/-- A check for the patient environment. -/
def Check.patient : Check .patient where
  answers := fun _ e =>
    match e with
    | .find _ (some (.error (.error (.rejected _)))) => false
    | _ => true
  issues := fun s call =>
    match call with
    | .requestStop _ =>
      s.all fun state => state.operations.provision.all fun op => op.status != .failed
    | .recordWorkloadResult _ | .recordArtifactDisposition _ _ => false
    | _ => true
  answers_sound := fun w e h => by
    dsimp only [Environment.patient]
    split
    · cases h
    · trivial
  issues_sound := fun s call h => by
    cases call with
    | requestStop reason =>
      rintro state op rfl - hop
      simpa [hop] using h
    | recordWorkloadResult _ | recordArtifactDisposition _ _ => cases h
    | _ => trivial

/-- A check for reconciles and stops. -/
def Check.operated : Check .operated where
  answers := fun _ _ => true
  issues := fun _ call =>
    match call with
    | .recordWorkloadResult _ | .recordArtifactDisposition _ _ => false
    | _ => true
  answers_sound := fun _ _ _ => trivial
  issues_sound := fun s call h => by
    cases call with
    | recordWorkloadResult _ | recordArtifactDisposition _ _ => cases h
    | _ => trivial

/-- A create that raises, on a clock that reads an hour of the deadline's day. -/
def lossScript (hour : ℕ) (e : ProviderError) : Script :=
  { sampleScript with
    clock := fun w => ⟨2026, 7, 4, hour, w.trace.length, 0, 0, some 0⟩
    create := fun _ => .error (.error e) }

/-- Stopped right after the create, and reconciled to its closeout. -/
def stoppedCalls : List Call :=
  [.plan sampleRequest (.inl (txt "5")), .reconcile, .reconcile, .requestStop (txt "operator_stop"),
    .reconcile, .reconcile, .reconcile, .reconcile, .reconcile]

/-- The create's outcome is unknown, and the clock is past the deadline. -/
def unknownRun : World × Bool :=
  play sampleController
    (lossScript 13 (.outcomeUnknown (txt "create") (txt "op-459d2888-602c-5107-b20d-1caa1f7f9323")))
    .patient stoppedCalls .empty

theorem closes_after_deadline_unknown :
    unknownRun.1.current.map RunState.lifecycle = some .closed ∧
      (∃ request, Lost unknownRun.1.trace request) ∧
      ClosesAfterDeadline sampleController unknownRun.1 := by
  have hrun : unknownRun.2 = true ∧ unknownRun.1.current.map RunState.lifecycle = some .closed ∧
      (lostCreate unknownRun.1.trace).isSome = true := by decide +kernel
  obtain ⟨hplayed, hclosed, hlost⟩ := hrun
  obtain ⟨request, hrequest⟩ := Option.isSome_iff_exists.mp hlost
  exact ⟨hclosed, ⟨request, lost_of_lostCreate hrequest⟩,
    closes_after_deadline sampleController (reachable_play .empty hplayed)⟩

/-- The create failed, and the clock is three hours before the deadline. -/
def failedRun : World × Bool :=
  play sampleController (lossScript 9 (.other (txt "provider returned HTTP 500"))) .operated
    stoppedCalls .empty

/-- A create that failed is closed before the deadline, without a resolution. -/
theorem failed_create_closes_early :
    ∃ w, Reachable sampleController .operated w ∧ ¬ClosesAfterDeadline sampleController w := by
  have hrun : failedRun.2 = true ∧ (lostCreate failedRun.1.trace).isSome = true ∧
      (failedRun.1.events.head?.any fun e =>
        e.projection.state.lifecycle = .closed ∧
          e.projection.state.closeout.provisionResolution = none) = true := by decide +kernel
  obtain ⟨hplayed, hlost, hclosed⟩ := hrun
  refine ⟨failedRun.1, reachable_play .empty hplayed, fun h => ?_⟩
  obtain ⟨request, hrequest⟩ := Option.isSome_iff_exists.mp hlost
  obtain ⟨e, hhead, hstate⟩ := (Option.any_eq_true _ _).mp hclosed
  simp only [decide_eq_true_eq] at hstate
  obtain ⟨resolution, hresolution, -⟩ :=
    h e (List.mem_of_mem_head? hhead) hstate.1 request (lost_of_lostCreate hrequest)
  rw [hstate.2] at hresolution
  cases hresolution

end RunpodJobrunner
