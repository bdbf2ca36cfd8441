import RunpodJobrunner.LifecycleRules

/-!
# The transactions refine the steps

Whatever a public call does from a consistent world, and wherever it dies, the
world it leaves is reached by steps of `LifecycleSteps`. `Reachable` are the
worlds of a run whose calls are serialised by the run lock, and
`reachable_invariant` carries an invariant of the steps to all of them.
-/

namespace RunpodJobrunner

/-- The next sequence number is above the last event's. -/
theorem le_nextSequence {events : List Event} {e : Event} (h : events.head? = some e) :
    e.projection.eventSequence ≤ nextSequence events := by
  cases events with
  | nil => cases h
  | cons e' es =>
    obtain rfl : e' = e := by simpa using h
    exact Nat.le_succ _

variable {ctl : Controller} {env : Environment}

/-- A step keeps the projection that the store holds in line with its events. -/
theorem Step.consistent {w w' : World} (hstep : Step ctl env w w') (h : Consistent w) :
    Consistent w' := by
  cases hstep with
  | saw _ _ => exact ⟨h.snapshot, h.request⟩
  | corrupt => exact ⟨h.snapshot, h.request⟩
  | request hempty _ => exact ⟨h.snapshot, fun hr => by cases hr⟩
  | @commit kind s _ hc _ =>
    refine ⟨fun p hp => ⟨_, rfl, ?_⟩, fun hr => ?_⟩
    · obtain ⟨e, he, hle⟩ := h.snapshot p hp
      exact hle.trans (le_nextSequence he)
    · -- an event needs a state to start from, or a request
      have hcur : w.current = none := by simp [World.current, h.request hr]
      rcases hc.source with ⟨s, hs⟩ | ⟨-, hne, -⟩
      · rw [hcur] at hs
        cases hs
      · exact absurd hr hne
  | @snapshot e he =>
    refine ⟨fun p hp => ⟨e, he, ?_⟩, h.request⟩
    obtain rfl : e.projection = p := by simpa using hp
    exact le_rfl
  | receipt _ _ => exact ⟨h.snapshot, h.request⟩

/-! ## Staying within the steps -/

/-- The transaction leaves only worlds that steps reach from `w₀`. -/
abbrev Stays (ctl : Controller) (env : Environment) (w₀ : World) {α : Type} (p : Transaction α)
    (w : World) : Prop :=
  Keeps (machine env.answers) (Reaches ctl env w₀) (fun _ _ => True) (fun _ _ => True) p w

variable {w₀ w : World}

/-- An answer that the environment allows, to a guarded question, is a step. -/
theorem reaches_saw (hI : Reaches ctl env w₀ w) {e : Entry} (ha : env.allows w e)
    (hg : Guarded w e) : Reaches ctl env w₀ (w.saw e) :=
  hI.tail (.saw ha hg)

/-- Every world a commit can leave is reached by steps. -/
theorem reaches_commitLeaves (hI : Reaches ctl env w₀ w) {kind : Text} {s : RunState}
    (hread : w.readable = true) (hc : Commit ctl env w kind s)
    (hok : s.lifecycle = .closed → receiptAccepted s (nextSequence w.events) = true) {w' : World}
    (h : CommitLeaves w ⟨kind, ⟨nextSequence w.events, s⟩⟩ w') : Reaches ctl env w₀ w' := by
  have happend : ∀ w', Appended w ⟨kind, ⟨nextSequence w.events, s⟩⟩ w' → Reaches ctl env w₀ w' := by
    rintro w' (rfl | rfl)
    · exact hI.tail (.commit hread hc hok)
    · exact (hI.tail (.commit hread hc hok)).tail .corrupt
  have hhead : ∀ w', Appended w ⟨kind, ⟨nextSequence w.events, s⟩⟩ w' →
      w'.events.head? = some ⟨kind, ⟨nextSequence w.events, s⟩⟩ := by
    intro w' h
    rw [h.committed.events]
    rfl
  cases h with
  | nothing => exact hI
  | torn => exact hI.tail .corrupt
  | event h => exact happend _ h
  | @snapshot w₁ h => exact (happend w₁ h).tail (.snapshot (hhead w₁ h))
  | @receipt w₁ h hclosed =>
    have hsnapshot := (happend w₁ h).tail (.snapshot (hhead w₁ h))
    exact hsnapshot.tail (.receipt (hhead w₁ h) hclosed)

/-- A commit is a step, and the rest of the transaction goes on from what was committed. -/
theorem stays_commitState_bind {α : Type} {kind : Text} {s : RunState}
    {k : Projection → Transaction α} (hI : Reaches ctl env w₀ w) (hc : Commit ctl env w kind s)
    (hk : ∀ w', Reaches ctl env w₀ w' → Committed w ⟨kind, ⟨nextSequence w.events, s⟩⟩ w' →
      Stays ctl env w₀ (k ⟨nextSequence w.events, s⟩) w') :
    Stays ctl env w₀ (commitState kind s >>= k) w :=
  keeps_commitState hI (fun _ _ _ => trivial) (fun _ _ => trivial)
    (fun hread hok _ h => reaches_commitLeaves hI hread hc hok h) fun w' hI' hw' _ => hk w' hI' hw'

/-- A commit is a step. -/
theorem stays_commitState {kind : Text} {s : RunState} (hI : Reaches ctl env w₀ w)
    (hc : Commit ctl env w kind s) : Stays ctl env w₀ (commitState kind s) w := by
  rw [← Process.bind_done (commitState kind s)]
  exact stays_commitState_bind hI hc fun _ _ _ => trivial

/-- Another answer leaves a run provisioning. -/
theorem Provisioning.saw {s : RunState} {op : Operation} (h : Provisioning w s op) (e : Entry) :
    Provisioning (w.saw e) s op := ⟨h.current, h.lifecycle, h.operation⟩

/-- Another answer leaves a run starting. -/
theorem Starting.saw {s : RunState} {op : Operation} {resource : Resource}
    (h : Starting w s op resource) (e : Entry) : Starting (w.saw e) s op resource :=
  ⟨h.current, h.lifecycle, h.resource, h.operation⟩

/-- Another answer leaves a run deleting. -/
theorem Deleting.saw {s : RunState} {op : Operation} (h : Deleting w s op) (e : Entry) :
    Deleting (w.saw e) s op := ⟨h.current, h.lifecycle, h.disposition, h.operation⟩

/-- Another answer leaves a create unsettled. -/
theorem Unsettled.saw {s : RunState} {op provision : Operation} (h : Unsettled w s op provision)
    (e : Entry) : Unsettled (w.saw e) s op provision :=
  ⟨h.toDeleting.saw e, h.resource, h.provision, h.unconfirmed⟩

/-- Another answer leaves a run closing. -/
theorem Closing.saw {s : RunState} {op : Operation} (h : Closing w s op) (e : Entry) :
    Closing (w.saw e) s op := ⟨h.toDeleting.saw e, h.settled, h.quarantined⟩

/-- A fault of the provider that is raised leaves the run where it was. -/
theorem stays_raiseFault {α : Type} {fault : ProviderFault} :
    Stays ctl env w₀ (raiseFault fault : Transaction α) w := by
  cases fault <;> trivial

/-- A failed call is recorded, if the step relation allows that commit, and raised. -/
theorem stays_recordProviderError {s : RunState} {kind : OperationKind} {op : Operation}
    {fault : ProviderFault} (hI : Reaches ctl env w₀ w)
    (hc : ∀ e, fault = .error e →
      Commit ctl env w e.eventKind (s.setOperation kind (op.failedWith e))) :
    Stays ctl env w₀ (recordProviderError s kind op fault : Transaction Projection) w := by
  cases fault with
  | foreign => trivial
  | error e => exact stays_commitState_bind hI (hc e rfl) fun _ _ _ => trivial

/-! ## Provisioning -/

/-- `_record_provisioned` commits a resource that a create or an adoption found. -/
theorem stays_recordProvisioned {s : RunState} {op : Operation} {r : ProviderResource}
    (hI : Reaches ctl env w₀ w) (hop : s.operations.provision = some op)
    (hc : Commit ctl env w (txt "resource_provisioned") (ctl.provisionedState s op r)) :
    Stays ctl env w₀ (ctl.recordProvisioned s r) w := by
  rw [Controller.recordProvisioned]
  refine keeps_needOperation (fun _ => trivial) fun op' hop' => ?_
  obtain rfl : op = op' := by simpa [Operations.get, hop] using hop'
  by_cases hrun : r.runId ≠ s.runId
  · rw [if_pos hrun]
    trivial
  by_cases hcreate : r.createOperationId ≠ op.id
  · rw [if_neg hrun, if_pos hcreate]
    trivial
  rw [if_neg hrun, if_neg hcreate]
  exact stays_commitState hI hc

/-- `_record_provision_visibility_pending` follows an empty lookup of a dispatched create. -/
theorem stays_recordProvisionVisibilityPending {s : RunState} {op : Operation} {rest : List Entry}
    (hI : Reaches ctl env w₀ w) (hp : Provisioning w s op) (hstatus : op.status ≠ .intended)
    (htrace : w.trace = .find op.id (some (.ok [])) :: rest) :
    Stays ctl env w₀ (ctl.recordProvisionVisibilityPending s op) w := by
  rw [Controller.recordProvisionVisibilityPending]
  refine keeps_clock hI fun now => ?_
  have hI' := reaches_saw hI (e := .clock now) trivial trivial
  have htrace' : (w.saw (.clock now)).trace = .clock now :: .find op.id (some (.ok [])) :: rest := by
    rw [← htrace]
    rfl
  refine ⟨hI', ?_⟩
  by_cases haware : (!(op.firstSeen now).isAware || !now.isAware) = true
  · simp only [haware, if_true]
    trivial
  by_cases hfuture : now.elapsed (op.firstSeen now) < 0
  · simp only [haware, hfuture, if_true]
    trivial
  by_cases hgrace : (now.elapsed (op.firstSeen now) : ℚ) / 1000000 < ctl.visibilityGrace
  · simp only [haware, hfuture, hgrace, if_true, if_false]
    exact stays_commitState hI' (.visibilityPending (hp.saw _) hstatus htrace')
  · simp only [haware, hfuture, hgrace, if_false]
    exact stays_commitState hI' (.visibilityExhausted (hp.saw _) hstatus htrace')

/-- What follows the commit of a dispatch. -/
theorem stays_createOnce {s : RunState} {op : Operation} {request : ProviderCreateRequest}
    (hI : Reaches ctl env w₀ w) (hp : Provisioning w s op) (hfenced : Fenced w request) :
    Stays ctl env w₀ (ctl.createOnce s op request) w := by
  refine keeps_createResource (reaches_saw hI trivial hfenced) fun a ha => ?_
  have hI' := reaches_saw hI (e := .create request (some a)) ha hfenced
  refine ⟨hI', ?_⟩
  have htrace : (w.saw (.create request (some a))).trace = .create request (some a) :: w.trace := rfl
  match a, ha with
  | .error (.error (.rejected e)), _ =>
    exact stays_commitState hI' (.createRejected (hp.saw _) htrace)
  | .error (.error (.outcomeUnknown k o)), _ =>
    refine stays_recordProviderError hI' fun e he => ?_
    obtain rfl := ProviderFault.error.inj he
    exact .createFailed (hp.saw _) (fun _ h => by cases h) htrace
  | .error (.error (.other m)), _ =>
    refine stays_recordProviderError hI' fun e he => ?_
    obtain rfl := ProviderFault.error.inj he
    exact .createFailed (hp.saw _) (fun _ h => by cases h) htrace
  | .error .foreign, _ => trivial
  | .ok r, _ => exact stays_recordProvisioned hI' hp.operation (.created (hp.saw _) htrace)

/-- `_reconcile_provision`, from an empty lookup on: the dispatch is committed first. -/
theorem stays_dispatchCreate {s : RunState} {op : Operation} {rest : List Entry}
    (hI : Reaches ctl env w₀ w) (hp : Provisioning w s op) (hstatus : op.status = .intended)
    (htrace : w.trace = .find op.id (some (.ok [])) :: rest) :
    Stays ctl env w₀ (ctl.dispatchCreate s op) w := by
  refine keeps_readRequest hI (fun _ => trivial) (fun _ => trivial) fun request _ => ?_
  have hdispatch : ∀ spec : List (Text × Json), Stays ctl env w₀
      (clock >>= fun now =>
        commitState (txt "provider_operation_dispatched")
          (s.setOperation .provision (op.dispatched now)) >>= fun _ =>
        ctl.createOnce (s.setOperation .provision (op.dispatched now)) (op.dispatched now)
          (Controller.createRequest s op.id spec)) w := by
    intro spec
    refine keeps_clock hI fun now => ?_
    have hI' := reaches_saw hI (e := .clock now) trivial trivial
    refine ⟨hI', ?_⟩
    have htrace' :
        (w.saw (.clock now)).trace = .clock now :: .find op.id (some (.ok [])) :: rest := by
      rw [← htrace]
      rfl
    refine stays_commitState_bind hI' (.dispatched (hp.saw _) hstatus htrace') fun w' hI'' hw' => ?_
    refine stays_createOnce hI'' ⟨?_, hp.lifecycle, rfl⟩ ?_
    · rw [World.current, hw'.events]
      rfl
    · refine ⟨_, _, op.dispatched now, ?_, hw'.trace, rfl, hp.lifecycle, rfl, rfl, rfl⟩
      rw [hw'.events]
      rfl
  rw [Controller.providerSpec]
  cases Json.lookup (txt "provider") request with
  | none => exact hdispatch []
  | some provider =>
    cases provider with
    | obj members => exact hdispatch members
    | _ => trivial

/-- `_reconcile_provision` takes steps of the run only. -/
theorem stays_reconcileProvision {s : RunState} (hI : Reaches ctl env w₀ w)
    (hcur : w.current = some s) (hlife : s.lifecycle = .provisioning) :
    Stays ctl env w₀ (ctl.reconcileProvision s) w := by
  rw [Controller.reconcileProvision]
  refine keeps_needOperation (fun _ => trivial) fun op hop => ?_
  have hp : Provisioning w s op := ⟨hcur, hlife, hop⟩
  refine keeps_findResources (reaches_saw hI trivial trivial) fun a ha => ?_
  have hI' := reaches_saw hI (e := .find op.id (some a)) ha trivial
  have hp' := hp.saw (.find op.id (some a))
  refine ⟨hI', ?_⟩
  have htrace : (w.saw (.find op.id (some a))).trace = .find op.id (some a) :: w.trace := rfl
  match a, ha with
  | .error (.error (.rejected e)), _ => exact stays_commitState hI' (.findRejected hp' htrace)
  | .error (.error (.outcomeUnknown _ _)), _ => trivial
  | .error (.error (.other _)), _ => trivial
  | .error .foreign, _ => trivial
  | .ok (first :: second :: more), _ => exact stays_commitState hI' (.duplicates hp' htrace)
  | .ok [r], _ => exact stays_recordProvisioned hI' hop (.found hp' htrace)
  | .ok [], _ =>
    by_cases hstatus : op.status ≠ .intended
    · simp only [if_pos hstatus]
      exact stays_recordProvisionVisibilityPending hI' hp' hstatus htrace
    · simp only [if_neg hstatus]
      exact stays_dispatchCreate hI' hp' (by simpa using hstatus) htrace

/-! ## Starting -/

/-- `_reconcile_start`, from the observed resource on: at most one start is sent. -/
theorem stays_startOnce {s : RunState} {op : Operation} {resource : Resource}
    {observed : ProviderResource} {rest : List Entry} (hI : Reaches ctl env w₀ w)
    (hs : Starting w s op resource)
    (htrace : w.trace = .get resource.id (some (.ok (some observed))) :: rest) :
    Stays ctl env w₀
      (ctl.startOnce { s with resource := some (.projected observed) } op.attempted
        resource.id) w := by
  have hguard : ∀ a, Guarded w (.start resource.id op.id a) :=
    fun _ => ⟨s, op, resource, hs, rfl, rfl⟩
  refine keeps_startResource (reaches_saw hI trivial (hguard none)) fun a ha => ?_
  have hI' := reaches_saw hI (e := .start resource.id op.id (some a)) ha (hguard _)
  refine ⟨hI', ?_⟩
  have htrace' : (w.saw (.start resource.id op.id (some a))).trace =
      .start resource.id op.id (some a) :: .get resource.id (some (.ok (some observed))) :: rest := by
    rw [← htrace]
    rfl
  match a, ha with
  | .error (.error (.rejected e)), _ =>
    exact stays_commitState hI' (.startRejected (hs.saw _) htrace')
  | .error (.error (.outcomeUnknown k o)), _ =>
    refine stays_recordProviderError hI' fun e he => ?_
    obtain rfl := ProviderFault.error.inj he
    exact .startFailed (hs.saw _) (fun _ h => by cases h) htrace'
  | .error (.error (.other m)), _ =>
    refine stays_recordProviderError hI' fun e he => ?_
    obtain rfl := ProviderFault.error.inj he
    exact .startFailed (hs.saw _) (fun _ h => by cases h) htrace'
  | .error .foreign, _ => trivial
  | .ok started, _ =>
    by_cases hrunning : started.state = .running
    · simp only [if_pos hrunning]
      exact stays_commitState hI' (.started (hs.saw _) (.inl ⟨rfl, rfl⟩) htrace')
    · simp only [if_neg hrunning]
      exact stays_commitState hI' (.started (hs.saw _) (.inr ⟨rfl, rfl⟩) htrace')

/-- `_reconcile_start` takes steps of the run only. -/
theorem stays_reconcileStart {s : RunState} (hI : Reaches ctl env w₀ w)
    (hcur : w.current = some s) (hlife : s.lifecycle = .starting) :
    Stays ctl env w₀ (ctl.reconcileStart s) w := by
  rw [Controller.reconcileStart]
  cases hres : s.resource with
  | none => trivial
  | some resource =>
    refine keeps_needOperation (fun _ => trivial) fun op hop => ?_
    have hs : Starting w s op resource := ⟨hcur, hlife, hres, hop⟩
    refine keeps_getResource (reaches_saw hI trivial trivial) fun a ha => ?_
    have hI' := reaches_saw hI (e := .get resource.id (some a)) ha trivial
    have hs' := hs.saw (.get resource.id (some a))
    refine ⟨hI', ?_⟩
    have htrace :
        (w.saw (.get resource.id (some a))).trace = .get resource.id (some a) :: w.trace := rfl
    match a, ha with
    | .error (.error (.rejected e)), _ => exact stays_commitState hI' (.getRejected hs' htrace)
    | .error (.error (.outcomeUnknown _ _)), _ => trivial
    | .error (.error (.other _)), _ => trivial
    | .error .foreign, _ => trivial
    | .ok none, _ => exact stays_commitState hI' (.missing hs' htrace)
    | .ok (some observed), _ =>
      by_cases hrunning : observed.state = .running
      · simp only [if_pos hrunning]
        exact stays_commitState hI' (.observedRunning hs' htrace)
      · simp only [if_neg hrunning]
        exact stays_startOnce hI' hs' htrace

/-! ## Deleting -/

/-- The deadline is read from the files of the run, and what follows it is any step. -/
theorem stays_requiredDeadline {α : Type} {provision : Operation}
    {k : Option (Text × DateTime) → Transaction α} (hI : Reaches ctl env w₀ w)
    (hk : ∀ deadline, ctl.Deadline w provision deadline → Stays ctl env w₀ (k deadline) w) :
    Stays ctl env w₀ (ctl.requiredDeadline provision >>= k) w := by
  rw [Controller.requiredDeadline]
  by_cases h : 0 < provision.attempts ∧ provision.status.isUncertain = true
  · simp only [if_pos h, Process.bind_assoc]
    refine keeps_providerTerminationDeadline hI (fun _ => trivial) (fun _ => trivial)
      (fun _ _ => trivial) fun request d hr hd => ?_
    refine hk (some d) ?_
    rw [Controller.Deadline, if_pos h]
    exact ⟨request, d, hr, hd, rfl⟩
  · simp only [if_neg h]
    refine hk none ?_
    rw [Controller.Deadline, if_neg h]

theorem Controller.Deadline.saw {provision : Operation} {deadline : Option (Text × DateTime)}
    (h : ctl.Deadline w provision deadline) (e : Entry) :
    ctl.Deadline (w.saw e) provision deadline := h

/-- The absence of a create that was not settled is observed in steps. -/
theorem stays_reconcileAbsence {s : RunState} {op provision : Operation}
    (hI : Reaches ctl env w₀ w) (hu : Unsettled w s op provision) :
    Stays ctl env w₀ (ctl.reconcileAbsence s provision) w := by
  rw [Controller.reconcileAbsence]
  refine keeps_findResources (reaches_saw hI trivial trivial) fun a ha => ?_
  have hI' := reaches_saw hI (e := .find provision.id (some a)) ha trivial
  have hu' := hu.saw (.find provision.id (some a))
  refine ⟨hI', ?_⟩
  have htrace : (w.saw (.find provision.id (some a))).trace =
    .find provision.id (some a) :: w.trace := rfl
  match a, ha with
  | .error (.error (.rejected e)), _ =>
    by_cases hids : e.resourceIds = []
    · simp only [if_pos hids]
      trivial
    · simp only [if_neg hids]
      exact stays_commitState hI' (.adoptRejected hu' hids htrace)
  | .error (.error (.outcomeUnknown _ _)), _ => trivial
  | .error (.error (.other _)), _ => trivial
  | .error .foreign, _ => trivial
  | .ok (first :: second :: more), _ => exact stays_commitState hI' (.adoptDuplicates hu' htrace)
  | .ok [r], _ => exact stays_commitState hI' (.adopted hu' htrace)
  | .ok [], _ =>
    by_cases hattempts : provision.attempts = 0
    · simp only [if_pos hattempts]
      exact stays_commitState hI' (.notDispatched hu' hattempts)
    simp only [if_neg hattempts]
    refine stays_requiredDeadline hI' fun deadline hd => ?_
    refine keeps_clock hI' fun now => ?_
    have hI'' := reaches_saw hI' (e := .clock now) trivial trivial
    have hu'' := hu'.saw (.clock now)
    have hd' := hd.saw (.clock now)
    refine ⟨hI'', ?_⟩
    -- a clock without a time zone raises; before the deadline nothing is recorded
    by_cases haware : now.isAware = true
    · by_cases hnow : isBefore now deadline = true
      · simp only [haware, hnow, if_true]
        exact stays_commitState hI'' (.deadlinePending hu'' hattempts)
      have hnow' : isBefore now deadline = false := by simpa using hnow
      simp only [haware, hnow', Bool.not_true, Bool.false_eq_true, if_false]
      -- the absence is observed once after the deadline, and again after the grace
      cases hfirst : s.closeout.provisionAbsenceFirstObservedAt.join with
      | none => exact stays_commitState hI'' (.absenceObserved hu'' hattempts hd' rfl haware hnow')
      | some first =>
        by_cases hfaware : first.isAware = true
        · by_cases hearly : isBefore first deadline = true
          · simp only [hfaware, hearly, if_true]
            exact stays_commitState hI'' (.absenceObserved hu'' hattempts hd' rfl haware hnow')
          have hearly' : isBefore first deadline = false := by simpa using hearly
          by_cases hgrace : now.elapsed first < absenceGrace
          · simp only [hfaware, hearly', hgrace, if_true]
            exact stays_commitState hI'' (.absencePending hu'' hattempts)
          · simp only [hfaware, hearly', hgrace, Bool.not_true, Bool.false_eq_true, if_false]
            refine stays_commitState hI''
              (.absenceConfirmed hu'' hattempts hd' rfl haware hnow' ?_ hfaware hearly' ?_)
            · simpa [Option.join_eq_some_iff] using hfirst
            · omega
        · simp only [hfaware]
          trivial
    · simp only [haware]
      trivial

/-- Where every known id was asked for and none was found, the absence was seen. -/
theorem stays_resourcesAbsent {α : Type} {s : RunState} {k : Bool → Transaction α}
    (hI : Reaches ctl env w₀ w)
    (hk : ∀ absent w', Reaches ctl env w₀ w' → (w' = w ∨ ∃ e, w' = w.saw e) →
      (absent = true → AbsenceSeen w' s) → Stays ctl env w₀ (k absent) w') :
    Stays ctl env w₀ (Controller.resourcesAbsent s >>= k) w := by
  -- nothing is quarantined: there is no list, or an empty one
  have hunquarantined : (∀ id ids, s.quarantinedResourceIds = some (id :: ids) → False) →
      s.quarantinedResourceIds.getD [] = [] := by
    intro h
    cases hids : s.quarantinedResourceIds with
    | none => rfl
    | some ids =>
      cases ids with
      | nil => rfl
      | cons id ids => exact (h id ids hids).elim
  rw [Controller.resourcesAbsent]
  split
  · next id ids hq =>
    simp only [Process.bind_assoc]
    refine keeps_needOperation (fun _ => trivial) fun provision hp => ?_
    refine keeps_findResources (reaches_saw hI trivial trivial) fun a ha => ?_
    have hI' := reaches_saw hI (e := .find provision.id (some a)) ha trivial
    refine ⟨hI', keeps_orRaiseFault (fun _ _ => stays_raiseFault) fun remaining hremaining => ?_⟩
    refine hk _ _ hI' (.inr ⟨_, rfl⟩) fun habsent =>
      .inl ⟨⟨id, ids, hq⟩, provision, w.trace, hp, ?_⟩
    obtain rfl : remaining = [] := by simpa using habsent
    rw [hremaining]
    rfl
  · next hid hids =>
    exact hk true w hI (.inl rfl) fun _ => .inr
      (.inl ⟨hunquarantined hids, Option.map_eq_none_iff.mp hid⟩)
  · next id hid hids =>
    obtain ⟨resource, hres, rfl⟩ := Option.map_eq_some_iff.mp hid
    simp only [Process.bind_assoc]
    refine keeps_getResource (reaches_saw hI trivial trivial) fun a ha => ?_
    have hI' := reaches_saw hI (e := .get resource.id (some a)) ha trivial
    refine ⟨hI', keeps_orRaiseFault (fun _ _ => stays_raiseFault) fun found hfound => ?_⟩
    refine hk _ _ hI' (.inr ⟨_, rfl⟩) fun habsent =>
      .inr (.inr ⟨hunquarantined hids, resource, w.trace, hres, ?_⟩)
    obtain rfl : found = none := by simpa using habsent
    rw [hfound]
    rfl

/-- `_reconcile_closeout` takes steps of the run only. -/
theorem stays_reconcileCloseout {s : RunState} {op : Operation} (hI : Reaches ctl env w₀ w)
    (hc : Closing w s op) (hack : s.closeout.deleteAcknowledged = true) :
    Stays ctl env w₀ (ctl.reconcileCloseout s) w := by
  have hmoved : ∀ w', (w' = w ∨ ∃ e, w' = w.saw e) → Closing w' s op := by
    rintro w' (rfl | ⟨e, rfl⟩)
    · exact hc
    · exact hc.saw e
  rw [Controller.reconcileCloseout]
  cases hfound : s.closeout.providerNotFound with
  | false =>
    simp only [Bool.not_false, if_true]
    refine stays_resourcesAbsent hI fun absent w' hI' hw' habsent => ?_
    cases absent with
    | true => exact stays_commitState hI' (.absent (hmoved w' hw') hack hfound (habsent rfl))
    | false => exact stays_commitState hI' (.deletionPending (hmoved w' hw') hack hfound)
  | true =>
    simp only [Bool.not_true, Bool.false_eq_true, if_false]
    refine keeps_currentSpendScope hI (fun _ => trivial) (fun _ => trivial)
      (fun _ _ _ => trivial) fun scope hscope => ?_
    split
    · trivial
    refine keeps_observedSpend hI (reaches_saw hI trivial trivial)
      (fun a ha => reaches_saw hI ha trivial) (fun _ => stays_raiseFault)
        fun spend w' hI' hseen hspend => ?_
    have hw' : w' = w ∨ ∃ e, w' = w.saw e := hseen.imp And.left fun h => ⟨_, h⟩
    have hscope' : ctl.ScopeOf w' s s.closeout scope := by
      rcases hw' with rfl | ⟨e, rfl⟩
      · exact hscope
      · exact hscope.saw e
    by_cases hbad : (!spend.isFinite || spend.isNegative) = true
    · simp only [hbad, if_true]
      trivial
    obtain ⟨hfinite, hpositive⟩ : spend.isFinite = true ∧ spend.isNegative = false := by
      simpa using hbad
    simp only [hfinite, hpositive, Bool.not_true, Bool.or_self, Bool.false_eq_true, if_false]
    cases hzero : spend.isZero with
    | true =>
      refine keeps_assertCloseoutReady hI' (fun _ => trivial) (fun _ => trivial)
        (fun _ _ _ => trivial) (fun _ _ _ => trivial) fun hresolved => ?_
      exact stays_commitState hI'
        (.closed (hmoved w' hw') hack hfound hscope' hspend hzero hresolved)
    | false =>
      exact stays_commitState hI' (.spendObserved (hmoved w' hw') hack hfound hscope' hspend hfinite
        hpositive hzero)

/-- `_record_delete_receipt` commits an acknowledgement of the delete operation. -/
theorem stays_recordDeleteReceipt {s : RunState} {op : Operation} {receipt : DeleteReceipt}
    {id : Text} (hI : Reaches ctl env w₀ w)
    (hc : receipt.acknowledged = true → receipt.operationId = op.id →
      Commit ctl env w (txt "delete_acknowledged") (s.withReceipt op receipt id)) :
    Stays ctl env w₀ (Controller.recordDeleteReceipt s op receipt id) w := by
  rw [Controller.recordDeleteReceipt]
  by_cases hack : receipt.acknowledged = true
  · by_cases hid : receipt.operationId ≠ op.id
    · simp only [hack, if_pos hid]
      trivial
    · simp only [hack, if_neg hid]
      exact stays_commitState hI (hc hack (by simpa using hid))
  · simp only [hack]
    trivial

/-- `_reconcile_delete`, once the create is settled. -/
theorem stays_reconcileSettled {s : RunState} {op : Operation} (hI : Reaches ctl env w₀ w)
    (hd : Deleting w s op) (hsettled : Settled s) :
    Stays ctl env w₀ (ctl.reconcileSettled s op) w := by
  rw [Controller.reconcileSettled]
  by_cases hbad : (s.quarantinedResourceIds.any fun ids => ids.any List.isEmpty) = true
  · simp only [hbad, if_true]
    trivial
  have hc : Closing w s op := by
    refine ⟨hd, hsettled, fun ids hids id hid hnil => hbad ?_⟩
    rw [hids]
    exact List.any_eq_true.mpr ⟨id, hid, by rw [hnil]; rfl⟩
  simp only [hbad]
  cases hack : s.closeout.deleteAcknowledged with
  | true => exact stays_reconcileCloseout hI hc hack
  | false =>
    simp only [Bool.not_false, if_true]
    cases hpending : s.deleteIds.filter (· ∉ s.acknowledgedIds) with
    | nil =>
      refine stays_commitState hI (.nothingPending hc hack fun id hid => ?_)
      by_contra hmem
      have : id ∈ s.deleteIds.filter (· ∉ s.acknowledgedIds) :=
        List.mem_filter.mpr ⟨hid, by simpa using hmem⟩
      rw [hpending] at this
      cases this
    | cons id more =>
      have hid : id ∈ s.deleteIds ∧ id ∉ s.acknowledgedIds := by
        have : id ∈ s.deleteIds.filter (· ∉ s.acknowledgedIds) := by
          rw [hpending]
          exact List.mem_cons_self
        simpa using this
      refine keeps_deleteResource (reaches_saw hI trivial trivial) fun a ha => ?_
      have hI' := reaches_saw hI (e := .delete id op.id (some a)) ha trivial
      have hc' := hc.saw (.delete id op.id (some a))
      refine ⟨hI', ?_⟩
      cases a with
      | error fault =>
        refine stays_recordProviderError hI' fun e he => ?_
        subst he
        exact .deleteFailed hc' hack rfl
      | ok receipt =>
        refine stays_recordDeleteReceipt hI' fun hacknowledged hop => ?_
        exact .deleted hc' hack hid.1 hid.2 hacknowledged hop rfl

/-- `_reconcile_delete` takes steps of the run only. -/
theorem stays_reconcileDelete {s : RunState} (hI : Reaches ctl env w₀ w)
    (hcur : w.current = some s) (hlife : s.lifecycle = .deleting) :
    Stays ctl env w₀ (ctl.reconcileDelete s) w := by
  rw [Controller.reconcileDelete]
  by_cases hdisp : s.closeout.artifactDisposition = none
  · simp only [if_pos hdisp]
    trivial
  simp only [if_neg hdisp]
  refine keeps_needOperation (fun _ => trivial) fun op hop => ?_
  have hd : Deleting w s op := ⟨hcur, hlife, hdisp, hop⟩
  cases hres : s.resource with
  | some r => exact stays_reconcileSettled hI hd (.inl (by simp [hres]))
  | none =>
    cases hprov : s.operations.provision with
    | none => exact stays_reconcileSettled hI hd (.inr (.inl hprov))
    | some provision =>
      cases hconf : s.closeout.provisionAbsenceConfirmed with
      | true => exact stays_reconcileSettled hI hd (.inr (.inr hconf))
      | false => exact stays_reconcileAbsence hI ⟨hd, hres, hprov, hconf⟩

/-! ## The public calls -/

/-- **`reconcile` takes steps of the run only**, by the state it reads. -/
theorem stays_reconcile (hI : Reaches ctl env w₀ w) (hw : Consistent w) :
    Stays ctl env w₀ ctl.reconcile w := by
  refine keeps_currentState hI (fun _ => trivial) hw (fun _ => trivial) fun e he hcur => ?_
  cases hlife : e.projection.state.lifecycle with
  | planned => exact stays_commitState hI (.intended hcur hlife)
  | provisioning => exact stays_reconcileProvision hI hcur hlife
  | starting => exact stays_reconcileStart hI hcur hlife
  | deleting => exact stays_reconcileDelete hI hcur hlife
  | running | recovering | closed => trivial

/-- `record_workload_result` takes steps of the run only. -/
theorem stays_recordWorkloadResult {result : WorkloadResult} (hI : Reaches ctl env w₀ w)
    (hw : Consistent w) (hissue : env.issues w.current (.recordWorkloadResult result)) :
    Stays ctl env w₀ (Controller.recordWorkloadResult result) w := by
  refine keeps_currentState hI (fun _ => trivial) hw (fun _ => trivial) fun e he hcur => ?_
  cases hexisting : e.projection.state.workloadResult with
  | some existing =>
    by_cases h : existing = result
    · simp only [if_pos h]
      trivial
    · simp only [if_neg h]
      trivial
  | none =>
    by_cases hclosed : e.projection.state.lifecycle = .closed
    · simp only [if_pos hclosed]
      trivial
    · simp only [if_neg hclosed]
      exact stays_commitState hI (.workloadTerminal hcur (hcur ▸ hissue) hexisting hclosed)

/-- `record_artifact_disposition` takes steps of the run only. -/
theorem stays_recordArtifactDisposition {disposition : ArtifactDisposition} {detail : Option Text}
    (hI : Reaches ctl env w₀ w) (hw : Consistent w)
    (hissue : env.issues w.current (.recordArtifactDisposition disposition detail)) :
    Stays ctl env w₀ (ctl.recordArtifactDisposition disposition detail) w := by
  refine keeps_currentState hI (fun _ => trivial) hw (fun _ => trivial) fun e he hcur => ?_
  cases hexisting : e.projection.state.closeout.artifactDisposition with
  | some existing =>
    by_cases h : existing = ⟨disposition, detail⟩
    · simp only [if_pos h]
      trivial
    · simp only [if_neg h]
      trivial
  | none =>
    by_cases hclosed : e.projection.state.lifecycle = .closed
    · simp only [if_pos hclosed]
      trivial
    · simp only [if_neg hclosed]
      exact stays_commitState hI (.dispositionRecorded hcur (hcur ▸ hissue) hexisting hclosed)

/-- `request_stop` takes steps of the run only. -/
theorem stays_requestStop {reason : Text} (hI : Reaches ctl env w₀ w) (hw : Consistent w)
    (hissue : env.issues w.current (.requestStop reason)) :
    Stays ctl env w₀ (ctl.requestStop reason) w := by
  refine keeps_currentState hI (fun _ => trivial) hw (fun _ => trivial) fun e he hcur => ?_
  by_cases hclosed : e.projection.state.lifecycle = .closed
  · simp only [if_pos hclosed]
    trivial
  · simp only [if_neg hclosed]
    exact stays_commitState hI (.stopRequested hcur (hcur ▸ hissue) hclosed)

/-- `create_run` commits the first event or finds the run there. -/
theorem stays_createRun {request : List (Text × Json)} {text : Text} {planned approved}
    (hI : Reaches ctl env w₀ w) (hw : Consistent w)
    (hissue : w.current = none → env.issues none (.plan planned approved)) (hmoney : IsMoney text) :
    Stays ctl env w₀ (createRun request (ctl.initialState text)) w := by
  refine keeps_readRequestFile hI (fun _ => trivial) ?_
  cases hr : w.request with
  | some existing =>
    by_cases hsame : Json.same true (.obj existing) (.obj request) = true
    · simp only [if_pos hsame]
      refine keeps_readEvents hI (fun _ => trivial) fun _ => ?_
      refine keeps_readSnapshot hI (fun _ => trivial) ?_
      rw [hw.effective]
      cases he : w.events with
      | nil =>
        have hcur : w.current = none := by simp [World.current, he]
        exact stays_commitState hI (.planned he (by simp [hr]) (hissue hcur) hmoney)
      | cons e es => trivial
    · simp only [if_neg hsame]
      trivial
  | none =>
    have he := hw.request hr
    have hcur : w.current = none := by simp [World.current, he]
    have hI' : Reaches ctl env w₀ { w with request := some request } := hI.tail (.request he hr)
    refine keeps_writeRequest hI hI' (fun _ _ _ => trivial) ?_
    exact stays_commitState hI' (.planned he (by simp) (hissue hcur) hmoney)

/-- `plan` takes steps of the run only. -/
theorem stays_plan {request : List (Text × Json)} {approved : Text ⊕ Decimal}
    (hI : Reaches ctl env w₀ w) (hw : Consistent w)
    (hissue : env.issues w.current (.plan request approved)) :
    Stays ctl env w₀ (ctl.plan request approved) w := by
  rw [Controller.plan]
  cases hmoney : moneyOf approved with
  | none => trivial
  | some text => exact stays_createRun hI hw (fun h => h ▸ hissue) (isMoney_of_moneyOf hmoney)

/-- Reading the state takes no step. -/
theorem stays_readState (hI : Reaches ctl env w₀ w) (hw : Consistent w) :
    Stays ctl env w₀ readState w := by
  rw [readState]
  refine keeps_currentState hI (fun _ => trivial) hw (fun _ => trivial) fun e he hcur => ?_
  by_cases hclosed : e.projection.state.lifecycle = .closed
  · simp only [if_pos hclosed]
    exact keeps_ensureCloseoutReceipt hI (hI.tail (.receipt he hclosed)) (fun _ _ _ => trivial)
      fun _ _ _ => trivial
  · simp only [if_neg hclosed]
    trivial

/-- **Refinement.** A public call the environment issues leaves, whenever and
however it ends, a world that steps of the controller reach. -/
theorem stays_perform {call : Call} (hI : Reaches ctl env w₀ w) (hw : Consistent w)
    (hissue : env.issues w.current call) : Stays ctl env w₀ (ctl.perform call) w := by
  cases call with
  | plan request approved => exact stays_plan hI hw hissue
  | status => exact stays_readState hI hw
  | reconcile => exact stays_reconcile hI hw
  | recordWorkloadResult result => exact stays_recordWorkloadResult hI hw hissue
  | recordArtifactDisposition disposition detail =>
    exact stays_recordArtifactDisposition hI hw hissue
  | requestStop reason => exact stays_requestStop hI hw hissue

/-! ## Runs -/

/-- The worlds of a run: calls of any processes, one at a time under the run
lock, each ending in any way. -/
inductive Reachable (ctl : Controller) (env : Environment) : World → Prop where
  | empty : Reachable ctl env .empty
  | call {w w' : World} {call : Call} {o : Outcome Failure Projection} :
      Reachable ctl env w → env.issues w.current call →
      Runs (machine env.answers) (ctl.perform call) w o w' → Reachable ctl env w'

/-- However many steps are taken, the projection stays in line with the events. -/
theorem consistent_of_reaches {w w' : World} (h : Reaches ctl env w w') (hw : Consistent w) :
    Consistent w' :=
  @invariant_of_steps World (Step ctl env) Consistent (fun _ _ hs hc => hs.consistent hc) w w' h hw

/-- Every world of a run is reached by steps. -/
theorem Reachable.reaches {w : World} (h : Reachable ctl env w) : Reaches ctl env .empty w := by
  induction h with
  | empty => exact .refl
  | call _ hissue hrun ih =>
    have hw := consistent_of_reaches ih consistent_empty
    exact (Keeps.sound hrun (stays_perform ih hw hissue) ih).1

/-- **Invariants.** What holds of the empty world and is preserved by every step
holds of every world of every run. -/
theorem reachable_invariant {P : World → Prop} (hempty : P .empty)
    (hstep : ∀ w w', Step ctl env w w' → P w → P w') {w : World} (h : Reachable ctl env w) : P w :=
  invariant_of_steps hstep h.reaches hempty

end RunpodJobrunner
