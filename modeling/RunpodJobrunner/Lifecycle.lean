import RunpodJobrunner.RunTransaction

/-!
# The lifecycle controller

`LifecycleController`, one transaction for each public call. The dictionary a
method mutates is the state value it passes on, so a mutation that is never
committed is a value that is dropped.
-/

namespace RunpodJobrunner

/-- What a controller works with: its run, the operation ids, the visibility
grace, and the parser of ISO timestamps. -/
structure Controller where
  runId : RunId
  /-- `str(uuid.uuid5(_OPERATION_NAMESPACE, name))` -/
  uuid5 : Text → Text
  /-- a UUID is written with hexadecimal digits and hyphens -/
  uuid5_text : ∀ name, uuid5 name ≠ [] ∧ ∀ c ∈ uuid5 name, (isHex c || c == 45) = true
  /-- `provision_visibility_grace_seconds` -/
  visibilityGrace : ℚ
  visibilityGrace_pos : 0 < visibilityGrace
  /-- `datetime.fromisoformat`; `none` where it raises `ValueError` -/
  fromisoformat : Text → Option DateTime

/-! ## Operations -/

/-- The keys of `operations`. -/
inductive OperationKind : Type where
  | provision | start | delete
  deriving DecidableEq

/-- The key as it is stored. -/
def OperationKind.text : OperationKind → Text
  | .provision => txt "provision"
  | .start => txt "start"
  | .delete => txt "delete"

/-- `operations.get(kind)`. -/
@[simp] def Operations.get (ops : Operations) : OperationKind → Option Operation
  | .provision => ops.provision
  | .start => ops.start
  | .delete => ops.delete

/-- `operations[kind] = op`. -/
@[simp] def Operations.set (ops : Operations) (op : Operation) : OperationKind → Operations
  | .provision => { ops with provision := some op }
  | .start => { ops with start := some op }
  | .delete => { ops with delete := some op }

namespace Controller

variable (ctl : Controller)

/-- `_new_operation`. -/
def newOperation (kind : OperationKind) : Operation :=
  { id := txt "op-" ++
      ctl.uuid5 (txt "runpod-jobrunner/" ++ ctl.runId.val ++ txt "/" ++ kind.text ++ txt "/1")
    status := .intended
    attempts := 0
    dispatchedAt := none
    visibilityFirstObservedAt := none
    visibilityObservations := none
    lastVisibilityObservedAt := none
    lastError := none
    resourceId := none
    resourceIds := none }

/-- `operations.setdefault(kind, _new_operation(run_id, kind))`. -/
def setDefault (kind : OperationKind) (ops : Operations) : Operations :=
  match ops.get kind with
  | some _ => ops
  | none => ops.set (ctl.newOperation kind) kind

end Controller

/-- `state["operations"][kind] = op`. -/
@[simp] def RunState.setOperation (s : RunState) (kind : OperationKind) (op : Operation) : RunState :=
  { s with operations := s.operations.set op kind }

/-- `_object(operations, kind)`. -/
def needOperation (s : RunState) (kind : OperationKind) : Transaction Operation :=
  match s.operations.get kind with
  | some op => .done op
  | none => .raise (.conflict (txt "state field '" ++ kind.text ++ txt "' must be an object"))

/-- `_PROVISION_ABSENCE_GRACE_SECONDS`, in microseconds. -/
def absenceGrace : ℤ := 5000000

/-- `request.get(key)` of the request's provider section, when that is an object. -/
def providerField (request : List (Text × Json)) (key : Text) : Option Json :=
  match Json.lookup (txt "provider") request with
  | some (.obj members) => Json.lookup key members
  | _ => none

/-! ## The states the steps commit -/

/-- The event that records a failed call. -/
def ProviderError.eventKind : ProviderError → Text
  | .outcomeUnknown _ _ => txt "provider_outcome_unknown"
  | _ => txt "provider_operation_failed"

/-- The status a failed call leaves. -/
def ProviderError.status : ProviderError → OperationStatus
  | .outcomeUnknown _ _ => .outcomeUnknown
  | _ => .failed

namespace Operation

/-- `operation.get("dispatched_at") or operation.get("visibility_first_observed_at")`,
set to now when there is neither. -/
def firstSeen (op : Operation) (now : DateTime) : DateTime :=
  (op.dispatchedAt.or op.visibilityFirstObservedAt).getD now

/-- The operation with one more observation without a resource. -/
@[simp] def observedOnce (op : Operation) (now : DateTime) : Operation :=
  { op with
    visibilityFirstObservedAt :=
      if (op.dispatchedAt.or op.visibilityFirstObservedAt).isNone then some now
      else op.visibilityFirstObservedAt
    visibilityObservations := some (op.visibilityObservations.getD 0 + 1)
    lastVisibilityObservedAt := some now }

/-- The operation with one more attempt. -/
@[simp] def attempted (op : Operation) : Operation := { op with attempts := op.attempts + 1 }

/-- The operation as a dispatch records it. -/
@[simp] def dispatched (op : Operation) (now : DateTime) : Operation :=
  { op.attempted with status := .dispatched, dispatchedAt := some now }

/-- The operation after a failed call. -/
@[simp] def failedWith (op : Operation) (e : ProviderError) : Operation :=
  { op with status := e.status, lastError := some e.text }

end Operation

namespace RunState

/-- `closeout["artifact_disposition"] = {"status": UNAVAILABLE, "detail": detail}`. -/
@[simp] def unavailable (s : RunState) (detail : Text) : RunState :=
  { s with closeout :=
    { s.closeout with artifactDisposition := some ⟨.unavailable, some detail⟩ } }

/-- `state["quarantined_resource_ids"] = list(error.resource_ids)` and the first
as the resource, when the rejection names any. -/
def adoptNamed (s : RunState) (ids : List Text) : RunState :=
  match ids with
  | [] => s
  | id :: _ => { s with quarantinedResourceIds := some ids, resource := some (.named id) }

/-- `resource["id"]` of the state, if it has a resource. -/
def resourceId (s : RunState) : Option Text := s.resource.map Resource.id

/-- `quarantined_ids or ([resource_id] if resource_id is not None else [])`. -/
def deleteIds (s : RunState) : List Text :=
  match s.quarantinedResourceIds with
  | some (id :: ids) => id :: ids
  | _ => s.resourceId.toList

/-- `closeout.get("delete_acknowledged_resource_ids", [])`. -/
def acknowledgedIds (s : RunState) : List Text := s.closeout.deleteAcknowledgedResourceIds.getD []

/-- The ids `_record_delete_receipt` wants acknowledged. -/
def allResourceIds (s : RunState) : List Text :=
  match s.quarantinedResourceIds with
  | some ids => ids
  | none => s.resourceId.toList

/-- The mutations of an acknowledged delete. -/
@[simp] def withReceipt (s : RunState) (op : Operation) (receipt : DeleteReceipt)
    (resourceId : Text) : RunState :=
  let acknowledged :=
    if resourceId ∈ s.acknowledgedIds then s.acknowledgedIds else s.acknowledgedIds ++ [resourceId]
  let all := s.allResourceIds.all fun id => id ∈ acknowledged
  let s :=
    s.setOperation .delete { op with status := if all then .acknowledgedAll else .acknowledged }
  -- a later receipt does not take back that all are acknowledged
  { s with closeout :=
    { s.closeout with
      deleteAcknowledgedResourceIds := some acknowledged
      deleteAcknowledged := all || s.closeout.deleteAcknowledged
      deleteAlreadyAbsent := receipt.alreadyAbsent } }

/-- The mutations when no id is left to delete. -/
@[simp] def withNothingPending (s : RunState) (op : Operation) : RunState :=
  let nothing := s.deleteIds.isEmpty
  let s := s.setOperation .delete
    { op with status := if nothing then .notRequiredNoResource else .acknowledgedAll }
  { s with closeout :=
    { s.closeout with deleteAcknowledged := true, deleteAlreadyAbsent := nothing } }

/-- `closeout["provision_absence_first_observed_at"] = value`. -/
@[simp] def firstObserved (s : RunState) (value : Option DateTime) : RunState :=
  { s with closeout := { s.closeout with provisionAbsenceFirstObservedAt := some value } }

/-- `closeout["provision_absence_confirmed"] = True`, with the resolution when a
deadline was waited for. -/
@[simp] def absenceConfirmed (s : RunState) (resolution : Option ProvisionResolution) : RunState :=
  { s with closeout :=
    { s.closeout with
      provisionAbsenceConfirmed := true
      provisionResolution := resolution.or s.closeout.provisionResolution } }

/-- `closeout["provider_not_found"] = True`. -/
@[simp] def notFound (s : RunState) : RunState :=
  { s with closeout := { s.closeout with providerNotFound := true } }

/-- The spend observation, with its scope. -/
@[simp] def withSpend (s : RunState) (spend : Decimal) (scope : SpendScope) : RunState :=
  { s with closeout :=
    { s.closeout with
      currentSpendUsdPerHour := some (formatMoney spend)
      currentSpendScope := some scope } }

end RunState

/-- What `_provision_resolution_is_complete` asks of a recorded resolution. -/
def resolves (c : Closeout) (provision : Operation) (resolution : ProvisionResolution)
    (deadlineText : Text) (deadline : DateTime) : Bool :=
  let first := resolution.absenceFirstObservedAt
  let confirmed := resolution.confirmedAt
  c.provisionAbsenceConfirmed && resolution.operationId == provision.id &&
    resolution.terminationDeadline == deadlineText && first.isAware && confirmed.isAware &&
    decide (deadline.instant ≤ first.instant) && decide (absenceGrace ≤ confirmed.elapsed first)

/-- Strictly before the deadline, where there is one. -/
def isBefore (t : DateTime) : Option (Text × DateTime) → Bool
  | some (_, deadline) => t.instant < deadline.instant
  | none => false


namespace Controller

variable (ctl : Controller)

/-- `operations.setdefault("delete", ...)` and `lifecycle = DELETING`. -/
@[simp] def toDeleting (s : RunState) : RunState :=
  { s with operations := ctl.setDefault .delete s.operations, lifecycle := .deleting }

/-- The initial state of `plan`. -/
@[simp] def initialState (approved : Text) : RunState :=
  { runId := ctl.runId.val
    lifecycle := .planned
    workloadResult := none
    approvedMaxUsd := approved
    resource := none
    operations := { provision := none, start := none, delete := none }
    recoveryReason := none
    closeout :=
      { artifactDisposition := none
        deleteAcknowledged := false
        deleteAlreadyAbsent := false
        providerNotFound := false
        currentSpendUsdPerHour := none
        currentSpendScope := none
        deleteAcknowledgedResourceIds := none
        provisionAbsenceConfirmed := false
        provisionAbsenceFirstObservedAt := none
        provisionResolution := none }
    quarantinedResourceIds := none }

/-- The mutations of `_record_provider_rejection`. -/
@[simp] def rejectedState (s : RunState) (kind : OperationKind) (op : Operation)
    (e : ProviderRejected) : RunState :=
  let s := s.setOperation kind { op with status := .rejected, lastError := some e.message }
  let s := { s with workloadResult := some .cancelled }.unavailable e.message
  ctl.toDeleting (s.adoptNamed e.resourceIds)

/-- The mutations of the duplicate branch of `_reconcile_provision`. -/
@[simp] def duplicateState (s : RunState) (op : Operation) (first : ProviderResource)
    (ids : List Text) : RunState :=
  let op := { op with status := .conflict, resourceIds := some ids }
  let s := s.setOperation .provision op
  let s :=
    { s with
      recoveryReason := some (txt "duplicate_provider_resources")
      quarantinedResourceIds := some ids
      resource := some (.projected first)
      workloadResult := some .cancelled }
  ctl.toDeleting (s.unavailable (txt "duplicate provider resources quarantined"))

/-- The mutations of `_record_provisioned`. -/
@[simp] def provisionedState (s : RunState) (op : Operation) (r : ProviderResource) : RunState :=
  let s := s.setOperation .provision { op with status := .observed, resourceId := some r.id }
  { s with
    operations := ctl.setDefault .start s.operations
    resource := some (.projected r)
    lifecycle := .starting }

/-- The mutations of an exhausted visibility grace. -/
@[simp] def unresolvedState (s : RunState) (op : Operation) : RunState :=
  let s := s.setOperation .provision { op with status := .unresolved }
  let s :=
    { s with
      recoveryReason := some (txt "provision_dispatch_unresolved")
      workloadResult := some .cancelled }.unavailable
        (txt "provider create was dispatched but its exact resource did not become visible")
  { s with operations := ctl.setDefault .delete s.operations, lifecycle := .recovering }

/-- The mutations of a resource that disappeared before its start. -/
@[simp] def missingState (s : RunState) (op : Operation) : RunState :=
  let s := s.setOperation .start { op with status := .resourceNotFound }
  let s :=
    { s with
      recoveryReason := some (txt "resource_disappeared_before_start")
      workloadResult := some .cancelled }.unavailable
        (txt "provider resource disappeared before workload start")
  ctl.toDeleting s

/-- The mutations of `request_stop`. -/
def stoppedState (s : RunState) (reason : Text) : RunState :=
  let s := { s with workloadResult := some (s.workloadResult.getD .cancelled) }
  let s := if s.closeout.artifactDisposition = none then s.unavailable reason else s
  ctl.toDeleting s

end Controller

/-! ## What the states keep -/

section Fields

variable (ctl : Controller) (s : RunState)

@[simp] theorem Controller.setDefault_eq (kind : OperationKind) (ops : Operations) :
    ctl.setDefault kind ops = ops.set ((ops.get kind).getD (ctl.newOperation kind)) kind := by
  rw [Controller.setDefault]
  cases kind <;> cases ops with
  | mk p st d => first | cases p <;> rfl | cases st <;> rfl | cases d <;> rfl

@[simp] theorem adoptNamed_runId (ids : List Text) : (s.adoptNamed ids).runId = s.runId := by
  cases ids <;> rfl

@[simp] theorem adoptNamed_lifecycle (ids : List Text) :
    (s.adoptNamed ids).lifecycle = s.lifecycle := by cases ids <;> rfl

@[simp] theorem adoptNamed_workloadResult (ids : List Text) :
    (s.adoptNamed ids).workloadResult = s.workloadResult := by cases ids <;> rfl

@[simp] theorem adoptNamed_approvedMaxUsd (ids : List Text) :
    (s.adoptNamed ids).approvedMaxUsd = s.approvedMaxUsd := by cases ids <;> rfl

@[simp] theorem adoptNamed_operations (ids : List Text) :
    (s.adoptNamed ids).operations = s.operations := by cases ids <;> rfl

@[simp] theorem adoptNamed_closeout (ids : List Text) :
    (s.adoptNamed ids).closeout = s.closeout := by cases ids <;> rfl

@[simp] theorem stoppedState_lifecycle (reason : Text) :
    (ctl.stoppedState s reason).lifecycle = .deleting := rfl

@[simp] theorem stoppedState_runId (reason : Text) :
    (ctl.stoppedState s reason).runId = s.runId := by
  rw [Controller.stoppedState]
  split <;> rfl

@[simp] theorem stoppedState_approvedMaxUsd (reason : Text) :
    (ctl.stoppedState s reason).approvedMaxUsd = s.approvedMaxUsd := by
  rw [Controller.stoppedState]
  split <;> rfl

@[simp] theorem stoppedState_workloadResult (reason : Text) :
    (ctl.stoppedState s reason).workloadResult = some (s.workloadResult.getD .cancelled) := by
  rw [Controller.stoppedState]
  split <;> rfl

@[simp] theorem stoppedState_operations (reason : Text) :
    (ctl.stoppedState s reason).operations = ctl.setDefault .delete s.operations := by
  rw [Controller.stoppedState]
  split <;> rfl

@[simp] theorem stoppedState_resource (reason : Text) :
    (ctl.stoppedState s reason).resource = s.resource := by
  rw [Controller.stoppedState]
  split <;> rfl

@[simp] theorem stoppedState_quarantinedResourceIds (reason : Text) :
    (ctl.stoppedState s reason).quarantinedResourceIds = s.quarantinedResourceIds := by
  rw [Controller.stoppedState]
  split <;> rfl

@[simp] theorem stoppedState_closeout (reason : Text) :
    (ctl.stoppedState s reason).closeout =
      { s.closeout with
        artifactDisposition :=
          some (s.closeout.artifactDisposition.getD ⟨.unavailable, some reason⟩) } := by
  rw [Controller.stoppedState]
  rcases hs : s.closeout.artifactDisposition with - | recorded
  · simp
  · have hsome : s.closeout = { s.closeout with artifactDisposition := some recorded } := by rw [← hs]
    simpa [hs] using hsome

end Fields

/-! ## Failing provider calls -/

/-- An exception of a provider call that is neither handled nor a `ProviderError`
is passed on. -/
def raiseFault {α : Type} : ProviderFault → Transaction α
  | .error e => .raise (.provider e)
  | .foreign => .raise .foreign

/-- The answer of a provider call whose exceptions nothing handles. -/
def orRaiseFault {α : Type} : Except ProviderFault α → Transaction α
  | .ok a => .done a
  | .error fault => raiseFault fault

/-- `ProviderProtocolError`. -/
def protocolError {α : Type} (message : Text) : Transaction α := .raise (.provider (.other message))

/-- The `except ProviderOutcomeUnknown` handlers, and `_record_provider_error`:
record the failure on the operation, then raise it again. -/
def recordProviderError {α : Type} (s : RunState) (kind : OperationKind) (op : Operation) :
    ProviderFault → Transaction α
  | .foreign => .raise .foreign
  | .error e => do
    let _ ← commitState e.eventKind (s.setOperation kind (op.failedWith e))
    .raise (.provider e)

namespace Controller

variable (ctl : Controller)

/-- `_record_provider_rejection`. -/
def recordProviderRejection (s : RunState) (kind : OperationKind) (op : Operation)
    (e : ProviderRejected) : Transaction Projection :=
  commitState (txt "provider_resource_rejected") (ctl.rejectedState s kind op e)

/-! ## Provisioning -/

/-- `_intend_provision`. -/
def intendProvision (s : RunState) : Transaction Projection :=
  commitState (txt "provider_operation_intended")
    { s with operations := ctl.setDefault .provision s.operations, lifecycle := .provisioning }

/-- `_record_provisioned`. -/
def recordProvisioned (s : RunState) (r : ProviderResource) : Transaction Projection := do
  let op ← needOperation s .provision
  if r.runId ≠ s.runId then protocolError (txt "provider resource run ID mismatch")
  else if r.createOperationId ≠ op.id then
    protocolError (txt "provider resource operation ID mismatch")
  else commitState (txt "resource_provisioned") (ctl.provisionedState s op r)

/-- `_record_provision_visibility_pending`. -/
def recordProvisionVisibilityPending (s : RunState) (op : Operation) : Transaction Projection := do
  let now ← clock
  let first := op.firstSeen now
  if !first.isAware || !now.isAware then
    .raise (.conflict (txt "provision dispatch timestamp must be timezone-aware"))
  else if now.elapsed first < 0 then
    .raise (.conflict (txt "provision dispatch timestamp is in the future"))
  else if (now.elapsed first : ℚ) / 1000000 < ctl.visibilityGrace then
    commitState (txt "provider_resource_visibility_pending")
      (s.setOperation .provision (op.observedOnce now))
  else
    commitState (txt "provider_create_visibility_exhausted")
      (ctl.unresolvedState s (op.observedOnce now))

/-- `ProviderCreateRequest(...)` of `_reconcile_provision`. -/
def createRequest (s : RunState) (operationId : Text) (spec : List (Text × Json)) :
    ProviderCreateRequest :=
  { runId := s.runId
    operationId
    resourceName := txt "rjr-" ++ s.runId ++ txt "-" ++ operationId.drop (operationId.length - 8)
    spec }

/-- `request.get("provider", {})`, which must be an object. -/
def providerSpec (request : List (Text × Json)) : Transaction (List (Text × Json)) :=
  match Json.lookup (txt "provider") request with
  | none => .done []
  | some (.obj members) => .done members
  | some _ => protocolError (txt "request.provider must be an object")

/-- The end of `_reconcile_provision`: the create, with its dispatch durable. -/
def createOnce (s : RunState) (op : Operation) (request : ProviderCreateRequest) :
    Transaction Projection := do
  match ← createResource request with
  | .error (.error (.rejected e)) => ctl.recordProviderRejection s .provision op e
  -- the dispatch is committed, so a create that fails is never sent again
  | .error fault => recordProviderError s .provision op fault
  | .ok r => ctl.recordProvisioned s r

/-- The dispatch of an intended create, which nothing was found of. -/
def dispatchCreate (s : RunState) (op : Operation) : Transaction Projection := do
  let spec ← providerSpec (← readRequest)
  let now ← clock
  let s' := s.setOperation .provision (op.dispatched now)
  let _ ← commitState (txt "provider_operation_dispatched") s'
  ctl.createOnce s' (op.dispatched now) (createRequest s op.id spec)

/-- `_reconcile_provision`. -/
def reconcileProvision (s : RunState) : Transaction Projection := do
  let op ← needOperation s .provision
  match ← findResources op.id with
  | .error (.error (.rejected e)) => ctl.recordProviderRejection s .provision op e
  | .error fault => raiseFault fault
  -- the ids are stored as they were listed
  | .ok (first :: second :: more) =>
    commitState (txt "provider_reconciliation_conflict_quarantined")
      (ctl.duplicateState s op first ((first :: second :: more).map ProviderResource.id))
  | .ok [r] => ctl.recordProvisioned s r
  -- nothing is there: the create was not sent, or its resource is not visible yet
  | .ok [] =>
    if op.status ≠ .intended then ctl.recordProvisionVisibilityPending s op
    else ctl.dispatchCreate s op

/-! ## Starting -/

/-- The end of `_reconcile_start`: the start of a resource that is not running. -/
def startOnce (s : RunState) (op : Operation) (resourceId : Text) : Transaction Projection := do
  match ← startResource resourceId op.id with
  | .error (.error (.rejected e)) => ctl.recordProviderRejection s .start op e
  | .error fault => recordProviderError s .start op fault
  | .ok started =>
    let s := s.setOperation .start { op with status := .acknowledged }
    let s := { s with resource := some (.projected started) }
    -- a resource that is not running yet stays `starting`, and is looked at again
    if started.state = .running then
      commitState (txt "resource_running") { s with lifecycle := .running }
    else commitState (txt "resource_starting") s

/-- `_reconcile_start`. -/
def reconcileStart (s : RunState) : Transaction Projection := do
  match s.resource with
  | none => .raise (.conflict (txt "state field 'resource' must be an object"))
  | some resource => do
    let op ← needOperation s .start
    match ← getResource resource.id with
    | .error (.error (.rejected e)) => ctl.recordProviderRejection s .start op e
    | .error fault => raiseFault fault
    | .ok none => commitState (txt "provider_resource_missing") (ctl.missingState s op)
    | .ok (some observed) =>
      let s := { s with resource := some (.projected observed) }
      if observed.state = .running then
        commitState (txt "resource_running")
          { s.setOperation .start { op with status := .observedRunning } with lifecycle := .running }
      else ctl.startOnce s op.attempted resource.id

/-! ## Deleting -/

/-- The deadline of a request and its text, or the message of the conflict. -/
def terminationDeadline (request : List (Text × Json)) : Except Text (Text × DateTime) :=
  match providerField request (txt "terminate_at") with
  | some (.str (c :: cs)) =>
    match ctl.fromisoformat (c :: cs) with
    | none => .error (txt "provider termination deadline is invalid")
    | some deadline =>
      if deadline.isAware then .ok (c :: cs, deadline)
      else .error (txt "provider termination deadline must be timezone-aware")
  | _ => .error (txt "provider termination deadline is missing")

/-- `_provider_termination_deadline`. -/
def providerTerminationDeadline : Transaction (Text × DateTime) := do
  match ctl.terminationDeadline (← readRequest) with
  | .ok deadline => pure deadline
  | .error message => .raise (.conflict message)

/-- `_provision_resolution_is_complete`. -/
def provisionResolutionIsComplete (s : RunState) (c : Closeout) : Transaction Bool := do
  if s.resource.isSome then pure true
  else
    match s.operations.provision with
    | none => pure true
    | some provision =>
      -- only a create of uncertain outcome has to be resolved; a failed one has not
      if provision.attempts = 0 || !provision.status.isUncertain then pure true
      else
        match c.provisionResolution with
        | none => pure false
        | some resolution => do
          let (deadlineText, deadline) ← ctl.providerTerminationDeadline
          pure (resolves c provision resolution deadlineText deadline)

/-- `_current_spend_scope`. -/
def currentSpendScope (s : RunState) (c : Closeout) : Transaction SpendScope := do
  match s.resourceId with
  | some id => pure (.resource id)
  | none =>
    match providerField (← readRequest) (txt "network_volume_id") with
    | some (.str (_ :: _)) =>
      match s.operations.provision with
      | none => pure .run
      | some provision =>
        -- a create that was not sent has spent nothing
        if provision.attempts = 0 then pure (.provisionOperation provision.id true)
        else if !provision.status.isUncertain then pure .account
        else do
          if ← ctl.provisionResolutionIsComplete s c then
            pure (.provisionOperation provision.id false)
          else pure .account
    | _ => pure .account

/-- `_assert_closeout_ready`. -/
def assertCloseoutReady (s : RunState) : Transaction Unit := do
  let expected ← ctl.currentSpendScope s s.closeout
  let complete ← ctl.provisionResolutionIsComplete s s.closeout
  let c := s.closeout
  if c.artifactDisposition.isSome && c.deleteAcknowledged && c.providerNotFound &&
      c.currentSpendUsdPerHour == some (txt "0") && c.currentSpendScope == some expected &&
      complete then pure ()
  else .raise (.invalidTransition (txt "closeout proof is incomplete"))

/-- `_record_delete_receipt`. -/
def recordDeleteReceipt (s : RunState) (op : Operation) (receipt : DeleteReceipt)
    (resourceId : Text) : Transaction Projection :=
  if !receipt.acknowledged then protocolError (txt "provider delete was not acknowledged")
  else if receipt.operationId ≠ op.id then
    protocolError (txt "provider delete receipt operation ID mismatch")
  else
    commitState (txt "delete_acknowledged") (s.withReceipt op receipt resourceId)

/-- The deadline a dispatched create of uncertain outcome has to wait for. -/
def requiredDeadline (provision : Operation) : Transaction (Option (Text × DateTime)) := do
  if 0 < provision.attempts ∧ provision.status.isUncertain = true then
    let deadline ← ctl.providerTerminationDeadline
    pure (some deadline)
  else pure none

/-- The part of `_reconcile_delete` that settles a provision without a resource. -/
def reconcileAbsence (s : RunState) (provision : Operation) : Transaction Projection := do
  match ← findResources provision.id with
  | .error (.error (.rejected e)) =>
    if e.resourceIds = [] then .raise (.provider (.rejected e))
    else
      commitState (txt "stopped_rejected_resource_adopted")
        ((s.adoptNamed e.resourceIds).firstObserved none)
  | .error fault => raiseFault fault
  | .ok (first :: second :: more) =>
    commitState (txt "stopped_duplicate_resources_quarantined")
      { s with
        quarantinedResourceIds := some ((first :: second :: more).map ProviderResource.id)
        resource := some (.projected first) }
  | .ok [r] =>
    commitState (txt "stopped_resource_adopted")
      ({ s with resource := some (.projected r) }.firstObserved none)
  | .ok [] =>
    -- a create that was not sent needs no second look
    if provision.attempts = 0 then
      commitState (txt "stopped_provision_not_dispatched") (s.absenceConfirmed none)
    else do
      let deadline ← ctl.requiredDeadline provision
      let now ← clock
      if !now.isAware then .raise (.conflict (txt "current time must be timezone-aware"))
      -- before the deadline an empty answer says nothing, so the observation is cleared
      else if isBefore now deadline then
        commitState (txt "stopped_provision_termination_pending") (s.firstObserved none)
      else
        match s.closeout.provisionAbsenceFirstObservedAt.join with
        | none => commitState (txt "stopped_provision_absence_observed") (s.firstObserved (some now))
        | some first =>
          if !first.isAware then
            .raise (.conflict (txt "provision absence timestamp must be timezone-aware"))
          -- an observation from before the deadline is made again
          else if isBefore first deadline then
            commitState (txt "stopped_provision_absence_observed") (s.firstObserved (some now))
          else if now.elapsed first < absenceGrace then
            commitState (txt "stopped_provision_absence_pending") s
          else
            commitState (txt "stopped_provision_absence_confirmed")
              (s.absenceConfirmed
                (deadline.map fun d => ⟨provision.id, d.1, first, now⟩))

/-- Whether the provider no longer knows the run's resources. -/
def resourcesAbsent (s : RunState) : Transaction Bool := do
  match s.quarantinedResourceIds, s.resourceId with
  | some (_ :: _), _ => do
    let provision ← needOperation s .provision
    let remaining ← orRaiseFault (← findResources provision.id)
    pure remaining.isEmpty
  | _, none => pure true
  | _, some id => do
    let found ← orRaiseFault (← getResource id)
    pure found.isNone

/-- The current spend: known to be zero where a proof stands for it. -/
def observedSpend (s : RunState) : SpendScope → Transaction Decimal
  | .provisionOperation _ _ | .run => pure (Decimal.finite false 0 0)
  | .resource _ | .account => do orRaiseFault (← currentSpendUsdPerHour s.resourceId)

/-- The part of `_reconcile_delete` once the deletes are acknowledged: the
resources are gone, and nothing is spent any more. -/
def reconcileCloseout (s : RunState) : Transaction Projection := do
  if !s.closeout.providerNotFound then do
    let absent ← resourcesAbsent s
    if absent then commitState (txt "provider_absence_confirmed") s.notFound
    else commitState (txt "provider_deletion_pending") s
  else do
    let scope ← ctl.currentSpendScope s s.closeout
    -- the scope is computed again each time and must be the one recorded
    if s.closeout.currentSpendScope.isSome && s.closeout.currentSpendScope != some scope then
      .raise (.conflict (txt "current spend scope differs from closeout proof"))
    else do
      let spend ← observedSpend s scope
      if !spend.isFinite || spend.isNegative then
        protocolError (txt "provider current spend must be a non-negative Decimal")
      else if spend.isZero then do
        ctl.assertCloseoutReady (s.withSpend spend scope)
        commitState (txt "closeout_completed")
          { s.withSpend spend scope with lifecycle := .closed }
      else commitState (txt "provider_spend_observed") (s.withSpend spend scope)

/-- The part of `_reconcile_delete` with a settled provision: delete what is left
to delete, then close. -/
def reconcileSettled (s : RunState) (op : Operation) : Transaction Projection := do
  if s.quarantinedResourceIds.any fun ids => ids.any List.isEmpty then
    .raise (.conflict (txt "quarantined resource IDs are invalid"))
  else if !s.closeout.deleteAcknowledged then
    match s.deleteIds.filter (· ∉ s.acknowledgedIds) with
    | [] => commitState (txt "delete_acknowledged") (s.withNothingPending op)
    -- one id for each call
    | id :: _ => do
      match ← deleteResource id op.id with
      | .error fault => recordProviderError s .delete op.attempted fault
      | .ok receipt => recordDeleteReceipt s op.attempted receipt id
  else ctl.reconcileCloseout s

/-- `_reconcile_delete`. -/
def reconcileDelete (s : RunState) : Transaction Projection := do
  if s.closeout.artifactDisposition = none then
    .raise (.invalidTransition (txt "deletion requires an artifact disposition"))
  else do
    let op ← needOperation s .delete
    match s.resource, s.operations.provision, s.closeout.provisionAbsenceConfirmed with
    | none, some provision, false => ctl.reconcileAbsence s provision
    | _, _, _ => ctl.reconcileSettled s op

/-! ## The public calls -/

/-- `plan`. -/
def plan (request : List (Text × Json)) (approvedMaxUsd : Text ⊕ Decimal) :
    Transaction Projection :=
  match moneyOf approvedMaxUsd with
  | none => .raise .invalidMoney
  | some approved =>
    createRun (Json.setKey (txt "approved_max_usd") (.str approved) request)
      (ctl.initialState approved)

/-- `reconcile`. -/
def reconcile : Transaction Projection := do
  let p ← currentState
  match p.state.lifecycle with
  | .planned => ctl.intendProvision p.state
  | .provisioning => ctl.reconcileProvision p.state
  | .starting => ctl.reconcileStart p.state
  | .deleting => ctl.reconcileDelete p.state
  | .running | .recovering | .closed => pure p

/-- `record_workload_result`. -/
def recordWorkloadResult (result : WorkloadResult) : Transaction Projection := do
  let p ← currentState
  match p.state.workloadResult with
  | some existing =>
    if existing = result then pure p
    else .raise (.conflict
      (txt "terminal workload result already recorded as '" ++ existing.text ++ txt "'"))
  | none =>
    if p.state.lifecycle = .closed then
      .raise (.invalidTransition (txt "cannot change workload result after closeout"))
    else
      commitState (txt "workload_terminal")
        { p.state with workloadResult := some result, lifecycle := .recovering }

/-- `record_artifact_disposition`. -/
def recordArtifactDisposition (disposition : ArtifactDisposition) (detail : Option Text) :
    Transaction Projection := do
  let p ← currentState
  let recorded : RecordedDisposition := ⟨disposition, detail⟩
  match p.state.closeout.artifactDisposition with
  | some existing =>
    if existing = recorded then pure p
    else .raise (.conflict (txt "artifact disposition is already recorded"))
  | none =>
    if p.state.lifecycle = .closed then
      .raise (.invalidTransition (txt "cannot change artifacts after closeout"))
    else
      commitState (txt "artifact_disposition_recorded")
        (ctl.toDeleting
          { p.state with closeout := { p.state.closeout with artifactDisposition := some recorded } })

/-- `request_stop`. -/
def requestStop (reason : Text) : Transaction Projection := do
  let p ← currentState
  -- a stop of a closed run is no error and leaves it
  if p.state.lifecycle = .closed then pure p
  else commitState (txt "stop_requested") (ctl.stoppedState p.state reason)

end Controller

/-- The public calls of a controller. -/
inductive Call : Type where
  | plan : (request : List (Text × Json)) → (approvedMaxUsd : Text ⊕ Decimal) → Call
  | status
  | reconcile
  | recordWorkloadResult : WorkloadResult → Call
  | recordArtifactDisposition : ArtifactDisposition → (detail : Option Text) → Call
  | requestStop : (reason : Text) → Call

/-- The transaction of a call. -/
def Controller.perform (ctl : Controller) : Call → Transaction Projection
  | .plan request approved => ctl.plan request approved
  | .status => readState
  | .reconcile => ctl.reconcile
  | .recordWorkloadResult result => recordWorkloadResult result
  | .recordArtifactDisposition disposition detail => ctl.recordArtifactDisposition disposition detail
  | .requestStop reason => ctl.requestStop reason

end RunpodJobrunner
