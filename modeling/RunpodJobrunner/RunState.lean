import RunpodJobrunner.DateTime
import RunpodJobrunner.Provider

/-!
# The run state

The projection the controller commits: lifecycle, outcome, resource, operations
and closeout evidence. Statuses and enumerations are inductive types and an
optional key is an `Option`; a timestamp is kept as the datetime whose
`isoformat` is stored, which `fromisoformat` reads back. `RunState.json` is the
dictionary itself, with every key as the source spells it.
-/

namespace RunpodJobrunner

/-- `LifecycleState`. -/
inductive LifecycleState : Type where
  | planned | provisioning | starting | running | recovering | deleting | closed
  deriving DecidableEq

/-- The value of a `LifecycleState`. -/
def LifecycleState.text : LifecycleState → Text
  | .planned => txt "planned"
  | .provisioning => txt "provisioning"
  | .starting => txt "starting"
  | .running => txt "running"
  | .recovering => txt "recovering"
  | .deleting => txt "deleting"
  | .closed => txt "closed"

/-- `WorkloadResult`. -/
inductive WorkloadResult : Type where
  | succeeded | failed | cancelled
  deriving DecidableEq

/-- The value of a `WorkloadResult`. -/
def WorkloadResult.text : WorkloadResult → Text
  | .succeeded => txt "succeeded"
  | .failed => txt "failed"
  | .cancelled => txt "cancelled"

/-- `ArtifactDisposition`. -/
inductive ArtifactDisposition : Type where
  | verified | partialRecovered | unavailable | notApplicable
  deriving DecidableEq

/-- The value of an `ArtifactDisposition`. -/
def ArtifactDisposition.text : ArtifactDisposition → Text
  | .verified => txt "verified"
  | .partialRecovered => txt "partial_recovered"
  | .unavailable => txt "unavailable"
  | .notApplicable => txt "not_applicable"

/-- The `status` of an operation. -/
inductive OperationStatus : Type where
  | intended | dispatched | outcomeUnknown | unresolved | failed | rejected | conflict | observed
  | observedRunning | resourceNotFound | acknowledged | acknowledgedAll | notRequiredNoResource
  deriving DecidableEq

/-- The status as it is stored. -/
def OperationStatus.text : OperationStatus → Text
  | .intended => txt "intended"
  | .dispatched => txt "dispatched"
  | .outcomeUnknown => txt "outcome_unknown"
  | .unresolved => txt "unresolved"
  | .failed => txt "failed"
  | .rejected => txt "rejected"
  | .conflict => txt "conflict"
  | .observed => txt "observed"
  | .observedRunning => txt "observed_running"
  | .resourceNotFound => txt "resource_not_found"
  | .acknowledged => txt "acknowledged"
  | .acknowledgedAll => txt "acknowledged_all"
  | .notRequiredNoResource => txt "not_required_no_resource"

/-- `_UNCERTAIN_PROVISION_STATUSES`. -/
def OperationStatus.isUncertain : OperationStatus → Bool
  | .dispatched | .outcomeUnknown | .unresolved => true
  | _ => false

/-- An entry of `operations`. -/
structure Operation where
  id : Text
  status : OperationStatus
  attempts : ℕ
  dispatchedAt : Option DateTime
  visibilityFirstObservedAt : Option DateTime
  visibilityObservations : Option ℕ
  lastVisibilityObservedAt : Option DateTime
  lastError : Option Text
  resourceId : Option Text
  resourceIds : Option (List Text)
  deriving DecidableEq

/-- `operations`: the three kinds there are. -/
structure Operations where
  provision : Option Operation
  start : Option Operation
  delete : Option Operation
  deriving DecidableEq

/-- `resource`: a projection of what the provider answered, or only an id when a
rejection named it. -/
inductive Resource : Type where
  | projected : ProviderResource → Resource
  | named : (id : Text) → Resource
  deriving DecidableEq

/-- `resource["id"]`. -/
def Resource.id : Resource → Text
  | .projected r => r.id
  | .named id => id

/-- `closeout["artifact_disposition"]`. -/
structure RecordedDisposition where
  status : ArtifactDisposition
  detail : Option Text
  deriving DecidableEq

/-- `closeout["provision_resolution"]`, whose source is always
`termination_deadline_elapsed`. -/
structure ProvisionResolution where
  operationId : Text
  terminationDeadline : Text
  absenceFirstObservedAt : DateTime
  confirmedAt : DateTime
  deriving DecidableEq

/-- `closeout["current_spend_scope"]`. -/
inductive SpendScope : Type where
  | account : SpendScope
  | resource : (resourceId : Text) → SpendScope
  | run : SpendScope
  /-- `proof` is `provision_not_dispatched` or `termination_deadline_absence` -/
  | provisionOperation : (operationId : Text) → (notDispatched : Bool) → SpendScope
  deriving DecidableEq

/-- `closeout`. -/
structure Closeout where
  artifactDisposition : Option RecordedDisposition
  deleteAcknowledged : Bool
  deleteAlreadyAbsent : Bool
  providerNotFound : Bool
  currentSpendUsdPerHour : Option Text
  currentSpendScope : Option SpendScope
  deleteAcknowledgedResourceIds : Option (List Text)
  provisionAbsenceConfirmed : Bool
  /-- absent, `null`, or a timestamp -/
  provisionAbsenceFirstObservedAt : Option (Option DateTime)
  provisionResolution : Option ProvisionResolution
  deriving DecidableEq

/-- The state `commit_state` is given; the projection adds `event_sequence`. -/
structure RunState where
  runId : Text
  lifecycle : LifecycleState
  workloadResult : Option WorkloadResult
  approvedMaxUsd : Text
  resource : Option Resource
  operations : Operations
  recoveryReason : Option Text
  closeout : Closeout
  quarantinedResourceIds : Option (List Text)
  deriving DecidableEq

/-! ## The dictionary -/

/-- A member that is left out when there is no value. -/
def optionalMember (key : Text) (value : Option Json) : List (Text × Json) :=
  match value with
  | some v => [(key, v)]
  | none => []

/-- A value or `null`. -/
def orNull (value : Option Json) : Json := value.getD .null

/-- A timestamp as it is stored. -/
def timestampJson (d : DateTime) : Json := .str d.isoformat

/-- A list of ids. -/
def idsJson (ids : List Text) : Json := .arr (ids.map .str)

/-- An operation record. -/
def Operation.json (op : Operation) : Json :=
  .obj <|
    [(txt "id", .str op.id), (txt "status", .str op.status.text),
      (txt "attempts", .int op.attempts)] ++
    optionalMember (txt "dispatched_at") (op.dispatchedAt.map timestampJson) ++
    optionalMember (txt "visibility_first_observed_at")
      (op.visibilityFirstObservedAt.map timestampJson) ++
    optionalMember (txt "visibility_observations")
      (op.visibilityObservations.map fun n => .int n) ++
    optionalMember (txt "last_visibility_observed_at")
      (op.lastVisibilityObservedAt.map timestampJson) ++
    optionalMember (txt "last_error") (op.lastError.map .str) ++
    optionalMember (txt "resource_id") (op.resourceId.map .str) ++
    optionalMember (txt "resource_ids") (op.resourceIds.map idsJson)

/-- The operations that exist. -/
def Operations.json (ops : Operations) : Json :=
  .obj <|
    optionalMember (txt "provision") (ops.provision.map Operation.json) ++
    optionalMember (txt "start") (ops.start.map Operation.json) ++
    optionalMember (txt "delete") (ops.delete.map Operation.json)

/-- `_resource_projection`, or the bare id. -/
def Resource.json : Resource → Json
  | .projected r =>
    .obj [(txt "id", .str r.id), (txt "run_id", .str r.runId),
      (txt "create_operation_id", .str r.createOperationId), (txt "name", .str r.name),
      (txt "state", .str r.state.text),
      (txt "hourly_rate_usd", .str (formatMoney r.hourlyRateUsd))]
  | .named id => .obj [(txt "id", .str id)]

/-- The spend scope record. -/
def SpendScope.json : SpendScope → Json
  | .account => .obj [(txt "kind", .str (txt "account"))]
  | .resource id => .obj [(txt "kind", .str (txt "resource")), (txt "resource_id", .str id)]
  | .run =>
    .obj [(txt "kind", .str (txt "run")), (txt "proof", .str (txt "provision_not_dispatched"))]
  | .provisionOperation operationId notDispatched =>
    .obj [(txt "kind", .str (txt "provision_operation")), (txt "operation_id", .str operationId),
      (txt "proof", .str (if notDispatched then txt "provision_not_dispatched"
        else txt "termination_deadline_absence"))]

/-- The recorded artifact disposition. -/
def RecordedDisposition.json (d : RecordedDisposition) : Json :=
  .obj [(txt "status", .str d.status.text), (txt "detail", orNull (d.detail.map .str))]

/-- The recorded resolution of an uncertain create. -/
def ProvisionResolution.json (r : ProvisionResolution) : Json :=
  .obj [(txt "source", .str (txt "termination_deadline_elapsed")),
    (txt "operation_id", .str r.operationId),
    (txt "termination_deadline", .str r.terminationDeadline),
    (txt "absence_first_observed_at", timestampJson r.absenceFirstObservedAt),
    (txt "confirmed_at", timestampJson r.confirmedAt)]

/-- The closeout record. -/
def Closeout.json (c : Closeout) : Json :=
  .obj <|
    [(txt "artifact_disposition", orNull (c.artifactDisposition.map RecordedDisposition.json)),
      (txt "delete_acknowledged", .bool c.deleteAcknowledged),
      (txt "delete_already_absent", .bool c.deleteAlreadyAbsent),
      (txt "provider_not_found", .bool c.providerNotFound),
      (txt "current_spend_usd_per_hour", orNull (c.currentSpendUsdPerHour.map .str)),
      (txt "current_spend_scope", orNull (c.currentSpendScope.map SpendScope.json))] ++
    optionalMember (txt "delete_acknowledged_resource_ids")
      (c.deleteAcknowledgedResourceIds.map idsJson) ++
    (if c.provisionAbsenceConfirmed then [(txt "provision_absence_confirmed", .bool true)] else []) ++
    optionalMember (txt "provision_absence_first_observed_at")
      (c.provisionAbsenceFirstObservedAt.map fun t => orNull (t.map timestampJson)) ++
    optionalMember (txt "provision_resolution")
      (c.provisionResolution.map ProvisionResolution.json)

/-- The projection with its `event_sequence`. -/
def RunState.json (s : RunState) (sequence : ℕ) : List (Text × Json) :=
  [(txt "protocol", .str (txt "run-status/1")), (txt "run_id", .str s.runId),
    (txt "lifecycle", .str s.lifecycle.text),
    (txt "workload_result", orNull (s.workloadResult.map fun r => .str r.text)),
    (txt "approved_max_usd", .str s.approvedMaxUsd),
    (txt "resource", orNull (s.resource.map Resource.json)),
    (txt "operations", s.operations.json),
    (txt "recovery_reason", orNull (s.recoveryReason.map .str)),
    (txt "closeout", s.closeout.json),
    (txt "event_sequence", .int sequence)] ++
  optionalMember (txt "quarantined_resource_ids") (s.quarantinedResourceIds.map idsJson)

end RunpodJobrunner
