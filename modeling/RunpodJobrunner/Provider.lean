import RunpodJobrunner.Json

/-!
# The provider contract

The values lifecycle reconciliation exchanges with a provider, and the ways a
provider call fails. A rejection carries the ids it names without repetition, as
`ProviderRejected` makes them when it is built.
-/

namespace RunpodJobrunner

/-- `ProviderResourceState`. -/
inductive ProviderResourceState : Type where
  | provisioned | starting | running | stopped
  deriving DecidableEq

/-- The value of a `ProviderResourceState`. -/
def ProviderResourceState.text : ProviderResourceState → Text
  | .provisioned => txt "provisioned"
  | .starting => txt "starting"
  | .running => txt "running"
  | .stopped => txt "stopped"

/-- `ProviderCreateRequest`. -/
structure ProviderCreateRequest where
  runId : Text
  operationId : Text
  resourceName : Text
  spec : List (Text × Json)
  deriving DecidableEq

/-- `ProviderResource`. -/
structure ProviderResource where
  id : Text
  runId : Text
  createOperationId : Text
  name : Text
  state : ProviderResourceState
  hourlyRateUsd : Decimal
  deriving DecidableEq

/-- `DeleteReceipt`. -/
structure DeleteReceipt where
  operationId : Text
  acknowledged : Bool
  alreadyAbsent : Bool
  deriving DecidableEq

/-- `dict.fromkeys`: the first occurrence of each id, in order. -/
def firstOccurrences : List Text → List Text
  | [] => []
  | x :: xs => x :: (firstOccurrences xs).filter (· ≠ x)

theorem firstOccurrences_nodup (xs : List Text) : (firstOccurrences xs).Nodup := by
  induction xs with
  | nil => exact .nil
  | cons x xs ih =>
    refine List.nodup_cons.mpr ⟨?_, ih.filter _⟩
    simp [List.mem_filter]

/-- `ProviderRejected`: its message and the ids it names. -/
structure ProviderRejected where
  message : Text
  resourceId : Option Text
  resourceIds : List Text
  nodup : resourceIds.Nodup
  deriving DecidableEq

/-- `ProviderRejected(message, resource_id=..., resource_ids=...)`. An empty
tuple and an empty id are falsy. -/
def ProviderRejected.make (message : Text) (resourceId : Option Text)
    (resourceIds : Option (List Text)) : ProviderRejected :=
  let named :=
    match resourceIds with
    | some (x :: xs) => x :: xs
    | _ => resourceId.toList
  let ids := firstOccurrences named
  { message
    resourceId :=
      match resourceId with
      | some (c :: cs) => some (c :: cs)
      | _ => ids.head?
    resourceIds := ids
    nodup := firstOccurrences_nodup named }

/-- `ProviderError` and the subclasses the lifecycle tells apart. -/
inductive ProviderError : Type where
  | rejected : ProviderRejected → ProviderError
  | outcomeUnknown : (kind operationId : Text) → ProviderError
  /-- `ProviderProtocolError`, `ProviderResourceNotFound`, or a plain `ProviderError` -/
  | other : (message : Text) → ProviderError
  deriving DecidableEq

/-- `str(error)`. -/
def ProviderError.text : ProviderError → Text
  | .rejected e => e.message
  | .outcomeUnknown kind operationId =>
    txt "provider " ++ kind ++ txt " outcome is unknown for operation " ++ operationId
  | .other message => message

/-- What a provider call can raise: a `ProviderError`, or an exception of
another class, which no caller catches. -/
inductive ProviderFault : Type where
  | error : ProviderError → ProviderFault
  | foreign : ProviderFault
  deriving DecidableEq

end RunpodJobrunner
