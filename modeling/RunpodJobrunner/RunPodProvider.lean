import RunpodJobrunner.RunPodHTTP
import RunpodJobrunner.Utf8

/-!
# The RunPod adapter

`RunPodProvider`: before a pod is asked for, what was admitted is written to files of the
operation that are never rewritten, and every pod that is observed is checked against
them. An operation id is the name of a directory of its own, and a file is the text it
was written with; writing can fail or break off, reading what is there cannot.
-/

namespace RunpodJobrunner

open Json

namespace RunPod

/-! ## The world -/

/-- The files of the operations, and the requests that were sent, newest first, each with
its answer if the process lived to see it. -/
structure ProviderWorld where
  operations : List Text
  files : Text → Text → Option Text
  requests : List (Request × Option Response)
  nodup : operations.Nodup

namespace ProviderWorld

/-- Nothing has been done yet. -/
def empty : ProviderWorld := ⟨[], fun _ _ => none, [], .nil⟩

/-- A request is sent. -/
def sent (w : ProviderWorld) (r : Request) (a : Option Response) : ProviderWorld :=
  { w with requests := (r, a) :: w.requests }

/-- The directory of an operation is there. -/
def withOperation (w : ProviderWorld) (operationId : Text) : ProviderWorld :=
  if h : operationId ∈ w.operations then w
  else { w with operations := operationId :: w.operations, nodup := List.nodup_cons.mpr ⟨h, w.nodup⟩ }

/-- A file is there with that text. -/
def withFile (w : ProviderWorld) (operationId name text : Text) : ProviderWorld :=
  { w with files := fun o n => if o = operationId ∧ n = name then some text else w.files o n }

end ProviderWorld

/-- What a command that completes does. A write that fails may leave a part of the text. -/
def execute (w : ProviderWorld) : (c : Command) → Answer c → ProviderWorld → Prop
  | .request r, a, w' => w' = w.sent r (some a)
  | .makeDirectory o, a, w' => w' = w.withOperation o ∨ (a = false ∧ w' = w)
  | .createFile o n t, a, w' =>
    match w.files o n with
    | some _ => a = .exists ∧ w' = w
    | none => (a = .written ∧ w' = w.withFile o n t) ∨
        (a = .failed ∧ (w' = w ∨ ∃ part, part <+: t ∧ w' = w.withFile o n part))
  | .readFile o n, a, w' => a = w.files o n ∧ w' = w
  -- the root may be missing while it has no directories
  | .listDirectories, a, w' => (a.getD []).Perm w.operations ∧ w' = w
  | .tokenHex, a, w' => a.length = 30 ∧ (∀ c ∈ a, isHex c = true) ∧ w' = w

/-- What a command leaves in which the process dies. -/
def dieIn (w : ProviderWorld) : Command → ProviderWorld → Prop
  | .request r, w' => w' = w ∨ w' = w.sent r none
  | .makeDirectory o, w' => w' = w ∨ w' = w.withOperation o
  | .createFile o n t, w' =>
    w' = w ∨ (w.files o n = none ∧ ∃ part, part <+: t ∧ w' = w.withFile o n part)
  | _, w' => w' = w

/-- The machine of the adapter. -/
def machine : Machine ProviderWorld Command Answer := ⟨execute, dieIn⟩

/-! ## The provider spec -/

/-- A call of the adapter. -/
abbrev Adapter := Process Command Answer ProviderFault

/-- `InternalProviderProtocolError`. -/
def protocolError (message : Text) : ProviderFault := .error (.other message)

/-- Raise what the spec gets wrong. -/
def required {α : Type} : Except Text α → Adapter α
  | .ok a => .done a
  | .error m => .raise (protocolError m)

/-- `_required_string`. -/
def requiredString (spec : List (Text × Json)) (key : Text) : Except Text Text :=
  match lookup key spec with
  | some (.str (c :: t)) => .ok (c :: t)
  | _ => .error (txt "provider spec " ++ key ++ txt " must be a string")

/-- `_required_decimal`, of a text. -/
def decimalText (key text : Text) : Except Text Decimal :=
  match Decimal.ofText text with
  | none => .error (txt "provider spec " ++ key ++ txt " must be a decimal string")
  | some d =>
    if d.isFinite = true ∧ 0 < d.value then .ok d
    else .error (txt "provider spec " ++ key ++ txt " must be positive")

/-- `_required_decimal`. -/
def requiredDecimal (spec : List (Text × Json)) (key : Text) : Except Text Decimal :=
  match lookup key spec with
  | some (.str t) => decimalText key t
  | _ => .error (txt "provider spec " ++ key ++ txt " must be a decimal string")

/-- `_positive_integer`. -/
def positiveInteger (spec : List (Text × Json)) (key : Text) : Except Text ℤ :=
  match lookup key spec with
  | some (.int n) =>
    if 0 < n then .ok n
    else .error (txt "provider spec " ++ key ++ txt " must be a positive integer")
  | _ => .error (txt "provider spec " ++ key ++ txt " must be a positive integer")

/-- A string that is not empty. -/
def filledString : Json → Option Text
  | .str (c :: t) => some (c :: t)
  | _ => none

/-- `_string_tuple`. -/
def stringTuple (value : Option Json) (name : Text) : Except Text (List Text) :=
  match value with
  | some (.arr items) =>
    match items.mapM filledString with
    | some texts => .ok texts
    | none => .error (txt "provider spec " ++ name ++ txt " must be a string array")
  | _ => .error (txt "provider spec " ++ name ++ txt " must be a string array")

/-- A member of a string map. -/
def stringMember (m : Text × Json) : Option (Text × Text) :=
  match m.2 with
  | .str t => some (m.1, t)
  | _ => none

/-- `_string_mapping`. -/
def stringMapping (value : Option Json) (name : Text) : Except Text (List (Text × Text)) :=
  match value with
  | none => .ok []
  | some (.obj kvs) =>
    match kvs.mapM stringMember with
    | some members => .ok members
    | none => .error (txt "provider spec " ++ name ++ txt " must be a string map")
  | some _ => .error (txt "provider spec " ++ name ++ txt " must be a string map")

/-- The storage a spec asks for: a network volume, or a volume of that size. -/
def storageOf (spec : List (Text × Json)) : Except Text (Option Text × Option ℤ) :=
  if (lookup (txt "network_volume_id") spec).isSome then do
    let networkVolumeId ← requiredString spec (txt "network_volume_id")
    if isNetworkVolumeId networkVolumeId = false then
      .error (txt "provider spec network_volume_id must be a non-empty provider ID")
    else if (lookup (txt "volume_gb") spec).isSome then
      .error (txt "provider spec cannot request both network_volume_id and volume_gb")
    else .ok (some networkVolumeId, none)
  else do
    let volumeGb ← positiveInteger spec (txt "volume_gb")
    .ok (none, some volumeGb)

/-- The key of an operation id in the environment of its pod. -/
def operationKey : Text := txt "RUNPOD_JOBRUNNER_OPERATION_ID"

/-- And of the run id. -/
def runKey : Text := txt "RUNPOD_JOBRUNNER_RUN_ID"

/-- What `create` reads out of its request: the pod to ask for, and the admitted rate. -/
def podRequestOf (request : ProviderCreateRequest) : Except Text (PodCreateRequest × Decimal) := do
  let spec := request.spec
  let (networkVolumeId, volumeGb) ← storageOf spec
  let environment ← stringMapping (lookup (txt "environment") spec) (txt "environment")
  let image ← requiredString spec (txt "image")
  let gpuTypeId ← requiredString spec (txt "gpu_type_id")
  let gpuCount ← positiveInteger spec (txt "gpu_count")
  let containerDiskGb ← positiveInteger spec (txt "container_disk_gb")
  let volumeMountPath ← requiredString spec (txt "volume_mount_path")
  let ports ← stringTuple (lookup (txt "ports") spec) (txt "ports")
  let terminateAt ← requiredString spec (txt "terminate_at")
  let maximumRate ← requiredDecimal spec (txt "max_hourly_rate_usd")
  .ok
    ({ name := request.resourceName, image, gpuTypeId, gpuCount, containerDiskGb, volumeGb,
       volumeMountPath, ports, terminateAt, networkVolumeId
       environment := setText operationKey request.operationId
        (setText runKey request.runId environment)
       cloudType := txt "SECURE" }, maximumRate)

/-! ## Files -/

/-- `_read_operation_text`. -/
def readOperationText (operationId name : Text) : Adapter Text :=
  .call (.readFile operationId name) fun
    | none => .raise (protocolError
        (txt "durable operation policy " ++ name ++ txt " is unavailable"))
    | some content =>
      let value := Decimal.strip content
      if value = [] then
        .raise (protocolError (txt "durable operation policy " ++ name ++ txt " is empty"))
      else .done value

/-- `mkdir` and the exclusive creation of a file, and what to do after it or where there
is one. -/
def createOnce (operationId name text : Text) (after existing : Adapter Unit) : Adapter Unit :=
  .call (.makeDirectory operationId) fun made =>
    if made = false then .raise .foreign
    else .call (.createFile operationId name text) fun
      | .written => after
      | .exists => existing
      | .failed => .raise .foreign

/-- `_persist_operation_text`. A text without UTF-8 is noticed when the file is there. -/
def persistOperationText (operationId name value : Text) : Adapter Unit :=
  if value = [] ∨ 10 ∈ value ∨ 13 ∈ value then
    .raise (protocolError (txt "operation policy " ++ name ++ txt " is invalid"))
  else
    let existing : Adapter Unit := do
      let stored ← readOperationText operationId name
      if stored ≠ value then
        .raise (protocolError (txt "durable operation policy " ++ name ++ txt " changed"))
      else pure ()
    if (encodeUtf8 value).isSome then
      createOnce operationId name (value ++ [10]) (.done ()) existing
    else createOnce operationId name [] (.raise .foreign) existing

/-- The name of the file of the admitted rate. -/
def rateFile : Text := txt "max-hourly-rate-usd"

/-- `_read_maximum_rate`. The text is ASCII, or reading it raises. -/
def readMaximumRate (operationId : Text) : Adapter Decimal :=
  .call (.readFile operationId rateFile) fun
    | none => .raise (protocolError
        (txt "durable maximum hourly rate is unavailable during reconciliation"))
    | some content =>
      if content.all (· < 128) then
        required (decimalText (txt "maximum") (Decimal.strip content))
      else .raise .foreign

/-- `_persist_maximum_rate`. -/
def persistMaximumRate (operationId : Text) (maximumRate : Decimal) : Adapter Unit :=
  createOnce operationId rateFile (maximumRate.formatF ++ [10]) (.done ()) do
    let existing ← readMaximumRate operationId
    if existing.value ≠ maximumRate.value then
      .raise (protocolError (txt "durable maximum hourly rate changed for one operation"))
    else pure ()

/-- `_volume_key`. -/
def volumeKey (operationId : Text) : Adapter Text :=
  .call (.makeDirectory operationId) fun made =>
    if made = false then .raise .foreign
    else .call .tokenHex fun key =>
      .call (.createFile operationId (txt "volume-key") (key ++ [10])) fun
        | .written => .done key
        | .failed => .raise .foreign
        | .exists => .call (.readFile operationId (txt "volume-key")) fun
          | none => .raise .foreign
          | some content =>
            let key := Decimal.strip content
            if isVolumeKey key then .done key
            else .raise (protocolError (txt "stored volume key is invalid"))

/-! ## Checks -/

/-- A `ProviderProtocolError` of the client, or an exception of another class. -/
def translate (e : ClientError) (known : Text → ProviderFault) : ProviderFault :=
  match e with
  | .request r =>
    match r.message with
    | some m => known m
    | none => .foreign
  | .security _ _ => .foreign

/-- The rejection of one pod. -/
def rejection (podId message : Text) : ProviderFault :=
  .error (.rejected (.make message (some podId) none))

/-- `_delete_rejected_pod`. -/
def deleteRejectedPod {α : Type} (podId message : Text) : Adapter α := do
  let requested := message ++ txt "; deletion requested"
  match ← (deletePod podId).attempt with
  | .ok _ => .raise (rejection podId requested)
  | .error e => .raise (translate e fun m =>
      rejection podId (requested ++ txt "; cleanup outcome unknown: " ++ m))

/-- `storage-mode` of an encrypted volume. -/
def encryptedMode : Text := txt "encrypted-pod-volume"

/-- `storage-mode` of a network volume. -/
def networkMode : Text := txt "network-volume"

/-- The storage mode `_checked_observation` goes by. -/
def storageMode (operationId : Text) : Adapter Text := do
  match ← (readOperationText operationId (txt "storage-mode")).attempt with
  | .ok mode => pure mode
  | .error .foreign => .raise .foreign
  | .error e => .call (.readFile operationId (txt "volume-key")) fun key =>
      if key.isSome then .done encryptedMode else .raise e

/-- The text of a rate above the admitted one. -/
def rateMessage (rate maximumRate : Decimal) : Text :=
  txt "RunPod hourly rate " ++ rate.toText ++ txt " exceeds admitted " ++ maximumRate.toText

/-- The storage check of `_checked_observation`. -/
def checkStorage (pod : PodObservation) (operationId : Text) : Adapter Unit := do
  let mode ← storageMode operationId
  if mode = encryptedMode then
    if pod.volumeEncrypted = some true then pure ()
    else deleteRejectedPod pod.id (txt "RunPod reconciliation could not prove encrypted storage")
  else if mode = networkMode then do
    let expected ← readOperationText operationId (txt "expected-network-volume-id")
    if pod.networkVolumeId = some expected then pure ()
    else
      deleteRejectedPod pod.id
        (txt "RunPod reconciliation could not prove the requested network volume attachment")
  else deleteRejectedPod pod.id (txt "RunPod storage policy is invalid")

/-- The rate check of `_checked_observation`. -/
def checkRate (pod : PodObservation) (operationId : Text) : Adapter Unit := do
  let maximumRate ← readMaximumRate operationId
  match pod.costPerHour with
  | none => deleteRejectedPod pod.id (txt "RunPod pod has no hourly rate")
  | some rate =>
    if rate.isFinite = false ∨ rate.value ≤ 0 then
      deleteRejectedPod pod.id (txt "RunPod pod hourly rate is invalid")
    else if maximumRate.value < rate.value then
      deleteRejectedPod pod.id (rateMessage rate maximumRate)
    else pure ()

/-- `_checked_observation`. -/
def checkedObservation (pod : PodObservation) (operationId : Text) : Adapter PodObservation := do
  checkStorage pod operationId
  checkRate pod operationId
  let expectedImage ← readOperationText operationId (txt "expected-image")
  if pod.image = some expectedImage then pure pod
  else
    deleteRejectedPod pod.id (txt "RunPod image identity does not match the admitted digest")

/-! ## Resources -/

/-- `_provider_state`. -/
def providerState (desiredStatus : Option Text) : ProviderResourceState :=
  if desiredStatus = some (txt "RUNNING") then .running
  else if desiredStatus = some (txt "RESTARTING") then .starting
  else if desiredStatus ∈ [txt "EXITED", txt "PAUSED", txt "DEAD", txt "TERMINATED"].map some then
    .stopped
  else .provisioned

/-- `pod.environment.get(key)`. -/
def PodObservation.environmentValue (pod : PodObservation) (key : Text) : Option Text :=
  (pod.environment.getD []).lookup key

/-- `_resource`. -/
def resource (pod : PodObservation) (createOperationId observedRunId : Text) :
    Adapter ProviderResource :=
  let runId := if observedRunId ≠ [] then some observedRunId else pod.environmentValue runKey
  match runId, pod.costPerHour with
  | none, _ => .raise (protocolError (txt "RunPod pod lacks run identity"))
  | some _, none => .raise (protocolError (txt "RunPod pod has no hourly rate"))
  | some runId, some rate =>
    .done ⟨pod.id, runId, createOperationId, pod.name, providerState pod.desiredStatus, rate⟩

/-- The names of the directories that a resource id is stored in. -/
def operationsOf (resourceId : Text) : List Text → Adapter (List Text)
  | [] => .done []
  | name :: names => do
    let stored ← (readOperationText name (txt "resource-id")).attempt
    let found ← operationsOf resourceId names
    match stored with
    | .ok id => pure (if id = resourceId then name :: found else found)
    | .error _ => pure found

/-- `_operation_id_for_pod`. -/
def operationIdForPod (pod : PodObservation) : Adapter Text :=
  match pod.environmentValue operationKey with
  | some operationId => .done operationId
  | none => .call .listDirectories fun
    | none => .raise (protocolError (txt "RunPod pod lacks create operation identity"))
    | some names => do
      match ← operationsOf pod.id names with
      | [operationId] => pure operationId
      | _ => .raise (protocolError (txt "RunPod pod lacks unique operation identity"))

/-! ## The four calls -/

/-- What `find_resources` and `get` raise of the client. -/
def internal (e : ClientError) : ProviderFault := translate e protocolError

/-- The pods a create operation can have made. -/
def isMatching (operationId : Text) (expectedName : Option Text) (pod : PodObservation) : Bool :=
  pod.environmentValue operationKey = some operationId || some pod.name = expectedName

/-- Check every pod, up to the first that fails. -/
def checkAll (operationId : Text) : List PodObservation → Adapter (List PodObservation)
  | [] => .done []
  | pod :: pods => do
    let pod ← checkedObservation pod operationId
    let checked ← checkAll operationId pods
    pure (pod :: checked)

/-- `min(ids)`. -/
def least (id : Text) (ids : List Text) : Text :=
  ids.foldl (fun a b => if textLe a b then a else b) id

/-- The resources of some pods. -/
def resources (operationId runId : Text) : List PodObservation → Adapter (List ProviderResource)
  | [] => .done []
  | pod :: pods => do
    let r ← resource pod operationId runId
    let rs ← resources operationId runId pods
    pure (r :: rs)

/-- What `find_resources` makes of the pods that are there. -/
def findAmong (operationId : Text) (pods : List PodObservation) :
    Adapter (List ProviderResource) := do
  let expectedName ← (readOperationText operationId (txt "resource-name")).attempt
  let matching := pods.filter (isMatching operationId expectedName.toOption)
  match ← (checkAll operationId matching).attempt with
  | .error (.error (.rejected e)) => .raise (.error (.rejected
      (.make e.message e.resourceId (some (matching.map PodObservation.id)))))
  | .error e => .raise e
  | .ok [] => pure []
  | .ok (pod :: checked) => do
    let runId ← readOperationText operationId (txt "run-id")
    .call (.readFile operationId (txt "resource-id")) fun primary => do
      if primary.isSome then discard (readOperationText operationId (txt "resource-id"))
      else
        persistOperationText operationId (txt "resource-id")
          (least pod.id (checked.map PodObservation.id))
      resources operationId runId (pod :: checked)

/-- `find_resources`. -/
def findResources (operationId : Text) : Adapter (List ProviderResource) := do
  match ← listPods.attempt with
  | .error e => .raise (internal e)
  | .ok pods => findAmong operationId pods

/-- The texts `create` writes before it asks for a pod, after the admitted rate. -/
def policyFiles (request : ProviderCreateRequest) (podRequest : PodCreateRequest) :
    List (Text × Text) :=
  [(txt "resource-name", request.resourceName), (txt "run-id", request.runId),
    (txt "expected-image", podRequest.image),
    (txt "storage-mode", if podRequest.networkVolumeId.isSome then networkMode else encryptedMode)] ++
  podRequest.networkVolumeId.toList.map fun id => (txt "expected-network-volume-id", id)

/-- One `_persist_operation_text` after the other. -/
def persistAll (operationId : Text) : List (Text × Text) → Adapter Unit
  | [] => .done ()
  | (name, value) :: files => do
    persistOperationText operationId name value
    persistAll operationId files

/-- What `create` raises of the client. -/
def createError (operationId : Text) : ClientError → ProviderFault
  | .security m id => .error (.rejected (.make m id none))
  | e => translate e fun _ => .error (.outcomeUnknown (txt "provision") operationId)

/-- The pod `create` asks for. -/
def requestPod (operationId : Text) (podRequest : PodCreateRequest) : Adapter PodObservation := do
  let answer ←
    if podRequest.networkVolumeId.isSome then (createNetworkVolumePod podRequest).attempt
    else do
      let key ← volumeKey operationId
      (createEncryptedPod podRequest key).attempt
  match answer with
  | .ok pod => pure pod
  | .error e => .raise (createError operationId e)

/-- The checks of `create` itself. -/
def checkCreated (pod : PodObservation) (maximumRate : Decimal) : Adapter Unit :=
  match pod.costPerHour with
  | none => deleteRejectedPod pod.id (txt "RunPod pod has no hourly rate")
  | some rate =>
    if maximumRate.value < rate.value then
      deleteRejectedPod pod.id (rateMessage rate maximumRate)
    else .done ()

/-- `create`. -/
def create (request : ProviderCreateRequest) : Adapter ProviderResource := do
  let (podRequest, maximumRate) ← required (podRequestOf request)
  persistMaximumRate request.operationId maximumRate
  persistAll request.operationId (policyFiles request podRequest)
  let pod ← requestPod request.operationId podRequest
  checkCreated pod maximumRate
  let pod ← checkedObservation pod request.operationId
  persistOperationText request.operationId (txt "resource-id") pod.id
  resource pod request.operationId request.runId

/-- The resource of a pod that `get` or `start` got. -/
def observedResource (pod : PodObservation) : Adapter ProviderResource := do
  let operationId ← operationIdForPod pod
  let pod ← checkedObservation pod operationId
  let runId ← readOperationText operationId (txt "run-id")
  resource pod operationId runId

/-- `get`. -/
def get (resourceId : Text) : Adapter (Option ProviderResource) := do
  match ← (getPod resourceId).attempt with
  | .error e => .raise (internal e)
  | .ok none => pure none
  | .ok (some pod) => do
    let r ← observedResource pod
    pure (some r)

/-- What `start` raises of the client. -/
def startError (operationId : Text) : ClientError → ProviderFault
  | .request (.outcomeUnknown _) => .error (.outcomeUnknown (txt "start") operationId)
  | e => internal e

/-- `start`. -/
def start (resourceId operationId : Text) : Adapter ProviderResource := do
  match ← (startPod resourceId).attempt with
  | .error e => .raise (startError operationId e)
  | .ok pod => observedResource pod

end RunPod

end RunpodJobrunner
