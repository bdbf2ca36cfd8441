import RunpodJobrunner.JsonText
import RunpodJobrunner.Process
import RunpodJobrunner.Provider

/-!
# The RunPod client

`RunPodHTTP`: what is read out of the answers of the RunPod API, and what a pod that
breaks the storage it was asked for with leads to. A request is a command whose answer is
what `_json_request` returns or raises; the adapter above the client also asks for its
files, so these are commands too.
-/

namespace RunpodJobrunner

open Json

namespace RunPod

/-! ## Observations -/

/-- A rate the client lets through. -/
def IsRate (d : Decimal) : Prop := d.isFinite = true ∧ d.isNegative = false

instance : DecidablePred IsRate := fun _ => inferInstanceAs (Decidable (_ ∧ _))

/-- `PodObservation`. -/
structure PodObservation where
  id : Text
  name : Text
  desiredStatus : Option Text
  costPerHour : Option Decimal
  volumeEncrypted : Option Bool
  networkVolumeId : Option Text
  image : Option Text
  publicIp : Option Text
  portMappings : Option (List (Text × Json))
  environment : Option (List (Text × Text))
  /-- `_parse_pod` raises on any other rate -/
  rate_ok : ∀ d, costPerHour = some d → IsRate d
  deriving DecidableEq

/-- `PodCreateRequest`. -/
structure PodCreateRequest where
  name : Text
  image : Text
  gpuTypeId : Text
  gpuCount : ℤ
  containerDiskGb : ℤ
  volumeGb : Option ℤ
  volumeMountPath : Text
  ports : List Text
  environment : List (Text × Text)
  terminateAt : Text
  networkVolumeId : Option Text
  cloudType : Text
  deriving DecidableEq

/-- `environment[key] = value` -/
def setText (key value : Text) : List (Text × Text) → List (Text × Text)
  | [] => [(key, value)]
  | (k, v) :: rest => if k = key then (k, value) :: rest else (k, v) :: setText key value rest

/-- `_optional_string`. -/
def optionalString : Option Json → Option Text
  | some (.str t) => some t
  | _ => none

/-- An item of an environment that is a list. -/
def environmentItem (item : Json) : Option (Text × Text) :=
  match item.get? (txt "key"), item.get? (txt "value") with
  | some (.str key), some (.str value) => some (key, value)
  | _, _ => none

/-- `_parse_environment`. -/
def parseEnvironment : Option Json → Option (List (Text × Text))
  | some (.obj kvs) => some <| kvs.filterMap fun m =>
      match m.2 with
      | .str value => some (m.1, value)
      | _ => none
  | some (.arr items) => some <|
      (items.filterMap environmentItem).foldl (fun parsed m => setText m.1 m.2 parsed) []
  | _ => none

/-- `_parse_network_volume_id`. -/
def parseNetworkVolumeId : Option Json → Except Text (Option Text)
  | none | some .null => .ok none
  | some (.obj kvs) =>
    match lookup (txt "id") kvs with
    | some (.str (c :: t)) => .ok (some (c :: t))
    | _ => .error (txt "RunPod pod record lacks network volume identity")
  | some _ => .error (txt "RunPod pod record has malformed network volume data")

/-- `Decimal(str(cost))`, of a JSON value that is no `None`. No other `str` is a number. -/
def decimalOf : Json → Option Decimal
  | .int n => (intText n).bind Decimal.ofText
  | .float (.literal l) => Decimal.ofText (literalText l)
  | .float .nan => some (.nan false)
  | .float (.infinity neg) => some (.infinity neg)
  | .str t => Decimal.ofText t
  | _ => none

/-- The hourly rate in `_parse_pod`. -/
def parseRate : Option Json → Except Text { cost : Option Decimal // ∀ d, cost = some d → IsRate d }
  | none | some .null => .ok ⟨none, nofun⟩
  | some cost =>
    match decimalOf cost with
    | none => .error (txt "RunPod pod record has an invalid hourly rate")
    | some d =>
      if h : IsRate d then .ok ⟨some d, fun _ heq => Option.some.inj heq ▸ h⟩
      else .error (txt "RunPod pod record has an invalid hourly rate")

/-- `_parse_pod`; an error is the message of a `ProviderProtocolError`. -/
def parsePod (raw : List (Text × Json)) : Except Text PodObservation :=
  match lookup (txt "id") raw, lookup (txt "name") raw with
  | some (.str id), some (.str name) => do
    let cost ← parseRate (lookup (txt "costPerHr") raw)
    let networkVolumeId ← parseNetworkVolumeId (lookup (txt "networkVolume") raw)
    .ok
      { id, name
        desiredStatus := optionalString (lookup (txt "desiredStatus") raw)
        costPerHour := cost.1
        volumeEncrypted :=
          match lookup (txt "volumeEncrypted") raw with
          | some (.bool b) => some b
          | _ => none
        networkVolumeId
        image := optionalString ((lookup (txt "imageName") raw).or (lookup (txt "image") raw))
        publicIp := optionalString (lookup (txt "publicIp") raw)
        portMappings :=
          match lookup (txt "portMappings") raw with
          | some (.obj mappings) => some mappings
          | _ => none
        environment := parseEnvironment (lookup (txt "env") raw)
        rate_ok := cost.2 }
  | _, _ => .error (txt "RunPod pod record lacks string id/name")

/-! ## Answers -/

/-- A pod in an answer. -/
def podIn (message : Text) : Option Json → Except Text PodObservation
  | some (.obj raw) => parsePod raw
  | _ => .error message

/-- The loop of `list_pods`. -/
def parsePods : List Json → Except Text (List PodObservation)
  | [] => .ok []
  | item :: items => do
    let pod ← podIn (txt "RunPod pod list item was not an object") (some item)
    let pods ← parsePods items
    .ok (pod :: pods)

/-- What `list_pods` reads. -/
def podsIn : Option Json → Except Text (List PodObservation)
  | some (.arr items) => parsePods items
  | _ => .error (txt "RunPod pod list was not an array")

/-- `_graphql`. -/
def graphqlData : Option Json → Except Text (List (Text × Json))
  | some (.obj response) => do
    match lookup (txt "errors") response with
    | none | some .null | some (.arr []) => .ok ()
    | some (.arr _) => .error (txt "RunPod GraphQL request failed")
    | some _ => .error (txt "RunPod GraphQL errors field was malformed")
    match lookup (txt "data") response with
    | some (.obj data) => .ok data
    | _ => .error (txt "RunPod GraphQL response had no data")
  | _ => .error (txt "RunPod GraphQL response was not an object")

/-- The pod `_create_pod` reads. -/
def createdPod (answer : Option Json) : Except Text PodObservation := do
  let data ← graphqlData answer
  podIn (txt "RunPod create returned no pod") (lookup (txt "podFindAndDeployOnDemand") data)

/-! ## Commands -/

/-- A request to the API. The storage of a new pod is a volume with that key, or the
network volume of the request. -/
inductive Request : Type where
  | createPod : PodCreateRequest → (volumeKey : Option Text) → Request
  | listPods
  | getPod : (podId : Text) → Request
  | startPod : (podId : Text) → Request
  | deletePod : (podId : Text) → Request
  deriving DecidableEq

/-- What `_json_request` raises. -/
inductive RequestError : Type where
  /-- `RunPodTransportOutcomeUnknown` -/
  | outcomeUnknown : (message : Text) → RequestError
  /-- `ProviderProtocolError` -/
  | protocol : (message : Text) → RequestError
  /-- an exception of another class, such as of a body that breaks off -/
  | foreign : RequestError
  deriving DecidableEq

/-- What `_json_request` returns, where `none` is a pod that was not found. -/
abbrev Response := Except RequestError (Option Json)

/-- How writing a new file ends. -/
inductive Written : Type where
  | written | exists | failed
  deriving DecidableEq

/-- What is asked for. A file belongs to an operation. -/
inductive Command : Type where
  | request : Request → Command
  /-- `os.mkdir` of the directory of an operation -/
  | makeDirectory : (operationId : Text) → Command
  /-- `O_CREAT | O_EXCL`, and the text -/
  | createFile : (operationId name text : Text) → Command
  | readFile : (operationId name : Text) → Command
  /-- `iterdir` of the root, where every entry is the directory of an operation -/
  | listDirectories
  /-- `secrets.token_hex(15)` -/
  | tokenHex

/-- What comes back. A file that cannot be read is `none`, and so is a root that is no directory. -/
abbrev Answer : Command → Type
  | .request _ => Response
  | .makeDirectory _ => Bool
  | .createFile _ _ _ => Written
  | .readFile _ _ => Option Text
  | .listDirectories => Option (List Text)
  | .tokenHex => Text

/-! ## The client -/

/-- What a method of the client raises. -/
inductive ClientError : Type where
  | request : RequestError → ClientError
  /-- `SecurityInvariantError` -/
  | security : (message : Text) → (resourceId : Option Text) → ClientError
  deriving DecidableEq

/-- `str` of a `ProviderProtocolError`. -/
def RequestError.message : RequestError → Option Text
  | .outcomeUnknown m | .protocol m => some m
  | .foreign => none

/-- A call of the client. -/
abbrev Client := Process Command Answer ClientError

/-- `_json_request`. -/
def jsonRequest (r : Request) : Client (Option Json) :=
  .call (.request r) fun
    | .ok v => .done v
    | .error e => .raise (.request e)

/-- Raise what does not parse. -/
def parsed {α : Type} : Except Text α → Client α
  | .ok a => .done a
  | .error m => .raise (.request (.protocol m))

/-- `list_pods`. -/
def listPods : Client (List PodObservation) := do
  let raw ← jsonRequest .listPods
  parsed (podsIn raw)

/-- `get_pod`. -/
def getPod (podId : Text) : Client (Option PodObservation) := do
  match ← jsonRequest (.getPod podId) with
  | none => pure none
  | raw => do
    let pod ← parsed (podIn (txt "RunPod pod response was not an object") raw)
    pure (some pod)

/-- `start_pod`. -/
def startPod (podId : Text) : Client PodObservation := do
  let raw ← jsonRequest (.startPod podId)
  parsed (podIn (txt "RunPod start response was not an object") raw)

/-- `delete_pod`. -/
def deletePod (podId : Text) : Client Bool := do
  let response ← jsonRequest (.deletePod podId)
  pure response.isSome

/-- `_create_pod`. -/
def createPod (request : PodCreateRequest) (volumeKey : Option Text) : Client PodObservation :=
  .call (.request (.createPod request volumeKey)) fun answer =>
    match answer with
    | .error (.protocol m) =>
      .raise (.request (.outcomeUnknown (txt "RunPod create outcome unknown: " ++ m)))
    | .error e => .raise (.request e)
    | .ok v =>
      match createdPod v with
      | .ok pod => .done pod
      | .error m => .raise (.request (.outcomeUnknown (txt "RunPod create outcome unknown: " ++ m)))

/-- `_reject_created_pod`. -/
def rejectCreatedPod {α : Type} (podId message : Text) : Client α :=
  .call (.request (.deletePod podId)) fun answer =>
    match answer with
    | .ok _ => .raise (.security (message ++ txt "; deletion requested") (some podId))
    | .error e =>
      match e.message with
      | some m => .raise (.security
          (message ++ txt "; deletion requested; cleanup also failed: " ++ m) (some podId))
      | none => .raise (.request e)

/-- `_VOLUME_KEY.fullmatch`: `[A-Za-z0-9]{1,30}\Z` -/
def isVolumeKey (t : Text) : Bool := 1 ≤ t.length && t.length ≤ 30 && t.all isAlnum

/-- A network volume id that may be asked for: `strip` leaves something, and there is no
NUL or line break. -/
def isNetworkVolumeId (t : Text) : Bool :=
  Decimal.strip t ≠ [] && t.all fun c => c ≠ 0 && c ≠ 13 && c ≠ 10

/-- `create_encrypted_pod`. A `ValueError` is an exception of another class. -/
def createEncryptedPod (request : PodCreateRequest) (volumeKey : Text) : Client PodObservation :=
  if isVolumeKey volumeKey = false then .raise (.request .foreign)
  else if ¬(∃ gb ∈ request.volumeGb, 0 < gb) then .raise (.request .foreign)
  else if request.networkVolumeId ≠ none then .raise (.request .foreign)
  else if request.cloudType ≠ txt "SECURE" then
    .raise (.security (txt "encrypted jobs require Secure Cloud") none)
  else do
    let pod ← createPod request (some volumeKey)
    if pod.volumeEncrypted = some true then pure pod
    else rejectCreatedPod pod.id (txt "RunPod created an unencrypted pod")

/-- `create_network_volume_pod`. -/
def createNetworkVolumePod (request : PodCreateRequest) : Client PodObservation :=
  if ¬(∃ id ∈ request.networkVolumeId, isNetworkVolumeId id = true) then .raise (.request .foreign)
  else if request.volumeGb ≠ none then .raise (.request .foreign)
  else if request.cloudType ≠ txt "SECURE" then
    .raise (.security (txt "network volumes require Secure Cloud") none)
  else do
    let pod ← createPod request none
    if pod.networkVolumeId = request.networkVolumeId then pure pod
    else
      rejectCreatedPod pod.id
        (txt "RunPod did not prove the requested network volume attachment")

end RunPod

end RunpodJobrunner
