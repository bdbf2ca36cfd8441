import RunpodJobrunner.IncrementalAck
import RunpodJobrunner.PosixPath
import RunpodJobrunner.RunnerIdentity

/-!
# Run requests

`_validate_request` of the remote runner, and the launch authorization it contains. The
request is a mapping that JSON was read into.
-/

namespace RunpodJobrunner

open Json Identity
open IncrementalAck (ackProtocol ackNamespace)

namespace Runner

/-- Why a request is not accepted. -/
inductive RequestFault : Type where
  /-- `RequestError` -/
  | invalid : (message : Text) → RequestFault
  /-- `OverflowError`, from an integer too large for a float -/
  | overflow : RequestFault
  deriving DecidableEq

/-- `PHASE_ORDER` -/
def phaseOrder : List Text :=
  [txt "verify", txt "preflight", txt "train", txt "evaluate", txt "package"]

/-! ## Patterns -/

/-- `_RUN_ID_PATTERN` -/
def runIdPattern : Regex := .seq RunpodJobrunner.runIdPattern .eos

/-- `[0-9a-f]{64}\Z` -/
def sha256Pattern : Regex := .seq (.exactly (.set isHex) 64) .eos

/-- `_IMAGE_DIGEST_PATTERN` -/
def imageDigestPattern : Regex :=
  .seq (.plus (.set fun c => c != 64 && !isSpace c)) (.seq (.lit (txt "@sha256:")) sha256Pattern)

/-- `_MONEY_PATTERN` -/
def moneyPattern : Regex :=
  let digit := Regex.set isDigit
  let nonzero := Regex.set fun c => isDigit c && c != 48
  .seq (.alt (.seq (.lit (txt "0.")) (.seq (.star digit) (.seq nonzero (.star digit))))
    (.seq nonzero (.seq (.star digit) (.opt (.seq (.chr 46) (.plus digit)))))) .eos

/-! ## Values -/

/-- `raise RequestError(message)` if a condition holds. -/
def refuseIf (condition : Prop) [Decidable condition] (message : Text) : Except RequestFault Unit :=
  if condition then .error (.invalid message) else .ok ()

/-- A string that a pattern accepts. -/
def matchesFully (pattern : Regex) : Json → Bool
  | .str t => pattern.fullmatch t
  | _ => false

/-- `_mapping`. -/
def mapping (candidate : Json) (name : Text) : Except RequestFault (List (Text × Json)) :=
  match candidate with
  | .obj members => .ok members
  | _ => .error (.invalid (name ++ txt " must be an object"))

/-- `_sequence`. -/
def sequence (candidate : Json) (name : Text) : Except RequestFault (List Json) :=
  match candidate with
  | .arr items => .ok items
  | _ => .error (.invalid (name ++ txt " must be an array"))

/-- `float(n)` overflows. -/
def overflows (n : ℤ) : Bool := 2 ^ 1024 - 2 ^ 970 ≤ n.natAbs

/-- A finite number, not a boolean, for which a condition holds. -/
def checkNumber (holds : ℚ → Bool) (candidate : Json) (message : Text) : Except RequestFault Unit :=
  match candidate with
  | .int n => if overflows n then .error .overflow else refuseIf (holds n = false) message
  | .float (.literal l) => refuseIf (holds l.value = false) message
  | _ => .error (.invalid message)

/-- `_positive_number`. -/
def positiveNumber (candidate : Json) (name : Text) : Except RequestFault Unit :=
  checkNumber (fun x => 0 < x) candidate (name ++ txt " must be a positive finite number")

/-- `_nonnegative_number`. -/
def nonnegativeNumber (candidate : Json) (name : Text) : Except RequestFault Unit :=
  checkNumber (fun x => 0 ≤ x) candidate (name ++ txt " must be a nonnegative finite number")

/-- A positive finite decimal. -/
def isPositive : Option Decimal → Bool
  | some (.finite neg coeff _) => !neg && coeff != 0
  | _ => false

/-- `_positive_decimal_string`. -/
def positiveDecimalString (candidate : Json) (name : Text) : Except RequestFault Unit :=
  match candidate with
  | .str t =>
    refuseIf (moneyPattern.fullmatch t = false ∨ isPositive (Decimal.ofText t) = false)
      (name ++ txt " must be a positive decimal string")
  | _ => .error (.invalid (name ++ txt " must be a positive decimal string"))

/-- `_safe_relative_path` accepts a string. -/
def isSafeRelative (candidate : Text) : Bool :=
  let path := PurePosixPath.ofText candidate
  candidate ≠ [] && !candidate.contains 92 && !candidate.contains 0 && !path.isAbsolute &&
    path.parts.all (fun part => part ≠ [] && part ≠ txt "." && part ≠ txt "..") &&
    path.text = candidate

/-- `_safe_relative_path`. -/
def safeRelativePath (candidate : Json) (name : Text) : Except RequestFault Unit :=
  match candidate with
  | .str t => refuseIf (isSafeRelative t = false) (name ++ txt " must be a normalized relative path")
  | _ => .error (.invalid (name ++ txt " must be a normalized relative path"))

/-! ## The launch authorization -/

/-- `LAUNCH_RELATIVE_PATH` -/
def launchRelativePath : Text := txt "control/launch-authorization.token"

/-- `LaunchAuthorization`. -/
structure LaunchAuthorization where
  relativePath : PurePosixPath
  sha256 : Text
  size : ℕ
  timeoutSeconds : ℚ

/-- `parse_launch_authorization`; its error is raised on as a `RequestError`. -/
def parseLaunchAuthorization (candidate : Json) : Except RequestFault LaunchAuthorization :=
  match candidate with
  | .obj record => do
    refuseIf (fetch (txt "protocol") record ≠ .str (txt "launch-authorization/1"))
      (txt "launch authorization protocol is unsupported")
    refuseIf (fetch (txt "path") record ≠ .str launchRelativePath)
      (txt "launch authorization path is unsupported")
    match fetch (txt "sha256") record, fetch (txt "size") record,
      fetch (txt "timeout_seconds") record with
    | .str expected, .int size, timeout => do
      refuseIf ((Regex.exactly (.set isHex) 64).fullmatch expected = false)
        (txt "launch authorization sha256 is invalid")
      refuseIf (¬(1 ≤ size ∧ size ≤ 4096)) (txt "launch authorization size is invalid")
      checkNumber (fun x => 0 < x && x ≤ 3600) timeout (txt "launch authorization timeout is invalid")
      .ok ⟨.ofText launchRelativePath, expected, size.toNat, timeout.number.getD 0⟩
    | .str expected, _, _ => do
      refuseIf ((Regex.exactly (.set isHex) 64).fullmatch expected = false)
        (txt "launch authorization sha256 is invalid")
      .error (.invalid (txt "launch authorization size is invalid"))
    | _, _, _ => .error (.invalid (txt "launch authorization sha256 is invalid"))
  | _ => .error (.invalid (txt "launch_authorization must be an object"))

/-! ## The request -/

/-- The checks of `storage`. -/
def validateStorage (storage : List (Text × Json)) : Except RequestFault Unit := do
  let networkVolumeId := fetch (txt "network_volume_id") storage
  match fetch (txt "encrypted") storage with
  | .bool true =>
    refuseIf (networkVolumeId ≠ .null)
      (txt "encrypted pod storage cannot declare network_volume_id")
  | .bool false =>
    match networkVolumeId with
    | .str t =>
      refuseIf (t.all isSpace ∨ t.contains 0 ∨ t.contains 13 ∨ t.contains 10)
        (txt "unencrypted storage requires a non-empty network_volume_id")
    | _ => .error (.invalid (txt "unencrypted storage requires a non-empty network_volume_id"))
  | _ => .error (.invalid (txt "storage.encrypted must be boolean"))
  match fetch (txt "mount") storage with
  | .str t =>
    refuseIf ((PurePosixPath.ofText t).isAbsolute = false) (txt "storage.mount must be absolute")
  | _ => .error (.invalid (txt "storage.mount must be absolute"))
  refuseIf (positiveInt (fetch (txt "required_gb") storage) = none)
    (txt "storage.required_gb must be a positive integer")

/-- An argument of a command. -/
def isArgument : Json → Bool
  | .str (_ :: _) => true
  | _ => false

/-- The checks of one phase. -/
def validatePhase (phases : List (Text × Json)) (phase : Text) : Except RequestFault Unit := do
  let name := txt "phases." ++ phase
  let config ← mapping (fetch phase phases) name
  let enabled ← match fetch (txt "enabled") config with
    | .bool b => .ok b
    | _ => .error (.invalid (name ++ txt ".enabled must be boolean"))
  let argv ← sequence (fetch (txt "argv") config) (name ++ txt ".argv")
  refuseIf (enabled ∧ (argv = [] ∨ argv.all isArgument = false))
    (name ++ txt ".argv must contain non-empty strings")
  positiveNumber (fetch (txt "timeout_seconds") config) (name ++ txt ".timeout_seconds")

/-- The check of `artifact_manifest_path`. -/
def validateManifestPath (manifestPath : Json) : Except RequestFault Unit :=
  if manifestPath = .null then .ok () else
    safeRelativePath manifestPath (txt "artifact_manifest_path")

/-- The checks of `incremental_mirror_ack`. -/
def validateAcknowledgement (acknowledgement : Json) : Except RequestFault Unit :=
  if acknowledgement = .null then .ok ()
  else do
    let ack ← mapping acknowledgement (txt "incremental_mirror_ack")
    refuseIf (fetch (txt "protocol") ack ≠ .str ackProtocol)
      (txt "incremental mirror acknowledgement protocol is unsupported")
    safeRelativePath (fetch (txt "directory") ack) (txt "incremental_mirror_ack.directory")
    positiveNumber (fetch (txt "timeout_seconds") ack) (txt "incremental_mirror_ack.timeout_seconds")
    let signer ← mapping (fetch (txt "signer") ack) (txt "incremental_mirror_ack.signer")
    let isString key := match fetch key signer with | .str _ => true | _ => false
    refuseIf (fetch (txt "algorithm") signer ≠ .str (txt "ssh-ed25519") ∨
        fetch (txt "namespace") signer ≠ .str ackNamespace ∨
        [txt "identity", txt "key_id", txt "public_key"].all isString = false)
      (txt "incremental mirror acknowledgement signer is invalid")

/-- A check of `identity`, whose error is raised on as a `RequestError`. -/
def orRequestError {α : Type} : Except Text α → Except RequestFault α
  | .ok a => .ok a
  | .error message => .error (.invalid message)

/-- `_validate_request`. -/
def validateRequest (request : List (Text × Json)) : Except RequestFault (List (Text × Json)) := do
  refuseIf (fetch (txt "protocol") request ≠ .str (txt "run-request/1"))
    (txt "unsupported run request protocol")
  refuseIf (matchesFully runIdPattern (fetch (txt "run_id") request) = false)
    (txt "run_id must be a safe non-empty identifier")
  refuseIf (matchesFully sha256Pattern (fetch (txt "bundle_hash") request) = false)
    (txt "bundle_hash must be a lowercase sha256 digest")
  refuseIf (matchesFully imageDigestPattern (fetch (txt "image_digest") request) = false)
    (txt "image_digest must pin an image by sha256 digest")
  let _ ← orRequestError (validateRunnerVersion (fetch (txt "runner_version") request))
  let _ ← orRequestError (validateGitCommit (fetch (txt "runner_git_commit") request))
  let _ ← orRequestError (protocolMajors (fetch (txt "supported_protocol_majors") request))
  let storage ← mapping (fetch (txt "storage") request) (txt "storage")
  validateStorage storage
  let phases ← mapping (fetch (txt "phases") request) (txt "phases")
  refuseIf (¬(phases.all (fun p => p.1 ∈ phaseOrder) ∧
    phaseOrder.all fun p => p ∈ phases.map Prod.fst))
    (txt "phases must contain exactly the fixed phase names")
  phaseOrder.forM (validatePhase phases)
  let limits ← mapping (fetch (txt "limits") request) (txt "limits")
  positiveNumber (fetch (txt "max_elapsed_seconds") limits) (txt "limits.max_elapsed_seconds")
  positiveDecimalString (fetch (txt "max_cost_usd") limits) (txt "limits.max_cost_usd")
  positiveDecimalString (fetch (txt "usd_per_hour") limits) (txt "limits.usd_per_hour")
  positiveNumber (fetch (txt "heartbeat_interval_seconds") request) (txt "heartbeat_interval_seconds")
  nonnegativeNumber (fetch (txt "termination_grace_seconds") request)
    (txt "termination_grace_seconds")
  refuseIf (fetch (txt "artifact_path_base") request ≠ .str (txt "run-root"))
    (txt "artifact_path_base must be run-root")
  validateManifestPath (fetch (txt "artifact_manifest_path") request)
  validateAcknowledgement (fetch (txt "incremental_mirror_ack") request)
  let _ ← parseLaunchAuthorization (fetch (txt "launch_authorization") request)
  .ok request

/-! ## What a validated request says -/

theorem refuseIf_ok {condition : Prop} [Decidable condition] {message : Text} {u : Unit} :
    refuseIf condition message = .ok u ↔ ¬condition := by
  rw [refuseIf]
  split
  · next h => exact iff_of_false nofun (not_not_intro h)
  · next h => exact iff_of_true rfl h

theorem orRequestError_ok {α : Type} {x : Except Text α} {a : α} :
    orRequestError x = .ok a ↔ x = .ok a := by
  cases x with
  | error e => exact iff_of_false nofun nofun
  | ok b => exact ⟨fun h => congrArg _ (Except.ok.inj h), fun h => congrArg _ (Except.ok.inj h)⟩

theorem matchesFully_iff {pattern : Regex} {v : Json} :
    matchesFully pattern v = true ↔ ∃ t, v = .str t ∧ pattern.fullmatch t = true := by
  cases v with
  | str t => exact ⟨fun h => ⟨t, rfl, h⟩, by rintro ⟨_, ⟨⟩, h⟩; exact h⟩
  | _ => exact iff_of_false nofun nofun

theorem validateRunnerVersion_ok {v : Json} {t : Text} (h : validateRunnerVersion v = .ok t) :
    v = .str t := by
  unfold validateRunnerVersion at h
  split at h
  · split at h
    · rw [Except.ok.inj h]
    · cases h
  · cases h

theorem validateGitCommit_ok {v : Json} {t : Text} (h : validateGitCommit v = .ok t) :
    v = .str t := by
  unfold validateGitCommit at h
  split at h
  · obtain ⟨-, h⟩ := ite_error_iff.mp h
    obtain ⟨-, h⟩ := ite_error_iff.mp h
    rw [Except.ok.inj h]
  · cases h

/-- The run and the identity that a validated request asks for. -/
structure AsksFor (request : List (Text × Json)) (id version commit : Text) (majors : Majors) :
    Prop where
  runId : fetch (txt "run_id") request = .str id
  isRunId : runIdPattern.fullmatch id = true
  version : fetch (txt "runner_version") request = .str version
  gitCommit : fetch (txt "runner_git_commit") request = .str commit
  majors : protocolMajors (fetch (txt "supported_protocol_majors") request) = .ok majors

/-- A request is returned as it is, when it is accepted. -/
theorem validateRequest_asksFor {request validated : List (Text × Json)}
    (h : validateRequest request = .ok validated) :
    validated = request ∧ ∃ id version commit majors, AsksFor request id version commit majors := by
  unfold validateRequest at h
  obtain ⟨-, -, h⟩ := bind_ok_iff.mp h
  obtain ⟨⟨⟩, hrunId, h⟩ := bind_ok_iff.mp h
  obtain ⟨-, -, h⟩ := bind_ok_iff.mp h
  obtain ⟨-, -, h⟩ := bind_ok_iff.mp h
  obtain ⟨version, hversion, h⟩ := bind_ok_iff.mp h
  obtain ⟨commit, hgitCommit, h⟩ := bind_ok_iff.mp h
  obtain ⟨majors, hmajors, h⟩ := bind_ok_iff.mp h
  rw [refuseIf_ok, Bool.not_eq_false] at hrunId
  obtain ⟨id, hid, hisRunId⟩ := matchesFully_iff.mp hrunId
  refine ⟨?_, id, version, commit, majors, hid, hisRunId,
    validateRunnerVersion_ok (orRequestError_ok.mp hversion),
    validateGitCommit_ok (orRequestError_ok.mp hgitCommit), orRequestError_ok.mp hmajors⟩
  obtain ⟨storage, -, h⟩ := bind_ok_iff.mp h
  obtain ⟨-, -, h⟩ := bind_ok_iff.mp h
  obtain ⟨phases, -, h⟩ := bind_ok_iff.mp h
  obtain ⟨-, -, h⟩ := bind_ok_iff.mp h
  obtain ⟨-, -, h⟩ := bind_ok_iff.mp h
  obtain ⟨limits, -, h⟩ := bind_ok_iff.mp h
  obtain ⟨-, -, h⟩ := bind_ok_iff.mp h
  obtain ⟨-, -, h⟩ := bind_ok_iff.mp h
  obtain ⟨-, -, h⟩ := bind_ok_iff.mp h
  obtain ⟨-, -, h⟩ := bind_ok_iff.mp h
  obtain ⟨-, -, h⟩ := bind_ok_iff.mp h
  obtain ⟨-, -, h⟩ := bind_ok_iff.mp h
  obtain ⟨-, -, h⟩ := bind_ok_iff.mp h
  obtain ⟨-, -, h⟩ := bind_ok_iff.mp h
  obtain ⟨authorization, -, h⟩ := bind_ok_iff.mp h
  exact (Except.ok.inj h).symm

/-- The rate that a validated request is charged at. -/
theorem validateRequest_rate {request validated : List (Text × Json)}
    (h : validateRequest request = .ok validated) :
    ∃ limits, mapping (fetch (txt "limits") request) (txt "limits") = .ok limits ∧
      positiveDecimalString (fetch (txt "usd_per_hour") limits)
      (txt "limits.usd_per_hour") = .ok () := by
  unfold validateRequest at h
  obtain ⟨-, -, h⟩ := bind_ok_iff.mp h
  obtain ⟨-, -, h⟩ := bind_ok_iff.mp h
  obtain ⟨-, -, h⟩ := bind_ok_iff.mp h
  obtain ⟨-, -, h⟩ := bind_ok_iff.mp h
  obtain ⟨version, -, h⟩ := bind_ok_iff.mp h
  obtain ⟨commit, -, h⟩ := bind_ok_iff.mp h
  obtain ⟨majors, -, h⟩ := bind_ok_iff.mp h
  obtain ⟨storage, -, h⟩ := bind_ok_iff.mp h
  obtain ⟨-, -, h⟩ := bind_ok_iff.mp h
  obtain ⟨phases, -, h⟩ := bind_ok_iff.mp h
  obtain ⟨-, -, h⟩ := bind_ok_iff.mp h
  obtain ⟨-, -, h⟩ := bind_ok_iff.mp h
  obtain ⟨limits, hlimits, h⟩ := bind_ok_iff.mp h
  obtain ⟨-, -, h⟩ := bind_ok_iff.mp h
  obtain ⟨-, -, h⟩ := bind_ok_iff.mp h
  obtain ⟨_, hrate, -⟩ := bind_ok_iff.mp h
  exact ⟨limits, hlimits, hrate⟩

end Runner

end RunpodJobrunner
