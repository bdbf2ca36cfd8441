import RunpodJobrunner.RunRequest

/-!
# The identity checks

The runner's own `_identity_failure`, the controller's `_remote_identity_error` and the local
executor's `_local_ready_identity_error`. The first two find fault with the same identities
(`failure_iff_remote`); the third does not look at the acknowledgement protocol, so that all
three agree unless that is the only fault (`checks_agree`).
-/

namespace RunpodJobrunner

open Json Identity
open IncrementalAck (ackProtocol ackNamespace)

/-- The protocol of acknowledgements among the majors. -/
def mirrorAck : Text := txt "incremental-mirror-ack"

namespace Runner

/-- `_identity_failure`, of a request that was validated; an error where it raises. -/
def identityFailure (request : List (Text × Json)) (identity : RunnerIdentity) :
    Except Text (Option Text) :=
  if fetch (txt "runner_version") request ≠ .str identity.version then
    .ok (some (txt "runner_version_mismatch"))
  else if fetch (txt "runner_git_commit") request ≠ .str identity.gitCommit then
    .ok (some (txt "runner_git_commit_mismatch"))
  else do
    let requested ← protocolMajors (fetch (txt "supported_protocol_majors") request)
    let lacks := lacks requested identity.supportedProtocolMajors
    if requiredProtocols.any lacks then .ok (some (txt "unsupported_protocol_major"))
    else if fetch (txt "incremental_mirror_ack") request ≠ .null ∧ lacks mirrorAck then
      .ok (some (txt "unsupported_protocol_major"))
    else .ok none

end Runner

namespace Executor

/-- `_remote_identity_error`. Required protocols are among the majors that were parsed. -/
def remoteIdentityError (status request : List (Text × Json)) : Option Text :=
  if same true (fetch (txt "runner_version") status)
      (fetch (txt "runner_version") request) = false then
    some (txt "version")
  else if same true (fetch (txt "runner_git_commit") status)
      (fetch (txt "runner_git_commit") request) = false then
    some (txt "Git commit")
  else
    match protocolMajors (fetch (txt "supported_protocol_majors") status),
      protocolMajors (fetch (txt "supported_protocol_majors") request) with
    | .ok runner, .ok controller =>
      match requiredProtocols.find? (lacks runner controller) with
      | some protocol => some (txt "unsupported " ++ protocol ++ txt " major")
      | none =>
        if fetch (txt "incremental_mirror_ack") request ≠ .null ∧
          lacks runner controller mirrorAck then
          some (txt "unsupported incremental-mirror-ack major")
        else none
    | _, _ => some (txt "protocol capability receipt")

end Executor

namespace Application

/-- `_local_ready_identity_error`. -/
def localReadyIdentityError (status request : List (Text × Json)) : Option Text :=
  if fetch (txt "protocol") status ≠ .str (txt "run-status/1") ∨
      same true (fetch (txt "run_id") status) (fetch (txt "run_id") request) = false then
    some (txt "status protocol or run id differs from the request")
  else if same true (fetch (txt "runner_version") status)
      (fetch (txt "runner_version") request) = false then
    some (txt "runner version differs from the request")
  else if same true (fetch (txt "runner_git_commit") status)
      (fetch (txt "runner_git_commit") request) = false then
    some (txt "runner Git commit differs from the request")
  else
    match protocolMajors (fetch (txt "supported_protocol_majors") status) with
    | .error message => some message
    | .ok runner =>
      match protocolMajors (fetch (txt "supported_protocol_majors") request) with
      | .error message => some message
      | .ok controller =>
        (requiredProtocols.find? (lacks runner controller)).map fun protocol =>
          txt "protocol major differs for " ++ protocol

end Application

/-! ## Agreement -/

/-- A status that carries an identity. -/
structure Carries (status : List (Text × Json)) (identity : RunnerIdentity) : Prop where
  version : fetch (txt "runner_version") status = .str identity.version
  gitCommit : fetch (txt "runner_git_commit") status = .str identity.gitCommit
  majors : fetch (txt "supported_protocol_majors") status =
    .obj (majorFields identity.supportedProtocolMajors)

namespace Runner

/-- The majors a request offers. -/
def requestedMajors (request : List (Text × Json)) : Majors :=
  match protocolMajors (fetch (txt "supported_protocol_majors") request) with
  | .ok majors => majors
  | .error _ => []

/-- The version, the commit and the required protocols fit. -/
structure Fits (request : List (Text × Json)) (identity : RunnerIdentity) : Prop where
  version : fetch (txt "runner_version") request = .str identity.version
  gitCommit : fetch (txt "runner_git_commit") request = .str identity.gitCommit
  required : ∀ protocol ∈ requiredProtocols,
    lacks (requestedMajors request) identity.supportedProtocolMajors protocol = false

/-- Acknowledgements are not asked for, or both sides support them. -/
def Acknowledges (request : List (Text × Json)) (identity : RunnerIdentity) : Prop :=
  fetch (txt "incremental_mirror_ack") request = .null ∨
    lacks (requestedMajors request) identity.supportedProtocolMajors mirrorAck = false

variable {request status : List (Text × Json)} {id version commit : Text} {majors parsed : Majors}
  {identity : RunnerIdentity}

theorem same_str (s t : Text) : same true (.str s) (.str t) = decide (s = t) := by
  by_cases h : s = t <;> simp [same, sameScalar, unboxed, number, h]

theorem acknowledges_iff :
    Acknowledges request identity ↔ ¬(fetch (txt "incremental_mirror_ack") request ≠ .null ∧
      lacks (requestedMajors request) identity.supportedProtocolMajors mirrorAck = true) := by
  rw [Acknowledges, not_and_or, not_not, Bool.not_eq_true]

theorem AsksFor.requested (h : AsksFor request id version commit majors) :
    requestedMajors request = majors := by
  rw [requestedMajors, h.majors]

/-- The first required protocol that one side lacks, in either order of the sides. -/
theorem find?_lacks {a b : Majors} : requiredProtocols.find? (lacks b a) = none ↔
    ∀ protocol ∈ requiredProtocols, lacks a b protocol = false := by
  simp only [List.find?_eq_none, Bool.not_eq_true, lacks_comm b]

/-- The runner's own check. -/
theorem identityFailure_iff (h : AsksFor request id version commit majors) :
    identityFailure request identity = .ok none ↔
      Fits request identity ∧ Acknowledges request identity := by
  rw [identityFailure]
  split
  · next hversion => exact iff_of_false nofun fun hfits => hversion hfits.1.version
  next hversion =>
  split
  · next hcommit => exact iff_of_false nofun fun hfits => hcommit hfits.1.gitCommit
  next hcommit =>
  rw [h.majors, ← h.requested]
  change (if _ then _ else if _ then _ else _) = _ ↔ _
  split
  · next hrequired =>
    obtain ⟨protocol, hmem, hlacks⟩ := List.any_eq_true.mp hrequired
    exact iff_of_false nofun fun hfits => absurd (hfits.1.required protocol hmem) (by simp [hlacks])
  next hrequired =>
  have hfits : Fits request identity :=
    ⟨not_not.mp hversion, not_not.mp hcommit, by simpa using hrequired⟩
  -- what is left is the acknowledgement
  split
  · next hack => exact iff_of_false nofun fun hboth => acknowledges_iff.mp hboth.2 hack
  · next hack => exact iff_of_true rfl ⟨hfits, acknowledges_iff.mpr hack⟩

/-- The controller's check. -/
theorem remoteIdentityError_iff (h : AsksFor request id version commit majors)
    (hparsed : protocolMajors (.obj (majorFields identity.supportedProtocolMajors)) = .ok parsed)
    (hstatus : Carries status identity) :
    Executor.remoteIdentityError status request = none ↔
      Fits request identity ∧ Acknowledges request identity := by
  obtain rfl := protocolMajors_fields hparsed
  rw [Executor.remoteIdentityError, h.version, h.gitCommit, h.majors, hstatus.version,
    hstatus.gitCommit, hstatus.majors, hparsed, same_str, same_str, ← h.requested]
  split
  · next hversion =>
    refine iff_of_false nofun fun hfits => ?_
    simp [Json.str.inj (h.version.symm.trans hfits.1.version)] at hversion
  next hversion =>
  split
  · next hcommit =>
    refine iff_of_false nofun fun hfits => ?_
    simp [Json.str.inj (h.gitCommit.symm.trans hfits.1.gitCommit)] at hcommit
  next hcommit =>
  simp only
  split
  · next protocol hsome =>
    refine iff_of_false nofun fun hfits => ?_
    rw [find?_lacks.mpr hfits.1.required] at hsome
    cases hsome
  · next hnone =>
    have hfits : Fits request identity := by
      refine ⟨?_, ?_, find?_lacks.mp hnone⟩
      · simpa [h.version, eq_comm] using hversion
      · simpa [h.gitCommit, eq_comm] using hcommit
    rw [lacks_comm]
    split
    · next hack => exact iff_of_false nofun fun hboth => acknowledges_iff.mp hboth.2 hack
    · next hack => exact iff_of_true rfl ⟨hfits, acknowledges_iff.mpr hack⟩

/-- The local executor's check. -/
theorem localReadyIdentityError_iff (h : AsksFor request id version commit majors)
    (hparsed : protocolMajors (.obj (majorFields identity.supportedProtocolMajors)) = .ok parsed)
    (hstatus : Carries status identity)
    (hprotocol : fetch (txt "protocol") status = .str (txt "run-status/1"))
    (hrunId : fetch (txt "run_id") status = fetch (txt "run_id") request) :
    Application.localReadyIdentityError status request = none ↔ Fits request identity := by
  obtain rfl := protocolMajors_fields hparsed
  rw [Application.localReadyIdentityError, hprotocol, hrunId, h.runId, h.version, h.gitCommit,
    h.majors, hstatus.version, hstatus.gitCommit, hstatus.majors, hparsed, same_str, same_str,
    same_str, ← h.requested, if_neg (by simp)]
  split
  · next hversion =>
    refine iff_of_false nofun fun hfits => ?_
    simp [Json.str.inj (h.version.symm.trans hfits.version)] at hversion
  next hversion =>
  split
  · next hcommit =>
    refine iff_of_false nofun fun hfits => ?_
    simp [Json.str.inj (h.gitCommit.symm.trans hfits.gitCommit)] at hcommit
  next hcommit =>
  rw [Option.map_eq_none_iff, find?_lacks]
  refine ⟨fun hrequired => ⟨?_, ?_, hrequired⟩, fun hfits => hfits.required⟩
  · simpa [h.version, eq_comm] using hversion
  · simpa [h.gitCommit, eq_comm] using hcommit

/-- **The identity checks agree** unless an acknowledgement that one side does not support
is the only fault. -/
theorem checks_agree (request validated status : List (Text × Json)) (identity : RunnerIdentity)
    (parsed : Majors) (hvalid : validateRequest request = .ok validated)
    (hparsed : protocolMajors (.obj (majorFields identity.supportedProtocolMajors)) = .ok parsed)
    (hstatus : Carries status identity)
    (hprotocol : fetch (txt "protocol") status = .str (txt "run-status/1"))
    (hrunId : fetch (txt "run_id") status = fetch (txt "run_id") validated) :
    ((identityFailure validated identity = .ok none ↔
        Executor.remoteIdentityError status validated = none) ∧
      (Executor.remoteIdentityError status validated = none ↔
        Application.localReadyIdentityError status validated = none)) ↔
      (Fits validated identity → Acknowledges validated identity) := by
  obtain ⟨rfl, id, version, commit, majors, hasks⟩ := validateRequest_asksFor hvalid
  rw [identityFailure_iff hasks, remoteIdentityError_iff hasks hparsed hstatus,
    localReadyIdentityError_iff hasks hparsed hstatus hprotocol hrunId]
  rw [iff_self, true_and, and_iff_left_iff_imp]

/-- A request for a run, with an acknowledgement or without. -/
def sampleRequest (acknowledgement : Json) : List (Text × Json) :=
  let phase :=
    Json.obj [(txt "enabled", .bool false), (txt "argv", .arr []), (txt "timeout_seconds", .int 1)]
  let digest := List.replicate 64 97
  [(txt "protocol", .str (txt "run-request/1")), (txt "run_id", .str (txt "run-1")),
    (txt "bundle_hash", .str digest), (txt "image_digest", .str (txt "image@sha256:" ++ digest)),
    (txt "runner_version", .str (txt "0.1.0")),
    (txt "runner_git_commit", .str (List.replicate 40 97)),
    (txt "supported_protocol_majors",
      .obj ((requiredProtocols ++ [mirrorAck]).map fun protocol => (protocol, .arr [.int 1]))),
    (txt "storage", .obj [(txt "encrypted", .bool true), (txt "mount", .str (txt "/workspace")),
      (txt "required_gb", .int 10)]),
    (txt "phases", .obj (phaseOrder.map fun name => (name, phase))),
    (txt "limits",
      .obj [(txt "max_elapsed_seconds", .int 3600), (txt "max_cost_usd", .str (txt "1.5")),
        (txt "usd_per_hour", .str (txt "0.75"))]),
    (txt "heartbeat_interval_seconds", .int 5), (txt "termination_grace_seconds", .int 0),
    (txt "artifact_path_base", .str (txt "run-root")),
    (txt "incremental_mirror_ack", acknowledgement),
    (txt "launch_authorization", .obj [(txt "protocol", .str (txt "launch-authorization/1")),
      (txt "path", .str launchRelativePath), (txt "sha256", .str digest), (txt "size", .int 65),
      (txt "timeout_seconds", .int 600)])]

/-- An acknowledgement that is asked for. -/
def sampleAcknowledgement : Json :=
  .obj [(txt "protocol", .str ackProtocol), (txt "directory", .str (txt "acks")),
    (txt "timeout_seconds", .int 60),
    (txt "signer",
      .obj [(txt "algorithm", .str (txt "ssh-ed25519")), (txt "namespace", .str ackNamespace),
        (txt "identity", .str (txt "controller")), (txt "key_id", .str (txt "key")),
        (txt "public_key", .str (txt "ssh-ed25519 AAAA"))])]

/-- A runner of the required protocols alone. -/
def sampleIdentity : RunnerIdentity :=
  ⟨txt "0.1.0", List.replicate 40 97, requiredProtocols.map fun protocol => (protocol, [1])⟩

/-- The status it publishes. -/
def sampleStatus : List (Text × Json) :=
  [(txt "protocol", .str (txt "run-status/1")), (txt "run_id", .str (txt "run-1"))] ++
    sampleIdentity.asProtocolFields

theorem checks_agree_sample :
    ((identityFailure (sampleRequest .null) sampleIdentity = .ok none ↔
        Executor.remoteIdentityError sampleStatus (sampleRequest .null) = none) ∧
      (Executor.remoteIdentityError sampleStatus (sampleRequest .null) = none ↔
        Application.localReadyIdentityError sampleStatus (sampleRequest .null) = none)) ↔
      (Fits (sampleRequest .null) sampleIdentity →
        Acknowledges (sampleRequest .null) sampleIdentity) :=
  checks_agree (sampleRequest .null) _ _ _ sampleIdentity.supportedProtocolMajors (by decide +kernel)
    (by decide +kernel) ⟨by decide +kernel, by decide +kernel, by decide +kernel⟩ (by decide +kernel)
    (by decide +kernel)

/-- The local executor is content with a runner that cannot acknowledge. -/
theorem local_check_drifts :
    let request := sampleRequest sampleAcknowledgement
    validateRequest request = .ok request ∧
      (protocolMajors (.obj (majorFields sampleIdentity.supportedProtocolMajors))).isOk = true ∧
      Carries sampleStatus sampleIdentity ∧
      identityFailure request sampleIdentity = .ok (some (txt "unsupported_protocol_major")) ∧
      Executor.remoteIdentityError sampleStatus request =
        some (txt "unsupported incremental-mirror-ack major") ∧
      Application.localReadyIdentityError sampleStatus request = none := by
  refine ⟨by decide +kernel, by decide +kernel, ⟨?_, ?_, ?_⟩, ?_⟩ <;> decide +kernel

end Runner

end RunpodJobrunner
