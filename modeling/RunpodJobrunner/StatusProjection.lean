import RunpodJobrunner.RunRequest
import RunpodJobrunner.Seconds

/-!
# The status projection

`_public_status`: what the status server shows of a stored status. It checks every field again,
against lists of its own.
-/

namespace RunpodJobrunner

open Json Identity

namespace StatusServer

/-- `_STATES` -/
def states : List Text := [txt "ready", txt "running", txt "terminal"]

/-- `_OUTCOMES` -/
def outcomes : List Text :=
  [txt "succeeded", txt "failed", txt "stopped", txt "timed_out", txt "limit_exceeded"]

/-- `_REASONS` -/
def reasons : List Text :=
  [txt "all_enabled_phases_completed", txt "phase_nonzero_exit", txt "phase_start_failed",
    txt "phase_timeout", txt "termination_requested", txt "controller_stop_requested",
    txt "elapsed_cap", txt "cost_cap", txt "storage_unavailable",
    txt "storage_capacity_below_request", txt "runner_restart_unknown_child",
    txt "artifact_manifest_missing", txt "artifact_manifest_invalid", txt "artifact_file_missing",
    txt "artifact_size_mismatch", txt "artifact_hash_mismatch", txt "runner_version_mismatch",
    txt "runner_git_commit_mismatch", txt "runner_identity_unavailable",
    txt "unsupported_protocol_major", txt "launch_authorization_invalid",
    txt "launch_authorization_timeout"]

/-- Why a status is not shown. -/
inductive StatusFault : Type where
  /-- `StatusRecordError` -/
  | record : (message : Text) → StatusFault
  /-- `OverflowError`, from an integer too large for a float -/
  | overflow : StatusFault
  deriving DecidableEq

/-- The result of a check. -/
abbrev Checked := Except StatusFault

/-! ## Values -/

/-- `raise StatusRecordError(message)` unless a condition holds. -/
def require (condition : Prop) [Decidable condition] (message : Text) : Checked Unit :=
  if condition then .ok () else .error (.record message)

/-- `_mapping`. -/
def mapping (candidate : Json) : Checked (List (Text × Json)) :=
  match candidate with
  | .obj members => .ok members
  | _ => .error (.record (txt "expected object"))

/-- `_string`. -/
def string (candidate : Json) : Checked Text :=
  match candidate with
  | .str t => .ok t
  | _ => .error (.record (txt "expected string"))

/-- `_optional_string`. -/
def optionalString (candidate : Json) : Checked (Option Text) :=
  match candidate with
  | .null => .ok none
  | candidate => (string candidate).map some

/-- `_integer`. -/
def integer (candidate : Json) : Checked ℤ :=
  match candidate with
  | .int n => .ok n
  | _ => .error (.record (txt "expected integer"))

/-- An integer as a literal of a float. -/
def integerLiteral (n : ℤ) : FloatLiteral where
  neg := n < 0
  whole := n.natAbs
  frac := [48]
  exp := none
  frac_digits := by decide
  exp_wf := FloatLiteral.exp_none
  isFloat := .inl (by decide)

/-- `_number`. -/
def number (floatOf : FloatLiteral → JsonFloat) (candidate : Json) : Checked JsonFloat :=
  match candidate with
  | .int n => if Runner.overflows n then .error .overflow else .ok (floatOf (integerLiteral n))
  | .float f => .ok f
  | _ => .error (.record (txt "expected number"))

/-- `_decimal_string`. -/
def decimalString (candidate : Json) : Checked Text :=
  match candidate with
  | .str t =>
    match Decimal.ofText t with
    | none => .error (.record (txt "expected decimal string"))
    | some d =>
      if d.isFinite = false ∨ d.isNegative = true then
        .error (.record (txt "expected nonnegative decimal string"))
      else .ok t
  | _ => .error (.record (txt "expected decimal string"))

/-- A string, or `None`. -/
def textOrNull : Option Text → Json
  | some t => .str t
  | none => .null

/-- A phase of the fixed ones. -/
def isPhase : Json → Bool
  | .str t => t ∈ Runner.phaseOrder
  | _ => false

/-! ## Parts of a status -/

/-- `_public_protocol_majors`. -/
def publicProtocolMajors (candidate : Json) : Checked Json :=
  match protocolMajors candidate with
  | .ok parsed => .ok (.obj (majorFields parsed))
  | .error _ => .error (.record (txt "invalid supported protocol majors"))

/-- An exit code, or `None`. -/
def optionalInteger (candidate : Json) : Checked Json :=
  match candidate with
  | .null => .ok .null
  | candidate => (integer candidate).map .int

/-- `_public_child`. -/
def publicChild (candidate : Json) : Checked Json :=
  match candidate with
  | .null => .ok .null
  | candidate => do
    let child ← mapping candidate
    match fetch (txt "running") child with
    | .bool running => do
      let exitCode ← optionalInteger (fetch (txt "exit_code") child)
      let pid ← integer (fetch (txt "pid") child)
      .ok (.obj [(txt "pid", .int pid), (txt "running", .bool running), (txt "exit_code", exitCode)])
    | _ => .error (.record (txt "invalid child status"))

/-- The exit codes of phases. -/
def exitCodes : List (Text × Json) → Checked (List (Text × Json))
  | [] => .ok []
  | (phase, code) :: rest => do
    let n ← integer code
    let codes ← exitCodes rest
    .ok ((phase, .int n) :: codes)

/-- The receipt of a terminal result: its fields, none of them where there is no receipt. -/
def publicReceipt (terminal : List (Text × Json)) : Checked (List (Text × Json)) :=
  match fetch (txt "artifact_manifest_sha256") terminal,
    fetch (txt "artifact_manifest_size") terminal with
  | .null, .null => .ok []
  | .str sha256, .int size => do
    require (sha256.length = 64 ∧ sha256.all isHex = true ∧ 0 ≤ size)
      (txt "invalid artifact manifest receipt")
    .ok [(txt "artifact_manifest_sha256", .str sha256), (txt "artifact_manifest_size", .int size)]
  | _, _ => .error (.record (txt "invalid artifact manifest receipt"))

/-- `_public_terminal`. -/
def publicTerminal (floatOf : FloatLiteral → JsonFloat) (candidate : Json) : Checked Json :=
  match candidate with
  | .null => .ok .null
  | candidate => do
    let terminal ← mapping candidate
    match fetch (txt "completed_phases") terminal with
    | .arr completedPhases => do
      require (completedPhases.all isPhase = true) (txt "invalid completed phases")
      let rawExitCodes ← mapping (fetch (txt "phase_exit_codes") terminal)
      require (∀ p ∈ rawExitCodes, p.1 ∈ Runner.phaseOrder) (txt "invalid phase exit codes")
      let codes ← exitCodes rawExitCodes
      let outcome ← string (fetch (txt "outcome") terminal)
      let reason ← string (fetch (txt "reason") terminal)
      require (outcome ∈ outcomes ∧ reason ∈ reasons) (txt "unknown terminal result")
      let phase ← optionalString (fetch (txt "phase") terminal)
      require (∀ p, phase = some p → p ∈ Runner.phaseOrder) (txt "unknown terminal phase")
      let elapsed ← number floatOf (fetch (txt "elapsed_seconds") terminal)
      let cost ← decimalString (fetch (txt "estimated_cost_usd") terminal)
      let receipt ← publicReceipt terminal
      .ok (.obj ([(txt "outcome", .str outcome), (txt "reason", .str reason),
        (txt "phase", textOrNull phase), (txt "elapsed_seconds", .float elapsed),
        (txt "estimated_cost_usd", .str cost), (txt "completed_phases", .arr completedPhases),
        (txt "phase_exit_codes", .obj codes)] ++ receipt))
    | _ => .error (.record (txt "invalid completed phases"))

/-- `round(max(0.0, now - heartbeat_at), 6)` -/
def heartbeatAge (now : ℚ) : JsonFloat → Json
  | .literal l => secondsJson (micros (max 0 (now - l.value)))
  | .nan => secondsJson 0
  | .infinity neg => if neg then .float (.infinity false) else secondsJson 0

/-! ## The status -/

/-- `_public_status`, when `time.time()` is `now`. -/
def publicStatus (floatOf : FloatLiteral → JsonFloat) (now : ℚ) (candidate : Json) :
    Checked (List (Text × Json)) := do
  let status ← mapping candidate
  require (fetch (txt "protocol") status = .str (txt "run-status/1"))
    (txt "unsupported status protocol")
  let heartbeatAt ← number floatOf (fetch (txt "heartbeat_at_unix") status)
  let state ← string (fetch (txt "state") status)
  require (state ∈ states) (txt "unknown runner state")
  let phase ← optionalString (fetch (txt "phase") status)
  require (∀ p, phase = some p → p ∈ Runner.phaseOrder) (txt "unknown phase")
  let runId ← string (fetch (txt "run_id") status)
  let version ← string (fetch (txt "runner_version") status)
  let gitCommit ← string (fetch (txt "runner_git_commit") status)
  let majors ← publicProtocolMajors (fetch (txt "supported_protocol_majors") status)
  let monotonic ← number floatOf (fetch (txt "heartbeat_monotonic_seconds") status)
  let child ← publicChild (fetch (txt "child") status)
  let sequence ← integer (fetch (txt "latest_event_sequence") status)
  let terminal ← publicTerminal floatOf (fetch (txt "terminal_result") status)
  .ok [(txt "protocol", .str (txt "run-status/1")), (txt "run_id", .str runId),
    (txt "runner_version", .str version), (txt "runner_git_commit", .str gitCommit),
    (txt "supported_protocol_majors", majors), (txt "state", .str state),
    (txt "phase", textOrNull phase),
    (txt "heartbeat_age_seconds", heartbeatAge now heartbeatAt),
    (txt "heartbeat_monotonic_seconds", .float monotonic), (txt "child", child),
    (txt "latest_event_sequence", .int sequence), (txt "terminal_result", terminal)]

end StatusServer

end RunpodJobrunner
