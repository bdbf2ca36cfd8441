import RunpodJobrunner.RunnerWorld
import RunpodJobrunner.TornFragments

/-!
# The remote runner

`RemoteRunner`: a process that takes up the run where earlier ones on its status directory
left it. The attributes that never change after construction are the `Session`, the others the
`State`. Loops that wait have fuel; a process whose fuel runs out is one that still runs.
-/

namespace RunpodJobrunner

open Json Identity Process

namespace Runner

/-- What a process raises. -/
inductive Failure : Type where
  /-- `RequestError`, or the `OverflowError` of a check -/
  | request : RequestFault → Failure
  /-- `RunnerIdentityError` -/
  | identity : (message : Text) → Failure
  /-- `ArtifactVerificationError` -/
  | artifact : (reason : Text) → Failure
  /-- a signal of `decimal` -/
  | arithmetic : Failure
  /-- `ValueError` -/
  | value : Failure
  | key : (key : Text) → Failure
  | assertion : Failure
  /-- the fuel is out -/
  | unfinished : Failure
  deriving DecidableEq

/-- A call of the runner. -/
abbrev Remote := Process Command Answer Failure

/-- Issue a command. -/
def ask (c : Command) : Remote (Answer c) := perform c

/-- Raise what is an error. -/
def orRaise {ε α : Type} (failure : ε → Failure) : Except ε α → Remote α
  | .ok a => .done a
  | .error e => .raise (failure e)

/-- Raise where there is nothing. -/
def orElse {α : Type} (failure : Failure) : Option α → Except Failure α
  | some a => .ok a
  | none => .error failure

/-- A string, or `None`. -/
def optionalText : Option Text → Json
  | some t => .str t
  | none => .null

/-- `str(value)` of a string. -/
def textOf : Json → Text
  | .str t => t
  | _ => []

/-- `_number_as_float`. -/
def numberAsFloat (candidate : Json) : Except Failure ℚ := orElse .assertion candidate.number

/-- `_decimal`. -/
def decimalField (candidate : Json) : Except Failure Number :=
  match candidate with
  | .str t => orElse .arithmetic (decimalOf t)
  | _ => .error .assertion

/-- `_mapping`, of what a validated request contains. -/
def requestPart (request : Record) (name : Text) : Except Failure Record :=
  (mapping (fetch name request) name).mapError .request

/-! ## A session -/

/-- What is the same in all calls of a process. -/
structure Session where
  request : Record
  authorization : LaunchAuthorization
  statusTokenSha256 : Option Text
  identity : RunnerIdentity
  identityFailure : Option Text
  statusDir : PurePosixPath
  /-- the directory a path leads to in this process -/
  located : PurePosixPath → PurePosixPath
  runId : Text
  /-- `_started_monotonic` -/
  started : ℚ
  /-- `_prior_elapsed_seconds` -/
  prior : ℚ
  /-- a phase and a reason -/
  recoveredFailure : Option (Text × Text)

/-- What a process changes. -/
structure State where
  sequence : ℕ
  completedPhases : List Text
  settledPhases : List Text
  phaseExitCodes : Record
  currentPhase : Option Text
  launchAuthorized : Bool
  /-- the pid of the child -/
  child : Option ℤ

/-- `storage["mount"]` -/
def mountOf (request : Record) : PurePosixPath :=
  match fetch (txt "storage") request with
  | .obj storage => .ofText (textOf (fetch (txt "mount") storage))
  | _ => .ofText []

/-- The root of a run under a storage root. -/
def runRootUnder (storageRoot : PurePosixPath) (runId : Text) : PurePosixPath :=
  (storageRoot.join (.ofText (txt "runpod-jobrunner/runs"))).join (.ofText runId)

/-- Where the artifact manifest of a request is: which file of the status directory, if the
directory it is written in is that one. -/
def manifestPlaceOf (located : PurePosixPath → PurePosixPath) (request : Record)
    (statusDir : PurePosixPath) (runId : Text) : Place :=
  match fetch (txt "artifact_manifest_path") request with
  | .str manifest =>
    let path := (runRootUnder (mountOf request) runId).join (.ofText manifest)
    if located path.parent ≠ located statusDir then .elsewhere
    else if path.name = txt "events.jsonl" then .events
    else if path.name = txt "status.json" then .status
    else if path.name = txt "terminal-result.json" then .terminal
    else .elsewhere
  | _ => .elsewhere

namespace Session

variable (self : Session)

/-- `_run_root`. -/
def runRoot : PurePosixPath := runRootUnder (mountOf self.request) self.runId

/-- Where the artifact manifest of the run is. -/
def manifestPlace : Place := manifestPlaceOf self.located self.request self.statusDir self.runId

/-- The directory of the manifest. -/
def manifestParent : PurePosixPath :=
  match fetch (txt "artifact_manifest_path") self.request with
  | .str manifest => self.runRoot.join (PurePosixPath.ofText manifest).parent
  | _ => self.runRoot

/-- `_phase_log_path`. -/
def phaseLogPath (phase : Text) : PurePosixPath :=
  self.manifestParent.join (.ofText (txt "diagnostics/phases/" ++ phase ++ txt ".log"))

/-! ## Time and limits -/

/-- The elapsed time when the clock shows `now`, in millionths of a second. -/
def elapsedAt (now : ℚ) : ℕ := micros (self.prior + (now - self.started))

/-- `_elapsed_seconds`. -/
def elapsedSeconds : Remote ℕ := do
  let now ← ask .monotonic
  pure (self.elapsedAt now)

end Session

/-- `_estimated_cost_decimal`. -/
def costOf (request : Record) (elapsed : ℕ) : Except Failure Number := do
  let limits ← requestPart request (txt "limits")
  let usdPerHour ← decimalField (fetch (txt "usd_per_hour") limits)
  orElse .arithmetic (estimatedCost usdPerHour elapsed)

/-- What `_limit_reason` finds after that time. -/
def limitAt (request : Record) (elapsed : ℕ) : Except Failure (Option Text) := do
  let limits ← requestPart request (txt "limits")
  let maxElapsed ← numberAsFloat (fetch (txt "max_elapsed_seconds") limits)
  if maxElapsed ≤ ofMicros elapsed then .ok (some (txt "elapsed_cap"))
  else do
    let cost ← costOf request elapsed
    let maxCost ← decimalField (fetch (txt "max_cost_usd") limits)
    if cost.lt maxCost then .ok none else .ok (some (txt "cost_cap"))

/-- `_limit_reason`. -/
def limitReason (self : Session) : Remote (Option Text) := do
  let elapsed ← self.elapsedSeconds
  orRaise id (limitAt self.request elapsed)

/-! ## The files of the directory -/

/-- Encode a record that is about to be written. -/
def encode (record : Record) : Remote Unit :=
  if (lineOf record).isSome then .done () else .raise .value

/-- The record of an event, without the fields of its kind. -/
def eventRecord (self : Session) (sequence : ℕ) (kind : Text) (phase : Option Text) (elapsed : ℕ)
    (recordedAt : FloatLiteral) : Record :=
  [(txt "protocol", .str (txt "run-event/1")), (txt "run_id", .str self.runId),
    (txt "sequence", .int sequence), (txt "kind", .str kind), (txt "phase", optionalText phase),
    (txt "monotonic_seconds", secondsJson elapsed),
    (txt "recorded_at_unix", .float (.literal recordedAt))]

/-- `_append_event`. -/
def appendEvent (self : Session) (s : State) (kind : Text) (phase : Option Text) (fields : Record) :
    Remote State := do
  let sequence := s.sequence + 1
  let elapsed ← self.elapsedSeconds
  let recordedAt ← ask .time
  let event := eventRecord self sequence kind phase elapsed recordedAt ++ fields
  encode event
  ask (.append event)
  pure { s with sequence := sequence }

/-- An integer, or `None`. -/
def optionalInt : Option ℤ → Json
  | some n => .int n
  | none => .null

/-- The record of a child. -/
def childRecord (pid : ℤ) (returnCode : Option ℤ) : Record :=
  [(txt "pid", .int pid), (txt "running", .bool returnCode.isNone),
    (txt "exit_code", optionalInt returnCode)]

/-- The child in a status. -/
def childStatus : Option ℤ → Remote Json
  | none => .done .null
  | some pid => do
    let returnCode ← ask (.poll pid)
    pure (.obj (childRecord pid returnCode))

/-- The record of a status. -/
def statusRecord (self : Session) (s : State) (state : Text) (elapsed : ℕ)
    (heartbeatAt : FloatLiteral) (child : Json) (terminal : Option Record) : Record :=
  [(txt "protocol", .str (txt "run-status/1")), (txt "run_id", .str self.runId)] ++
    self.identity.asProtocolFields ++
    [(txt "state", .str state), (txt "phase", optionalText s.currentPhase),
      (txt "heartbeat_sequence", .int s.sequence),
      (txt "heartbeat_at_unix", .float (.literal heartbeatAt)),
      (txt "heartbeat_monotonic_seconds", secondsJson elapsed), (txt "child", child),
      (txt "latest_event_sequence", .int s.sequence),
      (txt "terminal_result", match terminal with | some t => .obj t | none => .null)]

/-- `_publish_status`. -/
def publishStatus (self : Session) (s : State) (state : Text) (terminal : Option Record) :
    Remote Unit := do
  let elapsed ← self.elapsedSeconds
  let child ← childStatus s.child
  let heartbeatAt ← ask .time
  let status := statusRecord self s state elapsed heartbeatAt child terminal
  encode status
  ask (.publish status)

/-- `_read_terminal`. -/
def readTerminal : Remote (Option Record) := do
  match ← ask .readTerminal with
  | none => pure none
  | some loaded =>
    let terminal ← orRaise .request (mapping loaded (txt "terminal-result.json"))
    pure (some terminal)

/-- `_write_terminal_once`. -/
def writeTerminalOnce (terminal : Record) : Remote Record := do
  encode terminal
  let linked ← ask (.linkTerminal terminal)
  -- the link fails where there is a terminal result, which then stands
  if linked then pure terminal
  else
    match ← readTerminal with
    | some existing => pure existing
    | none => .raise .assertion

/-! ## Artifacts -/

/-- `raise ArtifactVerificationError(reason)` -/
def rejectArtifact {α : Type} (reason : Text) : Remote α := .raise (.artifact reason)

/-- `path.relative_to(root)` does not raise. -/
def isRelativeTo (path root : PurePosixPath) : Bool :=
  path.root = root.root && root.tail.isPrefixOf path.tail

/-- Follow the parts of a path, none of which is a symbolic link. -/
def followParts (current : PurePosixPath) : List Text → Remote PurePosixPath
  | [] => .done current
  | part :: parts => do
    let current := current.join (.ofText part)
    let symlink ← ask (.isSymlink current)
    if symlink then rejectArtifact (txt "artifact_manifest_invalid") else followParts current parts

/-- `_safe_storage_file`. -/
def safeStorageFile (storageRoot : PurePosixPath) (candidate : Text) : Remote PurePosixPath := do
  if isSafeRelative candidate = false then rejectArtifact (txt "artifact_manifest_invalid")
  else
    let current ← followParts storageRoot (PurePosixPath.ofText candidate).parts
    let missing := if (txt "manifest.json").isSuffixOf candidate then txt "artifact_manifest_missing"
      else txt "artifact_file_missing"
    match ← ask (.resolveStrict current) with
    | none => rejectArtifact missing
    | some resolved =>
      -- the directories that lead to the root can be symbolic links
      if isRelativeTo resolved storageRoot = false then rejectArtifact missing
      else
        let file ← ask (.isFile resolved)
        if file then pure resolved else rejectArtifact (txt "artifact_file_missing")

/-- `_stable_sha256`. -/
def stableSha256 (path : PurePosixPath) (mismatchReason : Text) : Remote Text := do
  match ← ask (.stableSha256 path) with
  | some digest => pure digest
  | none => rejectArtifact mismatchReason

/-- The files of a manifest, one after the other. -/
def verifyEntries (runRoot : PurePosixPath) (seen : List Text) : List Json → Remote Unit
  | [] => .done ()
  | .obj entry :: entries =>
    match fetch (txt "path") entry, fetch (txt "size") entry, fetch (txt "sha256") entry with
    | .str path, .int size, .str expected =>
      if size < 0 ∨ sha256Pattern.fullmatch expected = false ∨ path ∈ seen then
        rejectArtifact (txt "artifact_manifest_invalid")
      else do
        let artifactPath ← safeStorageFile runRoot path
        match ← ask (.fileSize artifactPath) with
        | none => rejectArtifact (txt "artifact_file_missing")
        | some actualSize =>
          if (actualSize : ℤ) ≠ size then rejectArtifact (txt "artifact_size_mismatch")
          else
            let digest ← stableSha256 artifactPath (txt "artifact_hash_mismatch")
            if digest ≠ expected then rejectArtifact (txt "artifact_hash_mismatch")
            else verifyEntries runRoot (path :: seen) entries
    | _, _, _ => rejectArtifact (txt "artifact_manifest_invalid")
  | _ :: _ => rejectArtifact (txt "artifact_manifest_invalid")

/-- `_MAX_MANIFEST_BYTES` -/
def maxManifestBytes : ℕ := 16 * 1024 * 1024

/-- The fields of a receipt. -/
def receiptFields (sha256 : Text) (size : ℕ) : Record :=
  [(txt "artifact_manifest_sha256", .str sha256), (txt "artifact_manifest_size", .int size)]

/-- `_artifact_receipt`. -/
def artifactReceipt (self : Session) : Remote Record :=
  match fetch (txt "artifact_manifest_path") self.request with
  | .str manifestPath => do
    let storageRoot ← ask (.resolve (mountOf self.request))
    let runRoot := runRootUnder storageRoot self.runId
    let path ← safeStorageFile runRoot manifestPath
    match ← ask (.fileSize path) with
    | none => rejectArtifact (txt "artifact_manifest_missing")
    | some size =>
      if maxManifestBytes < size then rejectArtifact (txt "artifact_manifest_invalid")
      else
        let sha256 ← stableSha256 path (txt "artifact_manifest_invalid")
        match ← ask (.readManifest path) with
        | some (.obj manifest) =>
          let manifestRunId := fetch (txt "run_id") manifest
          if fetch (txt "protocol") manifest ≠ .str (txt "artifact-manifest/1") ∨
              manifestRunId ≠ .null ∧ manifestRunId ≠ .str self.runId then
            rejectArtifact (txt "artifact_manifest_invalid")
          else
            match fetch (txt "files") manifest with
            | .arr files =>
              verifyEntries runRoot [] files
              pure (receiptFields sha256 size)
            | _ => rejectArtifact (txt "artifact_manifest_invalid")
        | _ => rejectArtifact (txt "artifact_manifest_invalid")
  | _ => .done []

/-- The manifest of a failed run. -/
def failureManifest (self : Session) (files : List LogFile) : Record :=
  [(txt "protocol", .str (txt "artifact-manifest/1")), (txt "run_id", .str self.runId),
    (txt "files", .arr (files.map fun file => .obj [(txt "path", .str file.path),
      (txt "size", .int file.size), (txt "sha256", .str file.sha256)]))]

/-- `_ensure_failure_artifact_manifest`, with what it raises suppressed. -/
def ensureFailureArtifactManifest (self : Session) : Remote Unit :=
  match fetch (txt "artifact_manifest_path") self.request with
  | .str _ => do
    let there ← ask (.manifestExists self.manifestPlace)
    if there then pure ()
    else
      match ← ask (.phaseLogs (self.manifestParent.join (.ofText (txt "diagnostics/phases")))) with
      | none => pure ()
      | some files => ask (.writeManifest self.manifestPlace (failureManifest self files))
  | _ => .done ()

/-! ## The end of a run -/

/-- The record of a terminal result. -/
def terminalRecord (s : State) (outcome reason : Text) (phase : Option Text) (elapsed : ℕ)
    (cost : Text) : Record :=
  [(txt "outcome", .str outcome), (txt "reason", .str reason), (txt "phase", optionalText phase),
    (txt "elapsed_seconds", secondsJson elapsed), (txt "estimated_cost_usd", .str cost),
    (txt "completed_phases", .arr (s.completedPhases.map .str)),
    (txt "phase_exit_codes", .obj s.phaseExitCodes)]

/-- `_terminal_result`. -/
def terminalResult (self : Session) (s : State) (outcome reason : Text) (phase : Option Text) :
    Remote Record := do
  let elapsed ← self.elapsedSeconds
  let cost ← orRaise id (costOf self.request elapsed)
  let text ← orRaise id (orElse .arithmetic (decimalText cost))
  pure (terminalRecord s outcome reason phase elapsed text)

/-- The receipt of a run that did not succeed, where there is one. -/
def suppressedReceipt (self : Session) : Remote Record := do
  match ← (artifactReceipt self).attempt with
  | .ok receipt => pure receipt
  | .error (.artifact _) => pure []
  | .error e => .raise e

/-- `_finish`. -/
def finish (self : Session) (s : State) (terminal : Record) : Remote Record := do
  let terminal ←
    if fetch (txt "outcome") terminal ≠ .str (txt "succeeded") ∧
        lookup (txt "artifact_manifest_sha256") terminal = none then do
      ensureFailureArtifactManifest self
      let receipt ← suppressedReceipt self
      pure (terminal ++ receipt)
    else pure terminal
  let persisted ← writeTerminalOnce terminal
  match lookup (txt "outcome") persisted with
  | none => .raise (.key (txt "outcome"))
  | some outcome =>
    let s ← appendEvent self s (txt "terminal") s.currentPhase [(txt "outcome", outcome)]
    publishStatus self s (txt "terminal") (some persisted)
    pure persisted

/-- `self._finish(self._terminal_result(...))` -/
def finishWith (self : Session) (s : State) (outcome reason : Text) (phase : Option Text) :
    Remote Record := do
  let terminal ← terminalResult self s outcome reason phase
  finish self s terminal

end Runner

end RunpodJobrunner
