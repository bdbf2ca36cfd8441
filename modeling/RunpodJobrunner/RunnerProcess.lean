import RunpodJobrunner.RemoteRunner

/-!
# A runner process

The constructor of `RemoteRunner`, which reads what earlier processes left, and `run`: the
launch authorization, the phases in their order, and the end of the run.
-/

namespace RunpodJobrunner

open Json Identity Process

namespace Runner

/-! ## The launch authorization -/

/-- The text of a stop reason. -/
def StopReason.text : StopReason → Text
  | .terminationRequested => txt "termination_requested"
  | .controllerStopRequested => txt "controller_stop_requested"

/-- The token is there: whether it is the one that is expected. -/
def isAuthorized (authorization : LaunchAuthorization) : Option (Text × ℕ) → Bool
  | some (sha256, size) => size = authorization.size && sha256 = authorization.sha256
  | none => false

/-- The loop of `_wait_for_launch_authorization`; a failure, or nothing. -/
def awaitToken (self : Session) (token : PurePosixPath) (deadline heartbeatInterval : ℚ) :
    ℕ → ℚ → State → Remote (Option Text × State)
  | 0, _, _ => .raise .unfinished
  | fuel + 1, nextHeartbeat, s => do
    match ← ask .stopRequested with
    | some reason => pure (some reason.text, s)
    | none =>
      let there ← ask (.exists token)
      if there then
        let read ← ask (.readToken token)
        if isAuthorized self.authorization read = false then
          pure (some (txt "launch_authorization_invalid"), s)
        else if s.launchAuthorized then pure (none, s)
        else
          let s ← appendEvent self s (txt "launch_authorized") none []
          pure (none, { s with launchAuthorized := true })
      else
        let now ← ask .monotonic
        if deadline ≤ now then pure (some (txt "launch_authorization_timeout"), s)
        else if nextHeartbeat ≤ now then
          publishStatus self s (txt "ready") none
          awaitToken self token deadline heartbeatInterval fuel (now + heartbeatInterval) s
        else awaitToken self token deadline heartbeatInterval fuel nextHeartbeat s

/-- `_wait_for_launch_authorization`. -/
def waitForLaunchAuthorization (self : Session) (fuel : ℕ) (s : State) :
    Remote (Option Text × State) := do
  if some self.authorization.sha256 = self.statusTokenSha256 then
    pure (some (txt "launch_authorization_invalid"), s)
  else
    let start ← ask .monotonic
    let heartbeatInterval ← orRaise id
      (numberAsFloat (fetch (txt "heartbeat_interval_seconds") self.request))
    let now ← ask .monotonic
    awaitToken self (self.runRoot.join self.authorization.relativePath)
      (start + self.authorization.timeoutSeconds) heartbeatInterval fuel (now + heartbeatInterval) s

/-! ## Children -/

/-- Wait until the child has exited or the clock has reached a deadline. -/
def awaitExit (pid : ℤ) (deadline : ℚ) : ℕ → Remote Unit
  | 0 => .raise .unfinished
  | fuel + 1 => do
    match ← ask (.poll pid) with
    | some _ => pure ()
    | none =>
      let now ← ask .monotonic
      if now < deadline then awaitExit pid deadline fuel else pure ()

/-- `_phase_exit_codes[phase] = code` -/
def State.withExitCode (s : State) (phase : Text) (code : ℤ) : State :=
  { s with phaseExitCodes := setKey phase (.int code) s.phaseExitCodes }

/-- `_terminate_process_group`. -/
def terminateProcessGroup (self : Session) (fuel : ℕ) (s : State) : Remote State :=
  match s.child with
  | none => .done s
  | some pid => do
    match ← ask (.poll pid) with
    | some _ => pure s
    | none =>
      let found ← ask (.signal pid .term)
      if found = false then pure s
      else
        let now ← ask .monotonic
        let grace ← orRaise id (numberAsFloat (fetch (txt "termination_grace_seconds") self.request))
        awaitExit pid (now + grace) fuel
        match ← ask (.poll pid) with
        | some _ => pure ()
        | none =>
          let _ ← ask (.signal pid .kill)
          pure ()
        let returnCode ← ask (.wait pid)
        let s := { s with child := none }
        pure (match s.currentPhase with
          | some phase => s.withExitCode phase returnCode
          | none => s)

/-- Wait until a process group is gone; whether it is. -/
def awaitGroup (pid : ℤ) (deadline : ℚ) : ℕ → Remote Bool
  | 0 => .raise .unfinished
  | fuel + 1 => do
    let now ← ask .monotonic
    if now < deadline then
      let found ← ask (.signal pid .probe)
      if found then awaitGroup pid deadline fuel else pure true
    else pure false

/-- The child in a stored status. -/
def storedChild : Option Json → Option ℤ
  | some (.obj status) =>
    match fetch (txt "child") status with
    | .obj child =>
      match fetch (txt "pid") child with
      | .int pid => if pid ≤ 1 then none else some pid
      | _ => none
    | _ => none
  | _ => none

/-- `_terminate_recorded_process_group`. -/
def terminateRecordedProcessGroup (self : Session) (fuel : ℕ) : Remote Unit := do
  let status ← ask .readStatus
  match storedChild status with
  | none => pure ()
  | some pid =>
    let own ← ask (.isOwn pid)
    if own then pure ()
    else
      let found ← ask (.signal pid .term)
      if found = false then pure ()
      else
        let now ← ask .monotonic
        let grace ← orRaise id (numberAsFloat (fetch (txt "termination_grace_seconds") self.request))
        let gone ← awaitGroup pid (now + grace) fuel
        if gone then pure ()
        else
          let _ ← ask (.signal pid .kill)
          pure ()

/-! ## Phases -/

/-- End a phase whose child is running. -/
def stopPhase (self : Session) (fuel : ℕ) (s : State) (outcome reason : Text) (phase : Text) :
    Remote (Option Record × State) := do
  let s ← terminateProcessGroup self fuel s
  let terminal ← terminalResult self s outcome reason (some phase)
  pure (some terminal, s)

/-- The loop of `_run_phase`; a terminal result, or nothing. -/
def watchPhase (self : Session) (phase : Text) (pid : ℤ)
    (phaseStarted timeout heartbeatInterval : ℚ) :
    ℕ → ℚ → State → Remote (Option Record × State)
  | 0, _, _ => .raise .unfinished
  | fuel + 1, nextHeartbeat, s => do
    match ← ask (.poll pid) with
    | some exitCode =>
      let s := s.withExitCode phase exitCode
      publishStatus self s (txt "running") none
      let s ← appendEvent self s
        (if exitCode = 0 then txt "phase_completed" else txt "phase_failed") (some phase)
        [(txt "exit_code", .int exitCode)]
      let s := { s with child := none }
      if exitCode ≠ 0 then
        let terminal ← terminalResult self s (txt "failed") (txt "phase_nonzero_exit") (some phase)
        pure (some terminal, s)
      else pure (none, s)
    | none =>
      let now ← ask .monotonic
      match ← ask .stopRequested with
      | some reason => stopPhase self fuel s (txt "stopped") reason.text phase
      | none =>
        if timeout ≤ now - phaseStarted then
          stopPhase self fuel s (txt "timed_out") (txt "phase_timeout") phase
        else
          match ← limitReason self with
          | some reason => stopPhase self fuel s (txt "limit_exceeded") reason phase
          | none =>
            if nextHeartbeat ≤ now then
              publishStatus self s (txt "running") none
              watchPhase self phase pid phaseStarted timeout heartbeatInterval fuel
                (now + heartbeatInterval) s
            else
              watchPhase self phase pid phaseStarted timeout heartbeatInterval fuel nextHeartbeat s

/-- `_run_phase`. -/
def runPhase (self : Session) (fuel : ℕ) (s : State) (phase : Text) (config : Record) :
    Remote (Option Record × State) := do
  match ← limitReason self with
  | some reason =>
    let terminal ← terminalResult self s (txt "limit_exceeded") reason (some phase)
    pure (some terminal, s)
  | none =>
    let s := { s with currentPhase := some phase }
    let argv ← orRaise .request (sequence (fetch (txt "argv") config) (txt "argv"))
    let s ← appendEvent self s (txt "phase_started") (some phase) []
    match ← ask (.spawn (self.phaseLogPath phase) (argv.map textOf)) with
    | none =>
      let s ← appendEvent self s (txt "phase_start_failed") (some phase) []
      let terminal ← terminalResult self s (txt "failed") (txt "phase_start_failed") (some phase)
      pure (some terminal, s)
    | some pid =>
      let s := { s with child := some pid }
      let phaseStarted ← ask .monotonic
      let timeout ← orRaise id (numberAsFloat (fetch (txt "timeout_seconds") config))
      let heartbeatInterval ← orRaise id
        (numberAsFloat (fetch (txt "heartbeat_interval_seconds") self.request))
      watchPhase self phase pid phaseStarted timeout heartbeatInterval fuel 0 s

/-- The phases in their order; a terminal result, or nothing. -/
def runPhases (self : Session) (fuel : ℕ) : List Text → State → Remote (Option Record × State)
  | [], s => .done (none, s)
  | phase :: phases, s => do
    -- settled by an earlier process: completed or disabled
    if phase ∈ s.settledPhases then runPhases self fuel phases s
    else
      let requested ← orRaise id (requestPart self.request (txt "phases"))
      let config ← orRaise .request (mapping (fetch phase requested) (txt "phases." ++ phase))
      if fetch (txt "enabled") config = .bool false then
        let s ← appendEvent self s (txt "phase_disabled") (some phase) []
        runPhases self fuel phases s
      else
        match ← runPhase self fuel s phase config with
        | (some terminal, s) => pure (some terminal, s)
        | (none, s) =>
          runPhases self fuel phases { s with completedPhases := s.completedPhases ++ [phase] }

/-! ## The run -/

/-- `_storage_reason`. -/
def storageReason (self : Session) : Remote (Option Text) := do
  let mounted ← ask (.isDirectory (mountOf self.request))
  if mounted = false then pure (some (txt "storage_unavailable"))
  else
    match ← ask (.freeBytes (mountOf self.request)) with
    | none => pure (some (txt "storage_unavailable"))
    | some available =>
      let storage ← orRaise id (requestPart self.request (txt "storage"))
      match fetch (txt "required_gb") storage with
      | .int requiredGb =>
        if (available : ℤ) < requiredGb * 1000000000 then
          pure (some (txt "storage_capacity_below_request"))
        else pure none
      | _ => .raise .assertion

/-- The end of a run whose phases have all been run. -/
def finishPhases (self : Session) (s : State) : Remote Record := do
  let terminal ← terminalResult self s (txt "succeeded") (txt "all_enabled_phases_completed") none
  match ← (artifactReceipt self).attempt with
  | .ok receipt => finish self s (terminal ++ receipt)
  | .error (.artifact reason) => finishWith self s (txt "failed") reason (some (txt "package"))
  | .error e => .raise e

/-- `run` of a run that goes on. -/
def proceed (self : Session) (fuel : ℕ) (s : State) : Remote Record := do
  let s ← appendEvent self s (if s.sequence = 0 then txt "ready" else txt "runner_resumed") none []
  publishStatus self s (txt "ready") none
  match ← waitForLaunchAuthorization self fuel s with
  | (some failure, s) => finishWith self s (txt "failed") failure none
  | (none, s) =>
    match ← runPhases self fuel phaseOrder s with
    | (some terminal, s) => finish self s terminal
    | (none, s) => finishPhases self s

/-- `run`. -/
def run (self : Session) (fuel : ℕ) (s : State) : Remote Record := do
  match ← readTerminal with
  | some existing =>
    publishStatus self s (txt "terminal") (some existing)
    pure existing
  | none =>
    match self.recoveredFailure, s.currentPhase, self.identityFailure with
    | some (phase, reason), _, _ =>
      finishWith self { s with currentPhase := some phase } (txt "failed") reason (some phase)
    -- a phase was started and not ended: its child may still run, and it is not started again
    | none, some interrupted, _ =>
      terminateRecordedProcessGroup self fuel
      finishWith self s (txt "failed") (txt "runner_restart_unknown_child") (some interrupted)
    | none, none, some failure => finishWith self s (txt "failed") failure none
    | none, none, none =>
      match ← storageReason self with
      | some reason => finishWith self s (txt "failed") reason none
      | none => proceed self fuel s

/-! ## The constructor -/

/-- The kinds of events. -/
def eventKinds : List Text :=
  [txt "ready", txt "runner_resumed", txt "launch_authorized", txt "phase_started",
    txt "phase_completed", txt "phase_failed", txt "phase_start_failed", txt "phase_disabled",
    txt "terminal"]

/-- A string that is one of those. -/
def isOneOf (texts : List Text) : Json → Bool
  | .str t => t ∈ texts
  | _ => false

/-- The loop of `_read_event_history`. -/
def eventsOf (runId : Text) : ℕ → List Json → Except RequestFault (List Record)
  | _, [] => .ok []
  | expected, line :: lines => do
    let event ← mapping line (txt "events.jsonl event")
    refuseIf (fetch (txt "protocol") event ≠ .str (txt "run-event/1") ∨
      fetch (txt "run_id") event ≠ .str runId) (txt "events.jsonl does not belong to this run")
    refuseIf (fetch (txt "sequence") event ≠ .int expected)
      (txt "events.jsonl sequence is not contiguous")
    refuseIf (isOneOf eventKinds (fetch (txt "kind") event) = false)
      (txt "events.jsonl contains an unknown event kind")
    refuseIf (fetch (txt "phase") event ≠ .null ∧
      isOneOf phaseOrder (fetch (txt "phase") event) = false)
      (txt "events.jsonl contains an unknown phase")
    let history ← eventsOf runId (expected + 1) lines
    .ok (event :: history)

/-- `_read_event_history`. -/
def readEventHistory (floatOf : FloatLiteral → JsonFloat) (runId : Text) : Remote (List Record) := do
  let (lines, torn) ← ask .readEvents
  if torn = [] then orRaise .request (eventsOf runId 1 lines)
  else
    match isTornJsonFragment floatOf torn with
    | .ok true =>
      -- an append that a death cut short
      ask .truncateEvents
      orRaise .request (eventsOf runId 1 lines)
    | .ok false =>
      .raise (.request (.invalid (txt "events.jsonl contains an incomplete record terminator")))
    | .error _ => .raise .value

/-- `max(elapsed, float(recorded))`, where that is a number; no infinity is ever recorded. -/
def atLeast (elapsed : ℚ) (recorded : Json) : ℚ :=
  match recorded.number with
  | some seconds => max elapsed seconds
  | none => elapsed

/-- `_prior_elapsed_seconds`. -/
def priorElapsedSeconds (history : List Record) (status : Option Json) (runId : Text) : ℚ :=
  let elapsed :=
    match history.getLast? with
    | some event => atLeast 0 (fetch (txt "monotonic_seconds") event)
    | none => 0
  match status with
  | some (.obj status) =>
    if fetch (txt "run_id") status = .str runId then
      atLeast elapsed (fetch (txt "heartbeat_monotonic_seconds") status)
    else elapsed
  | _ => elapsed

/-- What `_recover_history` has found. -/
structure Recovered where
  activePhase : Option Text
  settledPhases : List Text
  completedPhases : List Text
  exitCodes : Record
  failure : Option (Text × Text)

/-- Nothing has happened. -/
def Recovered.nothing : Recovered := ⟨none, [], [], [], none⟩

/-- The exit code of an event, where it has one. -/
def recoverExitCode (event : Record) (phase : Text) (exitCodes : Record) : Record :=
  match fetch (txt "exit_code") event with
  | .int code => setKey phase (.int code) exitCodes
  | _ => exitCodes

/-- One event of `_recover_history`. -/
def Recovered.event (r : Recovered) (event : Record) : Recovered :=
  match fetch (txt "kind") event, fetch (txt "phase") event with
  | .str kind, .str phase =>
    if kind = txt "phase_started" then { r with activePhase := some phase }
    else if kind = txt "phase_completed" then
      { r with
        activePhase := none
        settledPhases := phase :: r.settledPhases
        completedPhases := r.completedPhases ++ [phase]
        exitCodes := recoverExitCode event phase r.exitCodes }
    else if kind = txt "phase_disabled" then { r with settledPhases := phase :: r.settledPhases }
    else if kind = txt "phase_failed" ∨ kind = txt "phase_start_failed" then
      { r with
        activePhase := none
        failure := some (phase,
          if kind = txt "phase_failed" then txt "phase_nonzero_exit" else txt "phase_start_failed")
        exitCodes := recoverExitCode event phase r.exitCodes }
    else r
  | _, _ => r

/-- `_recover_history`. -/
def recoverHistory (history : List Record) : Recovered := history.foldl Recovered.event .nothing

/-- The sequence of the last event, `0` before the first. -/
def lastSequence (history : List Record) : Except Failure ℕ :=
  match history.getLast? with
  | none => .ok 0
  | some event =>
    match fetch (txt "sequence") event with
    | .int n => .ok n.toNat
    | _ => .error .assertion

/-- The arguments of a process, and what it finds: the release receipt, and the directory that
a path leads to from its working directory, through `..` and symbolic links. One directory is
one path there. -/
structure Arguments where
  request : Record
  statusDir : PurePosixPath
  located : PurePosixPath → PurePosixPath
  runnerIdentity : Option RunnerIdentity
  statusTokenSha256 : Option Text
  receipt : ReleaseReceipt

/-- The identity and what is wrong with it. -/
def identityOf (args : Arguments) : Except Text (RunnerIdentity × Option Text) :=
  match args.runnerIdentity with
  | some identity => (identityFailure args.request identity).map fun failure => (identity, failure)
  | none =>
    match loadRunnerIdentity args.receipt with
    | .error _ => .ok (localSourceIdentity, some (txt "runner_identity_unavailable"))
    | .ok identity => (identityFailure args.request identity).map fun failure => (identity, failure)

/-- `RemoteRunner(...)`. -/
def construct (floatOf : FloatLiteral → JsonFloat) (args : Arguments) : Remote (Session × State) := do
  let request ← orRaise .request (validateRequest args.request)
  let authorization ← orRaise .request
    (parseLaunchAuthorization (fetch (txt "launch_authorization") request))
  let (identity, identityFailure) ← orRaise .identity (identityOf args)
  let runId := textOf (fetch (txt "run_id") request)
  let started ← ask .monotonic
  let history ← readEventHistory floatOf runId
  let sequence ← orRaise id (lastSequence history)
  let status ← ask .readStatus
  let recovered := recoverHistory history
  pure (
    { request := request
      authorization := authorization
      statusTokenSha256 := args.statusTokenSha256
      identity := identity
      identityFailure := identityFailure
      statusDir := args.statusDir
      located := args.located
      runId := runId
      started := started
      prior := priorElapsedSeconds history status runId
      recoveredFailure := recovered.failure },
    { sequence := sequence
      completedPhases := recovered.completedPhases
      settledPhases := recovered.settledPhases
      phaseExitCodes := recovered.exitCodes
      currentPhase := recovered.activePhase
      launchAuthorized := history.any fun event =>
        fetch (txt "kind") event = .str (txt "launch_authorized")
      child := none })

/-- A process: the constructor, then `run`. -/
def remoteRunner (floatOf : FloatLiteral → JsonFloat) (args : Arguments) (fuel : ℕ) :
    Remote Record := do
  let (self, s) ← construct floatOf args
  run self fuel s

/-! ## Reachable directories -/

/-- The status directories that processes with such arguments can leave, one after the other. -/
inductive Reached (floatOf : FloatLiteral → JsonFloat) (ok : Arguments → Prop) : World → Prop where
  | empty : Reached floatOf ok .empty
  | process {args : Arguments} {fuel : ℕ} {w w' : World} {o : Outcome Failure Record} :
    Reached floatOf ok w → ok args → Runs machine (remoteRunner floatOf args fuel) w.restarted o w' →
      Reached floatOf ok w'

end Runner

end RunpodJobrunner
