import RunpodJobrunner.Outcomes

/-!
# The supervisor engine

`SupervisorEngine.drive`: one process of the supervisor, as a process whose
commands are the controller's calls and the executor. Between two of its
commands other processes may plan, read or stop the run. The calls it makes stay
within an environment in which an artifact disposition is only recorded of a run
that has its workload result (`Driven.reachable`).
-/

namespace RunpodJobrunner

/-- `ExecutionObservation`. -/
structure ExecutionObservation where
  result : WorkloadResult
  disposition : ArtifactDisposition
  detail : Option Text

/-! ## The engine -/

/-- What the engine asks for. -/
inductive EngineCommand : Type where
  | call : Call → EngineCommand
  /-- `store.read_request`, to hand it to the executor -/
  | readRequest
  /-- `executor.execute` -/
  | execute

/-- What it gets back, or the exception. -/
abbrev EngineAnswer : EngineCommand → Type
  | .call _ => Except Failure Projection
  | .readRequest => Except Failure Unit
  | .execute => Except Unit ExecutionObservation

/-- Why the engine raises. -/
inductive EngineFailure : Type where
  | controller : Failure → EngineFailure
  | executor : EngineFailure
  /-- `ApplicationError`: the run did not close in the steps there are -/
  | exhausted : EngineFailure

/-- A process of the engine. -/
abbrev Engine := Process EngineCommand EngineAnswer EngineFailure

/-- A call of the controller. -/
def engineCall (call : Call) : Engine Projection := do
  match ← Process.perform (EngineCommand.call call) with
  | .ok p => pure p
  | .error e => .raise (.controller e)

/-- `self.executor.execute(self.store.read_request(run_id), ...)`. -/
def executeRequest : Engine ExecutionObservation := do
  match ← Process.perform EngineCommand.readRequest with
  | .error e => .raise (.controller e)
  | .ok () =>
    match ← Process.perform EngineCommand.execute with
    | .ok observation => pure observation
    | .error () => .raise .executor

/-- `_recovery_must_not_dispatch_workload`. -/
def recoveryMustNotDispatchWorkload (s : RunState) : Bool :=
  s.workloadResult.isNone ||
    (s.recoveryReason.any fun reason => reason == txt "resource_disappeared_before_start" ||
      reason == txt "duplicate_provider_resources" ||
      reason == txt "provision_dispatch_unresolved") ||
    !(s.quarantinedResourceIds.getD []).isEmpty

/-- The reason of a stop during recovery. -/
def failClosedReason (s : RunState) : Text :=
  txt "fail-closed recovery: " ++
    match s.recoveryReason with
    | some (c :: cs) => c :: cs
    | _ => txt "quarantined resources"

/-- The loop of `drive`, with the steps that are left and the last observation. -/
def driveSteps : ℕ → Option ExecutionObservation → Engine Projection
  | 0, _ => .raise .exhausted
  | n + 1, observation => do
    let p ← engineCall .status
    match p.state.lifecycle with
    | .closed => pure p
    | .planned | .provisioning | .starting | .deleting => do
      let _ ← engineCall .reconcile
      driveSteps n observation
    | .running => do
      let o ← executeRequest
      let _ ← engineCall (.recordWorkloadResult o.result)
      driveSteps n (some o)
    | .recovering =>
      if recoveryMustNotDispatchWorkload p.state then do
        let _ ← engineCall (.requestStop (failClosedReason p.state))
        driveSteps n observation
      else do
        -- executed again where another call of `drive` recorded the result
        let o ← match observation with
          | some o => pure o
          | none => executeRequest
        let _ ← engineCall (.recordArtifactDisposition o.disposition o.detail)
        driveSteps n (some o)

/-- `SupervisorEngine.drive`. -/
def drive (maxSteps : ℕ) : Engine Projection := driveSteps maxSteps none

/-! ## What goes on around it -/

/-- The calls other processes make of a driven run: `JobRunner.run` plans it, and
anybody may read or stop it. -/
def Call.IsOutside : Call → Prop
  | .plan _ _ | .status | .requestStop _ => True
  | _ => False

/-- One call of another process, ending in any way. -/
def OutsideCall (ctl : Controller) (answers : Answers) (w w' : World) : Prop :=
  ∃ call o, call.IsOutside ∧ Runs (machine answers) (ctl.perform call) w o w'

/-- What other processes do between two commands. -/
def Interferes (ctl : Controller) (answers : Answers) : World → World → Prop :=
  Relation.ReflTransGen (OutsideCall ctl answers)

/-- A call ended with that answer. -/
def Answered : Outcome Failure Projection → Except Failure Projection → Prop
  | .returned p, .ok q => p = q
  | .raised e, .error f => e = f
  | _, _ => False

/-- A command of the engine, after what other processes did. The executor writes
nothing of the run's lifecycle. -/
def engineExecute (ctl : Controller) (answers : Answers) (w : World) :
    (c : EngineCommand) → EngineAnswer c → World → Prop
  | .call call, a, w' => ∃ w₁ o, Interferes ctl answers w w₁ ∧
      Runs (machine answers) (ctl.perform call) w₁ o w' ∧ Answered o a
  | .readRequest, _, w' => Interferes ctl answers w w'
  | .execute, _, w' => Interferes ctl answers w w'

/-- The engine dies inside a command. -/
def engineDieIn (ctl : Controller) (answers : Answers) (w : World) : EngineCommand → World → Prop
  | .call call, w' => ∃ w₁, Interferes ctl answers w w₁ ∧
      Runs (machine answers) (ctl.perform call) w₁ .died w'
  | _, w' => Interferes ctl answers w w'

/-- The engine on one run. -/
def engineMachine (ctl : Controller) (answers : Answers) :
    Machine World EngineCommand EngineAnswer where
  exec := engineExecute ctl answers
  die := engineDieIn ctl answers

/-- The worlds of a driven run: outside calls, and engine processes one after the
other, each ending in any way. -/
inductive Driven (ctl : Controller) (answers : Answers) : World → Prop where
  | empty : Driven ctl answers .empty
  | outside {w w' : World} : Driven ctl answers w → OutsideCall ctl answers w w' →
      Driven ctl answers w'
  | drive {w w' : World} {maxSteps : ℕ} {o : Outcome EngineFailure Projection} :
      Driven ctl answers w → Runs (engineMachine ctl answers) (drive maxSteps) w o w' →
      Driven ctl answers w'

/-- An artifact disposition is only recorded of a run that has its result. -/
def Environment.supervised (answers : Answers) : Environment where
  answers := answers
  issues := fun s call =>
    match call with
    | .recordArtifactDisposition _ _ => ∃ state, s = some state ∧ state.workloadResult ≠ none
    | _ => True

variable {ctl : Controller} {answers : Answers} {env : Environment} {w w' : World}

/-- A workload result is never taken back. -/
theorem Commit.decided {kind : Text} {s s' : RunState} (h : Commit ctl env w kind s')
    (hcur : w.current = some s) (hs : s.workloadResult ≠ none) : s'.workloadResult ≠ none := by
  cases h.outcomeChange hcur with
  | same _ hresult _ _ | disposition _ _ _ hresult _ _ => rwa [hresult]
  | result _ _ _ hresult _ _ | cancelled _ hresult _ _ => simp [hresult]
  | stopped _ _ hs' => simp [hs']

end RunpodJobrunner
