import Mathlib.Data.List.Sort
import RunpodJobrunner.Lifecycle
import RunpodJobrunner.Locking

/-!
# Admission of runs

`JobRunner.run` under the admission lock of the store: the scan for active runs,
the run id, the budget, the secrets of the run, its durable request, its plan and
the launch of its supervisor. The store is all run directories; each has its
durable world of `RunTransaction`, on which calls of the controller are made under
the run lock. Other processes make calls of runs that are planned without taking
the admission lock.
-/

namespace RunpodJobrunner

instance : DecidableEq RunId := inferInstanceAs (DecidableEq { t : Text // isRunId t = true })

/-! ## The store -/

/-- What `secrets/` of a run holds. -/
inductive Secret : Type where
  | statusToken | launchToken | ackKey
  deriving DecidableEq

/-- The directory of one run. -/
structure RunDirectory where
  present : Bool
  secrets : Secret → Option Text
  world : World

/-- A run nothing has been written of. -/
def RunDirectory.absent : RunDirectory := ⟨false, fun _ => none, .empty⟩

/-- The run directories under `runs_root`. -/
abbrev Store := RunId → RunDirectory

/-- A store without runs. -/
def Store.empty : Store := fun _ => .absent

/-- The store with one directory replaced. -/
def Store.put (s : Store) (id : RunId) (d : RunDirectory) : Store := Function.update s id d

@[simp] theorem Store.put_same (s : Store) (id : RunId) (d : RunDirectory) : s.put id d id = d :=
  Function.update_self ..

theorem Store.put_ne {s : Store} {id id' : RunId} {d : RunDirectory} (h : id' ≠ id) :
    s.put id d id' = s id' :=
  Function.update_of_ne h ..

/-- The call takes the run lock through `transaction`, which makes the directory. -/
def Call.makesDirectory : Call → Bool
  | .status => false
  | .plan _ approved => (moneyOf approved).isSome
  | _ => true

/-- The directory after a call that left that world. -/
def RunDirectory.called (d : RunDirectory) (call : Call) (w : World) : RunDirectory :=
  { d with present := d.present || call.makesDirectory, world := w }

/-! ## Commands -/

/-- What `run` asks for under the admission lock. -/
inductive StoreCommand : Type where
  /-- `runs_root.iterdir()`, sorted -/
  | listRuns
  | call : RunId → Call → StoreCommand
  /-- `run_id_factory()` -/
  | newRunId
  /-- `BudgetLedger.reserve` -/
  | reserve : (scope total runId : Text) → StoreCommand
  /-- `secrets_dir.mkdir(parents=True, exist_ok=True)` -/
  | makeSecrets : RunId → StoreCommand
  | readSecret : RunId → Secret → StoreCommand
  /-- `O_EXCL` creation, write and sync -/
  | createSecret : RunId → Secret → Text → StoreCommand
  /-- a random token, or a key of `ssh-keygen` -/
  | generate : Secret → StoreCommand
  | now
  /-- `supervisor.launch` -/
  | launch : RunId → StoreCommand

/-- What it gets back, or an exception. -/
abbrev StoreAnswer : StoreCommand → Type
  | .listRuns => Except Unit (List RunId)
  | .call _ _ => Except Failure Projection
  | .newRunId => Except Unit Text
  | .reserve _ _ _ => Except Unit Unit
  | .makeSecrets _ => Except Unit Unit
  | .readSecret _ _ => Except Unit (Option Text)
  | .createSecret _ _ _ => Except Unit Unit
  | .generate _ => Except Unit Text
  | .now => DateTime
  | .launch _ => Except Unit Unit

/-- Why `run` raises. -/
inductive AdmissionFailure : Type where
  /-- an exception of the system, the ledger, the factory or the supervisor -/
  | outside : AdmissionFailure
  /-- `an active run already exists` -/
  | active : List RunId → AdmissionFailure
  /-- `budget scope and aggregate total must be supplied together` -/
  | budgetPair : AdmissionFailure
  /-- `InvalidRunIdError` -/
  | invalidRunId : AdmissionFailure
  /-- a run id or a bundle that `to_run_request` or `_durable_request` refuses -/
  | request : AdmissionFailure
  /-- `LaunchAuthorizationError` or `IncrementalAckError` -/
  | secret : Secret → AdmissionFailure
  | controller : Failure → AdmissionFailure
  deriving DecidableEq

/-- A process under the admission lock. -/
abbrev Admission := Process StoreCommand StoreAnswer AdmissionFailure

/-- The answer, or the exception of the outside. -/
def orFail {α : Type} : Except Unit α → Admission α
  | .ok a => .done a
  | .error () => .raise .outside

/-- A call of the controller. -/
def callRun (id : RunId) (call : Call) : Admission Projection :=
  .call (.call id call) fun (a : Except Failure Projection) =>
    match a with
    | .ok p => .done p
    | .error e => .raise (.controller e)

/-! ## The scan -/

/-- The loop of `active_run_ids`. -/
def scanRuns (active : List RunId) : List RunId → Admission (List RunId)
  | [] => pure active
  | id :: rest => do
    let p ← callRun id .status
    scanRuns (if p.state.lifecycle = .closed then active else active ++ [id]) rest

/-- `active_run_ids`. -/
def activeRunIds : Admission (List RunId) := do
  let ids ← orFail (← Process.perform .listRuns)
  scanRuns [] ids

/-! ## The secrets -/

/-- The file of a secret, made when it is not there. -/
def ensureSecret (id : RunId) (secret : Secret) (written : Text → Text) :
    Admission (Text ⊕ Text) := do
  orFail (← Process.perform (.makeSecrets id))
  match ← orFail (← Process.perform (.readSecret id secret)) with
  | some text => pure (.inl text)
  | none => do
    let fresh ← orFail (← Process.perform (.generate secret))
    orFail (← Process.perform (.createSecret id secret (written fresh)))
    pure (.inr fresh)

/-- `_ensure_status_token`. -/
def ensureStatusToken (id : RunId) : Admission Text := do
  match ← ensureSecret id .statusToken (· ++ [10]) with
  | .inl text => pure (Decimal.strip text)
  | .inr token => pure token

/-- `_read_token`: one line of 64 hexadecimal digits. -/
def readLaunchToken (text : Text) : Option Text :=
  let token := text.dropLast
  if text = token ++ [10] ∧ token.length = 64 ∧ token.all isHex then some token else none

/-- `ensure_launch_token`. -/
def ensureLaunchToken (id : RunId) (forbidden : Text) : Admission Text := do
  let token ← match ← ensureSecret id .launchToken (· ++ [10]) with
    -- a creation that was cut short leaves a file that is refused from then on
    | .inl text =>
      match readLaunchToken text with
      | some token => pure token
      | none => .raise (.secret .launchToken)
    | .inr token => pure token
  if token = forbidden then .raise (.secret .launchToken)
  pure token

/-! ## Running -/

/-- `^run-[A-Za-z0-9][A-Za-z0-9_-]{0,126}$`, the run ids of `to_run_request`. -/
def isRemoteRunId (runId : Text) : Bool :=
  Regex.fullmatch (.seq (Regex.lit <| txt "run-") <| .seq (.set isAlnum) <|
    Regex.upTo (.set fun c => isAlnum c || c == 95 || c == 45) 126) runId

/-- What `run` is called with, its bundle checked and its cap approved. -/
structure Job where
  budgetScope : Option Text
  budgetTotal : Option Text
  /-- `artifacts.incremental_mirror_ack` is given -/
  acknowledged : Bool
  /-- `load_ack_signer`: the public key in a key file -/
  publicKey : Text → Option Text
  /-- `_durable_request` of what `to_run_request` makes; `none` where one of them raises -/
  durableRequest : (runId : RunId) → (statusToken : Text) → (signer : Option Text) →
    (launchToken : Text) → DateTime → Option (List (Text × Json))
  approved : Text ⊕ Decimal

/-- `_add_incremental_ack`. -/
def ensureSigner (job : Job) (id : RunId) : Admission (Option Text) :=
  if job.acknowledged then do
    let key ← ensureSecret id .ackKey fun key => key
    match job.publicKey (key.elim (fun k => k) fun k => k) with
    | some signer => pure (some signer)
    | none => .raise (.secret .ackKey)
  else pure none

/-- The run id and the budget. -/
def claimRun (job : Job) : Admission RunId := do
  let runId ← orFail (← Process.perform .newRunId)
  match job.budgetScope, job.budgetTotal with
  | some scope, some total => orFail (← Process.perform (.reserve scope total runId))
  | none, none => pure ()
  | _, _ => .raise .budgetPair
  -- `store.paths`
  if h : isRunId runId = true then pure ⟨runId, h⟩ else .raise .invalidRunId

/-- The part of `run` before there is a directory of the run. -/
def chooseRun (job : Job) : Admission RunId := do
  let active ← activeRunIds
  if active ≠ [] then .raise (.active active) else claimRun job

/-- The part of `run` that makes the run. -/
def establishRun (job : Job) (id : RunId) : Admission RunId := do
  let statusToken ← ensureStatusToken id
  if !isRemoteRunId id.val then .raise .request
  let signer ← ensureSigner job id
  let launchToken ← ensureLaunchToken id statusToken
  let now ← Process.perform .now
  match job.durableRequest id statusToken signer launchToken now with
  | none => .raise .request
  | some request => do
    let _ ← callRun id (.plan request job.approved)
    orFail (← Process.perform (.launch id))
    pure id

/-- `JobRunner.run` under the admission lock. -/
def runJob (job : Job) : Admission RunId := do
  let id ← chooseRun job
  establishRun job id

/-! ## The machine -/

/-- A secret file that was made, or some of it. -/
def RunDirectory.withSecret (d : RunDirectory) (secret : Secret) (text : Option Text) :
    RunDirectory :=
  { d with secrets := Function.update d.secrets secret text }

/-- A creation that did not complete: nothing, or a file with some text. -/
def CutCreate (s : Store) (id : RunId) (secret : Secret) (s' : Store) : Prop :=
  s' = s ∨ ∃ text, s' = s.put id ((s id).withSecret secret text)

/-- The directory of a run is made, or not. -/
def CutMake (s : Store) (id : RunId) (s' : Store) : Prop :=
  s' = s ∨ s' = s.put id { s id with present := true }

/-- A call of a run's controller, ended in that way. -/
def Called (ctl : RunId → Controller) (answers : Answers) (s : Store) (id : RunId) (call : Call)
    (o : Outcome Failure Projection) (s' : Store) : Prop :=
  ∃ w, Runs (machine answers) ((ctl id).perform call) (s id).world o w ∧
    s' = s.put id ((s id).called call w)

/-- The call returned that answer, or raised it. -/
def Replied : Except Failure Projection → Outcome Failure Projection
  | .ok p => .returned p
  | .error e => .raised e

/-- What a command does. -/
def storeExecute (ctl : RunId → Controller) (answers : Answers) (s : Store) :
    (c : StoreCommand) → StoreAnswer c → Store → Prop
  | .listRuns, a, s' => s' = s ∧ ∀ ids, a = .ok ids →
      ids.Pairwise (fun i j => textLe i.val j.val = true ∧ i ≠ j) ∧
        ∀ id, id ∈ ids ↔ (s id).present = true
  | .call id call, a, s' => Called ctl answers s id call (Replied a) s'
  | .makeSecrets id, a, s' => (a = .ok () ∧ s' = s.put id { s id with present := true }) ∨
      (a = .error () ∧ CutMake s id s')
  | .readSecret id secret, a, s' => s' = s ∧ ∀ text, a = .ok text → text = (s id).secrets secret
  | .createSecret id secret text, a, s' =>
      (a = .ok () ∧ s' = s.put id ((s id).withSecret secret (some text))) ∨
        (a = .error () ∧ CutCreate s id secret s')
  | _, _, s' => s' = s

/-- What is left when the process dies inside a command. -/
def storeDieIn (ctl : RunId → Controller) (answers : Answers) (s : Store) :
    StoreCommand → Store → Prop
  | .call id call, s' => Called ctl answers s id call .died s'
  | .makeSecrets id, s' => CutMake s id s'
  | .createSecret id secret _, s' => CutCreate s id secret s'
  | _, s' => s' = s

/-- The store under the admission lock. -/
def storeMachine (ctl : RunId → Controller) (answers : Answers) :
    Machine Store StoreCommand StoreAnswer where
  exec := storeExecute ctl answers
  die := storeDieIn ctl answers

/-- Another process makes a call of some run, ending in any way. Only `run` plans. -/
def OutsideRun (ctl : RunId → Controller) (answers : Answers) (s s' : Store) : Prop :=
  ∃ id call o, (∀ request approved, call ≠ .plan request approved) ∧
    Called ctl answers s id call o s'

/-- The store and the `run` that holds the admission lock. -/
abbrev AdmissionState := Locked Store StoreCommand StoreAnswer AdmissionFailure RunId

/-- One step of any number of `run` calls and of the runs they planned. -/
def AdmissionStep (ctl : RunId → Controller) (answers : Answers) :
    AdmissionState → AdmissionState → Prop :=
  LockStep (storeMachine ctl answers) (fun _ p => ∃ job, p = runJob job) (OutsideRun ctl answers)

end RunpodJobrunner
