import RunpodJobrunner.CloseoutReceipt
import RunpodJobrunner.Process

/-!
# One run: its durable world and its transactions

The world of a run is what survives a process: the request, the journal, the
snapshot `state.json` and the closeout receipt, together with a trace of what
was asked of the outside and what was committed, which no process reads. The
journal is a list of events here, newest first, with a flag for a file that no
longer reads back; how the bytes of `events.jsonl` become one or the other is
the subject of the byte-level store.

A transaction holds the run lock, so its commands see a world nobody else
changes. A process can die inside any command: an append may then have happened
or not, and a replaced file is the old or the new one.
-/

namespace RunpodJobrunner

/-! ## The world -/

/-- What `commit_state` writes to `state.json`: the state and its `event_sequence`. -/
structure Projection where
  eventSequence : ℕ
  state : RunState
  deriving DecidableEq

/-- A journal record. Its `sequence` is the `event_sequence` of its projection;
`recorded_at` and the payload are never read back. -/
structure Event where
  kind : Text
  projection : Projection
  deriving DecidableEq

/-- Why the store raises: a file that does not decode, or the operating system. -/
inductive StoreError : Type where
  | corrupt | io
  deriving DecidableEq

/-- What happened outside the store, or was committed to the journal. A provider
call that the process did not survive has no answer. -/
inductive Entry : Type where
  | find : (operationId : Text) → Option (Except ProviderFault (List ProviderResource)) → Entry
  | create : ProviderCreateRequest → Option (Except ProviderFault ProviderResource) → Entry
  | get : (resourceId : Text) → Option (Except ProviderFault (Option ProviderResource)) → Entry
  | start : (resourceId operationId : Text) → Option (Except ProviderFault ProviderResource) → Entry
  | delete : (resourceId operationId : Text) → Option (Except ProviderFault DeleteReceipt) → Entry
  | spend : (resourceId : Option Text) → Option (Except ProviderFault Decimal) → Entry
  | clock : DateTime → Entry
  | commit : Event → Entry

/-- The durable world of one run, and its trace, newest first. -/
structure World where
  request : Option (List (Text × Json))
  events : List Event
  readable : Bool
  snapshot : Option Projection
  receipt : Option Projection
  trace : List Entry

namespace World

/-- Nothing has been written yet. -/
def empty : World :=
  { request := none, events := [], readable := true, snapshot := none, receipt := none, trace := [] }

/-- Record something in the trace. -/
def saw (w : World) (e : Entry) : World := { w with trace := e :: w.trace }

/-- The event reaches the journal. -/
def append (w : World) (e : Event) : World :=
  { w with events := e :: w.events, trace := .commit e :: w.trace }

/-- The journal stops reading back. -/
def corrupt (w : World) : World := { w with readable := false }

end World

/-! ## Commands -/

/-- What a transaction asks for. -/
inductive Command : Type where
  | readEvents
  | readSnapshot
  | readRequest
  | readReceipt
  | writeRequest : List (Text × Json) → Command
  | appendEvent : Event → Command
  | replaceState : Projection → Command
  | replaceReceipt : Projection → Command
  | now
  | find : (operationId : Text) → Command
  | create : ProviderCreateRequest → Command
  | get : (resourceId : Text) → Command
  | start : (resourceId operationId : Text) → Command
  | delete : (resourceId operationId : Text) → Command
  | spend : (resourceId : Option Text) → Command

/-- What it gets back. -/
abbrev Answer : Command → Type
  | .readEvents => Except StoreError (List Event)
  | .readSnapshot => Except StoreError (Option Projection)
  | .readRequest => Except StoreError (Option (List (Text × Json)))
  | .readReceipt => Except StoreError (Option Projection)
  | .writeRequest _ => Except StoreError Unit
  | .appendEvent _ => Except StoreError Unit
  | .replaceState _ => Except StoreError Unit
  | .replaceReceipt _ => Except StoreError Unit
  | .now => DateTime
  | .find _ => Except ProviderFault (List ProviderResource)
  | .create _ => Except ProviderFault ProviderResource
  | .get _ => Except ProviderFault (Option ProviderResource)
  | .start _ _ => Except ProviderFault ProviderResource
  | .delete _ _ => Except ProviderFault DeleteReceipt
  | .spend _ => Except ProviderFault Decimal

/-- What a lifecycle call raises. -/
inductive Failure : Type where
  | store : StoreError → Failure
  | runNotFound : Failure
  | runAlreadyExists : Failure
  /-- `LifecycleConflictError` -/
  | conflict : (message : Text) → Failure
  /-- `InvalidTransitionError` -/
  | invalidTransition : (message : Text) → Failure
  /-- a `ProviderError`, also one the controller raises itself -/
  | provider : ProviderError → Failure
  /-- an exception of the provider that is no `ProviderError` -/
  | foreign : Failure
  /-- `ProtocolValidationError` of the closeout receipt -/
  | invalidReceipt : Failure
  /-- `RunStoreError`: the durable receipt is not the one of the closed state -/
  | receiptMismatch : Failure
  /-- `ValueError` of `_money` -/
  | invalidMoney : Failure
  deriving DecidableEq

/-- A transaction. -/
abbrev Transaction := Process Command Answer Failure

/-! ## The machine -/

/-- Which provider answers a run may see: a condition on the world at the call
and the answered call. -/
abbrev Answers := World → Entry → Prop

/-- An append that completed: the event is in the journal, which may no longer
read back. -/
def Appended (w : World) (e : Event) (w' : World) : Prop :=
  w' = w.append e ∨ w' = (w.append e).corrupt

/-- An append that was cut: nothing, a fragment, or the whole event is there. -/
def CutAppend (w : World) (e : Event) (w' : World) : Prop :=
  w' = w ∨ w' = w.corrupt ∨ Appended w e w'

/-- A file replacement that was cut. -/
def CutReplace (w new w' : World) : Prop := w' = w ∨ w' = new

/-- A read that answers what is there, or fails. -/
def ReadAnswer {α : Type} (w : World) (value : α) (a : Except StoreError α) (w' : World) : Prop :=
  w' = w ∧ (a = .ok value ∨ ∃ e, a = .error e)

/-- A write that was made, or raised somewhere on the way. -/
def WriteAnswer (done cut : World → Prop) (a : Except StoreError Unit) (w' : World) : Prop :=
  (a = .ok () ∧ done w') ∨ ((∃ e, a = .error e) ∧ cut w')

/-- A provider call that answered. -/
def CallAnswer (answers : Answers) (w : World) (e : Entry) (w' : World) : Prop :=
  answers w e ∧ w' = w.saw e

/-- What a command does. -/
def execute (answers : Answers) (w : World) : (c : Command) → Answer c → World → Prop
  | .readEvents, a, w' => ReadAnswer w w.events a w' ∧ (w.readable = false → ∃ e, a = .error e)
  | .readSnapshot, a, w' => ReadAnswer w w.snapshot a w'
  | .readRequest, a, w' => ReadAnswer w w.request a w'
  | .readReceipt, a, w' => ReadAnswer w w.receipt a w'
  | .writeRequest r, a, w' =>
    WriteAnswer (· = { w with request := some r }) (CutReplace w { w with request := some r }) a w'
  | .appendEvent e, a, w' => WriteAnswer (Appended w e) (CutAppend w e) a w'
  | .replaceState p, a, w' =>
    WriteAnswer (· = { w with snapshot := some p }) (CutReplace w { w with snapshot := some p }) a w'
  | .replaceReceipt p, a, w' =>
    WriteAnswer (· = { w with receipt := some p }) (CutReplace w { w with receipt := some p }) a w'
  | .now, t, w' => w' = w.saw (.clock t)
  | .find op, a, w' => CallAnswer answers w (.find op (some a)) w'
  | .create r, a, w' => CallAnswer answers w (.create r (some a)) w'
  | .get id, a, w' => CallAnswer answers w (.get id (some a)) w'
  | .start id op, a, w' => CallAnswer answers w (.start id op (some a)) w'
  | .delete id op, a, w' => CallAnswer answers w (.delete id op (some a)) w'
  | .spend id, a, w' => CallAnswer answers w (.spend id (some a)) w'

/-- What is left when the process dies inside a command. -/
def dieIn (w : World) : Command → World → Prop
  | .writeRequest r, w' => CutReplace w { w with request := some r } w'
  | .appendEvent e, w' => CutAppend w e w'
  | .replaceState p, w' => CutReplace w { w with snapshot := some p } w'
  | .replaceReceipt p, w' => CutReplace w { w with receipt := some p } w'
  | .find op, w' => w' = w.saw (.find op none)
  | .create r, w' => w' = w.saw (.create r none)
  | .get id, w' => w' = w.saw (.get id none)
  | .start id op, w' => w' = w.saw (.start id op none)
  | .delete id op, w' => w' = w.saw (.delete id op none)
  | .spend id, w' => w' = w.saw (.spend id none)
  | _, w' => w' = w

/-- Transactions on one run. -/
def machine (answers : Answers) : Machine World Command Answer where
  exec := execute answers
  die := dieIn

/-! ## What a transaction can ask of the outside -/

/-- `self._now()`. -/
def clock : Transaction DateTime := Process.perform Command.now

/-- `provider.find_resources(operation_id)`. -/
def findResources (operationId : Text) :
    Transaction (Except ProviderFault (List ProviderResource)) :=
  Process.perform (Command.find operationId)

/-- `provider.create(request)`. -/
def createResource (request : ProviderCreateRequest) :
    Transaction (Except ProviderFault ProviderResource) :=
  Process.perform (Command.create request)

/-- `provider.get(resource_id)`. -/
def getResource (resourceId : Text) :
    Transaction (Except ProviderFault (Option ProviderResource)) :=
  Process.perform (Command.get resourceId)

/-- `provider.start(resource_id, operation_id)`. -/
def startResource (resourceId operationId : Text) :
    Transaction (Except ProviderFault ProviderResource) :=
  Process.perform (Command.start resourceId operationId)

/-- `provider.delete(resource_id, operation_id)`. -/
def deleteResource (resourceId operationId : Text) :
    Transaction (Except ProviderFault DeleteReceipt) :=
  Process.perform (Command.delete resourceId operationId)

/-- `provider.current_spend_usd_per_hour(resource_id)`. -/
def currentSpendUsdPerHour (resourceId : Option Text) : Transaction (Except ProviderFault Decimal) :=
  Process.perform (Command.spend resourceId)

/-! ## The store's part -/

/-- The answer of a store command, or its exception. -/
def orRaise {α : Type} : Except StoreError α → Transaction α
  | .ok a => .done a
  | .error e => .raise (.store e)

/-- `_effective_state`: the newest journal projection, unless the snapshot is newer. -/
def effective (events : List Event) (snapshot : Option Projection) : Option Projection :=
  match events, snapshot with
  | [], snapshot => snapshot
  | e :: _, none => some e.projection
  | e :: _, some p =>
    if p.eventSequence ≤ e.projection.eventSequence then some e.projection else some p

/-- `RunTransaction.current_state`. -/
def currentState : Transaction Projection := do
  let events ← orRaise (← Process.perform .readEvents)
  let snapshot ← orRaise (← Process.perform .readSnapshot)
  match effective events snapshot with
  | some p => pure p
  | none => .raise .runNotFound

/-- `events[-1]["sequence"] + 1 if events else 1`. -/
def nextSequence : List Event → ℕ
  | [] => 1
  | e :: _ => e.projection.eventSequence + 1

/-- `RunTransaction.commit_state`. -/
def commitState (kind : Text) (state : RunState) : Transaction Projection := do
  let events ← orRaise (← Process.perform .readEvents)
  let projection : Projection := ⟨nextSequence events, state⟩
  -- the receipt is built, and validated, before anything is written
  if state.lifecycle = .closed ∧ receiptAccepted state projection.eventSequence = false then
    .raise .invalidReceipt
  else do
    orRaise (← Process.perform (.appendEvent ⟨kind, projection⟩))
    orRaise (← Process.perform (.replaceState projection))
    if state.lifecycle = .closed then orRaise (← Process.perform (.replaceReceipt projection))
    pure projection

/-- `RunStore.read_request`. -/
def readRequest : Transaction (List (Text × Json)) := do
  match ← orRaise (← Process.perform .readRequest) with
  | some request => pure request
  | none => .raise .runNotFound

/-- `RunStore.create_run`. -/
def createRun (request : List (Text × Json)) (initialState : RunState) : Transaction Projection := do
  match ← orRaise (← Process.perform .readRequest) with
  | some existing =>
    if Json.same true (.obj existing) (.obj request) then do
      let events ← orRaise (← Process.perform .readEvents)
      let snapshot ← orRaise (← Process.perform .readSnapshot)
      match effective events snapshot with
      | some p => pure p
      -- a crash after writing request.json but before the first event
      | none => commitState (txt "run_planned") initialState
    else .raise .runAlreadyExists
  | none => do
    orRaise (← Process.perform (.writeRequest request))
    commitState (txt "run_planned") initialState

/-- `_ensure_closeout_receipt`. -/
def ensureCloseoutReceipt (p : Projection) : Transaction Unit := do
  if receiptAccepted p.state p.eventSequence = false then .raise .invalidReceipt
  else
    match ← orRaise (← Process.perform .readReceipt) with
    | none => orRaise (← Process.perform (.replaceReceipt p))
    | some recorded =>
      if receiptAccepted recorded.state recorded.eventSequence = false then .raise .receiptMismatch
      else if closeoutReceipt recorded.state recorded.eventSequence =
          closeoutReceipt p.state p.eventSequence then pure ()
      else .raise .receiptMismatch

/-- `RunStore.read_state`. -/
def readState : Transaction Projection := do
  let p ← currentState
  if p.state.lifecycle = .closed then ensureCloseoutReceipt p
  pure p

end RunpodJobrunner
