import RunpodJobrunner.CloseoutReceipt
import RunpodJobrunner.JsonCuts
import RunpodJobrunner.Utf8

/-!
# The files of a run

`events.jsonl`, `state.json` and `closeout-receipt.json` as bytes, and what the
store does with them: it appends one line of JSON to the journal, replaces the
other two as a whole, and cuts off what a dying process left of a line. A call
returns the files it leaves together with its result. The interpreter's limit on
nested values is not modelled.
-/

namespace RunpodJobrunner

/-! ## Text -/

/-- The line boundaries of `str.splitlines`, apart from `\r\n`. -/
def isLineBreak (c : ℕ) : Bool :=
  (10 ≤ c && c ≤ 13) || (28 ≤ c && c ≤ 30) || c == 0x85 || c == 0x2028 || c == 0x2029

/-- `str.splitlines` after a line has begun. -/
def splitLinesFrom (line : Text) : Text → List Text
  | [] => if line = [] then [] else [line]
  | 13 :: 10 :: t => line :: splitLinesFrom [] t
  | c :: t => if isLineBreak c then line :: splitLinesFrom [] t else splitLinesFrom (line ++ [c]) t

/-- `str.splitlines`. -/
def splitLines (t : Text) : List Text := splitLinesFrom [] t

example : splitLines (txt "a\n\nb\r\nc") = [txt "a", [], txt "b", txt "c"] := by decide

/-- Universal newlines, which a file that is read as text is read with. -/
def universalNewlines : Text → Text
  | [] => []
  | 13 :: 10 :: t => 10 :: universalNewlines t
  | 13 :: t => 10 :: universalNewlines t
  | c :: t => c :: universalNewlines t

/-! ## Files -/

/-- The files of a run that a commit writes. -/
structure RunFiles where
  events : Option Bytes
  state : Option Bytes
  receipt : Option Bytes
  deriving DecidableEq

/-- What the store raises. -/
inductive JournalError : Type where
  /-- `ValueError`, also where a JSON or UTF-8 decoder raises its own -/
  | value
  /-- `RunNotFoundError` -/
  | runNotFound
  /-- `RunStoreError` about the closeout receipt -/
  | receipt
  /-- `ProtocolValidationError` -/
  | protocol
  deriving DecidableEq

/-- A result, and the files after the call. -/
abbrev Stored (α : Type) := Except JournalError α × RunFiles

namespace Journal

/-- `_json_bytes`; `none` where `json.dumps` or `encode` raises. -/
def jsonBytes (v : Json) : Option Bytes :=
  (Json.dumps Json.rawText v).bind fun t => encodeUtf8 (t ++ [10])

section

-- `float` of a literal
variable (floatOf : FloatLiteral → JsonFloat)

/-- What `json.loads` is called with. -/
def decoder : Json.Decoder := ⟨floatOf, Json.lastWins⟩

/-- `_read_json_object`. -/
def readJsonObject (data : Bytes) : Except JournalError (List (Text × Json)) :=
  match decodeUtf8 data with
  | .error _ => .error .value
  | .ok text =>
    match Json.loads (decoder floatOf) (universalNewlines text) with
    | .ok (.obj kvs) => .ok kvs
    | _ => .error .value

/-! ## The journal -/

/-- `_is_torn_json_fragment`. -/
def isTornJsonFragment (fragment : Bytes) : Except JournalError Bool :=
  match decodeUtf8 fragment with
  | .error e => .ok (e.rest = [] ∧ e.reason = .unexpectedEndOfData)
  | .ok text =>
    match Json.loads (decoder floatOf) text with
    | .ok _ => .ok false
    | .error (.decode e) => .ok e.torn
    | .error _ => .error .value

/-- The bytes up to the last newline, and the bytes after it. -/
def lastRecord (data : Bytes) : Bytes × Bytes :=
  ((data.reverse.dropWhile (· != 10)).reverse, (data.reverse.takeWhile (· != 10)).reverse)

/-- `value == number` -/
def isNumber (v : Option Json) (n : ℕ) : Bool :=
  match v with
  | some v => Json.same true v (.int n)
  | none => false

/-- The records of the lines, the first of which has that sequence. -/
def readRecords : ℕ → List Text → Except JournalError (List (List (Text × Json)))
  | _, [] => .ok []
  | n, line :: lines =>
    match Json.loads (decoder floatOf) line with
    | .ok (.obj event) =>
      if isNumber (Json.lookup (txt "sequence") event) n then
        match Json.lookup (txt "projection") event with
        | some (.obj projection) =>
          if isNumber (Json.lookup (txt "event_sequence") projection) n then
            (readRecords (n + 1) lines).map fun events => event :: events
          else .error .value
        | _ => .error .value
      else .error .value
    | _ => .error .value

/-- The records of complete lines. -/
def readLines (data : Bytes) : Except JournalError (List (List (Text × Json))) :=
  match decodeUtf8 data with
  | .error _ => .error .value
  | .ok text => readRecords floatOf 1 (splitLines text)

/-- `_read_events`, which cuts off a torn record. -/
def readEvents (files : RunFiles) : Stored (List (List (Text × Json))) :=
  match files.events with
  | none => (.ok [], files)
  | some data =>
    let (complete, fragment) := lastRecord data
    if fragment = [] then (readLines floatOf data, files)
    else
      match isTornJsonFragment floatOf fragment with
      -- only a record that was cut short is dropped; anything else is corruption
      | .ok true => (readLines floatOf complete, { files with events := some complete })
      | _ => (.error .value, files)

/-! ## The effective state -/

/-- `isinstance(value, int)`: the integer it is. -/
def pyInt : Json → Option ℤ
  | .int n => some n
  | .bool b => some b.toNat
  | _ => none

/-- `_effective_state` of what was read. A record's `event_sequence` is equal to its
place in the journal. -/
def newest (events : List (List (Text × Json))) (snapshot : Option (List (Text × Json))) :
    Except JournalError (List (Text × Json)) :=
  match (events.getLast?).bind (Json.lookup (txt "projection")) with
  | some (.obj projection) =>
    match snapshot with
    | none => .ok projection
    | some snapshot =>
      match pyInt ((Json.lookup (txt "event_sequence") snapshot).getD (.int 0)) with
      | none => .error .value
      | some n => if n ≤ events.length then .ok projection else .ok snapshot
  | _ =>
    match snapshot with
    | some snapshot => .ok snapshot
    | none => .error .runNotFound

/-- `_effective_state`, also `RunTransaction.current_state`. -/
def effectiveState (files : RunFiles) : Stored (List (Text × Json)) :=
  match readEvents floatOf files with
  | (.error e, files) => (.error e, files)
  | (.ok events, files) =>
    match files.state with
    | none => (newest events none, files)
    | some data =>
      match readJsonObject floatOf data with
      | .error e => (.error e, files)
      | .ok snapshot => (newest events (some snapshot), files)

/-! ## The closeout receipt -/

/-- `state.get("lifecycle") == "closed"` -/
def isClosed (state : List (Text × Json)) : Bool :=
  Json.lookup (txt "lifecycle") state = some (.str (txt "closed"))

/-- The receipt of a state, before it is validated. -/
def receiptOf (state : List (Text × Json)) : List (Text × Json) :=
  Json.setKey (txt "protocol") (.str (txt "closeout-receipt/1")) state

/-- `_make_closeout_receipt`. -/
def makeCloseoutReceipt (state : List (Text × Json)) : Except JournalError (List (Text × Json)) :=
  if closeoutReceiptSchema.accepts (.obj (receiptOf state)) then .ok (receiptOf state)
  else .error .protocol

/-- `_read_and_validate_closeout_receipt`. -/
def readCloseoutReceipt (data : Bytes) : Except JournalError (List (Text × Json)) :=
  match readJsonObject floatOf data with
  | .error e => .error e
  | .ok receipt =>
    if closeoutReceiptSchema.accepts (.obj receipt) then .ok receipt else .error .receipt

/-- `_ensure_closeout_receipt`. -/
def ensureCloseoutReceipt (state : List (Text × Json)) (files : RunFiles) : Stored Unit :=
  match makeCloseoutReceipt state with
  | .error e => (.error e, files)
  | .ok expected =>
    -- a death between the record and its receipt leaves none
    match files.receipt with
    | none =>
      match jsonBytes (.obj expected) with
      | none => (.error .value, files)
      | some data => (.ok (), { files with receipt := some data })
    | some data =>
      match readCloseoutReceipt floatOf data with
      | .error e => (.error e, files)
      | .ok recorded =>
        if Json.same true (.obj recorded) (.obj expected) then (.ok (), files)
        else (.error .receipt, files)

/-- `RunStore.read_state`. -/
def readState (files : RunFiles) : Stored (List (Text × Json)) :=
  match effectiveState floatOf files with
  | (.error e, files) => (.error e, files)
  | (.ok state, files) =>
    if isClosed state then
      match ensureCloseoutReceipt floatOf state files with
      | (.error e, files) => (.error e, files)
      | (.ok (), files) => (.ok state, files)
    else (.ok state, files)

/-! ## Commits -/

end

/-- The arguments of a `commit_state`, and the time it reads. -/
structure Commit where
  kind : Text
  state : List (Text × Json)
  payload : List (Text × Json)
  now : DateTime

/-- The projection with its sequence. -/
def Commit.projection (c : Commit) (sequence : ℕ) : List (Text × Json) :=
  Json.setKey (txt "event_sequence") (.int sequence) c.state

/-- The journal record. -/
def Commit.event (c : Commit) (sequence : ℕ) : List (Text × Json) :=
  [(txt "protocol", .str (txt "run-event/1")), (txt "sequence", .int sequence),
    (txt "recorded_at", timestampJson c.now), (txt "kind", .str c.kind),
    (txt "payload", .obj c.payload), (txt "projection", .obj (c.projection sequence))]

/-- What a commit is about to write: the line of the journal, the snapshot, and the
receipt of a closed state. -/
structure CommitBytes where
  line : Bytes
  state : Bytes
  receipt : Option Bytes

/-- What a commit writes; `none` where it raises before it has written anything. The
projection and the receipt are made of parts of the record, so that they have bytes
when the line has. -/
def Commit.bytes (c : Commit) (sequence : ℕ) : Option CommitBytes :=
  match jsonBytes (.obj (c.event sequence)), jsonBytes (.obj (c.projection sequence)) with
  | some line, some state =>
    if isClosed (c.projection sequence) then
      match makeCloseoutReceipt (c.projection sequence) with
      | .error _ => none
      | .ok receipt => (jsonBytes (.obj receipt)).map fun data => ⟨line, state, some data⟩
    else some ⟨line, state, none⟩
  | _, _ => none

/-- The sequence of a commit, and its bytes. -/
structure Prepared where
  sequence : ℕ
  bytes : CommitBytes

/-- `commit_state` up to its first write. -/
def prepare (floatOf : FloatLiteral → JsonFloat) (c : Commit) (files : RunFiles) :
    Stored Prepared :=
  match readEvents floatOf files with
  | (.error e, files) => (.error e, files)
  | (.ok events, files) =>
    match c.bytes (events.length + 1) with
    | none => (.error .value, files)
    | some b => (.ok ⟨events.length + 1, b⟩, files)

/-- The journal with more bytes at its end. -/
def appendEvents (files : RunFiles) (more : Bytes) : RunFiles :=
  { files with events := some (files.events.getD [] ++ more) }

/-- The files after a commit of those bytes: the record is at the end of the journal,
the snapshot and the receipt are replaced. -/
def CommitBytes.apply (b : CommitBytes) (files : RunFiles) : RunFiles :=
  { events := (appendEvents files b.line).events, state := some b.state,
    receipt := b.receipt.or files.receipt }

/-- `RunTransaction.commit_state`. -/
def commitState (floatOf : FloatLiteral → JsonFloat) (c : Commit) (files : RunFiles) :
    Stored (List (Text × Json)) :=
  match prepare floatOf c files with
  | (.error e, files) => (.error e, files)
  | (.ok p, files) => (.ok (c.projection p.sequence), p.bytes.apply files)

/-! ## Crashes -/

/-- Where a process can die in a commit. -/
inductive CrashPoint : Type where
  /-- before anything is written -/
  | prepared
  /-- after so many bytes of the record -/
  | cut : ℕ → CrashPoint
  /-- after the whole record -/
  | appended
  /-- after the snapshot -/
  | projected
  /-- after the receipt -/
  | replaced

/-- The files a process leaves that dies there. -/
def CommitBytes.until (b : CommitBytes) (files : RunFiles) : CrashPoint → RunFiles
  | .prepared => files
  | .cut n => appendEvents files (b.line.take n)
  | .appended => appendEvents files b.line
  | .projected => { appendEvents files b.line with state := some b.state }
  | .replaced => b.apply files

end Journal

end RunpodJobrunner
