import RunpodJobrunner.IncrementalManifest
import RunpodJobrunner.KeyOrder
import RunpodJobrunner.Process

/-!
# The world of the remote executor

What the executor asks for is a command: the transfer adapter, the local files it looks at,
the clock, and the records it keeps. The records are the world: receipts, acknowledgements
and publications on disk, and in memory the receipts that were verified. A record is
written by replacing its file, so a process that dies leaves the old one or the new one.
Nothing else writes these records; every other answer may be anything.
-/

namespace RunpodJobrunner

open Json

namespace Executor

/-! ## Answers -/

/-- `ContentReceipt`. -/
structure ContentReceipt where
  path : Text
  size : ℕ
  sha256 : Text

/-- What is found at a path. -/
inductive FileKind : Type where
  | missing | symlink | directory | regular | other
  deriving DecidableEq

/-- What a check of a mirrored file finds. -/
inductive Examined : Type where
  | symlink
  /-- it resolves to a path outside of its root -/
  | escapes
  | missing
  | regular : (size : ℕ) → (sha256 : Text) → Examined
  | failed : Examined

/-- What becomes of a directory that has to be there. -/
inductive DirectoryOutcome : Type where
  | ready | symlink | unavailable | notDirectory | escapes | failed

/-- What becomes of a file that has to be moved to its place. -/
inductive Replaced : Type where
  | replaced | symlink | irregular | failed

/-- A file of bytes, read. -/
inductive FileRead : Type where
  | missing | irregular | failed
  | content : Bytes → FileRead

/-- `AckSigner`, without the path of its key. -/
structure AckSigner where
  publicKey : Text
  keyId : Text
  identity : Text

/-! ## Commands -/

/-- A place that is looked at. -/
inductive Place : Type where
  /-- `receipts/incremental-state` -/
  | state
  /-- a receipt in it -/
  | receipt : Text → Place
  /-- under the run directory, by its components -/
  | run : List Text → Place
  /-- the staging directory -/
  | staged

/-- A file of JSON, by its name without the suffix. -/
inductive JsonFile : Type where
  /-- in `receipts/incremental-state` -/
  | receipt : Text → JsonFile
  /-- in `receipts/incremental-ack-state` -/
  | publication : Text → JsonFile

/-- A file that is replaced. -/
inductive Target : Type where
  | json : JsonFile → Json → Target
  /-- in `receipts/incremental-acks` -/
  | ack : Text → Bytes → Target
  /-- in `receipts/incremental` -/
  | mirrored : List Text → Bytes → Target

/-- What the executor asks for. -/
inductive Command : Type where
  | discover : (root pattern : Text) → (maxMatches : ℕ) → Command
  /-- the staging directory and `fetch` -/
  | fetch : (root : Text) → Transfer.RemoteFile → Command
  /-- `download` of the files of that receipt to the staging directory -/
  | download : (key source : Text) → List IncrementalEntry → Command
  | publishAtomic : (destination : Text) → (size : ℕ) → (sha256 : Text) → Command
  /-- the bytes of the file that was fetched -/
  | readStaged : Command
  /-- `json.loads`, which deep nesting makes raise a `RecursionError` -/
  | loads : Bytes → Command
  | inspect : Place → Command
  | examine : Place → Text → Command
  | makeDirectory : List Text → Command
  /-- move a staged file to its place, and make that durable -/
  | replaceFile : List Text → Text → Command
  | readMirrored : List Text → Command
  | freeSpace : Command
  /-- `datetime.now(UTC).strftime("%Y-%m-%dT%H:%M:%SZ")` -/
  | utcNow : Command
  /-- the names of the receipts, without their suffix -/
  | listReceipts : Command
  | readJson : JsonFile → Command
  | readReceiptBytes : Text → Command
  | readAck : Text → Command
  | write : Target → Command
  | isRemembered : Text → Command
  | remember : Text → Command
  | loadSigner : Text → Command
  /-- `ssh-keygen -Y sign`: the signature in base64 -/
  | sign : Bytes → Command
  /-- what `verify_ack` checks once the record is the expected one -/
  | checkSignature : Members → Text → Command

/-- What a command is answered with. A write that raises answers `false`, a read of a
record that raises `none`. -/
def Answer : Command → Type
  | .discover _ _ _ => Except RemoteFault (List Transfer.RemoteFile)
  | .fetch _ _ => Except RemoteFault ContentReceipt
  | .download _ _ _ => Except RemoteFault Unit
  | .publishAtomic _ _ _ => Except RemoteFault Unit
  | .readStaged => Option Bytes
  | .loads _ => Loaded
  | .inspect _ => Option FileKind
  | .examine _ _ => Examined
  | .makeDirectory _ => DirectoryOutcome
  | .replaceFile _ _ => Replaced
  | .readMirrored _ => FileRead
  | .freeSpace => Except RemoteFault Json
  | .utcNow => Text
  | .listReceipts => List Text
  | .readJson _ => Option (Option Json)
  | .readReceiptBytes _ => Option Bytes
  | .readAck _ => FileRead
  | .write _ => Bool
  | .isRemembered _ => Bool
  | .remember _ => Unit
  | .loadSigner _ => Except (Option Text) AckSigner
  | .sign _ => Except (Option Text) Text
  | .checkSignature _ _ => Except (Option Text) Unit

/-! ## The world -/

/-- A download that was started: of which receipt, from where, of which files, what
receipts were on disk then, and the free space that was observed last. -/
structure Download where
  key : Text
  source : Text
  files : List IncrementalEntry
  receipts : List (Text × Json)
  available : Option Json

/-- The records of the executor, and the downloads that were started, newest first. A file
of JSON is the value that was written to it. -/
structure ExecutorWorld where
  receipts : List (Text × Json)
  acks : List (Text × Bytes)
  publications : List (Text × Json)
  remembered : List Text
  available : Option Json
  downloads : List Download
  nodup : (receipts.map Prod.fst).Nodup

namespace ExecutorWorld

/-- Nothing has been mirrored yet. -/
def empty : ExecutorWorld := ⟨[], [], [], [], none, [], List.nodup_nil⟩

/-- A file is replaced. -/
def replaced (w : ExecutorWorld) : Target → ExecutorWorld
  | .json (.receipt key) value =>
    { w with receipts := setKey key value w.receipts, nodup := nodup_setKey w.nodup }
  | .json (.publication key) value => { w with publications := setKey key value w.publications }
  | .ack key data => { w with acks := (key, data) :: w.acks.filter fun a => a.1 ≠ key }
  | .mirrored _ _ => w

/-- What a file of JSON says; it is the text of the value that was written. -/
def json (w : ExecutorWorld) : JsonFile → Option Json
  | .receipt key => (lookup key w.receipts).map reload
  | .publication key => (lookup key w.publications).map reload

/-- A download is started. -/
def started (w : ExecutorWorld) (key source : Text) (files : List IncrementalEntry) : ExecutorWorld :=
  { w with downloads := ⟨key, source, files, w.receipts, w.available⟩ :: w.downloads }

/-- The free space is observed. -/
def observed (w : ExecutorWorld) (available : Except RemoteFault Json) : ExecutorWorld :=
  { w with available := available.toOption }

/-- A receipt was verified. -/
def remembering (w : ExecutorWorld) (key : Text) : ExecutorWorld :=
  { w with remembered := key :: w.remembered }

/-- The process starts again. -/
def restarted (w : ExecutorWorld) : ExecutorWorld := { w with remembered := [] }

end ExecutorWorld

/-- `json.dumps(value, sort_keys=True, separators=(",", ":")) + "\n"`. It is ASCII. -/
def fileBytes (value : Json) : Option Bytes := (dumps ⟨true, true⟩ value).map (· ++ [10])

/-! ## Steps -/

/-- What a command that completes does. -/
def execute (w : ExecutorWorld) : (c : Command) → Answer c → ExecutorWorld → Prop
  | .download key source files, _, w' => w' = w.started key source files
  | .loads data, a, w' => (a = loadsBytes data ∨ a = .foreign) ∧ w' = w
  | .inspect .state, a, w' =>
    (a = some .missing → w.receipts = []) ∧ w' = w
  | .freeSpace, a, w' => w' = w.observed a
  | .listReceipts, a, w' => a.Perm (w.receipts.map Prod.fst) ∧ w' = w
  | .readJson file, a, w' => (∀ v, a = some v → v = w.json file) ∧ w' = w
  | .readReceiptBytes key, a, w' =>
    (∀ data, a = some data → (lookup key w.receipts).bind fileBytes = some data) ∧ w' = w
  | .readAck key, a, w' =>
    (a = .missing → w.acks.lookup key = none) ∧
      (∀ data, a = .content data → w.acks.lookup key = some data) ∧ w' = w
  | .write target, a, w' => w' = w.replaced target ∨ (a = false ∧ w' = w)
  | .isRemembered key, a, w' => a = decide (key ∈ w.remembered) ∧ w' = w
  | .remember key, _, w' => w' = w.remembering key
  | _, _, w' => w' = w

/-- What a command leaves in which the process dies. -/
def dieIn (w : ExecutorWorld) : Command → ExecutorWorld → Prop
  | .download key source files, w' => w' = w ∨ w' = w.started key source files
  | .write target, w' => w' = w ∨ w' = w.replaced target
  | _, w' => w' = w

/-- The machine of the executor. -/
def machine : Machine ExecutorWorld Command Answer := ⟨execute, dieIn⟩

/-- A call of the executor. -/
abbrev Remote := Process Command Answer RemoteFault

/-- Raise what a check gets wrong. -/
def required {α : Type} : Except RemoteFault α → Remote α
  | .ok a => .done a
  | .error e => .raise e

/-- `raise ApplicationError(text)`. -/
def refuse {α : Type} (text : Text) : Remote α := .raise (applicationError text)

/-- Replace a file. -/
def write (target : Target) : Remote Unit :=
  .call (.write target) fun
    | true => .done ()
    | false => .raise .foreign

/-- `_atomic_json`. -/
def atomicJson (file : JsonFile) (value : Json) : Remote Unit :=
  if (fileBytes value).isNone then .raise .foreign else write (.json file value)

/-- `_optional_mapping`. A file that was written by `_atomic_json` is JSON. -/
def optionalMapping (file : JsonFile) (name : Text) : Remote (Option Members) :=
  .call (.readJson file) fun
    | none => refuse (name ++ txt " is unavailable")
    | some none => .done none
    | some (some value) => required ((mapping (some value) name).map some)

end Executor

end RunpodJobrunner
