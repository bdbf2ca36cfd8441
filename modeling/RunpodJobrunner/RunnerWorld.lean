import RunpodJobrunner.IdentityChecks
import RunpodJobrunner.KeyOrder
import RunpodJobrunner.Process
import RunpodJobrunner.Seconds
import RunpodJobrunner.Utf8

/-!
# The world of the remote runner

What the remote runner asks for is a command. The world is the status directory: the records
of `events.jsonl` and what a process that died left after them, every `status.json` there has
been, and `terminal-result.json`. A file is read back as what was written, with its keys in
order; `status.json` and `terminal-result.json` are replaced or linked as a whole, and a
record that is being appended can be left in part. A write that raises ends the process, as a
death in it does; reading what is there does not raise.

The directory is written by one process at a time, and by nothing but the runner. The manifest
of a failed run is written too, wherever the request says, and that can be a file of the
directory. The directories that paths lead to stay as they are while a process runs.
-/

namespace RunpodJobrunner

open Json

namespace Runner

/-- The members of an object. -/
abbrev Record := List (Text × Json)

/-! ## Commands -/

/-- Where the artifact manifest of a run is: at a file of the status directory, or not. -/
inductive Place : Type where
  | elsewhere | events | status | terminal
  deriving DecidableEq

/-- `_STOP_REASONS` -/
inductive StopReason : Type where
  | terminationRequested | controllerStopRequested
  deriving DecidableEq

/-- A phase log that a manifest lists. -/
structure LogFile where
  path : Text
  size : ℕ
  sha256 : Text
  deriving DecidableEq

/-- The signals that are sent to a process group. -/
inductive Signal : Type where
  | term | kill | probe

/-- What the runner asks for. -/
inductive Command : Type where
  /-- `time.monotonic()` -/
  | monotonic : Command
  /-- `time.time()` -/
  | time : Command
  | readEvents : Command
  /-- cut off what is after the last record -/
  | truncateEvents : Command
  | readStatus : Command
  | readTerminal : Command
  | append : Record → Command
  /-- replace `status.json` -/
  | publish : Record → Command
  /-- link a new file as `terminal-result.json` -/
  | linkTerminal : Record → Command
  | manifestExists : Place → Command
  /-- the logs in a directory -/
  | phaseLogs : PurePosixPath → Command
  | writeManifest : Place → Record → Command
  | stopRequested : Command
  | exists : PurePosixPath → Command
  /-- `read_launch_token` and its size: the digest of the token, and the size -/
  | readToken : PurePosixPath → Command
  | isDirectory : PurePosixPath → Command
  | freeBytes : PurePosixPath → Command
  /-- open the log and start the command -/
  | spawn : (log : PurePosixPath) → (argv : List Text) → Command
  | poll : (pid : ℤ) → Command
  | wait : (pid : ℤ) → Command
  | signal : (pid : ℤ) → Signal → Command
  /-- `pid in {os.getpid(), os.getpgrp()}` -/
  | isOwn : (pid : ℤ) → Command
  /-- `path.resolve()` -/
  | resolve : PurePosixPath → Command
  | isSymlink : PurePosixPath → Command
  /-- `path.resolve(strict=True)` -/
  | resolveStrict : PurePosixPath → Command
  | isFile : PurePosixPath → Command
  | fileSize : PurePosixPath → Command
  | stableSha256 : PurePosixPath → Command
  /-- `json.loads` of the text, which refuses a repeated key -/
  | readManifest : PurePosixPath → Command

/-- What a command is answered with; `none` where it raises and that is caught. -/
abbrev Answer : Command → Type
  | .monotonic => ℚ
  | .time => FloatLiteral
  | .readEvents => List Json × Bytes
  | .truncateEvents => Unit
  | .readStatus => Option Json
  | .readTerminal => Option Json
  | .append _ => Unit
  | .publish _ => Unit
  | .linkTerminal _ => Bool
  | .manifestExists _ => Bool
  | .phaseLogs _ => Option (List LogFile)
  | .writeManifest _ _ => Unit
  | .stopRequested => Option StopReason
  | .exists _ => Bool
  | .readToken _ => Option (Text × ℕ)
  | .isDirectory _ => Bool
  | .freeBytes _ => Option ℕ
  | .spawn _ _ => Option ℤ
  | .poll _ => Option ℤ
  | .wait _ => ℤ
  | .signal _ _ => Bool
  | .isOwn _ => Bool
  | .resolve _ => PurePosixPath
  | .isSymlink _ => Bool
  | .resolveStrict _ => Option PurePosixPath
  | .isFile _ => Bool
  | .fileSize _ => Option ℕ
  | .stableSha256 _ => Option Text
  | .readManifest _ => Option Json

/-! ## The world -/

/-- The status directory, and what the clock of the running process has shown. -/
structure World where
  /-- the records of `events.jsonl`, in order -/
  events : List Record
  /-- what is after them -/
  torn : Bytes
  /-- every `status.json` there has been, newest first -/
  published : List Record
  terminal : Option Record
  /-- what `time.monotonic()` returned in this process, newest first -/
  readings : List ℚ
  deriving DecidableEq

namespace World

/-- A new directory. -/
def empty : World := ⟨[], [], [], none, []⟩

/-- The world a new process finds. -/
def restarted (w : World) : World := { w with readings := [] }

/-- Nothing is known to be at that place. -/
def Lacks (w : World) : Place → Prop
  | .elsewhere => True
  | .events => w.events = [] ∧ w.torn = []
  | .status => w.published = []
  | .terminal => w.terminal = none

instance (w : World) : (place : Place) → Decidable (w.Lacks place)
  | .elsewhere => .isTrue trivial
  | .events => inferInstanceAs (Decidable (w.events = [] ∧ w.torn = []))
  | .status => inferInstanceAs (Decidable (w.published = []))
  | .terminal => inferInstanceAs (Decidable (w.terminal = none))

/-- The manifest is at that place. -/
def withManifest (w : World) (manifest : Record) : Place → World
  | .elsewhere => w
  | .events => { w with events := [manifest], torn := [] }
  | .status => { w with published := manifest :: w.published }
  | .terminal => { w with terminal := some manifest }

end World

/-- What a file of a record is read as. -/
def stored (record : Record) : Json := (obj record).sortKeys

/-- `json.dumps(record, sort_keys=True, separators=(",", ":")) + "\n"`, encoded; `none` where it
raises. -/
def lineOf (record : Record) : Option Bytes :=
  (dumps ⟨true, true⟩ (.obj record)).bind fun t => encodeUtf8 (t ++ [10])

/-- What a command that completes does. A manifest that is not written is an `OSError` that is
suppressed. -/
def execute (w : World) : (c : Command) → Answer c → World → Prop
  | .monotonic, now, w' => (∀ last, w.readings.head? = some last → last ≤ now) ∧
      w' = { w with readings := now :: w.readings }
  | .readEvents, a, w' => a = (w.events.map stored, w.torn) ∧ w' = w
  | .truncateEvents, _, w' => w' = { w with torn := [] }
  | .readStatus, a, w' => a = w.published.head?.map stored ∧ w' = w
  | .readTerminal, a, w' => a = w.terminal.map stored ∧ w' = w
  | .append e, _, w' => w.torn = [] ∧ w' = { w with events := w.events ++ [e] }
  | .publish s, _, w' => w' = { w with published := s :: w.published }
  | .linkTerminal t, a, w' =>
    match w.terminal with
    | none => a = true ∧ w' = { w with terminal := some t }
    | some _ => a = false ∧ w' = w
  | .manifestExists place, a, w' => (a = false → w.Lacks place) ∧ w' = w
  | .writeManifest place m, _, w' => w' = w ∨ w' = w.withManifest m place
  | .stableSha256 _, a, w' => (∀ d, a = some d → d.length = 64 ∧ d.all isHex = true) ∧ w' = w
  | _, _, w' => w' = w

/-- What a command leaves in which the process dies. -/
def dieIn (w : World) : Command → World → Prop
  | .truncateEvents, w' => w' = w ∨ w' = { w with torn := [] }
  | .append e, w' => w' = { w with events := w.events ++ [e] } ∨
      ∃ line part, lineOf e = some line ∧ part <+: line ∧ part ≠ line ∧ w' = { w with torn := part }
  | .publish s, w' => w' = w ∨ w' = { w with published := s :: w.published }
  | .linkTerminal t, w' => w' = w ∨ (w.terminal = none ∧ w' = { w with terminal := some t })
  | .writeManifest place m, w' => w' = w ∨ w' = w.withManifest m place
  | _, w' => w' = w

/-- The machine of the runner. -/
def machine : Machine World Command Answer := ⟨execute, dieIn⟩

end Runner

end RunpodJobrunner
