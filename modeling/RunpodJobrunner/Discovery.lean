import Mathlib.Data.List.Sort
import RunpodJobrunner.FileTree
import RunpodJobrunner.Glob
import RunpodJobrunner.JsonText
import RunpodJobrunner.PosixPath
import RunpodJobrunner.Utf8

/-!
# Discovery of remote files

The two adapters behind `discover`. `LocalTransfer` walks a tree and matches every entry
with the regular expression of the glob; `RcloneSFTP` has rclone filter a listing and
checks what is listed. What `rclone` answers to a command line is a parameter.
-/

namespace RunpodJobrunner

open Json

namespace Transfer

/-! ## Results -/

/-- `RemoteFile`. -/
structure RemoteFile where
  path : Text
  size : ℕ
  modifiedAt : Text
  deriving DecidableEq

/-- The order of a dataclass: by its fields. -/
def RemoteFile.le (a b : RemoteFile) : Bool :=
  if a.path ≠ b.path then textLe a.path b.path
  else if a.size ≠ b.size then decide (a.size < b.size)
  else textLe a.modifiedAt b.modifiedAt

/-- `sorted(discovered)`. -/
def sortedFiles (files : List RemoteFile) : List RemoteFile :=
  files.insertionSort fun a b => a.le b = true

/-- What a discovery raises. -/
inductive DiscoveryFailure : Type where
  /-- `TransferError` -/
  | transferError : (message : Text) → DiscoveryFailure
  /-- `TransferError`, whose message ends in the `repr` of a value -/
  | transferQuoting : (message value : Text) → DiscoveryFailure
  /-- `TransferUnavailable`, a `TransferError` too -/
  | transferUnavailable : (message : Text) → DiscoveryFailure
  /-- a `ValueError` that is not caught -/
  | valueError : DiscoveryFailure
  deriving DecidableEq

/-- `isinstance(error, TransferError)`. -/
def DiscoveryFailure.isTransferError : DiscoveryFailure → Bool
  | transferError _ | transferQuoting _ _ | transferUnavailable _ => true
  | valueError => false

/-- The result of a discovery. -/
abbrev Discovered := Except DiscoveryFailure (List RemoteFile)

/-- `raise TransferError(message)`. -/
def refuse {α : Type} (message : Text) : Except DiscoveryFailure α := .error (.transferError message)

/-! ## Checks -/

/-- `*`. -/
def star : ℕ := 42

/-- `part in text`. -/
def occursIn (part text : Text) : Bool := text.tails.any fun t => part.isPrefixOf t

/-- `_positive_discovery_limit`, of an integer. -/
def positiveDiscoveryLimit (value : ℤ) : Except DiscoveryFailure ℕ :=
  if 0 < value ∧ value ≤ 4096 then .ok value.toNat
  else refuse (txt "discovery max_matches must be between 1 and 4096")

/-- The components are not those of a safe fixed glob. -/
def isUnsafeGlob (pattern : Text) : Bool :=
  let path := PurePosixPath.ofText pattern
  path.isAbsolute || path.text ≠ pattern ||
    path.parts.any (fun part => part = [] || part = txt "." || part = txt "..") ||
    path.parts = [] || path.name.contains star || 32 < path.parts.length ||
    4 < (path.parts.map fun part => part.count star).sum

/-- `_discovery_matcher`. A component without a backslash is escaped character by
character, and the escaped stars are replaced. -/
def discoveryMatcher (pattern : Text) : Except DiscoveryFailure Regex :=
  if pattern = [] ∨ 512 < pattern.length then refuse (txt "incremental manifest glob is invalid")
  else if occursIn [star, star] pattern || (txt "?[]\x7b\x7d\\" ++ [0]).any pattern.contains then
    refuse (txt "incremental manifest glob contains unsupported metacharacters")
  else if pattern.any isControl then
    refuse (txt "incremental manifest glob contains control characters")
  else if isUnsafeGlob pattern then refuse (txt "incremental manifest glob is not a safe fixed glob")
  else
    .ok (Glob.joined slash ((PurePosixPath.ofText pattern).parts.map (Glob.component star slash)))

/-- `DiscoveryPattern`. -/
structure DiscoveryPattern where
  fixedPrefix : Text
  relativePattern : Text
  deriving DecidableEq

/-- `validate_discovery_pattern`. -/
def validateDiscoveryPattern (pattern : Text) : Except DiscoveryFailure DiscoveryPattern :=
  match discoveryMatcher pattern with
  | .error e => .error e
  | .ok _ =>
    let parts := (PurePosixPath.ofText pattern).parts
    let wildcardIndex := (parts.findIdx? fun part => part.contains star).getD (parts.length - 1)
    .ok
      { fixedPrefix := [slash].intercalate (parts.take wildcardIndex)
        relativePattern := [slash].intercalate (parts.drop wildcardIndex) }

/-- The path is refused. -/
def isUnsafeRemote (value : Text) : Bool :=
  let path := PurePosixPath.ofText value
  value = [] || 1024 < value.length || path.isAbsolute || path.text ≠ value || value.contains 92 ||
    value.any isControl ||
    path.parts.any fun part => part = [] || part = txt "." || part = txt ".." || 255 < part.length

/-- `_safe_remote_relative`. -/
def safeRemoteRelative (value : Text) : Except DiscoveryFailure PurePosixPath :=
  if isUnsafeRemote value then .error (.transferQuoting (txt "unsafe remote path: ") value)
  else .ok (PurePosixPath.ofText value)

/-- The message for more matches than the limit. -/
def tooMany (limit : ℕ) : Text :=
  txt "discovery returned more than " ++ natText limit ++ txt " matches"

/-! ## On the local file system -/

/-- What `stat` tells of a regular file. -/
structure FileStat where
  size : ℕ
  /-- `st_mtime_ns` -/
  modifiedNs : ℤ
  deriving DecidableEq

/-- A tree of files, without their contents. -/
abbrev StatTree := FileTree Text Unit (Leaf FileStat)

/-- An entry of a tree, by its components. -/
abbrev Candidate := List Text × StatTree

/-- `path.relative_to(root).as_posix()`. -/
def relativeText (path : List Text) : Text := [slash].intercalate path

/-- `str` of an integer. -/
def intDigits (n : ℤ) : Text := if n < 0 then 45 :: natText n.natAbs else natText n.natAbs

namespace LocalTransfer

/-- The loop of `discover`, with what it has discovered. -/
def scan (matcher : Regex) (limit : ℕ) (discovered : List RemoteFile) : List Candidate → Discovered
  | [] => .ok discovered
  | (path, node) :: candidates =>
    let relative := relativeText path
    if !matcher.fullmatch relative then scan matcher limit discovered candidates
    else
      match node with
      | .leaf .symlink => refuse (txt "discovered path is a symlink: " ++ relative)
      | .dir _ _ | .leaf .special =>
        refuse (txt "discovered path is not a regular file: " ++ relative)
      | .leaf (.regular stat) =>
        match safeRemoteRelative relative with
        | .error e => .error e
        | .ok safe =>
          let discovered := discovered ++ [⟨safe.text, stat.size, intDigits stat.modifiedNs⟩]
          -- the first match too many refuses, whatever follows
          if limit < discovered.length then refuse (tooMany limit)
          else scan matcher limit discovered candidates

/-- `LocalTransfer.discover`. The candidates are what `root.rglob("*")` yields, or nothing
where the root is not a directory. -/
def discover (candidates : Option (List Candidate)) (pattern : Text) (maxMatches : ℤ) :
    Discovered := do
  let matcher ← discoveryMatcher pattern
  let limit ← positiveDiscoveryLimit maxMatches
  match candidates with
  | none => .ok []
  | some candidates => (scan matcher limit [] candidates).map sortedFiles

end LocalTransfer

/-! ## Through rclone -/

/-- What `self._run` does. -/
inductive RunResult : Type where
  | completed : (returncode : ℤ) → (stdout stderr : Text) → RunResult
  /-- `TimeoutExpired` -/
  | timedOut : RunResult
  deriving DecidableEq

namespace RcloneSFTP

/-- The connection of an adapter. -/
structure Connection where
  host : Text
  port : ℕ
  user : Text
  keyFile : Text
  knownHostsFile : Text

/-- `_connection_arguments`. -/
def Connection.arguments (c : Connection) : List Text :=
  [txt "--sftp-host", c.host, txt "--sftp-port", natText c.port, txt "--sftp-user", c.user,
    txt "--sftp-key-file", c.keyFile, txt "--sftp-known-hosts-file", c.knownHostsFile]

/-- The command line of a discovery. -/
def listCommand (c : Connection) (sourceRoot pattern : Text) : List Text :=
  [txt "rclone", txt "lsjson", txt ":sftp:" ++ (PurePosixPath.ofText sourceRoot).text] ++
    c.arguments ++
    [txt "--recursive", txt "--files-only", txt "--sftp-skip-links", txt "--include", pattern,
      txt "--max-depth", txt "32"]

/-- `str.lower`, as far as ASCII letters can come of it: the Kelvin sign is a `k`. -/
def lowered (c : ℕ) : ℕ := if 65 ≤ c ∧ c ≤ 90 then c + 32 else if c = 0x212A then 107 else c

/-- The path, the size and the time of an entry, where it is not malformed. -/
def entryOf (item : Json) : Option (Text × ℕ × Text) :=
  match item.get? (txt "Path"), item.get? (txt "Size"), item.get? (txt "ModTime"),
    item.get? (txt "IsDir") with
  | some (.str value), some (.int size), some (.str modifiedAt), some (.bool false) =>
    if 0 ≤ size ∧ modifiedAt ≠ [] then some (value, size.toNat, modifiedAt) else none
  | _, _, _, _ => none

/-- The loop over the listing, with what it has discovered. The paths seen are those. -/
def scan (matcher : Regex) (limit : ℕ) (discovered : List RemoteFile) : List Json → Discovered
  | [] => .ok discovered
  | item :: items =>
    match entryOf item with
    | none => refuse (txt "SFTP discovery entry is malformed")
    | some (value, size, modifiedAt) =>
      match safeRemoteRelative value with
      | .error e => .error e
      | .ok safe =>
        let relative := safe.text
        if !matcher.fullmatch relative then
          refuse (txt "SFTP discovery returned a path outside the fixed glob")
        else if discovered.any fun file => file.path = relative then
          refuse (txt "SFTP discovery returned duplicate path: " ++ relative)
        else
          let discovered := discovered ++ [⟨relative, size, modifiedAt⟩]
          if limit < discovered.length then refuse (tooMany limit)
          else scan matcher limit discovered items

/-- What is made of an answer. -/
def readListing (matcher : Regex) (limit : ℕ) : RunResult → Discovered
  | .timedOut => .error (.transferUnavailable (txt "rclone SFTP listing timed out; retry required"))
  | .completed returncode stdout stderr =>
    if returncode ≠ 0 then
      -- the directory does not exist
      if returncode = 3 then .ok []
      else .error (.transferUnavailable (txt "rclone SFTP listing outcome unknown; retry required"))
    else if occursIn (txt "symlink") (stderr.map lowered) then
      refuse (txt "SFTP discovery encountered a symlink")
    else
      match encodeUtf8 stdout with
      | none => .error .valueError
      | some data =>
        if 4 * 1024 * 1024 < data.length then
          refuse (txt "SFTP discovery response exceeds the bounded listing size")
        else
          match loads literalDecoder stdout with
          | .error (.decode _) => refuse (txt "SFTP discovery returned invalid JSON")
          | .error _ => .error .valueError
          | .ok (.arr items) => (scan matcher limit [] items).map sortedFiles
          | .ok _ => refuse (txt "SFTP discovery did not return an array")

/-- `RcloneSFTP.discover`, of what `run` does with a command line. -/
def discover (run : List Text → RunResult) (c : Connection) (sourceRoot pattern : Text)
    (maxMatches : ℤ) : Discovered := do
  let matcher ← discoveryMatcher pattern
  let limit ← positiveDiscoveryLimit maxMatches
  readListing matcher limit (run (listCommand c sourceRoot pattern))

end RcloneSFTP

end Transfer

end RunpodJobrunner
