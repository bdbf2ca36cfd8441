import RunpodJobrunner.CloseoutReceipt
import RunpodJobrunner.FileTree
import RunpodJobrunner.JsonText
import RunpodJobrunner.PosixPath
import RunpodJobrunner.Utf8

/-!
# Input verification

`_verify_inputs` of a bundle: every declared path is looked up without following links
and hashed, and then the input root is walked for what is not declared. The bundle does
not change meanwhile. What the process may do with a file or a directory is part of the
tree: a directory that cannot be listed is passed over by `os.walk`, one that cannot be
searched makes `lstat` raise, and a file may not open. What is opened can be read.
-/

namespace RunpodJobrunner

open Json

namespace Bundle

/-- What the process may do with a directory. -/
structure DirectoryMode where
  /-- read its names -/
  listable : Bool
  /-- look a name up in it -/
  searchable : Bool

/-- What there is besides directories. Of a file and of what is special, `refused` is the
`strerror` with which opening it for reading fails: a file without the permission, a socket. -/
inductive BundleLeaf : Type where
  | regular : (data : Bytes) → (refused : Option Text) → BundleLeaf
  | symlink : BundleLeaf
  /-- a FIFO, a socket or a device -/
  | special : (refused : Option Text) → BundleLeaf

/-- A bundle directory. -/
abbrev BundleTree := FileTree Text DirectoryMode BundleLeaf

/-- Where something is, and what is there. -/
structure Location where
  path : Text
  node : BundleTree

/-- Why `_verify_inputs` does not return. -/
inductive InputError : Type where
  /-- `BundleValidationError` -/
  | invalid : (message : Text) → InputError
  /-- `NotADirectoryError`, which is not caught -/
  | notADirectory : InputError
  /-- `PermissionError`, which is not caught -/
  | permission : InputError
  /-- `KeyError` -/
  | missingKey : InputError
  deriving DecidableEq

/-- `_bundle_error`. -/
def bundleError {α : Type} (message : Text) : Except InputError α := .error (.invalid message)

/-! ## The manifest -/

/-- `^(?!/)(?!.*(?:^|/)\.\.(?:/|$))(?!.*\\)[^\u0000]+$` -/
def manifestPathPattern : Regex :=
  .seq .bol <| .seq (.nlook (.chr slash)) <|
    .seq (.nlook (.seq (.star .dot) (.seq (.alt .bol (.chr slash))
      (.seq (.lit (txt "..")) (.alt (.chr slash) .eol))))) <|
    .seq (.nlook (.seq (.star .dot) (.chr 92))) (.seq (.plus (.set fun c => c != 0)) .eol)

/-- The schema of a path. -/
def manifestPathSchema : Schema :=
  .allOf [.type [.string], .minLength 1, .pattern manifestPathPattern]

/-- `^[0-9a-f]{64}$` -/
def sha256Pattern : Regex := anchored (.exactly (.set isHex) 64)

/-- The schema of an entry. -/
def manifestEntrySchema : Schema :=
  closedObject
    [(txt "path", manifestPathSchema),
      (txt "sha256", .allOf [.type [.string], .pattern sha256Pattern]),
      (txt "size", .allOf [.type [.integer], .minimum 0])]

/-- `input-manifest-1.json`. -/
def inputManifestSchema : Schema :=
  .allOf [.type [.object], .required [txt "protocol", txt "root", txt "files"],
    .properties
      [(txt "protocol", .const (.str (txt "input-manifest/1"))),
        (txt "root", manifestPathSchema),
        (txt "files", .allOf [.type [.array], .minItems 1, .items manifestEntrySchema])]
      .any]

/-! ## Paths -/

/-- `_safe_relative_path`. -/
def safeRelativePath (rawPath : Json) (fieldName : Text) : Except InputError PurePosixPath :=
  match rawPath with
  | .str raw =>
    if raw.contains 92 || raw.contains 0 then
      bundleError (fieldName ++ txt " contains an unsafe path separator or NUL")
    else
      let path := PurePosixPath.ofText raw
      if path.isAbsolute || path.parts = [] || path.text ≠ raw ||
          path.parts.any (fun part => part = [] || part = txt "." || part = txt "..") then
        bundleError (fieldName ++ txt " must be a normalized relative path without '.' or '..'")
      else .ok path
  | _ => bundleError (fieldName ++ txt " must be a string path")

/-- What looking a name up gives: `.error` is the error of `lstat`. -/
def child (part : Text) : Except InputError BundleTree → Except InputError BundleTree
  | .ok (.dir mode children) =>
    if !mode.searchable then .error .permission
    else
      match children.lookup part with
      | some node => .ok node
      | none => bundleError []
  | .ok (.leaf _) => .error .notADirectory
  | .error e => .error e

/-- The loop of `_reject_symlink_components`. -/
def rejectSymlinks (label path : Text) (node : Except InputError BundleTree) :
    List Text → Except InputError (Text × Except InputError BundleTree)
  | [] => .ok (path, node)
  | part :: parts =>
    let current := path ++ slash :: part
    match child part node with
    | .ok (.leaf .symlink) => bundleError (label ++ txt " traverses symlink " ++ current)
    -- `is_symlink` is false of what is not there, and raises for want of permission
    | .error .permission => .error .permission
    | node => rejectSymlinks label current node parts

/-- `_reject_symlink_components`. No component is a link, so what is resolved is below the
root. -/
def rejectSymlinkComponents (root : Location) (relative : PurePosixPath) (label : Text) :
    Except InputError Location :=
  match rejectSymlinks label root.path (.ok root.node) relative.parts with
  | .error e => .error e
  | .ok (path, .ok node) => .ok ⟨path, node⟩
  | .ok (_, .error .notADirectory) => .error .notADirectory
  | .ok (_, .error _) => bundleError (txt "missing " ++ label ++ txt ": " ++ relative.text)

/-! ## Files -/

/-- `InputFile`. -/
structure InputFile where
  relativePath : Text
  sourcePath : Text
  sha256 : Text
  size : ℕ
  deriving DecidableEq

/-- The descriptor is there, or the error of `os.open`. -/
def opened {α : Type} (label : Text) (refused : Option Text) (result : Except InputError α) :
    Except InputError α :=
  match refused with
  | some reason => bundleError (txt "cannot open " ++ label ++ txt ": " ++ reason)
  | none => result

/-- `_hash_open_regular_file`, of a file that stays as it is. (A FIFO that nobody writes
to blocks instead.) -/
def hashOpenRegularFile (sha256 : Bytes → Text) (node : BundleTree) (label : Text) :
    Except InputError (ℕ × Text) :=
  match node with
  | .leaf .symlink => bundleError (label ++ txt " must not be a symlink")
  | .leaf (.regular data refused) => opened label refused (.ok (data.length, sha256 data))
  | .leaf (.special refused) =>
    opened label refused (bundleError (label ++ txt " must be a regular file"))
  | .dir mode _ =>
    opened label (if mode.listable then none else some (txt "Permission denied"))
      (bundleError (label ++ txt " must be a regular file"))

/-- The entries of one directory, in `_inventory_input_root`. Which of several entries at
fault is named depends on the order `os.walk` lists them in. -/
def inventoryEntries (path : List Text) : List (Text × BundleTree) →
    Except InputError (List (List Text))
  | [] => .ok []
  | (name, node) :: children =>
    match node with
    | .leaf .symlink =>
      bundleError (txt "input root contains symlink " ++ [slash].intercalate (path ++ [name]))
    | .leaf (.special _) =>
      bundleError (txt "input root contains non-regular file " ++
        [slash].intercalate (path ++ [name]))
    | .leaf (.regular _ _) => (inventoryEntries path children).map ((path ++ [name]) :: ·)
    | .dir _ _ => inventoryEntries path children

mutual

/-- `_inventory_input_root`: the regular files below a directory, which `os.walk` passes
over where it cannot be listed. Every entry it lists is looked up. -/
def inventory (path : List Text) : BundleTree → Except InputError (List (List Text))
  | .leaf _ => .ok []
  | .dir mode children =>
    if !mode.listable then .ok []
    else if !mode.searchable && !children.isEmpty then .error .permission
    else do
      let files ← inventoryEntries path children
      let below ← inventoryChildren path children
      .ok (files ++ below)

/-- The walk goes on below each child. -/
def inventoryChildren (path : List Text) : List (Text × BundleTree) →
    Except InputError (List (List Text))
  | [] => .ok []
  | (name, node) :: children => do
    let files ← inventory (path ++ [name]) node
    let below ← inventoryChildren path children
    .ok (files ++ below)

end

/-- `_inventory_input_root`. -/
def inventoryInputRoot (root : BundleTree) : Except InputError (List Text) :=
  (inventory [] root).map fun paths => paths.map [slash].intercalate

/-! ## Verification -/

/-- `manifest[key]`. -/
def item (key : Text) (v : Json) : Except InputError Json :=
  match v.get? key with
  | some u => .ok u
  | none => .error .missingKey

/-- `str` of a value an entry can have. -/
def shown : Json → Text
  | .str t => t
  | .int n => (intText n).getD []
  | .float (.literal l) => literalText l
  | _ => []

/-- `", ".join(sorted(paths))`. -/
def listed (paths : List Text) : Text :=
  (txt ", ").intercalate (paths.insertionSort fun s t => textLe s t = true)

/-- The loop over the entries, with the paths declared so far. -/
def verifyEntries (sha256 : Bytes → Text) (inputRoot : Location) (index : ℕ) (declared : List Text) :
    List Json → Except InputError (List InputFile)
  | [] => .ok []
  | entry :: entries => do
    let rawPath ← item (txt "path") entry
    let relative ← safeRelativePath rawPath (txt "manifest.files[" ++ natText index ++ txt "].path")
    if relative.text ∈ declared then
      bundleError (txt "manifest declares input path more than once: " ++ relative.text)
    else
      let label := txt "declared input " ++ relative.text
      let source ← rejectSymlinkComponents inputRoot relative label
      let (actualSize, actualSha256) ← hashOpenRegularFile sha256 source.node label
      let expectedSize ← item (txt "size") entry
      let expectedSha256 ← item (txt "sha256") entry
      if same true (.int actualSize) expectedSize = false then
        bundleError (label ++ txt " size is " ++ natText actualSize ++ txt ", expected " ++
          shown expectedSize)
      else if expectedSha256 ≠ .str actualSha256 then
        bundleError (label ++ txt " sha256 is " ++ actualSha256 ++ txt ", expected " ++
          shown expectedSha256)
      else
        let verified ← verifyEntries sha256 inputRoot (index + 1) (relative.text :: declared) entries
        .ok (⟨relative.text, source.path, actualSha256, actualSize⟩ :: verified)

/-- The entries of a list; nothing else can be enumerated here. -/
def entriesOf : Json → Except InputError (List Json)
  | .arr entries => .ok entries
  | _ => .error .missingKey

/-- `_verify_inputs`: the path of the input root, and the files. -/
def verifyInputs (sha256 : Bytes → Text) (root : Location) (manifest : Json) :
    Except InputError (Text × List InputFile) := do
  let rawRoot ← item (txt "root") manifest
  let inputRootRelative ← safeRelativePath rawRoot (txt "manifest.root")
  let inputRoot ← rejectSymlinkComponents root inputRootRelative (txt "manifest input root")
  match inputRoot.node with
  | .leaf _ => bundleError (txt "manifest input root must be a directory")
  | .dir _ _ =>
    let files ← item (txt "files") manifest
    let entries ← entriesOf files
    let verified ← verifyEntries sha256 inputRoot 0 [] entries
    let found ← inventoryInputRoot inputRoot.node
    let declared := verified.map InputFile.relativePath
    let undeclared := found.filter (· ∉ declared)
    let missing := declared.filter (· ∉ found)
    if undeclared ≠ [] then
      bundleError (txt "input root contains undeclared files: " ++ listed undeclared)
    else if missing ≠ [] then
      bundleError (txt "declared inputs disappeared during verification: " ++ listed missing)
    else .ok (inputRoot.path, verified)

end Bundle

end RunpodJobrunner
