import RunpodJobrunner.Discovery
import RunpodJobrunner.JsonText
import RunpodJobrunner.TransferManifest

/-!
# Completion manifests

What the executor reads out of an incremental completion manifest: the mapping it is, and
the files it declares, each with a safe relative path of its own, a size and a digest. A
receipt of the mirror declares its files the same way.
-/

namespace RunpodJobrunner

open Json

namespace Executor

/-! ## Errors -/

/-- The message of an exception: its text, and the string whose `repr` ends it. -/
structure Message where
  text : Text
  quoted : Option Text
  deriving DecidableEq

/-- What the executor's functions raise. -/
inductive RemoteFault : Type where
  /-- `ApplicationError` -/
  | application : Message → RemoteFault
  /-- `_IncrementalCacheMiss`, an `ApplicationError` too -/
  | cacheMiss : Message → RemoteFault
  /-- `TransferError` -/
  | transfer : Message → RemoteFault
  /-- `TransferUnavailable`, a `TransferError` too -/
  | unavailable : Message → RemoteFault
  /-- an exception of another class -/
  | foreign : RemoteFault
  deriving DecidableEq

/-- `ApplicationError(text)`. -/
def applicationError (text : Text) : RemoteFault := .application ⟨text, none⟩

/-- `ApplicationError(f"{text}{value!r}")`. -/
def applicationQuoting (text value : Text) : RemoteFault := .application ⟨text, some value⟩

/-- A mapping with string keys. -/
abbrev Members := List (Text × Json)

/-- `_mapping`. The keys of a JSON object are strings. -/
def mapping (value : Option Json) (name : Text) : Except RemoteFault Members :=
  match value with
  | some (.obj members) => .ok members
  | _ => .error (applicationError (name ++ txt " must be an object"))

/-- `_mapping_sequence`. -/
def mappingSequence (value : Option Json) (name : Text) : Except RemoteFault (List Members) :=
  match value with
  | some (.arr items) => items.mapM fun item => mapping (some item) name
  | _ => .error (applicationError (name ++ txt " must be an array"))

/-- `_required_string`. -/
def requiredString (members : Members) (key : Text) : Except RemoteFault Text :=
  match lookup key members with
  | some (.str (c :: t)) => .ok (c :: t)
  | _ => .error (applicationError (key ++ txt " must be a non-empty string"))

/-- `_required_size`. -/
def requiredSize (entry : Members) : Except RemoteFault ℕ :=
  match lookup (txt "size") entry with
  | some (.int size) =>
    if 0 ≤ size then .ok size.toNat
    else .error (applicationError (txt "incremental artifact receipt has an invalid size"))
  | _ => .error (applicationError (txt "incremental artifact receipt has an invalid size"))

/-! ## Paths -/

/-- The path of an incremental manifest or artifact is refused. -/
def isUnsafeIncremental (value : Text) : Bool :=
  let path := PurePosixPath.ofText value
  value = [] || 1024 < value.length || path.isAbsolute || path.text ≠ value || value.contains 92 ||
    value.any isControl ||
    path.parts.any (fun part =>
      part = [] || part = txt "." || part = txt ".." || 255 < part.length) ||
    path.parts.any fun part => part.contains Transfer.star

/-- `_incremental_relative`. -/
def incrementalRelative (value : Text) : Except RemoteFault PurePosixPath :=
  if isUnsafeIncremental value then
    .error (applicationQuoting (txt "unsafe incremental manifest path: ") value)
  else .ok (PurePosixPath.ofText value)

/-- A path that is not refused prints as the text it was read from. -/
theorem text_of_incrementalRelative {value : Text} {path : PurePosixPath}
    (h : incrementalRelative value = .ok path) : path.text = value := by
  unfold incrementalRelative at h
  split at h
  · cases h
  · next hsafe =>
    cases h
    simp only [isUnsafeIncremental, Bool.not_eq_true, Bool.or_eq_false_iff, decide_eq_false_iff_not,
      ne_eq, not_not] at hsafe
    exact hsafe.1.1.1.1.2

/-! ## The manifest -/

/-- The encodings `json.loads` looks for. -/
inductive JsonEncoding : Type where
  | utf8 | utf16 (bigEndian : Bool) | utf32 (bigEndian : Bool)
  deriving DecidableEq

/-- `json.detect_encoding`, and the bytes after the byte order mark. -/
def detectEncoding : Bytes → JsonEncoding × Bytes
  | 0 :: 0 :: 0xFE :: 0xFF :: t => (.utf32 true, t)
  | 0xFF :: 0xFE :: 0 :: 0 :: t => (.utf32 false, t)
  | 0xFE :: 0xFF :: t => (.utf16 true, t)
  | 0xFF :: 0xFE :: t => (.utf16 false, t)
  | 0xEF :: 0xBB :: 0xBF :: t => (.utf8, t)
  | data =>
    match data with
    | 0 :: b :: _ :: _ :: _ => (if b = 0 then .utf32 true else .utf16 true, data)
    | _ :: 0 :: c :: d :: _ => (if c = 0 ∧ d = 0 then .utf32 false else .utf16 false, data)
    | [0, _] => (.utf16 true, data)
    | [_, 0] => (.utf16 false, data)
    | _ => (.utf8, data)

/-- A second byte, where surrogates have three bytes as well. -/
def isSecondPass (b c : ℕ) : Bool := isSecond b c || (b == 0xED && isTail c)

/-- `data.decode("utf-8", "surrogatepass")`. -/
def decodeUtf8Pass : Bytes → Option Text
  | [] => some []
  | b :: t =>
    if b < 0x80 then (decodeUtf8Pass t).map (b :: ·)
    else if b < 0xC2 ∨ 0xF5 ≤ b then none
    else
      match t with
      | [] => none
      | c :: u =>
        if b < 0xE0 then
          if isTail c then (decodeUtf8Pass u).map (((b - 0xC0) * 64 + (c - 0x80)) :: ·) else none
        else if isSecondPass b c = false then none
        else
          match u with
          | [] => none
          | d :: v =>
            if isTail d = false then none
            else if b < 0xF0 then
              (decodeUtf8Pass v).map (((b - 0xE0) * 4096 + (c - 0x80) * 64 + (d - 0x80)) :: ·)
            else
              match v with
              | [] => none
              | e :: x =>
                if isTail e = false then none
                else
                  (decodeUtf8Pass x).map
                    (((b - 0xF0) * 262144 + (c - 0x80) * 4096 + (d - 0x80) * 64 + (e - 0x80)) :: ·)

/-- The code units of two bytes. -/
def units16 (bigEndian : Bool) : Bytes → Option Text
  | [] => some []
  | [_] => none
  | a :: b :: t => (units16 bigEndian t).map ((if bigEndian then a * 256 + b else b * 256 + a) :: ·)

/-- The code points of four bytes. -/
def units32 (bigEndian : Bool) : Bytes → Option Text
  | [] => some []
  | a :: b :: c :: d :: t =>
    let point := if bigEndian then ((a * 256 + b) * 256 + c) * 256 + d
      else ((d * 256 + c) * 256 + b) * 256 + a
    if point < 0x110000 then (units32 bigEndian t).map (point :: ·) else none
  | _ => none

/-- The text of JSON bytes; `none` is a `UnicodeDecodeError`. -/
def decodeJsonBytes (data : Bytes) : Option Text :=
  match detectEncoding data with
  | (.utf8, t) => decodeUtf8Pass t
  | (.utf16 bigEndian, t) => (units16 bigEndian t).map joinSurrogates
  | (.utf32 bigEndian, t) => units32 bigEndian t

/-- What `json.loads` of bytes can do with the hook `_json_object_no_duplicates`. -/
inductive Loaded : Type where
  | value : Json → Loaded
  /-- `UnicodeDecodeError` or `json.JSONDecodeError` -/
  | invalid
  /-- the `ApplicationError` of the hook, which quotes the key -/
  | duplicate : (key : Text) → Loaded
  /-- another exception -/
  | foreign

/-- `json.loads(data, object_pairs_hook=_json_object_no_duplicates)`. -/
def loadsBytes (data : Bytes) : Loaded :=
  match decodeJsonBytes data with
  | none => .invalid
  | some text =>
    match loads ⟨.literal, noRepeats⟩ text with
    | .ok v => .value v
    | .error (.decode _) => .invalid
    | .error (.hook keys) => .duplicate (repeatedKey [] keys)
    | .error .digits => .foreign

/-- The name of a protocol is refused. -/
def isBadProtocol : Option Json → Bool
  | some (.str protocol) => protocol = [] || 128 < protocol.length || protocol.any isControl
  | _ => true

/-- `_load_incremental_manifest`, of what was loaded. -/
def loadIncrementalManifest : Loaded → Except RemoteFault Members
  | .invalid => .error (applicationError (txt "incremental completion manifest is invalid JSON"))
  | .duplicate key =>
    .error (applicationQuoting (txt "incremental completion has duplicate key ") key)
  | .foreign => .error .foreign
  | .value v => do
    let manifest ← mapping (some v) (txt "incremental completion manifest")
    if isBadProtocol (lookup (txt "protocol") manifest) then
      .error (applicationError (txt "incremental completion manifest protocol is invalid"))
    else .ok manifest

/-! ## Its files -/

/-- A file that a completion manifest declares, as it is normalized. -/
structure IncrementalEntry where
  path : Text
  size : ℕ
  sha256 : Text
  deriving DecidableEq

/-- The mapping of an entry. -/
def IncrementalEntry.record (e : IncrementalEntry) : Json :=
  .obj [(txt "path", .str e.path), (txt "size", .int e.size), (txt "sha256", .str e.sha256)]

/-- `sum(_required_size(entry) for entry in entries)`. -/
def totalSize (entries : List IncrementalEntry) : ℕ := (entries.map IncrementalEntry.size).sum

/-- `_MAX_INCREMENTAL_FILES`. -/
def maxIncrementalFiles : ℕ := 16384

/-- The size and the digest of an entry, where they are not malformed. -/
def contentFields (entry : Members) : Option (ℕ × Text) :=
  match lookup (txt "size") entry, lookup (txt "sha256") entry with
  | some (.int size), some (.str hash) =>
    if 0 ≤ size ∧ hash.length = 64 ∧ hash.all isHex = true then some (size.toNat, hash) else none
  | _, _ => none

/-- The loop of `_incremental_entries`, with the paths it has seen. -/
def entriesFrom (manifestName : Text) (seen : List Text) :
    List Members → Except RemoteFault (List IncrementalEntry)
  | [] => .ok []
  | entry :: entries =>
    match lookup (txt "path") entry with
    | some (.str rawPath) =>
      if isUnsafeIncremental rawPath then
        .error (applicationQuoting (txt "unsafe incremental artifact path: ") rawPath)
      else if rawPath = manifestName then
        .error (applicationError (txt "incremental completion manifest cannot declare itself"))
      else if rawPath ∈ seen then
        .error (applicationError (txt "duplicate incremental artifact path: " ++ rawPath))
      else
        match contentFields entry with
        | none =>
          .error (applicationError (txt "incremental artifact receipt is malformed: " ++ rawPath))
        | some (size, hash) =>
          (entriesFrom manifestName (rawPath :: seen) entries).map (⟨rawPath, size, hash⟩ :: ·)
    | _ => .error (applicationError (txt "incremental artifact path must be a string"))

/-- `_incremental_entries`. A path that is not refused is its own `as_posix()`. -/
def incrementalEntries (files : Option Json) (manifestPath : PurePosixPath) :
    Except RemoteFault (List IncrementalEntry) := do
  let entries ← mappingSequence files (txt "incremental completion manifest files")
  if entries = [] then
    .error (applicationError (txt "incremental completion manifest has no files"))
  else if maxIncrementalFiles < entries.length then
    .error (applicationError (txt "incremental completion manifest declares too many files"))
  else entriesFrom manifestPath.name [] entries

/-! ## What a receipt declares -/

/-- The files of a receipt. -/
def declaredFiles (receipt : Json) : List Json :=
  match receipt.get? (txt "files") with
  | some (.arr items) => items
  | _ => []

/-- The size of a file. -/
def declaredSize (file : Json) : ℕ :=
  match file.get? (txt "size") with
  | some (.int size) => size.toNat
  | _ => 0

/-- The bytes of a receipt. -/
def declaredBytes (receipt : Json) : ℕ := ((declaredFiles receipt).map declaredSize).sum

@[simp] theorem get?_record_size (e : IncrementalEntry) :
    e.record.get? (txt "size") = some (.int e.size) := by
  simp [IncrementalEntry.record, get?]

theorem contentFields_size {entry : Members} {size : ℕ} {hash : Text}
    (h : contentFields entry = some (size, hash)) : declaredSize (.obj entry) = size := by
  unfold contentFields at h
  split at h
  · next n hash' hsize _ =>
    split at h
    · obtain ⟨rfl, -⟩ := Prod.mk.inj (Option.some.inj h)
      rw [declaredSize, get?, hsize]
    · cases h
  · cases h

/-- The entries have the sizes of the mappings they were read from. -/
theorem sizes_entriesFrom {manifestName : Text} {seen : List Text} {entries : List Members}
    {read : List IncrementalEntry} (h : entriesFrom manifestName seen entries = .ok read) :
    entries.map (fun entry => declaredSize (.obj entry)) = read.map IncrementalEntry.size := by
  induction entries generalizing seen read with
  | nil =>
    cases h
    rfl
  | cons entry entries ih =>
    unfold entriesFrom at h
    split at h
    · split_ifs at h
      split at h
      · cases h
      · next size hash hcontent =>
        cases hrest : entriesFrom manifestName _ entries with
        | error e =>
          rw [hrest] at h
          cases h
        | ok rest =>
          rw [hrest] at h
          cases h
          rw [List.map_cons, List.map_cons, ih hrest, contentFields_size hcontent]
    · cases h

theorem mappingSequence_ok {value : Option Json} {name : Text} {entries : List Members}
    (h : mappingSequence value name = .ok entries) : value = some (.arr (entries.map .obj)) := by
  unfold mappingSequence at h
  split at h
  · next items =>
    have hitems := Transfer.forall₂_of_mapM h
    clear h
    congr 2
    induction hitems with
    | nil => rfl
    | @cons item entry items entries hitem hitems ih =>
      have hobj : item = .obj entry := by
        cases item with
        | obj members => exact congrArg Json.obj (Except.ok.inj hitem)
        | _ => cases hitem
      rw [List.map_cons, hobj, ih]
  · cases h

/-- **The entries declare** what the mapping they were read from does. -/
theorem declared_incrementalEntries {receipt : Json} {manifestPath : PurePosixPath}
    {entries : List IncrementalEntry}
    (h : incrementalEntries (receipt.get? (txt "files")) manifestPath = .ok entries) :
    (declaredFiles receipt).length = entries.length ∧ declaredBytes receipt = totalSize entries := by
  obtain ⟨raw, hraw, hread⟩ := bind_ok_iff.mp h
  split_ifs at hread
  have hsizes := sizes_entriesFrom hread
  have hfiles : declaredFiles receipt = raw.map .obj := by
    rw [declaredFiles, mappingSequence_ok hraw]
  rw [declaredBytes, hfiles, List.map_map, totalSize, ← hsizes]
  refine ⟨?_, rfl⟩
  simpa using congrArg List.length hsizes

end Executor

end RunpodJobrunner
