import RunpodJobrunner.Json
import RunpodJobrunner.PosixPath
import RunpodJobrunner.Utf8

/-!
# Manifests and the transfer list

`_validated_manifest_entries` checks the paths of a manifest for traversal, and
`RcloneSFTP` writes them into a file, one a line. The file names exactly the declared
paths where no path has a line break of its own, which the check does not look for.
-/

namespace RunpodJobrunner

open Json

namespace Transfer

/-- A manifest: `Sequence[Mapping[str, object]]`. -/
abbrev Manifest := List (List (Text × Json))

/-! ## The entries -/

/-- `DeclaredEntry`. -/
structure DeclaredEntry where
  relative : PurePosixPath
  size : ℕ
  sha256 : Text
  deriving DecidableEq

/-- The fields of an entry, where it is not malformed. -/
def entryFields (raw : List (Text × Json)) : Option (Text × ℕ × Text) :=
  match lookup (txt "path") raw, lookup (txt "size") raw, lookup (txt "sha256") raw with
  | some (.str value), some (.int size), some (.str hash) =>
    if 0 ≤ size ∧ hash.length = 64 ∧ hash.all isHex = true then some (value, size.toNat, hash)
    else none
  | _, _, _ => none

/-- The path of a manifest is refused. -/
def isUnsafePath (value : Text) : Bool :=
  let relative := PurePosixPath.ofText value
  relative.isAbsolute || value = [] || relative.parts.contains (txt "..") ||
    relative.parts.contains (txt ".") || relative.text ≠ value

/-- The loop of `_validated_manifest_entries`, with the paths it has seen. -/
def validatedEntriesFrom (seen : List Text) : Manifest → Except Text (List DeclaredEntry)
  | [] => .ok []
  | raw :: manifest =>
    match entryFields raw with
    | none => .error (txt "manifest entry is malformed")
    | some (value, size, hash) =>
      if isUnsafePath value then .error (txt "unsafe manifest path: " ++ value)
      else if value ∈ seen then .error (txt "duplicate manifest path: " ++ value)
      else
        (validatedEntriesFrom (value :: seen) manifest).map
          (⟨PurePosixPath.ofText value, size, hash⟩ :: ·)

/-- `_validated_manifest_entries`. -/
def validatedManifestEntries (manifest : Manifest) : Except Text (List DeclaredEntry) :=
  validatedEntriesFrom [] manifest

/-! ## The files of a source root -/

/-- What `_validated_entries` asks of the files under the resolved source root, by
their parts. -/
structure SourceRoot where
  isSymlink : List Text → Bool
  isFile : List Text → Bool
  size : List Text → ℕ
  sha256 : List Text → Text

/-- The checks of one entry. What is above the root is resolved, so it is no symlink. -/
def SourceRoot.check (root : SourceRoot) (e : DeclaredEntry) : Except Text Unit :=
  let value := e.relative.text
  let source := e.relative.parts
  if source.inits.tail.any root.isSymlink then
    .error (txt "manifest path is a symlink: " ++ value)
  else if !root.isFile source then .error (txt "manifest path is not a regular file: " ++ value)
  else if root.size source ≠ e.size then .error (txt "manifest size mismatch: " ++ value)
  else if root.sha256 source ≠ e.sha256 then .error (txt "manifest hash mismatch: " ++ value)
  else .ok ()

/-- `_validated_entries`. -/
def validatedEntries (root : SourceRoot) (manifest : Manifest) :
    Except Text (List DeclaredEntry) := do
  let declared ← validatedManifestEntries manifest
  declared.mapM fun e => (root.check e).map fun _ => e

/-! ## The transfer list -/

/-- The lines `handle.write` is given. -/
def listText (paths : List Text) : Text := paths.flatMap fun path => path ++ [10]

/-- The file for `--files-from-raw`; `none` where a path cannot be encoded. -/
def transferList (entries : List DeclaredEntry) : Option Bytes :=
  encodeUtf8 (listText (entries.map fun e => e.relative.text))

/-- The list `RcloneSFTP.upload` writes. -/
def uploadList (root : SourceRoot) (manifest : Manifest) : Except Text (Option Bytes) :=
  (validatedEntries root manifest).map transferList

/-- The list `RcloneSFTP.download` writes. -/
def downloadList (manifest : Manifest) : Except Text (Option Bytes) :=
  (validatedManifestEntries manifest).map transferList

/-- `--files-from-raw`: one path per line that ends. -/
def rawPaths (data : Bytes) : Option (List Text) :=
  (data.splitOn 10).dropLast.mapM fun line => (decodeUtf8 line).toOption

/-! ## Lists of results -/

theorem forall₂_of_mapM {ε α β : Type} {f : α → Except ε β} {as : List α} {bs : List β}
    (h : as.mapM f = .ok bs) : List.Forall₂ (fun a b => f a = .ok b) as bs := by
  induction as generalizing bs with
  | nil =>
    obtain rfl := Except.ok.inj h
    exact .nil
  | cons a as ih =>
    rw [List.mapM_cons] at h
    cases ha : f a with
    | error e =>
      rw [ha] at h
      cases h
    | ok b =>
      rw [ha] at h
      cases has : as.mapM f with
      | error e =>
        rw [has] at h
        cases h
      | ok rest =>
        rw [has] at h
        obtain rfl := Except.ok.inj h
        exact .cons ha (ih has)

theorem mapM_of_forall₂ {α β : Type} {f : α → Option β} {as : List α} {bs : List β}
    (h : List.Forall₂ (fun a b => f a = some b) as bs) : as.mapM f = some bs := by
  induction h with
  | nil => rfl
  | cons ha _ ih =>
    rw [List.mapM_cons, ha, ih]
    rfl

/-! ## What the check accepts -/

/-- The paths a manifest declares. -/
def declaredPaths (manifest : Manifest) : List Text :=
  manifest.filterMap fun raw =>
    match lookup (txt "path") raw with
    | some (.str value) => some value
    | _ => none

section

variable {manifest : Manifest} {declared : List DeclaredEntry}

theorem entryFields_path {raw : List (Text × Json)} {value hash : Text} {size : ℕ}
    (h : entryFields raw = some (value, size, hash)) :
    lookup (txt "path") raw = some (.str value) := by
  unfold entryFields at h
  split at h
  · next hpath _ _ =>
    split at h
    · obtain rfl := (Prod.mk.inj (Option.some.inj h)).1
      exact hpath
    · cases h
  · cases h

/-- A path that is kept prints as it was declared. -/
theorem text_of_isUnsafePath {value : Text} (h : isUnsafePath value = false) :
    (PurePosixPath.ofText value).text = value := by
  simp only [isUnsafePath, Bool.or_eq_false_iff] at h
  simpa using h.2

/-- The entries are the declared paths, in order. -/
theorem paths_validatedEntriesFrom {seen : List Text}
    (h : validatedEntriesFrom seen manifest = .ok declared) :
    declared.map (fun e => e.relative.text) = declaredPaths manifest := by
  induction manifest generalizing seen declared with
  | nil =>
    obtain rfl := Except.ok.inj h
    rfl
  | cons raw manifest ih =>
    rw [validatedEntriesFrom] at h
    split at h
    · cases h
    · next value size hash hfields =>
      split at h
      · cases h
      · next hsafe =>
        split at h
        · cases h
        · match hrest : validatedEntriesFrom (value :: seen) manifest with
          | .error e =>
            rw [hrest] at h
            cases h
          | .ok entries =>
            rw [hrest] at h
            obtain rfl := Except.ok.inj h
            have hvalue := text_of_isUnsafePath (by simpa using hsafe)
            have htail : declaredPaths (raw :: manifest) = value :: declaredPaths manifest := by
              simp [declaredPaths, entryFields_path hfields]
            rw [htail, ← ih hrest, List.map_cons, hvalue]

/-- The source root only refuses. -/
theorem validatedEntries_declared {root : SourceRoot} {entries : List DeclaredEntry}
    (h : validatedEntries root manifest = .ok entries) :
    validatedManifestEntries manifest = .ok entries := by
  rw [validatedEntries] at h
  cases hdeclared : validatedManifestEntries manifest with
  | error m =>
    rw [hdeclared] at h
    cases h
  | ok declared =>
    rw [hdeclared] at h
    have hsame : ∀ e e', (root.check e).map (fun _ => e) = .ok e' → e = e' := by
      intro e e' he
      cases hcheck : root.check e with
      | error m =>
        rw [hcheck] at he
        cases he
      | ok u =>
        rw [hcheck] at he
        exact Except.ok.inj he
    have hall := (forall₂_of_mapM h).imp hsame
    rw [List.forall₂_eq_eq_eq] at hall
    rw [hall]

end

/-! ## What the list names -/

/-- The list is written, and names those paths and no others. -/
def NamesExactly (list : Option Bytes) (paths : List Text) : Prop :=
  ∃ data names, list = some data ∧ rawPaths data = some names ∧ ∀ path, path ∈ names ↔ path ∈ paths

/-- The path is one line of UTF-8. -/
def IsLine (path : Text) : Prop := 10 ∉ path ∧ (encodeUtf8 path).isSome = true

instance : DecidablePred IsLine := fun path =>
  inferInstanceAs (Decidable (10 ∉ path ∧ (encodeUtf8 path).isSome = true))

section

variable {paths : List Text} {data : Bytes}

/-- What is read back is the lines of the text. -/
theorem rawPaths_encodeUtf8 {t : Text} (h : encodeUtf8 t = some data) :
    rawPaths data = some (t.splitOn 10).dropLast := by
  have hparts := encodeUtf8_splitOn h
  have hlines := List.forall₂_take (data.splitOn 10).dropLast.length hparts
  rw [List.length_dropLast, ← List.dropLast_eq_take, ← hparts.length_eq, ← List.dropLast_eq_take]
    at hlines
  refine mapM_of_forall₂ (hlines.flip.imp fun bytes line hline => ?_)
  rw [decode_encode hline]
  rfl

theorem splitOn_listText (h : ∀ path ∈ paths, 10 ∉ path) :
    (listText paths).splitOn 10 = paths ++ [[]] := by
  induction paths with
  | nil => rfl
  | cons path paths ih =>
    have htail := ih fun p hp => h p (List.mem_cons_of_mem _ hp)
    have hsplit :=
      List.splitOn_append_cons_self_of_not_mem (h path List.mem_cons_self) (listText paths)
    rw [htail] at hsplit
    simpa [listText] using hsplit

theorem encodeUtf8_listText (h : ∀ path ∈ paths, (encodeUtf8 path).isSome = true) :
    (encodeUtf8 (listText paths)).isSome = true := by
  induction paths with
  | nil => rfl
  | cons path paths ih =>
    obtain ⟨x, hx⟩ := Option.isSome_iff_exists.mp (h path List.mem_cons_self)
    obtain ⟨y, hy⟩ := Option.isSome_iff_exists.mp (ih fun p hp => h p (List.mem_cons_of_mem _ hp))
    have hline := encodeUtf8_append hx (rfl : encodeUtf8 [10] = some [10])
    have hall := encodeUtf8_append hline hy
    simp [listText] at hall ⊢
    simp [hall]

/-- **A list of paths is exact** when each path is one line of UTF-8. -/
theorem namesExactly_listText :
    NamesExactly (encodeUtf8 (listText paths)) paths ↔ ∀ path ∈ paths, IsLine path := by
  refine ⟨fun ⟨data, names, hdata, hnames, hexact⟩ path hpath => ⟨?_, ?_⟩, fun h => ?_⟩
  · -- a name that is read back has no line break
    rw [rawPaths_encodeUtf8 hdata] at hnames
    obtain rfl := Option.some.inj hnames
    have hmem := List.dropLast_subset _ ((hexact path).mpr hpath)
    exact not_mem_of_mem_splitOn hmem
  · -- a list that is written has every path encoded
    obtain ⟨before, after, rfl⟩ := List.append_of_mem hpath
    have hsplit : listText (before ++ path :: after) =
        listText before ++ (path ++ ([10] ++ listText after)) := by simp [listText]
    rw [hsplit] at hdata
    obtain ⟨-, y, -, hy, -⟩ := encodeUtf8_split hdata
    obtain ⟨x, -, hx, -, -⟩ := encodeUtf8_split hy
    simp [hx]
  · obtain ⟨data, hdata⟩ :=
      Option.isSome_iff_exists.mp (encodeUtf8_listText fun path hpath => (h path hpath).2)
    refine ⟨data, paths, hdata, ?_, fun _ => .rfl⟩
    rw [rawPaths_encodeUtf8 hdata, splitOn_listText fun path hpath => (h path hpath).1]
    simp

end

/-- **The transfer list names exactly the declared files** when every path of an
accepted manifest is one line of UTF-8, and only then: for a download, and for an
upload from any source root. -/
theorem transfer_list_exact {manifest : Manifest} {declared : List DeclaredEntry}
    (h : validatedManifestEntries manifest = .ok declared) {list : Option Bytes}
    (hlist : downloadList manifest = .ok list ∨ ∃ root, uploadList root manifest = .ok list) :
    NamesExactly list (declaredPaths manifest) ↔ ∀ path ∈ declaredPaths manifest, IsLine path := by
  have hpaths := paths_validatedEntriesFrom h
  have hwritten : list = transferList declared := by
    rcases hlist with hlist | ⟨root, hlist⟩
    · rw [downloadList, h] at hlist
      exact (Except.ok.inj hlist).symm
    · rw [uploadList] at hlist
      cases hentries : validatedEntries root manifest with
      | error m =>
        rw [hentries] at hlist
        cases hlist
      | ok entries =>
        rw [hentries] at hlist
        obtain rfl : declared = entries :=
          Except.ok.inj (h.symm.trans (validatedEntries_declared hentries))
        exact (Except.ok.inj hlist).symm
  rw [hwritten, transferList, hpaths]
  exact namesExactly_listText

/-- A manifest of empty files. -/
def manifestOf (paths : List Text) : Manifest :=
  paths.map fun path => [(txt "path", .str path), (txt "size", .int 0),
    (txt "sha256", .str (List.replicate 64 48))]

/-- Two files in one directory. -/
theorem transfer_list_exact_sample :
    ∃ list, downloadList (manifestOf [txt "input/a.csv", txt "input/b.csv"]) = .ok list ∧
      NamesExactly list [txt "input/a.csv", txt "input/b.csv"] := by
  obtain ⟨declared, hdeclared⟩ : ∃ declared,
      validatedManifestEntries (manifestOf [txt "input/a.csv", txt "input/b.csv"]) = .ok declared :=
    ⟨_, rfl⟩
  have hlist : downloadList (manifestOf [txt "input/a.csv", txt "input/b.csv"]) =
      .ok (transferList declared) := by rw [downloadList, hdeclared]; rfl
  exact ⟨_, hlist, (transfer_list_exact hdeclared (.inl hlist)).mpr (by decide)⟩

/-- A path of two lines is accepted, and the list names two other files. -/
theorem line_break_names_others :
    ∃ manifest declared list, validatedManifestEntries manifest = .ok declared ∧
      downloadList manifest = .ok list ∧ ¬NamesExactly list (declaredPaths manifest) := by
  refine ⟨manifestOf [[97, 10, 98]], _, some [97, 10, 98, 10], rfl, rfl, ?_⟩
  rintro ⟨data, names, hdata, hnames, hexact⟩
  obtain rfl := Option.some.inj hdata
  obtain rfl : [[97], [98]] = names := Option.some.inj hnames
  exact absurd ((hexact [97]).mp (by decide)) (by decide)

end Transfer

end RunpodJobrunner
