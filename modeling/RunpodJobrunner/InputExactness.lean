import RunpodJobrunner.InputVerification

/-!
# What input verification accepts

For a bundle whose directories can all be listed and searched and whose files can all be
opened, `_verify_inputs` returns exactly when the tree below the input root is what the
manifest declares, in paths without links. `os.walk` does not say what it could not list,
so without that an undeclared file passes.
-/

namespace RunpodJobrunner

open Json

namespace Bundle

/-! ## What is declared -/

/-- An entry of a manifest. -/
structure Declaration where
  path : Text
  size : Json
  sha256 : Text

/-- The entry a value is. -/
def declarationOf (entry : Json) : Option Declaration :=
  match entry.get? (txt "path"), entry.get? (txt "size"), entry.get? (txt "sha256") with
  | some (.str path), some size, some (.str sha256) => some ⟨path, size, sha256⟩
  | _, _, _ => none

/-- A manifest declares that root and those entries. -/
def Declares (manifest : Json) (root : Text) (declarations : List Declaration) : Prop :=
  manifest.get? (txt "root") = some (.str root) ∧
    ∃ entries, manifest.get? (txt "files") = some (.arr entries) ∧
      List.Forall₂ (fun e d => declarationOf e = some d) entries declarations

/-- A normalised relative path without a backslash, and its text. -/
structure IsNormalized (t : Text) (p : PurePosixPath) : Prop where
  relative : p.root = []
  parts : p.tail ≠ []
  no_parent : txt ".." ∉ p.tail
  text : p.text = t
  no_backslash : 92 ∉ t

/-- Whatever is there. -/
def everything : DirectoryMode → Bool := fun _ => true

/-- Every directory of a tree can be listed and searched, and every regular file opened. -/
structure Accessible (t : BundleTree) : Prop where
  directory : ∀ path mode children, t.find everything path = some (.dir mode children) →
    mode.listable = true ∧ mode.searchable = true
  file : ∀ path data refused, t.find everything path = some (.leaf (.regular data refused)) →
    refused = none

/-- What is declared is a regular file with that size and digest, and no link leads to it. -/
def IsInput (sha256 : Bytes → Text) (inputRoot : Location) (d : Declaration) (f : InputFile) : Prop :=
  ∃ p data refused, IsNormalized d.path p ∧
    inputRoot.node.find everything p.tail = some (.leaf (.regular data refused)) ∧
    same true (.int data.length) d.size = true ∧ sha256 data = d.sha256 ∧
    f = ⟨d.path, inputRoot.path ++ slash :: d.path, d.sha256, data.length⟩

/-- The tree has only directories and regular files, and these are the declared paths. -/
structure HasExactly (t : BundleTree) (paths : List Text) : Prop where
  ordinary : ∀ {path leaf}, (path, .leaf leaf) ∈ t.entries everything →
    ∃ data refused, leaf = .regular data refused
  mem_iff : ∀ text, text ∈ paths ↔
    ∃ path data refused, (path, .leaf (.regular data refused)) ∈ t.entries everything ∧
      text = [slash].intercalate path

/-- The bundle is what its manifest declares, and that is the result. -/
def IsVerified (sha256 : Bytes → Text) (root : Location) (rootText : Text)
    (declarations : List Declaration) (result : Text × List InputFile) : Prop :=
  ∃ p mode children, IsNormalized rootText p ∧
    root.node.find everything p.tail = some (.dir mode children) ∧
    result.1 = root.path ++ slash :: rootText ∧
    List.Forall₂ (IsInput sha256 ⟨result.1, .dir mode children⟩) declarations result.2 ∧
    (declarations.map Declaration.path).Nodup ∧
    HasExactly (.dir mode children) (declarations.map Declaration.path)

/-! ## Paths -/

section

variable {raw field label path : Text} {p : PurePosixPath} {node u : BundleTree} {root loc : Location}

theorem parts_of_relative (h : p.root = []) : p.parts = p.tail := if_pos h

/-- The paths that are let through; none has a NUL. -/
theorem safeRelativePath_ok (hnul : 0 ∉ raw) :
    safeRelativePath (.str raw) field = .ok p ↔ IsNormalized raw p := by
  rw [safeRelativePath]
  simp only
  constructor
  · intro h
    split at h
    · cases h
    next hchars =>
    split at h
    · cases h
    next hsafe =>
    obtain rfl := Except.ok.inj h
    simp only [Bool.or_eq_true, not_or, decide_eq_true_eq, ne_eq, not_not, List.contains_iff_mem,
      PurePosixPath.isAbsolute] at hchars hsafe
    obtain ⟨⟨⟨hroot, hparts⟩, htext⟩, hnames⟩ := hsafe
    rw [parts_of_relative hroot] at hparts hnames
    refine ⟨hroot, hparts, fun hmem => hnames ?_, htext, hchars.1⟩
    exact List.any_eq_true.mpr ⟨_, hmem, by decide⟩
  · intro h
    have hof := PurePosixPath.ofText_text h.relative h.parts
    rw [h.text] at hof
    have hchars : ¬((raw.contains 92 || raw.contains 0) = true) := by
      simp [h.no_backslash, hnul]
    rw [if_neg hchars, hof, if_neg]
    simp only [Bool.or_eq_true, not_or, decide_eq_true_eq, ne_eq, not_not, PurePosixPath.isAbsolute,
      parts_of_relative h.relative]
    refine ⟨⟨⟨h.relative, h.parts⟩, h.text⟩, ?_⟩
    rw [Bool.not_eq_true, List.any_eq_false]
    intro part hpart
    have hok := p.tail_ok part hpart
    have hne : part ≠ txt ".." := fun heq => h.no_parent (heq ▸ hpart)
    simp [hok.ne_nil, hok.ne_dot, hne]

/-- No path goes on through an entry that was not reached. -/
theorem rejectSymlinks_error {parts : List Text} {e : InputError} {result : Text} :
    rejectSymlinks label path (.error e) parts ≠ .ok (result, .ok u) := by
  induction parts generalizing path with
  | nil => exact nofun
  | cons part parts ih =>
    rw [rejectSymlinks, child]
    cases e with
    | permission => exact nofun
    | _ => exact ih

/-- Finding what is at a path starts with a child. -/
theorem find_cons {part : Text} {parts : List Text} :
    node.find DirectoryMode.searchable (part :: parts) =
      (child part (.ok node)).toOption.bind (FileTree.find DirectoryMode.searchable parts) := by
  cases node with
  | leaf a => rfl
  | dir mode children =>
    rw [FileTree.find, child]
    cases mode.searchable with
    | false => rfl
    | true => cases children.lookup part <;> rfl

/-- The next part of a path is looked up, unless it is a link. -/
theorem rejectSymlinks_step {part : Text} {parts : List Text} {v : BundleTree}
    {start : Except InputError BundleTree} (h : child part start = .ok v)
    (hlink : v ≠ .leaf .symlink) :
    rejectSymlinks label path start (part :: parts) =
      rejectSymlinks label (path ++ slash :: part) (.ok v) parts := by
  rw [rejectSymlinks, h]
  split
  · next heq => exact absurd (Except.ok.inj heq) hlink
  · next heq => cases heq
  · rfl

/-- The loop finds what is at the path, unless a link is on the way. -/
theorem rejectSymlinks_ok {parts : List Text} {result : Text} :
    rejectSymlinks label path (.ok node) parts = .ok (result, .ok u) ↔
      node.find DirectoryMode.searchable parts = some u ∧ (parts ≠ [] → u ≠ .leaf .symlink) ∧
        result = path ++ parts.flatMap (slash :: ·) := by
  induction parts generalizing path node with
  | nil =>
    rw [rejectSymlinks, FileTree.find, List.flatMap_nil, List.append_nil]
    constructor
    · rintro ⟨⟩
      exact ⟨rfl, fun h => absurd rfl h, rfl⟩
    · rintro ⟨⟨⟩, -, rfl⟩
      rfl
  | cons part parts ih =>
    rw [find_cons]
    cases hchild : child part (.ok node) with
    | error e =>
      refine iff_of_false ?_ ?_
      · rw [rejectSymlinks, hchild]
        cases e with
        | permission => rintro ⟨⟩
        | _ => exact rejectSymlinks_error
      · rintro ⟨⟨⟩, -⟩
    | ok v =>
      by_cases hlink : v = .leaf .symlink
      · -- nothing is below a link
        subst hlink
        rw [rejectSymlinks, hchild]
        refine iff_of_false (by rintro ⟨⟩) ?_
        rintro ⟨hfind, hu, -⟩
        cases parts with
        | nil => exact hu (List.cons_ne_nil _ _) (Option.some.inj hfind).symm
        | cons next parts => cases hfind
      · rw [rejectSymlinks_step hchild hlink, ih, List.flatMap_cons, List.append_assoc]
        refine and_congr_right fun hfind => and_congr ?_ .rfl
        constructor
        · intro h _
          cases parts with
          | nil =>
            obtain rfl := Option.some.inj hfind
            exact hlink
          | cons next parts => exact h (List.cons_ne_nil _ _)
        · exact fun h _ => h (List.cons_ne_nil _ _)

/-- Parts that each have a slash before them are parts with slashes between them, after a slash. -/
theorem flatMap_slash {parts : List Text} (h : parts ≠ []) :
    parts.flatMap (slash :: ·) = slash :: [slash].intercalate parts := by
  induction parts with
  | nil => exact absurd rfl h
  | cons part parts ih =>
    cases parts with
    | nil => simp
    | cons next parts =>
      rw [List.flatMap_cons, ih (List.cons_ne_nil _ _), List.intercalate_cons_cons]
      simp

/-- What is found at a normalised path without links. -/
theorem rejectSymlinkComponents_ok {t : Text} (h : IsNormalized t p) :
    rejectSymlinkComponents root p label = .ok loc ↔
      root.node.find DirectoryMode.searchable p.tail = some loc.node ∧ loc.node ≠ .leaf .symlink ∧
        loc.path = root.path ++ slash :: t := by
  have htext : p.tail.flatMap (slash :: ·) = slash :: t := by
    rw [flatMap_slash h.parts, ← h.text, PurePosixPath.text_relative h.relative h.parts]
  have hloop := @rejectSymlinks_ok label root.path root.node loc.node p.tail loc.path
  rw [htext, forall_prop_of_true h.parts] at hloop
  rw [rejectSymlinkComponents, parts_of_relative h.relative, ← hloop]
  cases rejectSymlinks label root.path (.ok root.node) p.tail with
  | error e => exact iff_of_false nofun nofun
  | ok r =>
    obtain ⟨path, node⟩ := r
    cases node with
    | error e =>
      refine iff_of_false ?_ nofun
      cases e <;> exact nofun
    | ok node =>
      obtain ⟨path', node'⟩ := loc
      simp only [Except.ok.injEq, Location.mk.injEq, Prod.mk.injEq]

end

/-! ## The loop over the entries -/

section

variable {sha256 : Bytes → Text} {inputRoot : Location} {index : ℕ} {seen : List Text}

/-- A file is hashed exactly when it is regular and can be opened. -/
theorem hashOpenRegularFile_ok {node : BundleTree} {label : Text} {r : ℕ × Text} :
    hashOpenRegularFile sha256 node label = .ok r ↔
      ∃ data, node = .leaf (.regular data none) ∧ r = (data.length, sha256 data) := by
  have hnot : ∀ refused, opened label refused (bundleError (label ++ txt " must be a regular file")) ≠
      .ok r := by
    intro refused
    cases refused <;> exact nofun
  cases node with
  | leaf leaf =>
    cases leaf with
    | regular data refused =>
      cases refused with
      | some reason =>
        refine iff_of_false nofun ?_
        rintro ⟨_, ⟨⟩, -⟩
      | none =>
        constructor
        · rintro ⟨⟩
          exact ⟨data, rfl, rfl⟩
        · rintro ⟨_, ⟨⟩, rfl⟩
          rfl
    | symlink =>
      refine iff_of_false nofun ?_
      rintro ⟨_, ⟨⟩, -⟩
    | special refused =>
      refine iff_of_false (hnot refused) ?_
      rintro ⟨_, ⟨⟩, -⟩
  | dir mode children =>
    refine iff_of_false (hnot _) ?_
    rintro ⟨_, ⟨⟩, -⟩

/-- A key is looked up where it is there. -/
theorem item_ok {key : Text} {v u : Json} : item key v = .ok u ↔ v.get? key = some u := by
  rw [item]
  cases v.get? key with
  | none => exact iff_of_false nofun nofun
  | some w => simp

/-- A declaration has the three fields of its entry. -/
theorem declarationOf_some {entry : Json} {d : Declaration} (h : declarationOf entry = some d) :
    entry.get? (txt "path") = some (.str d.path) ∧ entry.get? (txt "size") = some d.size ∧
      entry.get? (txt "sha256") = some (.str d.sha256) := by
  rw [declarationOf] at h
  split at h
  · next hpath hsize hsha =>
    obtain rfl := Option.some.inj h
    exact ⟨hpath, hsize, hsha⟩
  · cases h

/-- With every directory searchable, what is there is found. -/
theorem Accessible.find_searchable {t : BundleTree} (h : Accessible t) {path : List Text} :
    t.find DirectoryMode.searchable path = t.find everything path := by
  refine FileTree.find_congr fun path mode children hdir => ?_
  exact (h.directory path mode children hdir).2

/-- One round of the loop. -/
theorem verifyEntries_cons {entry : Json} {entries : List Json} {d : Declaration}
    {files : List InputFile} (hopen : Accessible inputRoot.node) (hnul : 0 ∉ d.path)
    (h : declarationOf entry = some d) :
    verifyEntries sha256 inputRoot index seen (entry :: entries) = .ok files ↔
      ∃ f rest, IsInput sha256 inputRoot d f ∧ d.path ∉ seen ∧
        verifyEntries sha256 inputRoot (index + 1) (d.path :: seen) entries = .ok rest ∧
        files = f :: rest := by
  obtain ⟨hpath, hsize, hsha⟩ := declarationOf_some h
  rw [verifyEntries]
  simp only [bind_ok_iff, bundleError, ite_error_iff, item_ok, hpath, hsize, hsha, Option.some.injEq,
    exists_eq_left', safeRelativePath_ok hnul, hashOpenRegularFile_ok]
  constructor
  · rintro ⟨p, hp, hnew, loc, hloc, ⟨size, digest⟩, ⟨data, hnode, hr⟩, hsame, hdigest, rest, hrest,
      hfiles⟩
    obtain ⟨hfind, -, hsource⟩ := (rejectSymlinkComponents_ok hp).mp hloc
    rw [hopen.find_searchable, hnode] at hfind
    obtain ⟨rfl, rfl⟩ := Prod.mk.inj hr
    rw [hp.text] at hnew hrest hfiles
    have hdigest : sha256 data = d.sha256 := (Json.str.inj (not_not.mp hdigest)).symm
    refine ⟨_, rest, ⟨p, data, none, hp, hfind, by simpa using hsame, hdigest, ?_⟩, hnew, hrest,
      (Except.ok.inj hfiles).symm⟩
    rw [hsource, ← hdigest]
  · rintro ⟨f, rest, ⟨p, data, refused, hp, hfind, hsame, hdigest, rfl⟩, hnew, hrest, rfl⟩
    obtain rfl := hopen.file _ _ _ hfind
    rw [← hopen.find_searchable] at hfind
    refine ⟨p, hp, by rwa [hp.text], ⟨_, .leaf (.regular data none)⟩,
      (rejectSymlinkComponents_ok hp).mpr ⟨hfind, nofun, rfl⟩, (data.length, sha256 data),
      ⟨data, rfl, rfl⟩, by simp [hsame], by rw [not_not, hdigest], rest, by rwa [hp.text], ?_⟩
    rw [hp.text, hdigest]

/-- **The loop** returns the entries in their order, where each is an input and no path
comes twice. -/
theorem verifyEntries_ok {entries : List Json} {declarations : List Declaration}
    (hopen : Accessible inputRoot.node) (hnul : ∀ d ∈ declarations, 0 ∉ d.path)
    (h : List.Forall₂ (fun e d => declarationOf e = some d) entries declarations)
    {files : List InputFile} :
    verifyEntries sha256 inputRoot index seen entries = .ok files ↔
      List.Forall₂ (IsInput sha256 inputRoot) declarations files ∧
        (declarations.map Declaration.path).Nodup ∧ ∀ d ∈ declarations, d.path ∉ seen := by
  induction h generalizing index seen files with
  | nil =>
    rw [verifyEntries, Except.ok.injEq, List.forall₂_nil_left_iff]
    simp [eq_comm]
  | @cons entry d entries declarations hentry _ ih =>
    obtain ⟨hfirst, hothers⟩ := List.forall_mem_cons.mp hnul
    rw [verifyEntries_cons hopen hfirst hentry]
    simp only [ih hothers]
    constructor
    · rintro ⟨f, rest, hinput, hnew, ⟨hrest, hnodup, hfresh⟩, rfl⟩
      refine ⟨.cons hinput hrest, List.nodup_cons.mpr ⟨?_, hnodup⟩,
        List.forall_mem_cons.mpr ⟨hnew, fun e he hmem => hfresh e he (List.mem_cons_of_mem _ hmem)⟩⟩
      intro hmem
      obtain ⟨e, he, heq⟩ := List.mem_map.mp hmem
      exact hfresh e he (heq ▸ List.mem_cons_self)
    · rintro ⟨hall, hnodup, hfresh⟩
      cases hall with
      | @cons _ f _ rest hinput hrest =>
        obtain ⟨hfirst, hnodup⟩ := List.nodup_cons.mp hnodup
        refine ⟨f, rest, hinput, hfresh d List.mem_cons_self,
          ⟨hrest, hnodup, fun e he hmem => ?_⟩, rfl⟩
        rcases List.mem_cons.mp hmem with heq | hmem
        · exact hfirst (heq ▸ List.mem_map_of_mem he)
        · exact hfresh e (List.mem_cons_of_mem _ he) hmem

end

/-! ## The walk -/

section

variable {path : List Text} {t : BundleTree}

/-- No entry that is listed is a link or special. -/
def Ordinary (t : BundleTree) : Prop :=
  ∀ q leaf, (q, .leaf leaf) ∈ t.entries DirectoryMode.listable →
    ∃ data refused, leaf = .regular data refused

/-- The paths of the regular files that are listed. -/
def FilesBelow (path : List Text) (t : BundleTree) (r : List Text) : Prop :=
  ∃ q data refused, (q, .leaf (.regular data refused)) ∈ t.entries DirectoryMode.listable ∧
    r = path ++ q

/-- A child is a directory or a regular file. -/
def IsOrdinaryChild (c : Text × BundleTree) : Prop :=
  ∀ leaf, c.2 = .leaf leaf → ∃ data refused, leaf = .regular data refused

/-- The regular files of one directory are found, and nothing special is in it. -/
theorem inventoryEntries_ok {cs : List (Text × BundleTree)} {files : List (List Text)}
    (h : inventoryEntries path cs = .ok files) :
    (∀ c ∈ cs, IsOrdinaryChild c) ∧ ∀ r, r ∈ files ↔
      ∃ name data refused, (name, .leaf (.regular data refused)) ∈ cs ∧ r = path ++ [name] := by
  induction cs generalizing files with
  | nil =>
    obtain rfl := Except.ok.inj h
    exact ⟨List.forall_mem_nil _, fun r => by simp only [List.not_mem_nil, false_and, exists_false]⟩
  | cons c cs ih =>
    obtain ⟨name, node⟩ := c
    match node, h with
    | .leaf .symlink, h | .leaf (.special _), h => cases h
    | .leaf (.regular data refused), h =>
      obtain ⟨rest, hrest, rfl⟩ := map_ok_iff.mp h
      obtain ⟨hall, hmem⟩ := ih hrest
      refine ⟨List.forall_mem_cons.mpr
        ⟨fun leaf heq => ⟨data, refused, (FileTree.leaf.inj heq).symm⟩, hall⟩, fun r => ?_⟩
      rw [List.mem_cons, hmem]
      constructor
      · rintro (rfl | ⟨n, d, e, hn, rfl⟩)
        · exact ⟨name, data, refused, List.mem_cons_self, rfl⟩
        · exact ⟨n, d, e, List.mem_cons_of_mem _ hn, rfl⟩
      · rintro ⟨n, d, e, hn, rfl⟩
        rcases List.mem_cons.mp hn with heq | hn
        · exact .inl (by rw [(Prod.mk.inj heq).1])
        · exact .inr ⟨n, d, e, hn, rfl⟩
    | .dir mode children, h =>
      obtain ⟨hall, hmem⟩ := ih h
      refine ⟨List.forall_mem_cons.mpr ⟨nofun, hall⟩, fun r => ?_⟩
      rw [hmem]
      constructor
      · rintro ⟨n, d, e, hn, rfl⟩
        exact ⟨n, d, e, List.mem_cons_of_mem _ hn, rfl⟩
      · rintro ⟨n, d, e, hn, rfl⟩
        rcases List.mem_cons.mp hn with heq | hn
        · cases (Prod.mk.inj heq).2
        · exact ⟨n, d, e, hn, rfl⟩

/-- The entries of a directory of directories and regular files are taken. -/
theorem inventoryEntries_isOk {cs : List (Text × BundleTree)} (h : ∀ c ∈ cs, IsOrdinaryChild c) :
    ∃ files, inventoryEntries path cs = .ok files := by
  induction cs with
  | nil => exact ⟨[], rfl⟩
  | cons c cs ih =>
    obtain ⟨hc, hcs⟩ := List.forall_mem_cons.mp h
    obtain ⟨files, hfiles⟩ := ih hcs
    obtain ⟨name, node⟩ := c
    match node, hc with
    | .dir mode children, _ => exact ⟨files, hfiles⟩
    | .leaf leaf, hc =>
      obtain ⟨data, refused, rfl⟩ := hc leaf rfl
      exact ⟨_, map_ok_iff.mpr ⟨files, hfiles, rfl⟩⟩

/-- All that is listed of a directory is its children and what is below them. -/
theorem ordinary_dir {mode : DirectoryMode} {children : List (Text × BundleTree)}
    (hmode : mode.listable = true) : Ordinary (.dir mode children) ↔
      (∀ c ∈ children, IsOrdinaryChild c) ∧ ∀ c ∈ children, Ordinary c.2 := by
  constructor
  · intro h
    refine ⟨fun c hc leaf heq => ?_, fun c hc q leaf hmem => ?_⟩
    · exact h [c.1] leaf (FileTree.mem_entries_dir.mpr ⟨hmode, c, hc, .inl ⟨rfl, heq.symm⟩⟩)
    · exact h (c.1 :: q) leaf (FileTree.mem_entries_dir.mpr ⟨hmode, c, hc, .inr ⟨q, hmem, rfl⟩⟩)
  · rintro ⟨hchildren, hbelow⟩ q leaf hmem
    obtain ⟨-, c, hc, ⟨-, heq⟩ | ⟨rest, hrest, -⟩⟩ := FileTree.mem_entries_dir.mp hmem
    · exact hchildren c hc leaf heq.symm
    · exact hbelow c hc rest leaf hrest

/-- The files of a directory are its own and those below it. -/
theorem filesBelow_dir {mode : DirectoryMode} {children : List (Text × BundleTree)} {r : List Text}
    (hmode : mode.listable = true) : FilesBelow path (.dir mode children) r ↔
      (∃ name data refused, (name, .leaf (.regular data refused)) ∈ children ∧
        r = path ++ [name]) ∨ ∃ c ∈ children, FilesBelow (path ++ [c.1]) c.2 r := by
  constructor
  · rintro ⟨q, data, refused, hmem, rfl⟩
    obtain ⟨-, ⟨name, node⟩, hc, ⟨rfl, rfl⟩ | ⟨rest, hrest, rfl⟩⟩ := FileTree.mem_entries_dir.mp hmem
    · exact .inl ⟨name, data, refused, hc, rfl⟩
    · exact .inr ⟨_, hc, rest, data, refused, hrest, by simp⟩
  · rintro (⟨name, data, refused, hc, rfl⟩ | ⟨c, hc, rest, data, refused, hrest, rfl⟩)
    · refine ⟨[name], data, refused, FileTree.mem_entries_dir.mpr ⟨hmode, _, hc, ?_⟩, rfl⟩
      exact .inl ⟨rfl, rfl⟩
    · refine ⟨c.1 :: rest, data, refused, FileTree.mem_entries_dir.mpr ⟨hmode, c, hc, ?_⟩, by simp⟩
      exact .inr ⟨rest, hrest, rfl⟩

/-- Where nothing is listed, nothing is found. -/
theorem nothing_listed (h : t.entries DirectoryMode.listable = []) :
    Ordinary t ∧ ∀ r, r ∈ ([] : List (List Text)) ↔ FilesBelow path t r := by
  refine ⟨fun q leaf hmem => ?_, fun r => iff_of_false List.not_mem_nil ?_⟩
  · rw [h] at hmem
    cases hmem
  · rintro ⟨q, data, refused, hmem, -⟩
    rw [h] at hmem
    cases hmem

/-- **What the walk finds**: it fails at a link and at anything special, and finds the
regular files that `os.walk` lists. -/
theorem inventory_ok {files : List (List Text)} (h : inventory path t = .ok files) :
    Ordinary t ∧ ∀ r, r ∈ files ↔ FilesBelow path t r := by
  induction t using FileTree.induct generalizing path files with
  | leaf a =>
    obtain rfl := Except.ok.inj h
    exact nothing_listed rfl
  | dir mode children ih =>
    rw [inventory] at h
    cases hmode : mode.listable with
    | false =>
      rw [if_pos (by simp [hmode])] at h
      obtain rfl := Except.ok.inj h
      exact nothing_listed (by rw [FileTree.entries, if_neg (by simp [hmode])])
    | true =>
      rw [if_neg (by simp [hmode])] at h
      split at h
      · cases h
      have hbelow : ∀ {cs files}, (∀ c ∈ cs, c ∈ children) → inventoryChildren path cs = .ok files →
          (∀ c ∈ cs, Ordinary c.2) ∧ ∀ r, r ∈ files ↔ ∃ c ∈ cs, FilesBelow (path ++ [c.1]) c.2 r := by
        intro cs files hcs h
        induction cs generalizing files with
        | nil =>
          obtain rfl := Except.ok.inj h
          exact ⟨List.forall_mem_nil _, fun r =>
            by simp only [List.not_mem_nil, false_and, exists_false]⟩
        | cons c cs ihc =>
          rw [inventoryChildren] at h
          simp only [bind_ok_iff] at h
          obtain ⟨first, hfirst, rest, hrest, heq⟩ := h
          obtain rfl := Except.ok.inj heq
          obtain ⟨hc, hcs⟩ := List.forall_mem_cons.mp hcs
          obtain ⟨hordinary, hmem⟩ := ih c hc hfirst
          obtain ⟨hall, hmem'⟩ := ihc hcs hrest
          refine ⟨List.forall_mem_cons.mpr ⟨hordinary, hall⟩, fun r => ?_⟩
          rw [List.mem_append, hmem, hmem', List.exists_mem_cons_iff]
      simp only [bind_ok_iff] at h
      obtain ⟨first, hfirst, rest, hrest, heq⟩ := h
      obtain rfl := Except.ok.inj heq
      obtain ⟨hchildren, hmem⟩ := inventoryEntries_ok hfirst
      obtain ⟨hordinary, hmem'⟩ := hbelow (fun _ hc => hc) hrest
      refine ⟨(ordinary_dir hmode).mpr ⟨hchildren, hordinary⟩, fun r => ?_⟩
      rw [List.mem_append, hmem, hmem', filesBelow_dir hmode]

/-- What is in an accessible tree is accessible. -/
theorem Accessible.below {u : BundleTree} (h : Accessible t) {p : List Text}
    (hu : t.find everything p = some u) : Accessible u where
  directory q mode children hdir :=
    h.directory (p ++ q) mode children ((FileTree.find_append hu).trans hdir)
  file q data refused hfile := h.file (p ++ q) data refused ((FileTree.find_append hu).trans hfile)

/-- Where all can be listed and searched, the walk ends. -/
theorem inventory_isOk (hnamed : t.WellFormed IsPart) (hopen : Accessible t) (h : Ordinary t) :
    ∃ files, inventory path t = .ok files := by
  induction t using FileTree.induct generalizing path with
  | leaf a => exact ⟨[], rfl⟩
  | dir mode children ih =>
    obtain ⟨hlistable, hsearchable⟩ := hopen.directory [] mode children rfl
    obtain ⟨hchildren, hordinary⟩ := (ordinary_dir hlistable).mp h
    obtain ⟨hnodup, hwf⟩ := FileTree.wellFormed_dir.mp hnamed
    have hchild : ∀ c ∈ children, Accessible c.2 := by
      intro c hc
      refine hopen.below (p := [c.1]) ?_
      have hall : everything mode = true := rfl
      rw [FileTree.find, if_pos hall, (FileTree.lookup_iff hnodup).mpr hc]
      rfl
    have hbelow : ∀ {cs}, (∀ c ∈ cs, c ∈ children) →
        ∃ files, inventoryChildren path cs = .ok files := by
      intro cs hcs
      induction cs with
      | nil => exact ⟨[], rfl⟩
      | cons c cs ihc =>
        obtain ⟨hc, hcs⟩ := List.forall_mem_cons.mp hcs
        obtain ⟨first, hfirst⟩ := ih c hc (hwf c hc).2 (hchild c hc) (hordinary c hc)
        obtain ⟨rest, hrest⟩ := ihc hcs
        refine ⟨first ++ rest, ?_⟩
        rw [inventoryChildren]
        simp only [bind_ok_iff]
        exact ⟨first, hfirst, rest, hrest, rfl⟩
    obtain ⟨first, hfirst⟩ := inventoryEntries_isOk hchildren
    obtain ⟨rest, hrest⟩ := hbelow fun _ hc => hc
    refine ⟨first ++ rest, ?_⟩
    rw [inventory, if_neg (by simp [hlistable]), if_neg (by simp [hsearchable])]
    simp only [bind_ok_iff]
    exact ⟨first, hfirst, rest, hrest, rfl⟩

end

/-! ## Valid manifests -/

section

variable {manifest : Json}

/-- The pattern reads to the end, or to a newline there, and lets no NUL through. -/
theorem no_nul_of_pattern {t : Text} (h : manifestPathPattern.search t = true) : 0 ∉ t := by
  rw [manifestPathPattern, Regex.search_bol, Regex.isMatch_iff] at h
  obtain ⟨d, h⟩ := h
  simp only [Regex.mem_ends_seq, Regex.mem_ends_nlook] at h
  obtain ⟨-, ⟨-, rfl⟩, -, ⟨-, rfl⟩, -, ⟨-, rfl⟩, m, hm, hend⟩ := h
  obtain ⟨hrest, -⟩ := Regex.mem_ends_eol.mp hend
  obtain ⟨u, hu, ht, -⟩ := (Regex.mem_ends_plain (by decide) _ _).mp hm
  obtain ⟨-, hall⟩ := Regex.lang_plus_set.mp hu
  simp only at ht
  intro hzero
  rw [ht, List.mem_append] at hzero
  rcases hzero with hzero | hzero
  · cases hall 0 hzero
  · rcases hrest with hrest | hrest
    · rw [hrest] at hzero
      cases hzero
    · rw [hrest] at hzero
      cases List.mem_singleton.mp hzero

/-- A path that the schema accepts is a string without NUL. -/
theorem str_of_pathSchema {v : Json} (h : manifestPathSchema.accepts v = true) :
    ∃ t, v = .str t ∧ 0 ∉ t := by
  cases v with
  | str t =>
    simp only [manifestPathSchema, Schema.accepts, Schema.acceptsAll, Schema.onString,
      Bool.and_eq_true] at h
    exact ⟨t, rfl, no_nul_of_pattern h.2.2.1⟩
  | _ => simp [manifestPathSchema, Schema.accepts, Schema.acceptsAll, hasType] at h

/-- What a string schema accepts is a string. -/
theorem str_of_string {v : Json} {s : Schema}
    (h : (Schema.allOf [.type [.string], s]).accepts v = true) : ∃ t, v = .str t := by
  cases v with
  | str t => exact ⟨t, rfl⟩
  | _ => simp [Schema.accepts, Schema.acceptsAll, hasType] at h

/-- A required member of a valid object is valid. -/
theorem member_accepts {kvs : List (Text × Json)} {members : List (Text × Schema)} {key : Text}
    {s : Schema} (hmem : (key, s) ∈ members) (hkey : Schema.hasKey kvs key = true)
    (h : Schema.acceptsMembers members kvs = true) :
    ∃ v, lookup key kvs = some v ∧ s.accepts v = true := by
  obtain ⟨v, hv⟩ := Option.isSome_iff_exists.mp hkey
  refine ⟨v, hv, ?_⟩
  induction members with
  | nil => cases hmem
  | cons m members ih =>
    rw [Schema.acceptsMembers, Bool.and_eq_true] at h
    rcases List.mem_cons.mp hmem with rfl | hmem
    · simpa [hv] using h.1
    · exact ih hmem h.2

/-- An entry that is valid declares a file. -/
theorem declarationOf_valid {entry : Json} (h : manifestEntrySchema.accepts entry = true) :
    ∃ d, declarationOf entry = some d ∧ 0 ∉ d.path := by
  cases entry with
  | obj kvs =>
    simp only [manifestEntrySchema, closedObject, Schema.accepts, Schema.acceptsAll, Schema.onObject,
      Bool.and_eq_true, List.all_eq_true] at h
    obtain ⟨-, hkeys, ⟨hmembers, -⟩, -⟩ := h
    obtain ⟨path, hpath, hvalid⟩ := member_accepts (.head _) (hkeys _ (.head _)) hmembers
    obtain ⟨digest, hdigest, hstring⟩ :=
      member_accepts (.tail _ (.head _)) (hkeys _ (.tail _ (.head _))) hmembers
    obtain ⟨size, hsize, -⟩ :=
      member_accepts (.tail _ (.tail _ (.head _))) (hkeys _ (.tail _ (.tail _ (.head _)))) hmembers
    obtain ⟨p, rfl, hnul⟩ := str_of_pathSchema hvalid
    obtain ⟨t, rfl⟩ := str_of_string hstring
    refine ⟨⟨p, size, t⟩, ?_, hnul⟩
    rw [declarationOf, get?, get?, get?, hpath, hsize, hdigest]
  | _ => simp [manifestEntrySchema, closedObject, Schema.accepts, Schema.acceptsAll, hasType] at h

/-- The entries of an accepted manifest are declarations. -/
theorem exists_declarations {entries : List Json}
    (h : ∀ e ∈ entries, ∃ d, declarationOf e = some d ∧ 0 ∉ d.path) :
    ∃ declarations, List.Forall₂ (fun e d => declarationOf e = some d) entries declarations ∧
      ∀ d ∈ declarations, 0 ∉ d.path := by
  induction entries with
  | nil => exact ⟨[], .nil, fun _ hmem => absurd hmem List.not_mem_nil⟩
  | cons e entries ih =>
    obtain ⟨⟨d, hd, hnul⟩, hentries⟩ := List.forall_mem_cons.mp h
    obtain ⟨declarations, hdeclarations, hnuls⟩ := ih hentries
    exact ⟨d :: declarations, .cons hd hdeclarations, List.forall_mem_cons.mpr ⟨hnul, hnuls⟩⟩

/-- A valid manifest declares a root and files, by paths without a NUL. -/
theorem declares_of_valid (h : inputManifestSchema.accepts manifest = true) :
    ∃ root declarations, Declares manifest root declarations ∧ 0 ∉ root ∧
      ∀ d ∈ declarations, 0 ∉ d.path := by
  cases manifest with
  | obj kvs =>
    simp only [inputManifestSchema, Schema.accepts, Schema.acceptsAll, Schema.onObject,
      Bool.and_eq_true, List.all_eq_true] at h
    obtain ⟨-, hkeys, ⟨hmembers, -⟩, -⟩ := h
    obtain ⟨root, hroot, hvalid⟩ :=
      member_accepts (.tail _ (.head _)) (hkeys _ (.tail _ (.head _))) hmembers
    obtain ⟨files, hfiles, harray⟩ :=
      member_accepts (.tail _ (.tail _ (.head _))) (hkeys _ (.tail _ (.tail _ (.head _)))) hmembers
    obtain ⟨t, rfl, hnul⟩ := str_of_pathSchema hvalid
    cases files with
    | arr entries =>
      simp only [Schema.accepts, Schema.acceptsAll, Schema.onArray, Bool.and_eq_true,
        List.all_eq_true] at harray
      obtain ⟨-, -, hentries, -⟩ := harray
      obtain ⟨declarations, hdeclarations, hnuls⟩ :=
        exists_declarations fun e he => declarationOf_valid (hentries e he)
      exact ⟨t, declarations, ⟨hroot, entries, hfiles, hdeclarations⟩, hnul, hnuls⟩
    | _ => simp [Schema.accepts, Schema.acceptsAll, hasType] at harray
  | _ => simp [inputManifestSchema, Schema.accepts, Schema.acceptsAll, hasType] at h

end

/-! ## Verification -/

section

variable {sha256 : Bytes → Text} {root : Location} {manifest : Json} {rootText : Text}
  {declarations : List Declaration} {t u : BundleTree} {result : Text × List InputFile}

/-- What is in a tree with names for parts has names for parts. -/
theorem wellFormed_below (h : t.WellFormed IsPart) {p : List Text} (hne : p ≠ [])
    (hu : t.find everything p = some u) : u.WellFormed IsPart :=
  (FileTree.names_of_mem h ((FileTree.mem_entries h).mpr ⟨hne, hu⟩)).2.2

/-- In an accessible tree all entries are listed. -/
theorem entries_listable (hnamed : t.WellFormed IsPart) (h : Accessible t) :
    t.entries DirectoryMode.listable = t.entries everything := by
  refine FileTree.entries_congr hnamed fun path mode children hdir => ?_
  exact (h.directory path mode children hdir).1

/-- Inputs are returned under the paths they are declared with. -/
theorem paths_of_inputs {inputRoot : Location} {files : List InputFile}
    (h : List.Forall₂ (IsInput sha256 inputRoot) declarations files) :
    files.map InputFile.relativePath = declarations.map Declaration.path := by
  induction h with
  | nil => rfl
  | cons hinput _ ih =>
    obtain ⟨p, data, refused, -, -, -, -, rfl⟩ := hinput
    rw [List.map_cons, List.map_cons, ih]

/-- The walk finds what is declared when the tree has exactly that. -/
theorem inventoryInputRoot_ok (hnamed : t.WellFormed IsPart) (h : Accessible t)
    {paths : List Text} :
    (∃ found, inventoryInputRoot t = .ok found ∧ ∀ text, text ∈ paths ↔ text ∈ found) ↔
      HasExactly t paths := by
  have hlisting := entries_listable hnamed h
  constructor
  · rintro ⟨found, hfound, hsame⟩
    obtain ⟨files, hfiles, rfl⟩ := map_ok_iff.mp hfound
    obtain ⟨hordinary, hmem⟩ := inventory_ok hfiles
    refine ⟨fun {path leaf} hpath => hordinary path leaf (hlisting ▸ hpath), fun text => ?_⟩
    rw [hsame, List.mem_map]
    constructor
    · rintro ⟨r, hr, rfl⟩
      obtain ⟨q, data, refused, hq, hrq⟩ := (hmem r).mp hr
      exact ⟨q, data, refused, hlisting ▸ hq, by rw [hrq, List.nil_append]⟩
    · rintro ⟨q, data, refused, hq, hrq⟩
      exact ⟨q, (hmem q).mpr ⟨q, data, refused, hlisting ▸ hq, rfl⟩, hrq.symm⟩
  · intro hexact
    have hordinary : Ordinary t := fun q leaf hq => hexact.ordinary (hlisting ▸ hq)
    obtain ⟨files, hfiles⟩ := @inventory_isOk [] t hnamed h hordinary
    obtain ⟨-, hmem⟩ := inventory_ok hfiles
    refine ⟨_, map_ok_iff.mpr ⟨files, hfiles, rfl⟩, fun text => ?_⟩
    rw [hexact.mem_iff, List.mem_map]
    constructor
    · rintro ⟨q, data, refused, hq, hrq⟩
      exact ⟨q, (hmem q).mpr ⟨q, data, refused, hlisting ▸ hq, rfl⟩, hrq.symm⟩
    · rintro ⟨r, hr, rfl⟩
      obtain ⟨q, data, refused, hq, hrq⟩ := (hmem r).mp hr
      exact ⟨q, data, refused, hlisting ▸ hq, by rw [hrq, List.nil_append]⟩

/-- Both differences of two lists are empty when they have the same elements. -/
theorem same_of_filters {found declared : List Text} :
    ¬found.filter (· ∉ declared) ≠ [] ∧ ¬declared.filter (· ∉ found) ≠ [] ↔
      ∀ text, text ∈ declared ↔ text ∈ found := by
  simp only [ne_eq, not_not, List.filter_eq_nil_iff, decide_eq_true_eq]
  constructor
  · rintro ⟨hfound, hdeclared⟩ text
    exact ⟨hdeclared text, hfound text⟩
  · intro h
    exact ⟨fun text => (h text).mpr, fun text => (h text).mp⟩

/-- **Verification** returns what is declared, when that is there. -/
theorem verifyInputs_ok (hdecl : Declares manifest rootText declarations)
    (hnul : 0 ∉ rootText) (hnuls : ∀ d ∈ declarations, 0 ∉ d.path)
    (hnamed : root.node.WellFormed IsPart) (hopen : Accessible root.node) :
    verifyInputs sha256 root manifest = .ok result ↔
      IsVerified sha256 root rootText declarations result := by
  obtain ⟨hroot, entries, hfiles, hentries⟩ := hdecl
  rw [verifyInputs]
  simp only [bind_ok_iff, item_ok, hroot, Option.some.injEq, exists_eq_left',
    safeRelativePath_ok hnul]
  constructor
  · rintro ⟨p, hp, loc, hloc, h⟩
    obtain ⟨hfind, -, hpath⟩ := (rejectSymlinkComponents_ok hp).mp hloc
    rw [hopen.find_searchable] at hfind
    obtain ⟨path, node⟩ := loc
    obtain rfl : path = root.path ++ slash :: rootText := hpath
    cases node with
    | leaf leaf => cases h
    | dir mode children =>
      have hbelow := hopen.below hfind
      simp only [bind_ok_iff, item_ok, hfiles, Option.some.injEq, exists_eq_left', entriesOf,
        Except.ok.injEq, bundleError, ite_error_iff] at h
      obtain ⟨verified, hverified, found, hfound, hundeclared, hmissing, rfl⟩ := h
      obtain ⟨hinputs, hnodup, -⟩ := (verifyEntries_ok hbelow hnuls hentries).mp hverified
      refine ⟨p, mode, children, hp, hfind, rfl, hinputs, hnodup, ?_⟩
      refine (inventoryInputRoot_ok (wellFormed_below hnamed hp.parts hfind) hbelow).mp
        ⟨found, hfound, ?_⟩
      rw [← paths_of_inputs hinputs]
      exact same_of_filters.mp ⟨hundeclared, hmissing⟩
  · rintro ⟨p, mode, children, hp, hfind, hpath, hinputs, hnodup, hexact⟩
    have hbelow := hopen.below hfind
    obtain ⟨found, hfound, hsame⟩ := (inventoryInputRoot_ok
      (wellFormed_below hnamed hp.parts hfind) hbelow).mpr hexact
    rw [← paths_of_inputs hinputs] at hsame
    obtain ⟨hundeclared, hmissing⟩ := same_of_filters.mpr hsame
    have hdir : (.dir mode children : BundleTree) ≠ .leaf .symlink := by simp
    rw [← hopen.find_searchable] at hfind
    refine ⟨p, hp, ⟨result.1, .dir mode children⟩,
      (rejectSymlinkComponents_ok hp).mpr ⟨hfind, hdir, hpath⟩, ?_⟩
    simp only [bind_ok_iff, item_ok, hfiles, Option.some.injEq, exists_eq_left', entriesOf,
      Except.ok.injEq, bundleError, ite_error_iff]
    have hverified : verifyEntries sha256 ⟨result.1, .dir mode children⟩ 0 [] entries =
        .ok result.2 :=
      (verifyEntries_ok hbelow hnuls hentries).mpr ⟨hinputs, hnodup, fun _ _ => List.not_mem_nil⟩
    exact ⟨result.2, hverified, found, hfound, hundeclared, hmissing, rfl⟩

/-- **Input verification is exact**, for a valid manifest and a bundle whose directories
can be listed and searched and whose files can be opened. -/
theorem verify_inputs_exact (sha256 : Bytes → Text) (root : Location)
    (hnamed : root.node.WellFormed IsPart) (hopen : Accessible root.node)
    (hvalid : inputManifestSchema.accepts manifest = true) :
    ∃ rootText declarations, Declares manifest rootText declarations ∧
      ∀ result, verifyInputs sha256 root manifest = .ok result ↔
        IsVerified sha256 root rootText declarations result := by
  obtain ⟨rootText, declarations, hdecl, hnul, hnuls⟩ := declares_of_valid hvalid
  refine ⟨rootText, declarations, hdecl, ?_⟩
  intro result
  exact verifyInputs_ok hdecl hnul hnuls hnamed hopen

end

/-! ## Samples -/

/-- The digests of a file without content and of `abc`, which is all the samples hash. -/
def sampleDigest (data : Bytes) : Text :=
  if data = [] then txt "e3b0c44298fc1c149afbf4c8996fb92427ae41e4649b934ca495991b7852b855"
  else txt "ba7816bf8f01cfea414140de5dae2223b00361a396177a9cb410ff61f20015ad"

/-- A directory that can be listed and searched. -/
def DirectoryMode.full : DirectoryMode := ⟨true, true⟩

/-- A bundle with that input root. -/
def bundleWith (children : List (Text × BundleTree)) : Location :=
  ⟨txt "/bundle", .dir .full [(txt "inputs", .dir .full children)]⟩

/-- A manifest that declares files of those paths and contents. -/
def manifestOf (files : List (Text × Bytes)) : Json :=
  .obj [(txt "protocol", .str (txt "input-manifest/1")), (txt "root", .str (txt "inputs")),
    (txt "files", .arr (files.map fun f =>
      .obj [(txt "path", .str f.1), (txt "sha256", .str (sampleDigest f.2)),
        (txt "size", .int f.2.length)]))]

/-- Whether the process may list and search a directory, or open a file. -/
def isOpen : BundleTree → Bool
  | .dir mode _ => mode.listable && mode.searchable
  | .leaf (.regular _ refused) => refused.isNone
  | .leaf _ => true

/-- A tree is accessible when it and all that is in it is. -/
theorem accessible_of_entries {t : BundleTree} (hnamed : t.WellFormed IsPart)
    (h : ∀ r ∈ ([], t) :: t.entries everything, isOpen r.2 = true) : Accessible t := by
  have hfound : ∀ {path u}, t.find everything path = some u → isOpen u = true := by
    intro path u hfind
    by_cases hpath : path = []
    · subst hpath
      obtain rfl := Option.some.inj hfind
      exact h ([], t) List.mem_cons_self
    · exact h (path, u) (.tail _ ((FileTree.mem_entries hnamed).mpr ⟨hpath, hfind⟩))
  refine ⟨fun path mode children hdir => ?_, fun path data refused hfile => ?_⟩
  · simpa [isOpen] using hfound hdir
  · simpa [isOpen] using hfound hfile

/-- The input root of the sample: an empty file, and one in a directory. -/
def sampleChildren : List (Text × BundleTree) :=
  [(txt "a.txt", .leaf (.regular [] none)),
    (txt "data", .dir .full [(txt "b.txt", .leaf (.regular ([97, 98, 99]) none))])]

/-- Its manifest. -/
def sampleManifest : Json :=
  manifestOf [(txt "data/b.txt", [97, 98, 99]), (txt "a.txt", [])]

theorem isPart_a : IsPart (txt "a.txt") := ⟨by decide, by decide, by decide⟩

theorem isPart_b : IsPart (txt "b.txt") := ⟨by decide, by decide, by decide⟩

theorem isPart_data : IsPart (txt "data") := ⟨by decide, by decide, by decide⟩

theorem wellFormed_bundleWith {children : List (Text × BundleTree)}
    (h : (FileTree.dir DirectoryMode.full children).WellFormed IsPart) :
    (bundleWith children).node.WellFormed IsPart :=
  ⟨by simp, ⟨by decide, by decide, by decide⟩, h, trivial⟩

theorem wellFormed_sample : (bundleWith sampleChildren).node.WellFormed IsPart := by
  refine wellFormed_bundleWith ⟨by decide, isPart_a, trivial, isPart_data, ?_, trivial⟩
  exact ⟨by decide, isPart_b, trivial, trivial⟩

theorem accessible_sample : Accessible (bundleWith sampleChildren).node :=
  accessible_of_entries wellFormed_sample (List.all_eq_true.mp (by decide +kernel))

-- Nothing declares `b.txt`, but it is in a directory that cannot be listed, and is not noticed.
example : verifyInputs sampleDigest
    (bundleWith [(txt "a.txt", .leaf (.regular [] none)),
      (txt "closed", .dir ⟨false, true⟩ [(txt "b.txt", .leaf (.regular [] none))])])
    (manifestOf [(txt "a.txt", [])]) =
    .ok (txt "/bundle/inputs", [⟨txt "a.txt", txt "/bundle/inputs/a.txt", sampleDigest [], 0⟩]) := by
  decide +kernel

-- A declared file that does not open.
example : verifyInputs sampleDigest
    (bundleWith [(txt "a.txt", .leaf (.regular [] (some (txt "Permission denied"))))])
    (manifestOf [(txt "a.txt", [])]) =
    bundleError (txt "cannot open declared input a.txt: Permission denied") := by decide +kernel

/-- Two files, one of them in a directory, come back in the order of the manifest. -/
theorem verify_inputs_exact_sample :
    ∃ rootText declarations, Declares sampleManifest rootText declarations ∧
      IsVerified sampleDigest (bundleWith sampleChildren) rootText declarations
        (txt "/bundle/inputs",
          [⟨txt "data/b.txt", txt "/bundle/inputs/data/b.txt", sampleDigest [97, 98, 99], 3⟩,
            ⟨txt "a.txt", txt "/bundle/inputs/a.txt", sampleDigest [], 0⟩]) := by
  have hvalid : inputManifestSchema.accepts sampleManifest = true := by decide +kernel
  obtain ⟨rootText, declarations, hdecl, hexact⟩ := verify_inputs_exact sampleDigest
    (bundleWith sampleChildren) wellFormed_sample accessible_sample hvalid
  exact ⟨rootText, declarations, hdecl, (hexact _).mp (by decide +kernel)⟩

/-- A name with a backslash on its second line, which the pattern of the schema does not
look at. -/
def twoLines : Text := txt "a\n\\b"

/-- The empty file of that name. -/
def twoLinesChildren : List (Text × BundleTree) := [(twoLines, .leaf (.regular [] none))]

/-- **A backslash** is refused, though the schema and the tree have nothing against it. -/
theorem backslash_refused :
    inputManifestSchema.accepts (manifestOf [(twoLines, [])]) = true ∧
      (bundleWith twoLinesChildren).node.WellFormed IsPart ∧
      Accessible (bundleWith twoLinesChildren).node ∧
      (PurePosixPath.ofText twoLines).root = [] ∧ (PurePosixPath.ofText twoLines).tail = [twoLines] ∧
      (PurePosixPath.ofText twoLines).text = twoLines ∧ twoLines ≠ txt ".." ∧
      (bundleWith twoLinesChildren).node.find everything [txt "inputs", twoLines] =
        some (.leaf (.regular [] none)) ∧
      HasExactly (.dir .full twoLinesChildren) [twoLines] ∧
      verifyInputs sampleDigest (bundleWith twoLinesChildren) (manifestOf [(twoLines, [])]) =
        bundleError (txt "manifest.files[0].path contains an unsafe path separator or NUL") := by
  have hpart : IsPart twoLines := ⟨by decide, by decide, by decide⟩
  have hnamed : (bundleWith twoLinesChildren).node.WellFormed IsPart :=
    wellFormed_bundleWith ⟨by simp [twoLinesChildren], hpart, trivial, trivial⟩
  have hopen : Accessible (bundleWith twoLinesChildren).node :=
    accessible_of_entries hnamed (List.all_eq_true.mp (by decide +kernel))
  refine ⟨by decide +kernel, hnamed, hopen, by decide, by decide, by decide, by decide, rfl,
    ⟨?_, ?_⟩, by decide +kernel⟩
  · intro path leaf hmem
    obtain ⟨-, ⟨⟩⟩ := Prod.mk.inj (List.mem_singleton.mp hmem)
    exact ⟨[], none, rfl⟩
  · intro text
    constructor
    · intro htext
      obtain rfl := List.mem_singleton.mp htext
      exact ⟨[twoLines], [], none, List.mem_singleton.mpr rfl, rfl⟩
    · rintro ⟨path, data, refused, hmem, rfl⟩
      obtain ⟨rfl, -⟩ := Prod.mk.inj (List.mem_singleton.mp hmem)
      exact List.mem_singleton.mpr rfl

end Bundle

end RunpodJobrunner
