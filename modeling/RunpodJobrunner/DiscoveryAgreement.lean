import Mathlib.Data.List.Infix
import RunpodJobrunner.Discovery

/-!
# Where the discovery adapters agree

rclone's include rule is not anchored at the root and is told to list files only, the
regular expression is anchored and is matched against directories too. So the adapters
agree on a tree exactly when a directory matches the glob if and only if a file below a
match's name does, unless there are too many matches for either.
-/

namespace RunpodJobrunner

open Json

namespace Transfer

/-! ## Remote trees -/

/-- Every directory of a remote tree can be listed. -/
def everywhere : Unit → Bool := fun _ => true

/-- A remote root: a tree of directories and regular files with safe paths. -/
structure RemoteTree where
  children : List (Text × StatTree)
  named : FileTree.WellFormed IsPart (.dir () children)
  regular : ∀ {path leaf}, (path, .leaf leaf) ∈ FileTree.entries everywhere (.dir () children) →
    ∃ stat, leaf = .regular stat
  safe : ∀ {path node}, (path, node) ∈ FileTree.entries everywhere (.dir () children) →
    isUnsafeRemote (relativeText path) = false

/-- A regular file, by its components. -/
abbrev FileAt := List Text × FileStat

/-- The regular file an entry is. -/
def fileAt : Candidate → Option FileAt
  | (path, .leaf (.regular stat)) => some (path, stat)
  | _ => none

/-- The path of an entry is matched. -/
def isMatched (matcher : Regex) (c : Candidate) : Bool := matcher.fullmatch (relativeText c.1)

/-- The entries below the root. -/
def RemoteTree.listing (t : RemoteTree) : List Candidate :=
  FileTree.entries everywhere (.dir () t.children)

/-- The regular files that are matched. -/
def matchedFiles (matcher : Regex) (cs : List Candidate) : List FileAt :=
  (cs.filter (isMatched matcher)).filterMap fileAt

/-- `root.rglob("*")`: every entry once, in some order; no root, nothing. -/
def Walks : Option RemoteTree → Option (List Candidate) → Prop
  | none, none => True
  | some t, some cs => cs.Perm t.listing
  | _, _ => False

/-! ## What rclone documents -/

/-- A text that is a match of the pattern, or ends with one after a slash. -/
def Included (pattern text : Text) : Prop :=
  ∃ s, Glob star slash pattern s ∧ (text = s ∨ ∃ u, text = u ++ slash :: s)

/-- An entry of `lsjson` about a file. -/
structure Describes (r : FileAt) (item : Json) : Prop where
  path : item.get? (txt "Path") = some (.str (relativeText r.1))
  size : item.get? (txt "Size") = some (.int r.2.size)
  modTime : ∃ t, t ≠ [] ∧ item.get? (txt "ModTime") = some (.str t)
  isDir : item.get? (txt "IsDir") = some (.bool false)

/-- The listing of the included files down to depth 32, each once. The path of an entry
is bounded, so its text is. -/
structure ListsIncluded (t : RemoteTree) (pattern stdout stderr : Text) (files : List FileAt) :
    Prop where
  quiet : occursIn (txt "symlink") (stderr.map RcloneSFTP.lowered) = false
  mem_iff : ∀ r, r ∈ files ↔ (r.1, .leaf (.regular r.2)) ∈ t.listing ∧ r.1.length ≤ 32 ∧
    Included pattern (relativeText r.1)
  once : files.Nodup
  listed : ∃ items, loads literalDecoder stdout = .ok (.arr items) ∧
    List.Forall₂ Describes files items
  bounded : ∃ data, encodeUtf8 stdout = some data ∧ data.length ≤ 8000 * files.length + 1000

/-- What rclone answers about a remote root. -/
inductive Answers (pattern : Text) : Option RemoteTree → RunResult → Prop where
  | missing {stdout stderr : Text} : Answers pattern none (.completed 3 stdout stderr)
  | listed {t : RemoteTree} {stdout stderr : Text} {files : List FileAt} :
    ListsIncluded t pattern stdout stderr files →
      Answers pattern (some t) (.completed 0 stdout stderr)

/-! ## Agreement -/

/-- What is compared of a file. -/
def RemoteFile.key (file : RemoteFile) : Text × ℕ := (file.path, file.size)

/-- Both return the same set of paths and sizes, or both raise `TransferError`. -/
def Agree : Discovered → Discovered → Prop
  | .ok as, .ok bs => ∀ key, key ∈ as.map RemoteFile.key ↔ key ∈ bs.map RemoteFile.key
  | .error e, .error f => e.isTransferError = true ∧ f.isTransferError = true
  | _, _ => False

/-- A directory is matched. -/
def RemoteTree.MatchesDirectory (t : RemoteTree) (matcher : Regex) : Prop :=
  ∃ path children, (path, .dir () children) ∈ t.listing ∧
    matcher.fullmatch (relativeText path) = true

/-- A file is listed that is not matched: it is below the place of a match. -/
def RemoteTree.HasDeeperMatch (t : RemoteTree) (pattern : Text) (matcher : Regex) : Prop :=
  ∃ path stat, (path, .leaf (.regular stat)) ∈ t.listing ∧ path.length ≤ 32 ∧
    Included pattern (relativeText path) ∧ matcher.fullmatch (relativeText path) = false

/-- The condition for the adapters to agree. -/
def Uniform (pattern : Text) (matcher : Regex) (maxMatches : ℤ) : Option RemoteTree → Prop
  | none => True
  | some t => maxMatches < max 1 (matchedFiles matcher t.listing).length ∨
      (t.MatchesDirectory matcher ↔ t.HasDeeperMatch pattern matcher)

/-! ## The matcher -/

section

variable {pattern : Text} {matcher : Regex} {path : List Text}

/-- The accepted patterns. -/
theorem discoveryMatcher_ok (h : discoveryMatcher pattern = .ok matcher) :
    ∃ parts, pattern = relativeText parts ∧ (∀ part ∈ parts, IsPart part) ∧ parts.length ≤ 32 ∧
      matcher = Glob.joined slash (parts.map (Glob.component star slash)) := by
  rw [discoveryMatcher] at h
  split at h
  · cases h
  split at h
  · cases h
  split at h
  · cases h
  split at h
  · cases h
  next hunsafe =>
  obtain rfl := Except.ok.inj h
  simp only [isUnsafeGlob, Bool.or_eq_true, not_or, decide_eq_true_eq, ne_eq, not_not,
    PurePosixPath.isAbsolute] at hunsafe
  obtain ⟨⟨⟨⟨⟨⟨hroot, htext⟩, -⟩, hparts⟩, -⟩, hlength⟩, -⟩ := hunsafe
  have htail : (PurePosixPath.ofText pattern).parts = (PurePosixPath.ofText pattern).tail := by
    rw [PurePosixPath.parts, if_pos hroot]
  rw [htail] at hparts hlength ⊢
  exact ⟨_, (htext.symm.trans (PurePosixPath.text_relative hroot hparts)),
    (PurePosixPath.ofText pattern).tail_ok, by omega, rfl⟩

/-- What is matched is what the pattern says. -/
theorem fullmatch_iff (h : discoveryMatcher pattern = .ok matcher) {t : Text} :
    matcher.fullmatch t = true ↔ Glob star slash pattern t := by
  obtain ⟨parts, rfl, -, -, rfl⟩ := discoveryMatcher_ok h
  exact Glob.fullmatch_joined (by decide)

/-- A path has one slash less than parts. -/
theorem count_slash (hparts : ∀ part ∈ path, IsPart part) (hne : path ≠ []) :
    (relativeText path).count slash + 1 = path.length := by
  induction path with
  | nil => exact absurd rfl hne
  | cons part path ih =>
    have hpart := List.count_eq_zero.mpr (hparts part List.mem_cons_self).no_slash
    cases path with
    | nil => simp [relativeText, hpart]
    | cons next path =>
      have hrest := ih (fun p hp => hparts p (List.mem_cons_of_mem _ hp)) (List.cons_ne_nil _ _)
      rw [relativeText] at hrest ⊢
      rw [List.intercalate_cons_cons, List.count_append, List.count_append, hpart,
        List.count_singleton_self, List.length_cons, ← hrest]
      omega

/-- What is matched is not deep, and is included. -/
theorem included_of_fullmatch (h : discoveryMatcher pattern = .ok matcher)
    (hparts : ∀ part ∈ path, IsPart part) (hne : path ≠ [])
    (hmatch : matcher.fullmatch (relativeText path) = true) :
    path.length ≤ 32 ∧ Included pattern (relativeText path) := by
  have hglob := (fullmatch_iff h).mp hmatch
  refine ⟨?_, relativeText path, hglob, .inl rfl⟩
  obtain ⟨parts, rfl, hpattern, hlength, -⟩ := discoveryMatcher_ok h
  have hcount := hglob.count_eq (by decide)
  have hpath := count_slash hparts hne
  cases parts with
  | nil =>
    rw [hcount] at hpath
    have hzero : (relativeText []).count slash = 0 := rfl
    omega
  | cons part parts =>
    have := count_slash hpattern (List.cons_ne_nil _ _)
    omega

/-- A limit is refused, or is a number from one to 4096. -/
theorem positiveDiscoveryLimit_cases (value : ℤ) :
    (∃ message, positiveDiscoveryLimit value = refuse message ∧ ¬(0 < value ∧ value ≤ 4096)) ∨
      ∃ limit : ℕ, positiveDiscoveryLimit value = .ok limit ∧ 0 < limit ∧ value = limit := by
  rw [positiveDiscoveryLimit]
  split
  · next h => exact .inr ⟨_, rfl, by omega, by omega⟩
  · next h => exact .inl ⟨_, rfl, h⟩

/-- A safe path is returned as it is. -/
theorem safeRemoteRelative_ok {value : Text} (h : isUnsafeRemote value = false) :
    ∃ safe, safeRemoteRelative value = .ok safe ∧ safe.text = value := by
  refine ⟨_, by rw [safeRemoteRelative, if_neg (by rw [h]; exact Bool.false_ne_true)], ?_⟩
  simp only [isUnsafeRemote, Bool.or_eq_false_iff, decide_eq_false_iff_not, not_not, ne_eq] at h
  exact h.1.1.1.2

end

/-! ## The loops -/

section

variable {matcher : Regex} {limit : ℕ} {discovered : List RemoteFile}

/-- The result of `LocalTransfer` for a file. -/
def localFile (r : FileAt) : RemoteFile := ⟨relativeText r.1, r.2.size, intDigits r.2.modifiedNs⟩

/-- What does not match is left out. -/
theorem matchedFiles_cons_not {c : Candidate} {cs : List Candidate}
    (h : isMatched matcher c = false) : matchedFiles matcher (c :: cs) = matchedFiles matcher cs := by
  rw [matchedFiles, matchedFiles, List.filter_cons_of_neg (by simp [h])]

/-- A regular file that matches is taken. -/
theorem matchedFiles_cons {path : List Text} {stat : FileStat} {cs : List Candidate}
    (h : matcher.fullmatch (relativeText path) = true) :
    matchedFiles matcher ((path, .leaf (.regular stat)) :: cs) =
      (path, stat) :: matchedFiles matcher cs := by
  rw [matchedFiles, matchedFiles, List.filter_cons_of_pos (by simpa [isMatched] using h)]
  rfl

/-- The loop of `LocalTransfer` returns every matched entry, where all are files and not
too many, and refuses otherwise. -/
theorem LocalTransfer.scan_cases {cs : List Candidate}
    (hsafe : ∀ c ∈ cs, isUnsafeRemote (relativeText c.1) = false)
    (hlimit : discovered.length ≤ limit) :
    (scan matcher limit discovered cs =
        .ok (discovered ++ (matchedFiles matcher cs).map localFile) ∧
      (∀ c ∈ cs, isMatched matcher c = true → (fileAt c).isSome = true) ∧
      discovered.length + (matchedFiles matcher cs).length ≤ limit) ∨
    (∃ message, scan matcher limit discovered cs = refuse message) ∧
      ((∃ c ∈ cs, isMatched matcher c = true ∧ fileAt c = none) ∨
        limit < discovered.length + (matchedFiles matcher cs).length) := by
  induction cs generalizing discovered with
  | nil =>
    refine .inl ⟨?_, nofun, hlimit⟩
    rw [scan]
    exact (congrArg Except.ok (List.append_nil discovered)).symm
  | cons c cs ih =>
    obtain ⟨path, node⟩ := c
    have hrest := fun c hc => hsafe c (List.mem_cons_of_mem _ hc)
    obtain ⟨safe, hsafe, htext⟩ := safeRemoteRelative_ok (hsafe (path, node) List.mem_cons_self)
    rw [scan.eq_def]
    simp only
    cases hmatch : matcher.fullmatch (relativeText path) with
    | false =>
      have hnot : isMatched matcher (path, node) = false := hmatch
      rw [matchedFiles_cons_not hnot]
      rcases ih hrest hlimit with ⟨hscan, hall, hcount⟩ | ⟨hscan, hwhy⟩
      · refine .inl ⟨hscan, List.forall_mem_cons.mpr ⟨fun h => ?_, hall⟩, hcount⟩
        exact absurd h (by simp [isMatched, hmatch])
      · refine .inr ⟨hscan, hwhy.imp_left ?_⟩
        rintro ⟨c, hc, h⟩
        exact ⟨c, List.mem_cons_of_mem _ hc, h⟩
    -- what matches is a regular file, or the scan refuses
    | true =>
      have hfirst : fileAt (path, node) = none → ∃ c ∈ (path, node) :: cs,
          isMatched matcher c = true ∧ fileAt c = none :=
        fun h => ⟨_, List.mem_cons_self, hmatch, h⟩
      match node with
      | .leaf .symlink => exact .inr ⟨⟨_, rfl⟩, .inl (hfirst rfl)⟩
      | .leaf .special => exact .inr ⟨⟨_, rfl⟩, .inl (hfirst rfl)⟩
      | .dir d children => exact .inr ⟨⟨_, rfl⟩, .inl (hfirst rfl)⟩
      | .leaf (.regular stat) =>
        have hfiles : matchedFiles matcher ((path, .leaf (.regular stat)) :: cs) =
            (path, stat) :: matchedFiles matcher cs := matchedFiles_cons hmatch
        simp only [hsafe, htext, Bool.not_true, Bool.false_eq_true, if_false, List.length_append,
          List.length_singleton]
        rw [hfiles, List.length_cons]
        split
        · next hmany => exact .inr ⟨⟨_, rfl⟩, .inr (by omega)⟩
        · next hfew =>
          have hlength : (discovered ++ [localFile (path, stat)]).length = discovered.length + 1 := by
            rw [List.length_append, List.length_singleton]
          rcases @ih (discovered ++ [localFile (path, stat)]) hrest (by omega) with
            ⟨hscan, hall, hcount⟩ | ⟨hscan, hwhy⟩
          · refine .inl ⟨?_, List.forall_mem_cons.mpr ⟨fun _ => rfl, hall⟩, by omega⟩
            rw [List.append_assoc] at hscan
            exact hscan
          · refine .inr ⟨hscan, hwhy.imp ?_ (by omega)⟩
            rintro ⟨c, hc, h⟩
            exact ⟨c, List.mem_cons_of_mem _ hc, h⟩

/-- What describes a file is read as its path, its size and a time. -/
theorem entryOf_describes {r : FileAt} {item : Json} (h : Describes r item) :
    ∃ modifiedAt, RcloneSFTP.entryOf item = some (relativeText r.1, r.2.size, modifiedAt) := by
  obtain ⟨t, hne, ht⟩ := h.modTime
  refine ⟨t, ?_⟩
  rw [RcloneSFTP.entryOf, h.path, h.size, ht, h.isDir]
  simp [hne]

/-- The loop of `RcloneSFTP` returns what is listed, where all of it is matched and not
too much, and refuses otherwise. -/
theorem RcloneSFTP.scan_cases {files : List FileAt} {items : List Json}
    (hitems : List.Forall₂ Describes files items)
    (hsafe : ∀ r ∈ files, isUnsafeRemote (relativeText r.1) = false)
    (honce : (files.map fun r => relativeText r.1).Nodup)
    (hnew : ∀ r ∈ files, ∀ file ∈ discovered, file.path ≠ relativeText r.1)
    (hlimit : discovered.length ≤ limit) :
    (∃ made, scan matcher limit discovered items = .ok (discovered ++ made) ∧
      made.map RemoteFile.key = files.map (fun r => (relativeText r.1, r.2.size)) ∧
      (∀ r ∈ files, matcher.fullmatch (relativeText r.1) = true) ∧
      discovered.length + files.length ≤ limit) ∨
    (∃ message, scan matcher limit discovered items = refuse message) ∧
      ((∃ r ∈ files, matcher.fullmatch (relativeText r.1) = false) ∨
        limit < discovered.length + files.length) := by
  induction hitems generalizing discovered with
  | nil => exact .inl ⟨[], by rw [scan, List.append_nil], rfl, nofun, hlimit⟩
  | @cons r item files items hitem _ ih =>
    obtain ⟨modifiedAt, hentry⟩ := entryOf_describes hitem
    obtain ⟨safe, hok, htext⟩ := safeRemoteRelative_ok (hsafe r List.mem_cons_self)
    obtain ⟨hfresh, honce⟩ := List.nodup_cons.mp honce
    have hseen : (discovered.any fun file => file.path = relativeText r.1) = false := by
      rw [List.any_eq_false]
      intro file hfile
      simpa using hnew r List.mem_cons_self file hfile
    rw [scan, hentry]
    simp only [hok, htext]
    cases hmatch : matcher.fullmatch (relativeText r.1) with
    | false => exact .inr ⟨⟨_, rfl⟩, .inl ⟨r, List.mem_cons_self, hmatch⟩⟩
    | true =>
      simp only [hseen, Bool.not_true, Bool.false_eq_true, if_false, List.length_append,
        List.length_nil, List.length_cons]
      split
      · next hmany => exact .inr ⟨⟨_, rfl⟩, .inr (by omega)⟩
      · next hfew =>
        set found : RemoteFile := ⟨relativeText r.1, r.2.size, modifiedAt⟩ with hfound
        have hlength : (discovered ++ [found]).length = discovered.length + 1 := by
          rw [List.length_append, List.length_singleton]
        have hnew' : ∀ q ∈ files, ∀ file ∈ discovered ++ [found], file.path ≠ relativeText q.1 := by
          intro q hq file hfile
          rcases List.mem_append.mp hfile with hfile | hfile
          · exact hnew q (List.mem_cons_of_mem _ hq) file hfile
          · obtain rfl := List.mem_singleton.mp hfile
            intro heq
            exact hfresh (List.mem_map.mpr ⟨q, hq, heq.symm⟩)
        rcases ih (fun q hq => hsafe q (List.mem_cons_of_mem _ hq)) honce hnew' (by omega) with
          ⟨made, hscan, hkeys, hall, hcount⟩ | ⟨hscan, hwhy⟩
        · refine .inl ⟨found :: made, ?_, ?_,
            List.forall_mem_cons.mpr ⟨hmatch, hall⟩, by omega⟩
          · rw [hscan, List.append_assoc]
            rfl
          · rw [List.map_cons, hkeys]
            rfl
        · refine .inr ⟨hscan, hwhy.imp ?_ (by omega)⟩
          rintro ⟨q, hq, h⟩
          exact ⟨q, List.mem_cons_of_mem _ hq, h⟩

/-- Sorting leaves the files. -/
theorem mem_keys_sortedFiles {files : List RemoteFile} {key : Text × ℕ} :
    key ∈ (sortedFiles files).map RemoteFile.key ↔ key ∈ files.map RemoteFile.key :=
  ((List.perm_insertionSort _ files).map _).mem_iff

end

/-! ## Both adapters -/

section

variable {c : RcloneSFTP.Connection} {sourceRoot pattern stdout stderr : Text} {matcher : Regex}
  {maxMatches : ℤ} {limit : ℕ} {t : RemoteTree} {cs : List Candidate} {files : List FileAt}

/-- A path in a tree has parts, and each is a name. -/
theorem RemoteTree.parts (t : RemoteTree) {path : List Text} {node : StatTree}
    (h : (path, node) ∈ t.listing) : path ≠ [] ∧ ∀ part ∈ path, IsPart part :=
  have hnames := FileTree.names_of_mem t.named h
  ⟨hnames.1, hnames.2.1⟩

/-- The files of a listing are its regular leaves. -/
theorem mem_files {r : FileAt} : r ∈ cs.filterMap fileAt ↔ (r.1, .leaf (.regular r.2)) ∈ cs := by
  rw [List.mem_filterMap]
  constructor
  · rintro ⟨⟨path, node⟩, hmem, hfile⟩
    match node, hfile with
    | .leaf (.regular stat), hfile =>
      obtain rfl := Option.some.inj hfile
      exact hmem
  · exact fun hmem => ⟨_, hmem, rfl⟩

/-- The matched files are the regular ones whose path matches. -/
theorem mem_matchedFiles {r : FileAt} : r ∈ matchedFiles matcher cs ↔
    (r.1, .leaf (.regular r.2)) ∈ cs ∧ matcher.fullmatch (relativeText r.1) = true := by
  rw [matchedFiles, mem_files, List.mem_filter]
  rfl

/-- A listing in another order has the same matched files. -/
theorem matchedFiles_perm {ds : List Candidate} (h : cs.Perm ds) :
    (matchedFiles matcher cs).Perm (matchedFiles matcher ds) :=
  (h.filter _).filterMap _

/-- A file is matched once. -/
theorem matchedFiles_nodup (t : RemoteTree) : (matchedFiles matcher t.listing).Nodup := by
  have hpaths : (t.listing.map Prod.fst).Nodup := FileTree.entries_nodup t.named
  refine (hpaths.of_map.filter _).filterMap ?_
  rintro ⟨path, node⟩ ⟨path', node'⟩ r hr hr'
  match node, node', hr, hr' with
  | .leaf (.regular stat), .leaf (.regular stat'), hr, hr' =>
    obtain rfl := Option.mem_some_iff.mp hr
    obtain ⟨rfl, rfl⟩ := Prod.mk.inj (Option.mem_some_iff.mp hr')
    rfl

/-- An entry of a remote tree that is no file is a directory. -/
theorem matchesDirectory_iff : t.MatchesDirectory matcher ↔
    ∃ c ∈ t.listing, isMatched matcher c = true ∧ fileAt c = none := by
  constructor
  · rintro ⟨path, children, hmem, hmatch⟩
    exact ⟨_, hmem, hmatch, rfl⟩
  · rintro ⟨⟨path, node⟩, hmem, hmatch, hfile⟩
    match node, hmem, hfile with
    | .dir () children, hmem, _ => exact ⟨path, children, hmem, hmatch⟩
    | .leaf leaf, hmem, hfile =>
      obtain ⟨stat, rfl⟩ := t.regular hmem
      cases hfile

/-- Two paths of names are equal where their texts are. -/
theorem relativeText_inj {p q : List Text} (hp : p ≠ [] ∧ ∀ part ∈ p, IsPart part)
    (hq : q ≠ [] ∧ ∀ part ∈ q, IsPart part) (h : relativeText p = relativeText q) : p = q := by
  rw [← List.splitOn_intercalate slash (fun part hpart => (hp.2 part hpart).no_slash) hp.1,
    ← List.splitOn_intercalate slash (fun part hpart => (hq.2 part hpart).no_slash) hq.1]
  exact congrArg _ h

/-- Where there is no directory, rclone ends with 3. -/
theorem Answers.of_none {result : RunResult} (h : Answers pattern none result) :
    ∃ stdout stderr, result = .completed 3 stdout stderr := by
  cases h
  exact ⟨_, _, rfl⟩

/-- Where there is a directory, rclone lists what its filter includes. -/
theorem Answers.of_some {result : RunResult} (h : Answers pattern (some t) result) :
    ∃ stdout stderr files, result = .completed 0 stdout stderr ∧
      ListsIncluded t pattern stdout stderr files := by
  cases h with
  | listed h => exact ⟨_, _, _, rfl, h⟩

/-- **The local adapter** returns the matched files, unless a directory is matched or
there are too many. -/
theorem LocalTransfer.discover_cases (hmatcher : discoveryMatcher pattern = .ok matcher)
    (hlimit : positiveDiscoveryLimit maxMatches = .ok limit) (hwalk : cs.Perm t.listing) :
    (∃ found, discover (some cs) pattern maxMatches = .ok found ∧
      (∀ key, key ∈ found.map RemoteFile.key ↔
        key ∈ (matchedFiles matcher t.listing).map fun r => (relativeText r.1, r.2.size)) ∧
      ¬t.MatchesDirectory matcher ∧ (matchedFiles matcher t.listing).length ≤ limit) ∨
    (∃ message, discover (some cs) pattern maxMatches = refuse message) ∧
      (t.MatchesDirectory matcher ∨ limit < (matchedFiles matcher t.listing).length) := by
  have hperm := @matchedFiles_perm matcher _ _ hwalk
  have hdiscover : discover (some cs) pattern maxMatches =
      (scan matcher limit [] cs).map sortedFiles := by
    rw [discover, hmatcher, hlimit]
    rfl
  rw [hdiscover, matchesDirectory_iff, ← hperm.length_eq]
  rcases @scan_cases matcher limit [] cs
    (fun c hc => t.safe (hwalk.mem_iff.mp hc)) (Nat.zero_le _) with
    ⟨hscan, hall, hcount⟩ | ⟨⟨message, hscan⟩, hwhy⟩
  · rw [hscan]
    refine .inl ⟨_, rfl, fun key => ?_, ?_, by simpa using hcount⟩
    · rw [mem_keys_sortedFiles, List.nil_append, List.map_map]
      exact (hperm.map _).mem_iff
    · rintro ⟨c, hc, hmatch, hfile⟩
      have := hall c (hwalk.mem_iff.mpr hc) hmatch
      rw [hfile] at this
      cases this
  · rw [hscan]
    refine .inr ⟨⟨message, rfl⟩, hwhy.imp ?_ (by simp)⟩
    rintro ⟨c, hc, h⟩
    exact ⟨c, hwalk.mem_iff.mp hc, h⟩

/-- **The rclone adapter** returns the included files, unless one of them is not matched
or there are too many. -/
theorem RcloneSFTP.readListing_cases (hlimit : limit ≤ 512)
    (h : ListsIncluded t pattern stdout stderr files) :
    (∃ found, readListing matcher limit (.completed 0 stdout stderr) = .ok found ∧
      (∀ key, key ∈ found.map RemoteFile.key ↔
        key ∈ files.map fun r => (relativeText r.1, r.2.size)) ∧
      (∀ r ∈ files, matcher.fullmatch (relativeText r.1) = true) ∧ files.length ≤ limit) ∨
    (∃ message, readListing matcher limit (.completed 0 stdout stderr) = refuse message) ∧
      ((∃ r ∈ files, matcher.fullmatch (relativeText r.1) = false) ∨ limit < files.length) := by
  obtain ⟨items, hloads, hitems⟩ := h.listed
  obtain ⟨data, hdata, hbound⟩ := h.bounded
  have hmem := fun r hr => ((h.mem_iff r).mp hr).1
  rw [readListing, if_neg (by decide), h.quiet, if_neg Bool.false_ne_true, hdata]
  simp only
  split
  · next hlarge => exact .inr ⟨⟨_, rfl⟩, .inr (by omega)⟩
  · rw [hloads]
    simp only
    have honce : (files.map fun r => relativeText r.1).Nodup := by
      refine h.once.map_on fun r hr q hq heq => ?_
      have hpath := relativeText_inj (t.parts (hmem r hr)) (t.parts (hmem q hq)) heq
      have hr' := (FileTree.mem_entries t.named).mp (hmem r hr)
      have hq' := (FileTree.mem_entries t.named).mp (hmem q hq)
      rw [hpath] at hr'
      have hnode := Option.some.inj (hr'.2.symm.trans hq'.2)
      exact Prod.ext hpath (Leaf.regular.inj (FileTree.leaf.inj hnode))
    rcases @scan_cases matcher limit [] files items hitems (fun r hr => t.safe (hmem r hr)) honce
      (fun _ _ => nofun) (Nat.zero_le _) with ⟨made, hscan, hkeys, hall, hcount⟩ |
        ⟨⟨message, hscan⟩, hwhy⟩
    · rw [hscan]
      refine .inl ⟨_, rfl, fun key => ?_, hall, by simpa using hcount⟩
      rw [mem_keys_sortedFiles, List.nil_append, hkeys]
    · rw [hscan]
      exact .inr ⟨⟨message, rfl⟩, hwhy.imp_right (by simp)⟩

/-- What is included is matched, or deeper. -/
theorem mem_included_iff (hmatcher : discoveryMatcher pattern = .ok matcher)
    (h : ListsIncluded t pattern stdout stderr files) (r : FileAt) :
    r ∈ files ∧ matcher.fullmatch (relativeText r.1) = true ↔ r ∈ matchedFiles matcher t.listing := by
  rw [mem_matchedFiles, h.mem_iff]
  constructor
  · rintro ⟨⟨hmem, -, -⟩, hmatch⟩
    exact ⟨hmem, hmatch⟩
  · rintro ⟨hmem, hmatch⟩
    obtain ⟨hne, hparts⟩ := t.parts hmem
    exact ⟨⟨hmem, included_of_fullmatch hmatcher hparts hne hmatch⟩, hmatch⟩

/-- A deeper match is a listed file that does not match as a whole. -/
theorem hasDeeperMatch_iff (h : ListsIncluded t pattern stdout stderr files) :
    t.HasDeeperMatch pattern matcher ↔
      ∃ r ∈ files, matcher.fullmatch (relativeText r.1) = false := by
  constructor
  · rintro ⟨path, stat, hmem, hdepth, hincluded, hnot⟩
    exact ⟨(path, stat), (h.mem_iff _).mpr ⟨hmem, hdepth, hincluded⟩, hnot⟩
  · rintro ⟨⟨path, stat⟩, hr, hnot⟩
    obtain ⟨hmem, hdepth, hincluded⟩ := (h.mem_iff _).mp hr
    exact ⟨path, stat, hmem, hdepth, hincluded, hnot⟩

/-- Without deeper matches, what is listed is what is matched. -/
theorem included_perm (hmatcher : discoveryMatcher pattern = .ok matcher)
    (h : ListsIncluded t pattern stdout stderr files)
    (hall : ∀ r ∈ files, matcher.fullmatch (relativeText r.1) = true) :
    files.Perm (matchedFiles matcher t.listing) := by
  refine (List.perm_ext_iff_of_nodup h.once (matchedFiles_nodup t)).mpr fun r => ?_
  rw [← mem_included_iff hmatcher h r]
  exact ⟨fun hr => ⟨hr, hall r hr⟩, And.left⟩

/-- What refuses a listing is a deeper match, or too many matched files. -/
theorem deeper_or_many (hmatcher : discoveryMatcher pattern = .ok matcher)
    (h : ListsIncluded t pattern stdout stderr files)
    (hwhy : (∃ r ∈ files, matcher.fullmatch (relativeText r.1) = false) ∨ limit < files.length) :
    t.HasDeeperMatch pattern matcher ∨ limit < (matchedFiles matcher t.listing).length := by
  rw [hasDeeperMatch_iff h]
  by_cases hdeeper : ∃ r ∈ files, matcher.fullmatch (relativeText r.1) = false
  · exact .inl hdeeper
  · have hall : ∀ r ∈ files, matcher.fullmatch (relativeText r.1) = true := by simpa using hdeeper
    rw [← (included_perm hmatcher h hall).length_eq]
    exact .inr (hwhy.resolve_left hdeeper)

/-- A listing that is returned has no deeper match. -/
theorem not_deeper (h : ListsIncluded t pattern stdout stderr files)
    (hall : ∀ r ∈ files, matcher.fullmatch (relativeText r.1) = true) :
    ¬t.HasDeeperMatch pattern matcher := by
  rw [hasDeeperMatch_iff h]
  rintro ⟨r, hr, hnot⟩
  rw [hall r hr] at hnot
  cases hnot

/-- On one directory the adapters agree exactly when too many files are matched, or a directory
is matched just where a deeper file is listed. -/
theorem listings_agree_iff (hmatcher : discoveryMatcher pattern = .ok matcher)
    (hlimit : positiveDiscoveryLimit maxMatches = .ok limit) (hmax : limit ≤ 512)
    (hwalk : cs.Perm t.listing) (hlist : ListsIncluded t pattern stdout stderr files) :
    Agree (LocalTransfer.discover (some cs) pattern maxMatches)
        (RcloneSFTP.readListing matcher limit (.completed 0 stdout stderr)) ↔
      limit < (matchedFiles matcher t.listing).length ∨
        (t.MatchesDirectory matcher ↔ t.HasDeeperMatch pattern matcher) := by
  rcases LocalTransfer.discover_cases hmatcher hlimit hwalk with
    ⟨found, hlocal, hkeys, hnone, hfew⟩ | ⟨⟨message, hlocal⟩, hwhy⟩ <;>
    rcases @RcloneSFTP.readListing_cases _ _ _ matcher _ _ _ hmax hlist with
      ⟨found', hremote, hkeys', hall, hfew'⟩ | ⟨⟨message', hremote⟩, hwhy'⟩ <;>
    rw [hlocal, hremote]
  · -- both return
    refine iff_of_true (fun key => ?_) (.inr (iff_of_false hnone (not_deeper hlist hall)))
    rw [hkeys, hkeys']
    exact ((included_perm hmatcher hlist hall).map _).mem_iff.symm
  · -- only rclone's adapter refuses: something deeper is listed
    have hdeeper := (deeper_or_many hmatcher hlist hwhy').resolve_right (by omega)
    refine iff_of_false id ?_
    rintro (hmany | hiff)
    · omega
    · exact hnone (hiff.mpr hdeeper)
  · -- only the local adapter refuses: a directory is matched
    rw [(included_perm hmatcher hlist hall).length_eq] at hfew'
    have hdirectory := hwhy.resolve_right (by omega)
    refine iff_of_false id ?_
    rintro (hmany | hiff)
    · omega
    · exact not_deeper hlist hall (hiff.mp hdirectory)
  · -- both refuse
    refine iff_of_true ⟨rfl, rfl⟩ ?_
    rcases hwhy with hdirectory | hmany
    · rcases deeper_or_many hmatcher hlist hwhy' with hdeeper | hmany
      · exact .inr (iff_of_true hdirectory hdeeper)
      · exact .inl hmany
    · exact .inl hmany

/-- **When the adapters agree.** -/
theorem adapters_agree_iff {remote : Option RemoteTree} {candidates : Option (List Candidate)}
    {run : List Text → RunResult} (hmatcher : discoveryMatcher pattern = .ok matcher)
    (hmax : maxMatches ≤ 512) (hwalk : Walks remote candidates)
    (hrclone : Answers pattern remote (run (RcloneSFTP.listCommand c sourceRoot pattern))) :
    Agree (LocalTransfer.discover candidates pattern maxMatches)
        (RcloneSFTP.discover run c sourceRoot pattern maxMatches) ↔
      Uniform pattern matcher maxMatches remote := by
  have hrun : RcloneSFTP.discover run c sourceRoot pattern maxMatches =
      (positiveDiscoveryLimit maxMatches).bind fun limit =>
        RcloneSFTP.readListing matcher limit (run (RcloneSFTP.listCommand c sourceRoot pattern)) := by
    rw [RcloneSFTP.discover, hmatcher]
    rfl
  rw [hrun]
  rcases positiveDiscoveryLimit_cases maxMatches with ⟨message, hlimit, hrange⟩ |
    ⟨limit, hlimit, hpositive, rfl⟩
  · -- both refuse the limit
    have hlocal : LocalTransfer.discover candidates pattern maxMatches = refuse message := by
      rw [LocalTransfer.discover, hmatcher, hlimit]
      rfl
    rw [hlimit, hlocal]
    refine iff_of_true ⟨rfl, rfl⟩ ?_
    cases remote with
    | none => trivial
    | some t => exact .inl (by omega)
  rw [hlimit]
  match remote, candidates, hwalk with
  | none, none, _ =>
    have hlocal : LocalTransfer.discover none pattern limit = .ok [] := by
      rw [LocalTransfer.discover, hmatcher, hlimit]
      rfl
    obtain ⟨stdout, stderr, hanswer⟩ := hrclone.of_none
    rw [hlocal, hanswer]
    exact iff_of_true (fun key => .rfl) trivial
  | some t, some cs, hwalk =>
    obtain ⟨stdout, stderr, files, hanswer, hlist⟩ := hrclone.of_some
    have hcount : (limit : ℤ) < max 1 (matchedFiles matcher t.listing).length ↔
        limit < (matchedFiles matcher t.listing).length := by omega
    rw [hanswer, Except.bind, Uniform, hcount]
    exact listings_agree_iff hmatcher hlimit (by omega) hwalk hlist

end

/-! ## Samples -/

/-- Two directories with a file that is matched in each, and other files beside and below them. -/
def sampleChildren : List (Text × StatTree) :=
  [(txt "a", .dir () [(txt "m.json", .leaf (.regular ⟨3, 5⟩))]),
    (txt "b", .dir () [(txt "m.json", .leaf (.regular ⟨4, 6⟩)),
      (txt "log", .dir () [(txt "n.txt", .leaf (.regular ⟨2, 7⟩))])]),
    (txt "m.json", .leaf (.regular ⟨1, 8⟩))]

/-- A directory with one file, next to a deeper copy of it. -/
def nestedChildren : List (Text × StatTree) :=
  [(txt "a", .dir () [(txt "m.json", .leaf (.regular ⟨3, 5⟩))]),
    (txt "b", .dir () [(txt "a", .dir () [(txt "m.json", .leaf (.regular ⟨4, 6⟩))])])]

/-- An entry is no symlink and nothing special. -/
def isOrdinary : Candidate → Bool
  | (_, .leaf (.regular _)) | (_, .dir _ _) => true
  | _ => false

/-- An ordinary leaf is a regular file. -/
theorem regular_of_isOrdinary {cs : List Candidate} (h : ∀ c ∈ cs, isOrdinary c = true)
    {path : List Text} {leaf : Leaf FileStat} (hmem : (path, .leaf leaf) ∈ cs) :
    ∃ stat, leaf = .regular stat := by
  have hordinary := h _ hmem
  match leaf, hordinary with
  | .regular stat, _ => exact ⟨stat, rfl⟩

theorem isPart_sample : IsPart (txt "a") ∧ IsPart (txt "b") ∧ IsPart (txt "m.json") :=
  ⟨⟨by decide, by decide, by decide⟩, ⟨by decide, by decide, by decide⟩,
    by decide, by decide, by decide⟩

theorem isPart_log : IsPart (txt "log") ∧ IsPart (txt "n.txt") :=
  ⟨⟨by decide, by decide, by decide⟩, by decide, by decide, by decide⟩

def sampleRemote : RemoteTree where
  children := sampleChildren
  named := ⟨by decide, isPart_sample.1, ⟨by decide, isPart_sample.2.2, trivial, trivial⟩,
    isPart_sample.2.1, ⟨by decide, isPart_sample.2.2, trivial,
      isPart_log.1, ⟨by decide, isPart_log.2, trivial, trivial⟩, trivial⟩,
    isPart_sample.2.2, trivial, trivial⟩
  regular := regular_of_isOrdinary (by decide)
  safe := fun h => (by decide : ∀ c ∈ FileTree.entries everywhere (.dir () sampleChildren),
    isUnsafeRemote (relativeText c.1) = false) _ h

def nestedRemote : RemoteTree where
  children := nestedChildren
  named := ⟨by decide, isPart_sample.1, ⟨by decide, isPart_sample.2.2, trivial, trivial⟩,
    isPart_sample.2.1, ⟨by decide, isPart_sample.1, ⟨by decide, isPart_sample.2.2, trivial, trivial⟩,
      trivial⟩, trivial⟩
  regular := regular_of_isOrdinary (by decide)
  safe := fun h => (by decide : ∀ c ∈ FileTree.entries everywhere (.dir () nestedChildren),
    isUnsafeRemote (relativeText c.1) = false) _ h

/-- A glob for the file, wherever its directory is called. -/
def samplePattern : Text := txt "*/m.json"

/-- The regular expression of it. -/
def sampleMatcher : Regex :=
  Glob.joined slash ([txt "*", txt "m.json"].map (Glob.component star slash))

/-- What rclone prints about a file `m.json`. -/
def entryText (path size : String) : Text :=
  txt "\x7b\"Path\":\"" ++ txt path ++ txt "\",\"Name\":\"m.json\",\"Size\":" ++ txt size ++
    txt ",\"ModTime\":\"2026-01-01T00:00:00Z\",\"IsDir\":false\x7d"

/-- The two listings. -/
def sampleListing : Text :=
  txt "[\n" ++ entryText "a/m.json" "3" ++ txt ",\n" ++ entryText "b/m.json" "4" ++ txt "\n]\n"

def nestedListing : Text :=
  txt "[\n" ++ entryText "a/m.json" "3" ++ txt ",\n" ++ entryText "b/a/m.json" "4" ++ txt "\n]\n"

/-- The sample pattern is accepted. -/
theorem sampleMatcher_eq : discoveryMatcher samplePattern = .ok sampleMatcher := by rfl

/-- A text no end of which is matched is not included. -/
theorem not_included {pattern u : Text} {matcher : Regex}
    (hmatcher : discoveryMatcher pattern = .ok matcher)
    (h : ∀ v ∈ u.tails, matcher.fullmatch v = false) : ¬Included pattern u := by
  rintro ⟨s, hs, hu⟩
  have hsuffix : s <:+ u := by
    rcases hu with rfl | ⟨w, rfl⟩
    · exact List.suffix_refl u
    · exact ⟨w ++ [slash], by simp⟩
  have hnot := h s ((List.mem_tails s u).mpr hsuffix)
  rw [(fullmatch_iff hmatcher).mpr hs] at hnot
  cases hnot

/-- A listing of the files of a tree that are included. -/
theorem listsIncluded_of_mem {t : RemoteTree} {pattern stdout : Text} {files : List FileAt}
    {items : List Json} (hsub : ∀ r ∈ files, r ∈ t.listing.filterMap fileAt)
    (hincluded : ∀ r ∈ t.listing.filterMap fileAt,
      r ∈ files ↔ r.1.length ≤ 32 ∧ Included pattern (relativeText r.1))
    (honce : files.Nodup) (hloads : loads literalDecoder stdout = .ok (.arr items))
    (hitems : List.Forall₂ Describes files items)
    (hbound : encodeUtf8 stdout = some stdout ∧ stdout.length ≤ 8000 * files.length + 1000) :
    ListsIncluded t pattern stdout [] files where
  quiet := by decide
  mem_iff := fun r => ⟨fun hr => ⟨mem_files.mp (hsub r hr), (hincluded r (hsub r hr)).mp hr⟩,
    fun h => (hincluded r (mem_files.mpr h.1)).mpr h.2⟩
  once := honce
  listed := ⟨items, hloads, hitems⟩
  bounded := ⟨stdout, hbound⟩

/-- The object that is printed about a file. -/
def printed (path : Text) (size : ℕ) : Json :=
  .obj [(txt "Path", .str path), (txt "Name", .str (txt "m.json")), (txt "Size", .int size),
    (txt "ModTime", .str (txt "2026-01-01T00:00:00Z")), (txt "IsDir", .bool false)]

theorem describes_printed (r : FileAt) : Describes r (printed (relativeText r.1) r.2.size) :=
  ⟨rfl, rfl, ⟨_, by decide, rfl⟩, rfl⟩

/-- A path is included where the end of it, after a slash, matches. -/
theorem included_sample {u v : Text} (hmatch : sampleMatcher.fullmatch v = true)
    (h : u = [] ∨ ∃ w, u = w ++ [slash]) : Included samplePattern (u ++ v) := by
  refine ⟨v, (fullmatch_iff sampleMatcher_eq).mp hmatch, ?_⟩
  rcases h with rfl | ⟨w, rfl⟩
  · exact .inl rfl
  · exact .inr ⟨w, List.append_assoc _ _ _⟩

/-- A connection for the samples. -/
def sampleConnection : RcloneSFTP.Connection :=
  ⟨txt "198.51.100.7", 22022, txt "root", txt "/keys/id", txt "/runs/known_hosts"⟩

/-- rclone, where it prints that listing. -/
def printing (stdout : Text) (_ : List Text) : RunResult := .completed 0 stdout []

/-- The files of the first tree that are matched. -/
def sampleFiles : List FileAt :=
  [([txt "a", txt "m.json"], ⟨3, 5⟩), ([txt "b", txt "m.json"], ⟨4, 6⟩)]

theorem sampleRemote_files : sampleRemote.listing.filterMap fileAt =
    sampleFiles ++ [([txt "b", txt "log", txt "n.txt"], ⟨2, 7⟩), ([txt "m.json"], ⟨1, 8⟩)] := by rfl

/-- The files that are included are those that are matched. -/
theorem sample_included : ∀ r ∈ sampleRemote.listing.filterMap fileAt,
    r ∈ sampleFiles ↔ r.1.length ≤ 32 ∧ Included samplePattern (relativeText r.1) := by
  have hmatched :
      ∀ r ∈ sampleFiles, r.1.length ≤ 32 ∧ sampleMatcher.fullmatch (relativeText r.1) = true := by
    decide +kernel
  have hothers :
      ∀ r ∈ [([txt "b", txt "log", txt "n.txt"], (⟨2, 7⟩ : FileStat)), ([txt "m.json"], ⟨1, 8⟩)],
      r ∉ sampleFiles ∧ ∀ v ∈ (relativeText r.1).tails, sampleMatcher.fullmatch v = false := by
        decide +kernel
  rw [sampleRemote_files]
  intro r hr
  rcases List.mem_append.mp hr with hr | hr
  · exact iff_of_true hr ⟨(hmatched r hr).1, included_sample (u := []) (hmatched r hr).2 (.inl rfl)⟩
  · obtain ⟨hnot, htails⟩ := hothers r hr
    exact iff_of_false hnot fun h => not_included sampleMatcher_eq htails h.2

/-- What is printed for the sample tree is what rclone may print. -/
theorem sampleAnswers : Answers samplePattern (some sampleRemote) (printing sampleListing
    (RcloneSFTP.listCommand sampleConnection (txt "/workspace") samplePattern)) := by
  have hloads : loads literalDecoder sampleListing =
      .ok (.arr [printed (txt "a/m.json") 3, printed (txt "b/m.json") 4]) := by decide +kernel
  have hsub : ∀ r ∈ sampleFiles, r ∈ sampleRemote.listing.filterMap fileAt := by
    rw [sampleRemote_files]
    exact fun r hr => List.mem_append_left _ hr
  exact .listed (listsIncluded_of_mem hsub sample_included (by decide) hloads
    (.cons (describes_printed _) (.cons (describes_printed _) .nil))
      ⟨by decide +kernel, by decide +kernel⟩)

/-- What is printed for the nested tree is what rclone may print. -/
theorem nestedAnswers : Answers samplePattern (some nestedRemote) (printing nestedListing
    (RcloneSFTP.listCommand sampleConnection (txt "/workspace") samplePattern)) := by
  have hloads : loads literalDecoder nestedListing =
      .ok (.arr [printed (txt "a/m.json") 3, printed (txt "b/a/m.json") 4]) := by decide +kernel
  refine .listed (listsIncluded_of_mem (fun r hr => hr) (fun r hr => iff_of_true hr ?_)
    (by decide) hloads
    (.cons (describes_printed _) (.cons (describes_printed _) .nil))
      ⟨by decide +kernel, by decide +kernel⟩)
  have hall : ∀ r ∈ nestedRemote.listing.filterMap fileAt,
      r.1.length ≤ 32 ∧ Included samplePattern (relativeText r.1) := by
    refine List.forall_mem_cons.mpr
      ⟨⟨by decide, included_sample (u := []) (by decide) (.inl rfl)⟩, ?_⟩
    exact List.forall_mem_singleton.mpr
      ⟨by decide,
        included_sample (u := txt "b/") (v := txt "a/m.json") (by decide) (.inr ⟨txt "b", rfl⟩)⟩
  exact hall r hr

/-- Two files are matched, one of them beside a directory with a file that is not. -/
theorem adapters_agree_sample :
    Agree (LocalTransfer.discover (some sampleRemote.listing) samplePattern 4)
      (RcloneSFTP.discover (printing sampleListing) sampleConnection (txt "/workspace")
        samplePattern 4) := by
  have hwalk : Walks (some sampleRemote) (some sampleRemote.listing) := .refl _
  have hdirectory : ¬sampleRemote.MatchesDirectory sampleMatcher := by
    rw [matchesDirectory_iff]
    decide +kernel
  have hmatched : ∀ r ∈ sampleFiles, sampleMatcher.fullmatch (relativeText r.1) = true := by
    decide +kernel
  have hdeeper : ¬sampleRemote.HasDeeperMatch samplePattern sampleMatcher := by
    rintro ⟨path, stat, hmem, hdepth, hincluded, hnot⟩
    have hfile := (sample_included (path, stat) (mem_files.mpr hmem)).mpr ⟨hdepth, hincluded⟩
    rw [hmatched _ hfile] at hnot
    cases hnot
  have hcondition : Uniform samplePattern sampleMatcher 4 (some sampleRemote) :=
    .inr (iff_of_false hdirectory hdeeper)
  rw [adapters_agree_iff sampleMatcher_eq (by decide) hwalk sampleAnswers]
  exact hcondition

/-- **A deeper match.** The local adapter returns the one file that is matched, the other
refuses the listing. -/
theorem deeper_match_disagrees :
    discoveryMatcher samplePattern = .ok sampleMatcher ∧
      Walks (some nestedRemote) (some nestedRemote.listing) ∧
      Answers samplePattern (some nestedRemote) (printing nestedListing
        (RcloneSFTP.listCommand sampleConnection (txt "/workspace") samplePattern)) ∧
      LocalTransfer.discover (some nestedRemote.listing) samplePattern 4 =
        .ok [⟨txt "a/m.json", 3, txt "5"⟩] ∧
      RcloneSFTP.discover (printing nestedListing) sampleConnection (txt "/workspace")
        samplePattern 4 = refuse (txt "SFTP discovery returned a path outside the fixed glob") ∧
      ¬Agree (LocalTransfer.discover (some nestedRemote.listing) samplePattern 4)
        (RcloneSFTP.discover (printing nestedListing) sampleConnection (txt "/workspace")
          samplePattern 4) := by
  have hlocal : LocalTransfer.discover (some nestedRemote.listing) samplePattern 4 =
      .ok [⟨txt "a/m.json", 3, txt "5"⟩] := by decide +kernel
  have hremote : RcloneSFTP.discover (printing nestedListing) sampleConnection (txt "/workspace")
      samplePattern 4 = refuse (txt "SFTP discovery returned a path outside the fixed glob") := by
    decide +kernel
  refine ⟨sampleMatcher_eq, .refl _, nestedAnswers, hlocal, hremote, ?_⟩
  rw [hlocal, hremote]
  exact id

end Transfer

end RunpodJobrunner
