import Mathlib.Data.List.Infix
import RunpodJobrunner.DiscoveryAgreement
import RunpodJobrunner.InputVerification

/-!
# Manifest globs, admitted and split

A bundle's manifest glob is validated once at admission and again at run time, where the
components before the first star become a fixed directory. The two validators go by the
same rules (`IsGlob`), these hold of the part that is left, and the parts together match
what the whole does (`glob_splits`).
-/

namespace RunpodJobrunner

open Json Transfer

namespace Bundle

/-- The name of the field in the messages. -/
def globField : Text := txt "artifacts.incremental_manifest_glob"

/-- `_safe_incremental_manifest_glob`. -/
def safeIncrementalManifestGlob : Json → Except InputError Text
  | .str rawValue =>
    if rawValue = [] ∨ 512 < rawValue.length then
      bundleError (globField ++ txt " must be a non-empty string of at most 512 characters")
    else if occursIn [star, star] rawValue || (txt "?[]\x7b\x7d\\" ++ [0]).any rawValue.contains then
      bundleError (globField ++ txt " contains unsupported glob metacharacters")
    else if rawValue.any isControl then
      bundleError (globField ++ txt " contains control characters")
    else if isUnsafeGlob rawValue then
      bundleError
        (globField ++ txt " must be a normalized relative fixed glob with a fixed filename")
    else .ok rawValue
  | _ => bundleError (globField ++ txt " must be a non-empty string of at most 512 characters")

end Bundle

namespace Transfer

/-! ## What both validators accept -/

/-- The characters of an accepted pattern, and its length. -/
structure IsPlainText (pattern : Text) : Prop where
  length : pattern.length ≤ 512
  stars : occursIn [star, star] pattern = false
  plain : (txt "?[]\x7b\x7d\\" ++ [0]).any pattern.contains = false
  controls : pattern.any isControl = false

/-- The components of an accepted pattern. -/
structure IsGlob (parts : List Text) : Prop where
  text : IsPlainText (relativeText parts)
  ne_nil : parts ≠ []
  isPart : ∀ part ∈ parts, IsPart part
  ne_dots : ∀ part ∈ parts, part ≠ txt ".."
  name : (parts.getLast?.getD []).contains star = false
  length : parts.length ≤ 32
  count : (parts.map fun part => part.count star).sum ≤ 4

variable {pattern : Text} {parts front rest : List Text}

/-- The path of components. -/
def pathOf (parts : List Text) (h : ∀ part ∈ parts, IsPart part) : PurePosixPath :=
  ⟨[], parts, .inl rfl, h⟩

/-- A relative text is parsed to its parts. -/
theorem ofText_relativeText (hparts : ∀ part ∈ parts, IsPart part) (hne : parts ≠ []) :
    PurePosixPath.ofText (relativeText parts) = pathOf parts hparts := by
  have htext : (pathOf parts hparts).text = relativeText parts := PurePosixPath.text_relative rfl hne
  rw [← htext]
  exact PurePosixPath.ofText_text rfl hne

/-- The parts of a relative text are those it was made of. -/
theorem parts_relativeText (hparts : ∀ part ∈ parts, IsPart part) (hne : parts ≠ []) :
    (PurePosixPath.ofText (relativeText parts)).parts = parts := by
  rw [ofText_relativeText hparts hne]
  rfl

/-- The components decide whether a glob is refused. -/
theorem isUnsafeGlob_eq_false : isUnsafeGlob pattern = false ↔
    ∃ parts, pattern = relativeText parts ∧ parts ≠ [] ∧ (∀ part ∈ parts, IsPart part) ∧
      (∀ part ∈ parts, part ≠ txt "..") ∧ (parts.getLast?.getD []).contains star = false ∧
      parts.length ≤ 32 ∧ (parts.map fun part => part.count star).sum ≤ 4 := by
  simp only [isUnsafeGlob, Bool.or_eq_false_iff, decide_eq_false_iff_not, ne_eq, not_not,
    PurePosixPath.isAbsolute, List.any_eq_false, Bool.or_eq_true, decide_eq_true_eq, not_or]
  constructor
  · rintro ⟨⟨⟨⟨⟨⟨hroot, htext⟩, hsafe⟩, hne⟩, hname⟩, hlength⟩, hcount⟩
    have htail : (PurePosixPath.ofText pattern).parts = (PurePosixPath.ofText pattern).tail := by
      rw [PurePosixPath.parts, if_pos hroot]
    rw [htail] at hsafe hne hlength hcount
    exact ⟨_, htext.symm.trans (PurePosixPath.text_relative hroot hne), hne,
      (PurePosixPath.ofText pattern).tail_ok, fun part hpart => (hsafe part hpart).2, hname,
      Nat.not_lt.mp hlength, Nat.not_lt.mp hcount⟩
  · rintro ⟨parts, rfl, hne, hparts, hdots, hname, hlength, hcount⟩
    rw [ofText_relativeText hparts hne]
    refine ⟨⟨⟨⟨⟨⟨rfl, PurePosixPath.text_relative rfl hne⟩, fun part hpart => ?_⟩, hne⟩, hname⟩,
      Nat.not_lt.mpr hlength⟩, Nat.not_lt.mpr hcount⟩
    exact ⟨⟨(hparts part hpart).ne_nil, (hparts part hpart).ne_dot⟩, hdots part hpart⟩

/-- The checks of a validator, one after the other. -/
theorem checks_iff : (¬(pattern = [] ∨ 512 < pattern.length) ∧
      (occursIn [star, star] pattern || (txt "?[]\x7b\x7d\\" ++ [0]).any pattern.contains) = false ∧
      pattern.any isControl = false ∧ isUnsafeGlob pattern = false) ↔
    ∃ parts, pattern = relativeText parts ∧ IsGlob parts := by
  constructor
  · rintro ⟨hlength, hcharacters, hcontrols, hunsafe⟩
    obtain ⟨hstars, hplain⟩ := Bool.or_eq_false_iff.mp hcharacters
    obtain ⟨parts, rfl, hne, hparts, hdots, hname, hcount⟩ := isUnsafeGlob_eq_false.mp hunsafe
    have htext : IsPlainText (relativeText parts) :=
      ⟨Nat.not_lt.mp (not_or.mp hlength).2, hstars, hplain, hcontrols⟩
    exact ⟨parts, rfl, htext, hne, hparts, hdots, hname, hcount.1, hcount.2⟩
  · rintro ⟨parts, rfl, h⟩
    have hne : relativeText parts ≠ [] := fun heq => h.ne_nil <| by
      rw [← parts_relativeText h.isPart h.ne_nil, heq]
      decide
    exact ⟨not_or.mpr ⟨hne, Nat.not_lt.mpr h.text.length⟩,
      Bool.or_eq_false_iff.mpr ⟨h.text.stars, h.text.plain⟩, h.text.controls,
        isUnsafeGlob_eq_false.mpr
        ⟨parts, rfl, h.ne_nil, h.isPart, h.ne_dots, h.name, h.length, h.count⟩⟩

/-- **The matcher** of the run accepts the globs. -/
theorem discoveryMatcher_iff : (∃ matcher, discoveryMatcher pattern = .ok matcher) ↔
    ∃ parts, pattern = relativeText parts ∧ IsGlob parts := by
  simp only [← checks_iff, discoveryMatcher, refuse, ite_error_iff, Bool.not_eq_true]
  constructor
  · rintro ⟨_, h₁, h₂, h₃, h₄, _⟩
    exact ⟨h₁, h₂, h₃, h₄⟩
  · rintro ⟨h₁, h₂, h₃, h₄⟩
    exact ⟨_, h₁, h₂, h₃, h₄, rfl⟩

/-- And admission the same ones. -/
theorem safeIncrementalManifestGlob_iff {glob : Text} :
    Bundle.safeIncrementalManifestGlob (.str pattern) = .ok glob ↔
      glob = pattern ∧ ∃ parts, pattern = relativeText parts ∧ IsGlob parts := by
  simp only [← checks_iff, Bundle.safeIncrementalManifestGlob, Bundle.bundleError, ite_error_iff,
    Bool.not_eq_true]
  exact ⟨fun ⟨h₁, h₂, h₃, h₄, h⟩ => ⟨(Except.ok.inj h).symm, h₁, h₂, h₃, h₄⟩,
    fun ⟨h, h₁, h₂, h₃, h₄⟩ => ⟨h₁, h₂, h₃, h₄, congrArg Except.ok h.symm⟩⟩

/-! ## The split -/

/-- The text of a path is its first part, a slash and the rest. -/
theorem relativeText_cons {part : Text} (h : parts ≠ []) :
    relativeText (part :: parts) = part ++ ([slash] ++ relativeText parts) := by
  rw [relativeText, List.intercalate_cons_of_ne_nil h, List.append_assoc]
  rfl

theorem relativeText_singleton (part : Text) : relativeText [part] = part := by
  simp [relativeText, List.intercalate]

/-- The text of a path is that of its beginning, a slash and that of its end. -/
theorem relativeText_append (hfront : front ≠ []) (hrest : rest ≠ []) :
    relativeText (front ++ rest) = relativeText front ++ ([slash] ++ relativeText rest) := by
  induction front with
  | nil => exact absurd rfl hfront
  | cons part front ih =>
    cases front with
    | nil => rw [List.singleton_append, relativeText_cons hrest, relativeText_singleton]
    | cons next front =>
      have hne : next :: front ++ rest ≠ [] := List.cons_ne_nil _ _
      rw [List.cons_append, relativeText_cons hne, ih (List.cons_ne_nil _ _),
        relativeText_cons (List.cons_ne_nil _ _)]
      simp only [List.append_assoc]

/-- A path has a character of its components only, or the separator. -/
theorem star_not_mem_relativeText (h : ∀ part ∈ parts, star ∉ part) : star ∉ relativeText parts := by
  induction parts with
  | nil => exact List.not_mem_nil
  | cons part parts ih =>
    obtain ⟨hpart, hparts⟩ := List.forall_mem_cons.mp h
    by_cases hne : parts = []
    · rw [hne, relativeText_singleton]
      exact hpart
    · rw [relativeText_cons hne]
      have hslash : star ∉ [slash] := by decide
      simp only [List.mem_append, not_or]
      exact ⟨hpart, hslash, ih hparts⟩

/-- The text of the end of a path is the end of its text. -/
theorem suffix_relativeText (hrest : rest ≠ []) :
    relativeText rest <:+ relativeText (front ++ rest) := by
  by_cases hfront : front = []
  · rw [hfront]
    exact List.suffix_rfl
  · rw [relativeText_append hfront hrest, ← List.append_assoc]
    exact List.suffix_append _ _

/-- The end of a plain text is plain. -/
theorem IsPlainText.of_suffix {text : Text} (h : IsPlainText pattern) (hsuffix : text <:+ pattern) :
    IsPlainText text where
  length := hsuffix.length_le.trans h.length
  stars := by
    have hstars := h.stars
    rw [occursIn, List.any_eq_false] at hstars ⊢
    exact fun t ht => hstars t ((List.mem_tails _ _).mpr (((List.mem_tails _ _).mp ht).trans hsuffix))
  plain := by
    have hplain := h.plain
    rw [List.any_eq_false] at hplain ⊢
    exact fun c hc hmem => hplain c hc (by
      rw [List.contains_iff_mem] at hmem ⊢
      exact hsuffix.subset hmem)
  controls := by
    have hcontrols := h.controls
    rw [List.any_eq_false] at hcontrols ⊢
    exact fun c hc => hcontrols c (hsuffix.subset hc)

/-- What is left of a glob without its first components is a glob. -/
theorem IsGlob.of_append (h : IsGlob (front ++ rest)) (hne : rest ≠ []) : IsGlob rest where
  text := h.text.of_suffix (suffix_relativeText hne)
  ne_nil := hne
  isPart part hpart := h.isPart part (List.mem_append_right _ hpart)
  ne_dots part hpart := h.ne_dots part (List.mem_append_right _ hpart)
  name := by
    have hname := h.name
    rwa [List.getLast?_append_of_ne_nil _ hne] at hname
  length := by
    have hlength := h.length
    rw [List.length_append] at hlength
    omega
  count := by
    have hcount := h.count
    rw [List.map_append, List.sum_append] at hcount
    omega

/-- The index of the first component with a star, or of the last one. -/
def wildcardIndex (parts : List Text) : ℕ :=
  (parts.findIdx? fun part => part.contains star).getD (parts.length - 1)

/-- The pattern keeps a part at least. -/
theorem wildcardIndex_lt (hne : parts ≠ []) : wildcardIndex parts < parts.length := by
  have hpos := List.length_pos_of_ne_nil hne
  rw [wildcardIndex]
  cases hfind : parts.findIdx? fun part => part.contains star with
  | none =>
    rw [Option.getD_none]
    omega
  | some i =>
    rw [Option.getD_some]
    exact (List.findIdx?_eq_some_iff_getElem.mp hfind).1

/-- The components before it have no star. -/
theorem star_not_mem_take {part : Text} (hpart : part ∈ parts.take (wildcardIndex parts)) :
    star ∉ part := by
  rw [wildcardIndex] at hpart
  cases hfind : parts.findIdx? fun part => part.contains star with
  | none =>
    have hnone := List.findIdx?_eq_none_iff.mp hfind part (List.mem_of_mem_take hpart)
    simpa using hnone
  | some i =>
    rw [hfind, Option.getD_some] at hpart
    obtain ⟨hi, -, hbefore⟩ := List.findIdx?_eq_some_iff_getElem.mp hfind
    obtain ⟨j, hj, rfl⟩ := List.mem_take_iff_getElem.mp hpart
    simpa using hbefore j (by omega)

/-- A glob is split before its first wildcard. -/
theorem validateDiscoveryPattern_eq (h : IsGlob parts) :
    validateDiscoveryPattern (relativeText parts) =
      .ok ⟨relativeText (parts.take (wildcardIndex parts)),
        relativeText (parts.drop (wildcardIndex parts))⟩ := by
  obtain ⟨matcher, hmatcher⟩ := discoveryMatcher_iff.mpr ⟨parts, rfl, h⟩
  rw [validateDiscoveryPattern, hmatcher]
  simp only [parts_relativeText h.isPart h.ne_nil]
  rfl

/-- The path below the fixed directory, as the executor gives it. -/
def DiscoveryPattern.rejoin (plan : DiscoveryPattern) (path : Text) : Text :=
  if plan.fixedPrefix = [] then path else plan.fixedPrefix ++ ([slash] ++ path)

/-- **Splitting preserves** what a glob matches. -/
theorem glob_rejoin_iff (hfront : ∀ part ∈ front, IsPart part ∧ star ∉ part) (hrest : rest ≠ [])
    {p : Text} :
    Glob star slash (relativeText (front ++ rest)) p ↔
      ∃ q, p = DiscoveryPattern.rejoin ⟨relativeText front, relativeText rest⟩ q ∧
        Glob star slash (relativeText rest) q := by
  by_cases hnil : front = []
  · subst hnil
    simp [DiscoveryPattern.rejoin, relativeText]
  · obtain ⟨part, front', rfl⟩ := List.exists_cons_of_ne_nil hnil
    have hprefix : relativeText (part :: front') ≠ [] := fun heq => hnil <| by
      rw [← parts_relativeText (fun p hp => (hfront p hp).1) hnil, heq]
      decide
    have hliteral : ∀ {u}, Glob star slash (relativeText (part :: front')) u ↔
        u = relativeText (part :: front') :=
      Glob.literal_iff (star_not_mem_relativeText fun p hp => (hfront p hp).2)
    rw [relativeText_append hnil hrest, Glob.append_iff]
    constructor
    · rintro ⟨u, v, rfl, hu, hv⟩
      obtain ⟨w, q, rfl, hw, hq⟩ := Glob.append_iff.mp hv
      obtain rfl := (Glob.literal_iff (by decide)).mp hw
      obtain rfl := hliteral.mp hu
      exact ⟨q, by rw [DiscoveryPattern.rejoin, if_neg hprefix], hq⟩
    · rintro ⟨q, rfl, hq⟩
      rw [DiscoveryPattern.rejoin, if_neg hprefix]
      exact ⟨_, _, rfl, hliteral.mpr rfl,
        Glob.append_iff.mpr ⟨[slash], q, rfl, (Glob.literal_iff (by decide)).mpr rfl, hq⟩⟩

/-- **A glob that is admitted** is accepted when it is split, the part that is left is
accepted, the parts match together what the whole does, and that is what its components
match. -/
theorem glob_splits {pattern glob : Text}
    (h : Bundle.safeIncrementalManifestGlob (.str pattern) = .ok glob) :
    ∃ plan whole relative, validateDiscoveryPattern pattern = .ok plan ∧
      discoveryMatcher pattern = .ok whole ∧ discoveryMatcher plan.relativePattern = .ok relative ∧
      ∀ p, (whole.fullmatch p = true ↔ ∃ q, p = plan.rejoin q ∧ relative.fullmatch q = true) ∧
        (whole.fullmatch p = true ↔
          List.Forall₂ (Glob star slash) (pattern.splitOn slash) (p.splitOn slash)) := by
  obtain ⟨-, parts, rfl, hglob⟩ := safeIncrementalManifestGlob_iff.mp h
  have hsplit := List.take_append_drop (wildcardIndex parts) parts
  have hrest : parts.drop (wildcardIndex parts) ≠ [] := by
    rw [List.ne_nil_iff_length_pos, List.length_drop]
    exact Nat.sub_pos_of_lt (wildcardIndex_lt hglob.ne_nil)
  have hfront : ∀ part ∈ parts.take (wildcardIndex parts), IsPart part ∧ star ∉ part :=
    fun part hpart =>
    ⟨hglob.isPart part (List.mem_of_mem_take hpart), star_not_mem_take hpart⟩
  have hslash : ∀ part ∈ parts, slash ∉ part := fun part hpart => (hglob.isPart part hpart).no_slash
  obtain ⟨whole, hwhole⟩ := discoveryMatcher_iff.mpr ⟨parts, rfl, hglob⟩
  obtain ⟨relative, hrelative⟩ := discoveryMatcher_iff.mpr
    ⟨_, rfl, IsGlob.of_append (by rwa [hsplit]) hrest⟩
  refine ⟨_, whole, relative, validateDiscoveryPattern_eq hglob, hwhole, hrelative, fun p => ⟨?_, ?_⟩⟩
  · simp only [fullmatch_iff hwhole, fullmatch_iff hrelative]
    rw [← glob_rejoin_iff hfront hrest, hsplit]
  · rw [fullmatch_iff hwhole, relativeText, Glob.intercalate_iff (by decide) hslash hglob.ne_nil,
      List.splitOn_intercalate slash hslash hglob.ne_nil]

theorem glob_splits_sample :
    ∃ plan whole relative, validateDiscoveryPattern (txt "out/step-*/m.json") = .ok plan ∧
      discoveryMatcher (txt "out/step-*/m.json") = .ok whole ∧
      discoveryMatcher plan.relativePattern = .ok relative ∧
      ∀ p, (whole.fullmatch p = true ↔ ∃ q, p = plan.rejoin q ∧ relative.fullmatch q = true) ∧
        (whole.fullmatch p = true ↔
          List.Forall₂ (Glob star slash) ((txt "out/step-*/m.json").splitOn slash)
          (p.splitOn slash)) := by
  have haccepted : Bundle.safeIncrementalManifestGlob (.str (txt "out/step-*/m.json")) =
      .ok (txt "out/step-*/m.json") := by decide +kernel
  exact glob_splits haccepted

end Transfer

end RunpodJobrunner
