import Mathlib.Data.List.Forall2
import RunpodJobrunner.Regex

/-!
# Glob patterns

A star matches within one component, every other character itself. A pattern is
compiled by its components, which are joined with the separator, and the regular
expression matches what the pattern does (`fullmatch_joined`). Nothing here depends on
the program being verified.
-/

namespace RunpodJobrunner

/-- What a pattern matches, for a star and a separator of components. -/
inductive Glob (star sep : ℕ) : Text → Text → Prop where
  | nil : Glob star sep [] []
  | star {p u t : Text} : sep ∉ u → Glob star sep p t → Glob star sep (star :: p) (u ++ t)
  | char {c : ℕ} {p t : Text} : c ≠ star → Glob star sep p t → Glob star sep (c :: p) (c :: t)

namespace Glob

/-- The regular expression of a component. -/
def component (star sep : ℕ) : Text → Regex
  | [] => .eps
  | c :: p =>
    .seq (if c = star then .star (.set fun x => x != sep) else .chr c) (component star sep p)

/-- The regular expressions of components, with the separator between them. -/
def joined (sep : ℕ) : List Regex → Regex
  | [] => .eps
  | [r] => r
  | r :: rs => .seq r (.seq (.chr sep) (joined sep rs))

section

variable {star sep : ℕ} {p q t : Text} {ps : List Text}

theorem append_iff : Glob star sep (p ++ q) t ↔
    ∃ u v, t = u ++ v ∧ Glob star sep p u ∧ Glob star sep q v := by
  induction p generalizing t with
  | nil =>
    constructor
    · exact fun h => ⟨[], t, rfl, .nil, h⟩
    · rintro ⟨u, v, rfl, hu, hv⟩
      cases hu
      exact hv
  | cons c p ih =>
    constructor
    · intro h
      cases h with
      | star hu h =>
        obtain ⟨v, w, rfl, hv, hw⟩ := ih.mp h
        exact ⟨_, w, (List.append_assoc _ _ _).symm, .star hu hv, hw⟩
      | char hc h =>
        obtain ⟨v, w, rfl, hv, hw⟩ := ih.mp h
        exact ⟨c :: v, w, rfl, .char hc hv, hw⟩
    · rintro ⟨u, v, rfl, hu, hv⟩
      cases hu with
      | star hs h =>
        rw [List.cons_append, List.append_assoc]
        exact .star hs (ih.mpr ⟨_, v, rfl, h, hv⟩)
      | char hc h => exact .char hc (ih.mpr ⟨_, v, rfl, h, hv⟩)

/-- A match has the separators of its pattern. -/
theorem count_eq (hne : sep ≠ star) (h : Glob star sep p t) : t.count sep = p.count sep := by
  induction h with
  | nil => rfl
  | star hu _ ih =>
    rw [List.count_append, List.count_eq_zero.mpr hu, ih, List.count_cons_of_ne hne.symm,
      Nat.zero_add]
  | char _ _ ih => rw [List.count_cons, List.count_cons, ih]

/-- A pattern without a star matches itself. -/
theorem literal_iff (hp : star ∉ p) : Glob star sep p t ↔ t = p := by
  constructor
  · intro h
    induction h with
    | nil => rfl
    | star _ _ _ => exact absurd List.mem_cons_self hp
    | char _ _ ih => rw [ih fun hmem => hp (List.mem_cons_of_mem _ hmem)]
  · rintro rfl
    induction t with
    | nil => exact .nil
    | cons c t ih =>
      obtain ⟨hc, ht⟩ := not_or.mp (mt List.mem_cons.mpr hp)
      exact .char (Ne.symm hc) (ih ht)

/-- **Components** are matched one by one. -/
theorem intercalate_iff (hne : sep ≠ star) (hps : ∀ part ∈ ps, sep ∉ part) (hnil : ps ≠ []) :
    Glob star sep ([sep].intercalate ps) t ↔ List.Forall₂ (Glob star sep) ps (t.splitOn sep) := by
  induction ps generalizing t with
  | nil => exact absurd rfl hnil
  | cons part ps ih =>
    have hpart := hps part List.mem_cons_self
    have hfree : ∀ {u}, Glob star sep part u → sep ∉ u := fun hu => by
      rw [← List.count_eq_zero, hu.count_eq hne, List.count_eq_zero]
      exact hpart
    cases ps with
    | nil =>
      have hsingle : [sep].intercalate [part] = part := by simp [List.intercalate]
      rw [hsingle]
      constructor
      · intro h
        rw [List.splitOn_eq_singleton (hfree h)]
        exact .cons h .nil
      · intro h
        obtain ⟨u, rest, hu, hrest, hsplit⟩ := List.forall₂_cons_left_iff.mp h
        obtain rfl := List.forall₂_nil_left_iff.mp hrest
        have ht : [sep].intercalate (t.splitOn sep) = t := List.intercalate_splitOn sep
        rw [hsplit] at ht
        obtain rfl : u = t := by simpa [List.intercalate] using ht
        exact hu
    | cons next ps =>
      have hrest := fun part hpart => hps part (List.mem_cons_of_mem _ hpart)
      have hpattern : [sep].intercalate (part :: next :: ps) =
          part ++ ([sep] ++ [sep].intercalate (next :: ps)) := by
        rw [List.intercalate_cons_cons, List.append_assoc]
      have hsep : star ∉ [sep] := fun hmem => hne (List.mem_singleton.mp hmem).symm
      rw [hpattern, append_iff]
      constructor
      · rintro ⟨u, v, rfl, hu, hv⟩
        obtain ⟨w, x, rfl, hw, hx⟩ := append_iff.mp hv
        obtain rfl := (literal_iff hsep).mp hw
        rw [List.singleton_append, List.splitOn_append_cons_self_of_not_mem (hfree hu)]
        exact .cons hu ((ih hrest (List.cons_ne_nil _ _)).mp hx)
      · intro h
        obtain ⟨u, rest, hu, hrest', hsplit⟩ := List.forall₂_cons_left_iff.mp h
        have hne' : rest ≠ [] := by
          rintro rfl
          cases hrest'
        have hjoin : [sep].intercalate (t.splitOn sep) = t := List.intercalate_splitOn sep
        have ht : u ++ ([sep] ++ [sep].intercalate rest) = t := by
          rw [← hjoin, hsplit, List.intercalate_cons_of_ne_nil hne', List.append_assoc]
        refine ⟨u, _, ht.symm, hu, append_iff.mpr ⟨[sep], _, rfl, (literal_iff hsep).mpr rfl, ?_⟩⟩
        rw [ih hrest (List.cons_ne_nil _ _), List.splitOn_intercalate sep _ hne']
        · exact hrest'
        · intro component hcomponent
          refine not_mem_of_mem_splitOn (t := t) ?_
          rw [hsplit]
          exact List.mem_cons_of_mem _ hcomponent

@[simp] theorem plain_component (p : Text) : (component star sep p).plain = true := by
  induction p with
  | nil => rfl
  | cons c p ih =>
    rw [component, Regex.plain, ih, Bool.and_true]
    split <;> rfl

/-- A component matches what its pattern does. -/
theorem lang_component : (component star sep p).Lang t ↔ Glob star sep p t := by
  induction p generalizing t with
  | nil =>
    rw [component, Regex.lang_eps]
    constructor
    · rintro rfl
      exact .nil
    · rintro ⟨⟩
      rfl
  | cons c p ih =>
    rw [component, Regex.lang_seq]
    constructor
    · rintro ⟨u, v, rfl, hu, hv⟩
      split at hu
      · next heq =>
        subst heq
        refine .star (fun hmem => ?_) (ih.mp hv)
        simpa using Regex.lang_star_set.mp hu sep hmem
      · next hne =>
        obtain rfl := Regex.lang_chr.mp hu
        exact .char hne (ih.mp hv)
    · intro h
      cases h with
      | @star _ u v hu h =>
        refine ⟨u, v, rfl, ?_, ih.mpr h⟩
        rw [if_pos rfl, Regex.lang_star_set]
        intro x hx
        simpa using fun heq : x = sep => hu (heq ▸ hx)
      | @char _ _ v hc h =>
        refine ⟨[c], v, rfl, ?_, ih.mpr h⟩
        rw [if_neg hc, Regex.lang_chr]

@[simp] theorem plain_joined (ps : List Text) :
    (joined sep (ps.map (component star sep))).plain = true := by
  induction ps with
  | nil => rfl
  | cons p ps ih =>
    cases ps with
    | nil => exact plain_component p
    | cons q ps =>
      rw [List.map_cons, List.map_cons, joined, Regex.plain, Regex.plain, plain_component,
        ← List.map_cons, ih]
      · rfl
      · exact List.cons_ne_nil _ _

/-- **A pattern** is matched by its components. -/
theorem fullmatch_joined (hne : sep ≠ star) :
    Regex.fullmatch (joined sep (ps.map (component star sep))) t = true ↔
      Glob star sep ([sep].intercalate ps) t := by
  rw [Regex.fullmatch_plain (plain_joined ps)]
  induction ps generalizing t with
  | nil => exact (@lang_component star sep [] t)
  | cons p ps ih =>
    cases ps with
    | nil => simpa [joined, List.intercalate] using lang_component
    | cons q ps =>
      have hsep : ∀ {v}, Glob star sep [sep] v ↔ v = [sep] := by
        intro v
        constructor
        · intro h
          cases h with
          | star _ _ => exact absurd rfl hne
          | char _ h =>
            cases h
            rfl
        · rintro rfl
          exact .char hne .nil
      have hpattern :
          [sep].intercalate (p :: q :: ps) = p ++ ([sep] ++ [sep].intercalate (q :: ps)) := by
        rw [List.intercalate_cons_cons, List.append_assoc]
      rw [List.map_cons, List.map_cons, joined, Regex.lang_seq, hpattern, append_iff]
      · refine exists₂_congr fun u v => and_congr_right fun _ => and_congr lang_component ?_
        rw [Regex.lang_seq, append_iff]
        refine exists₂_congr fun w x => and_congr_right fun _ => and_congr ?_ ih
        rw [Regex.lang_chr, hsep]
      · exact List.cons_ne_nil _ _

end

end Glob

end RunpodJobrunner
