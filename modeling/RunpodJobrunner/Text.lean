import Mathlib.Data.List.Basic

/-!
# Text: strings as lists of code points

A Python `str` is a sequence of code points (lone surrogates included), so text
is a list of numbers here. `txt` reads a literal into that form; equality of
texts is decidable and computes in the kernel, which is what keys, tags and
status words need.
-/

namespace RunpodJobrunner

/-- A Python string: its code points, in order. -/
abbrev Text := List ℕ

/-- Texts are compared by their code points. -/
instance : LawfulBEq Text := List.instLawfulBEq

/-- A literal as text. -/
def txt (s : String) : Text := s.toList.map Char.toNat

@[simp] theorem txt_inj {s t : String} : txt s = txt t ↔ s = t := by
  constructor
  · intro h
    have hchars : Function.Injective (List.map Char.toNat) :=
      List.map_injective_iff.mpr fun a b hab => Char.ext (UInt32.toNat_inj.mp hab)
    exact String.toList_injective (hchars h)
  · rintro rfl
    rfl

/-- The order of strings, by code points. -/
def textLe : Text → Text → Bool
  | [], _ => true
  | _ :: _, [] => false
  | a :: s, b :: t => a < b || (a == b && textLe s t)

/-- ASCII digits, the `[0-9]` of a regular expression. -/
def isDigit (c : ℕ) : Bool := 48 ≤ c && c ≤ 57

/-- The digits of a lowercase hexadecimal digest, `[0-9a-f]`. -/
def isHex (c : ℕ) : Bool := isDigit c || (97 ≤ c && c ≤ 102)

/-- ASCII letters. -/
def isAlpha (c : ℕ) : Bool := (65 ≤ c && c ≤ 90) || (97 ≤ c && c ≤ 122)

/-- `[0-9A-Za-z]`. -/
def isAlnum (c : ℕ) : Bool := isDigit c || isAlpha c

/-- `str.isspace` for one code point. -/
def isSpace (c : ℕ) : Bool :=
  (9 ≤ c && c ≤ 13) || (28 ≤ c && c ≤ 32) || c == 0x85 || c == 0xA0 || c == 0x1680 ||
  (0x2000 ≤ c && c ≤ 0x200A) || c == 0x2028 || c == 0x2029 || c == 0x202F || c == 0x205F ||
  c == 0x3000

/-- The C0 controls and DEL, which every path rule of the program refuses. -/
def isControl (c : ℕ) : Bool := c < 32 || c == 127

/-! ## Splitting -/

/-- `str.split`: a component has no separator. -/
theorem not_mem_of_mem_splitOn {α : Type} [BEq α] [LawfulBEq α] {a : α} {t part : List α}
    (h : part ∈ t.splitOn a) : a ∉ part := by
  induction t generalizing part with
  | nil =>
    simp only [List.splitOn_nil, List.mem_singleton] at h
    simp [h]
  | cons c t ih =>
    rw [List.splitOn_cons_eq_if_modifyHead] at h
    split at h
    · rcases List.mem_cons.mp h with rfl | h
      · simp
      · exact ih h
    · next hc =>
      match hsplit : t.splitOn a with
      | [] => exact absurd hsplit (List.splitOn_ne_nil a t)
      | first :: rest =>
        rw [hsplit, List.modifyHead_cons] at h
        rcases List.mem_cons.mp h with rfl | h
        · have hfirst := @ih first (by simp [hsplit])
          have hne : a ≠ c := fun heq => hc (by simp [heq])
          simp [hne, hfirst]
        · exact ih (by simp [hsplit, h])

/-- What has no separator belongs to the first component after it. -/
theorem splitOn_append {α : Type} [BEq α] [LawfulBEq α] {a : α} {s t : List α} (h : a ∉ s) :
    (s ++ t).splitOn a = (t.splitOn a).modifyHead (s ++ ·) := by
  induction s with
  | nil => cases hsplit : t.splitOn a <;> simp [hsplit]
  | cons c s ih =>
    obtain ⟨hc, hs⟩ := not_or.mp (mt List.mem_cons.mpr h)
    have hne : (c == a) = false := beq_eq_false_iff_ne.mpr (Ne.symm hc)
    rw [List.cons_append, List.splitOn_cons_eq_if_modifyHead, hne, ih hs, List.modifyHead_modifyHead]
    rfl

end RunpodJobrunner
