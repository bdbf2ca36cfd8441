import Mathlib.Algebra.Group.Nat.Defs
import Mathlib.Data.List.Induction
import Mathlib.Order.Nat
import RunpodJobrunner.Text

/-!
# Decimal numerals

`natText` is `str(n)` of a nonnegative integer and `digitsValue` the number a
digit string denotes. They are inverse to each other on digit strings without a
leading zero, which is all that reading back a written number needs.
-/

namespace RunpodJobrunner

/-- The number denoted by a string of ASCII digits. -/
def digitsValue (t : Text) : ℕ := t.foldl (fun n c => 10 * n + (c - 48)) 0

/-- The last digits of `n`, at most one more than the fuel. -/
def natTextAux : ℕ → ℕ → Text
  | 0, n => [48 + n % 10]
  | fuel + 1, n =>
    if n < 10 then [48 + n] else natTextAux fuel (n / 10) ++ [48 + n % 10]

/-- `str(n)`. -/
def natText (n : ℕ) : Text := natTextAux n n

@[simp] theorem digitsValue_nil : digitsValue [] = 0 := rfl

theorem digitsValue_append_one (t : Text) (c : ℕ) :
    digitsValue (t ++ [c]) = 10 * digitsValue t + (c - 48) := by
  simp [digitsValue, List.foldl_append]

/-- Enough fuel is enough. -/
theorem natTextAux_fuel {f g n : ℕ} (hf : n ≤ f) (hg : n ≤ g) : natTextAux f n = natTextAux g n := by
  induction f generalizing g n with
  | zero =>
    obtain rfl : n = 0 := by omega
    cases g <;> rfl
  | succ f ih =>
    cases g with
    | zero =>
      obtain rfl : n = 0 := by omega
      rfl
    | succ g =>
      by_cases h : n < 10
      · simp [natTextAux, h]
      · simp only [natTextAux, h, if_false]
        rw [ih (g := g) (n := n / 10) (by omega) (by omega)]

/-- The recursion of `str` on nonnegative integers. -/
theorem natText_eq (n : ℕ) :
    natText n = if n < 10 then [48 + n] else natText (n / 10) ++ [48 + n % 10] := by
  cases n with
  | zero => rfl
  | succ n =>
    by_cases h : n + 1 < 10
    · simp [natText, natTextAux, h]
    · simp only [natText, natTextAux, h, if_false]
      rw [natTextAux_fuel (f := n) (g := (n + 1) / 10) (by omega) (le_refl _)]

/-- Reading a written number back. -/
@[simp] theorem digitsValue_natText (n : ℕ) : digitsValue (natText n) = n := by
  induction n using Nat.strong_induction_on with
  | _ n ih =>
    rw [natText_eq]
    by_cases h : n < 10
    · simp [h, digitsValue]
    · rw [if_neg h, digitsValue_append_one, ih (n / 10) (by omega)]
      omega

theorem natText_digits (n : ℕ) : ∀ c ∈ natText n, isDigit c = true := by
  induction n using Nat.strong_induction_on with
  | _ n ih =>
    rw [natText_eq]
    by_cases h : n < 10
    · rw [if_pos h]
      intro c hc
      obtain rfl := List.mem_singleton.mp hc
      simp [isDigit]
      omega
    · rw [if_neg h]
      intro c hc
      rcases List.mem_append.mp hc with hc | hc
      · exact ih (n / 10) (by omega) c hc
      · obtain rfl := List.mem_singleton.mp hc
        simp [isDigit]
        omega

theorem natText_ne_nil (n : ℕ) : natText n ≠ [] := by
  rw [natText_eq]
  by_cases h : n < 10 <;> simp [h]

/-- Only zero is written with a leading zero. -/
theorem natText_head_ne_zero {n : ℕ} (h : 0 < n) : (natText n).head? ≠ some 48 := by
  induction n using Nat.strong_induction_on with
  | _ n ih =>
    rw [natText_eq]
    by_cases h10 : n < 10
    · rw [if_pos h10]
      simp only [List.head?_cons, ne_eq, Option.some.injEq]
      omega
    · rw [if_neg h10, List.head?_append_of_ne_nil _ (natText_ne_nil _)]
      exact ih (n / 10) (by omega) (by omega)

@[simp] theorem natText_zero : natText 0 = [48] := rfl

/-- The value of a nonempty digit string that starts with a nonzero digit is positive. -/
theorem digitsValue_pos {c : ℕ} {t : Text} (hc : isDigit c = true) (h0 : c ≠ 48) :
    0 < digitsValue (c :: t) := by
  induction t using List.reverseRecOn with
  | nil =>
    simp only [isDigit, Bool.and_eq_true, decide_eq_true_eq] at hc
    simp [digitsValue]
    omega
  | append_singleton t d ih =>
    rw [← List.cons_append, digitsValue_append_one]
    omega

/-- **Uniqueness.** A digit string without a leading zero is what `str` writes
for its value. -/
theorem natText_digitsValue {t : Text} (hne : t ≠ []) (hdig : ∀ c ∈ t, isDigit c = true)
    (hlead : 1 < t.length → t.head? ≠ some 48) : natText (digitsValue t) = t := by
  induction t using List.reverseRecOn with
  | nil => exact absurd rfl hne
  | append_singleton t d ih =>
    have hd : isDigit d = true := hdig d (by simp)
    simp only [isDigit, Bool.and_eq_true, decide_eq_true_eq] at hd
    rw [digitsValue_append_one, natText_eq]
    by_cases hnil : t = []
    · subst hnil
      rw [if_pos (by simp; omega)]
      simp
      omega
    · have hhead : t.head? ≠ some 48 := by
        have := hlead (by
          have := List.length_pos_iff.mpr hnil
          simp only [List.length_append, List.length_singleton]
          omega)
        rwa [List.head?_append_of_ne_nil _ hnil] at this
      have hpos : 0 < digitsValue t := by
        obtain ⟨c, t', rfl⟩ := List.exists_cons_of_ne_nil hnil
        exact digitsValue_pos (hdig c (by simp)) (by rintro rfl; exact hhead rfl)
      rw [if_neg (by omega), show (10 * digitsValue t + (d - 48)) / 10 = digitsValue t by omega,
        ih hnil (fun c hc => hdig c (by simp [hc])) fun _ => hhead]
      congr 2
      omega

/-- Leading zeros do not count. -/
theorem digitsValue_zeros (n : ℕ) (t : Text) :
    digitsValue (List.replicate n 48 ++ t) = digitsValue t := by
  induction n with
  | zero => rfl
  | succ n ih =>
    rw [List.replicate_succ, List.cons_append, ← ih]
    rfl

/-- Multiplying by a power of ten appends zeros. -/
theorem natText_mul_pow {n : ℕ} (h : 0 < n) (k : ℕ) :
    natText (n * 10 ^ k) = natText n ++ List.replicate k 48 := by
  induction k with
  | zero => simp
  | succ k ih =>
    have hpos : 0 < n * 10 ^ k := Nat.mul_pos h (Nat.pow_pos (by decide))
    rw [Nat.pow_succ, ← Nat.mul_assoc, natText_eq, if_neg (by omega),
      Nat.mul_div_cancel _ (by decide), Nat.mul_mod_left, ih, List.append_assoc,
        ← List.replicate_succ']

end RunpodJobrunner
