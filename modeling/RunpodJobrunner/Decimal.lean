import Mathlib.Algebra.Order.Field.Rat
import Mathlib.Tactic.NormNum
import Mathlib.Tactic.Ring
import RunpodJobrunner.Numerals

/-!
# Decimal numbers

`decimal.Decimal` as the program uses it: reading a string, testing for
finiteness and sign, comparing with zero and writing plain notation
(`format(d, "f")`). A finite number keeps its coefficient and exponent, so
`1.50` and `1.5` are different representations of one value.
-/

namespace RunpodJobrunner

/-- A decimal: `±coeff·10^exp`, an infinity, or a NaN. -/
inductive Decimal : Type where
  | finite : (neg : Bool) → (coeff : ℕ) → (exp : ℤ) → Decimal
  | infinity : (neg : Bool) → Decimal
  | nan : (signaling : Bool) → Decimal
  deriving DecidableEq

namespace Decimal

/-- `d.is_finite()`. -/
def isFinite : Decimal → Bool
  | finite _ _ _ => true
  | _ => false

/-- `d == 0`. -/
def isZero : Decimal → Bool
  | finite _ coeff _ => coeff == 0
  | _ => false

/-- `d < 0`, of a number. -/
def isNegative : Decimal → Bool
  | finite neg coeff _ => neg && coeff != 0
  | infinity neg => neg
  | nan _ => false

/-- The rational number a finite decimal denotes. -/
def value : Decimal → ℚ
  | finite neg coeff exp => (if neg then -1 else 1) * coeff * (10 : ℚ) ^ exp
  | _ => 0

/-! ## Reading -/

/-- The zeros of the Unicode decimal digits (general category `Nd`). -/
def digitZeros : List ℕ :=
  [48, 1632, 1776, 1984, 2406, 2534, 2662, 2790, 2918, 3046, 3174, 3302, 3430, 3558, 3664, 3792,
    3872, 4160, 4240, 6112, 6160, 6470, 6608, 6784, 6800, 6992, 7088, 7232, 7248, 42528, 43216,
    43264, 43472, 43504, 43600, 44016, 65296, 66720, 68912, 69734, 69872, 69942, 70096, 70384,
    70736, 70864, 71248, 71360, 71472, 71904, 72016, 72784, 73040, 73120, 92768, 92864, 93008,
    120782, 120792, 120802, 120812, 120822, 123200, 123632, 125264, 130032]

/-- A Unicode decimal digit as the ASCII digit of the same value; anything else
is left alone. -/
def asciiDigit (c : ℕ) : ℕ :=
  match digitZeros.find? fun z => z ≤ c && c < z + 10 with
  | some z => 48 + (c - z)
  | none => c

/-- `str.strip()`. -/
def strip (t : Text) : Text := ((t.dropWhile isSpace).reverse.dropWhile isSpace).reverse

/-- Lowercase of ASCII letters. -/
def lower (c : ℕ) : ℕ := if 65 ≤ c && c ≤ 90 then c + 32 else c

/-- An optional sign, as whether it is a minus. -/
def takeSign : Text → Bool × Text
  | 45 :: t => (true, t)
  | 43 :: t => (false, t)
  | t => (false, t)

/-- The exponent part: nothing, or `e`, an optional sign and digits. -/
def readExponent : Text → Option ℤ
  | [] => some 0
  | c :: t =>
    let (neg, digits) := takeSign t
    if lower c = 101 ∧ digits ≠ [] ∧ digits.all isDigit then
      some (if neg then -(digitsValue digits : ℤ) else digitsValue digits)
    else none

/-- The bounds the exponent of an exact decimal must keep to. -/
def maxEmax : ℤ := 999999999999999999

/-- The least exponent of an exact decimal. -/
def minEtiny : ℤ := -1999999999999999997

/-- A number without its sign: digits with at most one point, then an exponent. -/
def readFinite (neg : Bool) (t : Text) : Option Decimal :=
  let whole := t.takeWhile isDigit
  let rest := t.dropWhile isDigit
  let (frac, rest) :=
    match rest with
    | 46 :: rest => (rest.takeWhile isDigit, rest.dropWhile isDigit)
    | _ => ([], rest)
  if whole ++ frac = [] then none
  else
    match readExponent rest with
    | none => none
    | some e =>
      let exp := e - frac.length
      let coeff := digitsValue (whole ++ frac)
      if exp + ((natText coeff).length : ℤ) - 1 ≤ maxEmax ∧ minEtiny ≤ exp then
        some (.finite neg coeff exp)
      else none

/-- `Decimal(text)`; `none` where it raises. -/
def ofText (text : Text) : Option Decimal :=
  let t := ((strip text).filter (· ≠ 95)).map asciiDigit
  let (neg, t) := takeSign t
  let word := t.map lower
  if word = txt "inf" ∨ word = txt "infinity" then some (.infinity neg)
  else if word.take 3 = txt "nan" ∧ (word.drop 3).all isDigit then some (.nan false)
  else if word.take 4 = txt "snan" ∧ (word.drop 4).all isDigit then some (.nan true)
  else readFinite neg t

/-! ## Writing -/

/-- Plain notation of `coeff·10^exp`. -/
def plainText (coeff : ℕ) (exp : ℤ) : Text :=
  let digits := natText coeff
  if 0 ≤ exp then digits ++ List.replicate exp.toNat 48
  else
    let k := (-exp).toNat
    if k < digits.length then digits.take (digits.length - k) ++ 46 :: digits.drop (digits.length - k)
    else txt "0." ++ List.replicate (k - digits.length) 48 ++ digits

/-- `format(d, "f")`. -/
def formatF : Decimal → Text
  | finite neg coeff exp =>
    (if neg then [45] else []) ++ plainText coeff (if coeff = 0 then min exp 0 else exp)
  | infinity neg => (if neg then [45] else []) ++ txt "Infinity"
  | nan signaling => if signaling then txt "sNaN" else txt "NaN"

/-- `str(d)`: plain notation, and scientific where the exponent is positive or the first digit
is below the sixth place. -/
def toText : Decimal → Text
  | finite neg coeff exp =>
    let digits := natText coeff
    let adjusted := exp + digits.length - 1
    (if neg then [45] else []) ++
      if exp ≤ 0 ∧ -6 ≤ adjusted then plainText coeff exp
      else
        digits.take 1 ++ (if digits.length = 1 then [] else 46 :: digits.drop 1) ++
          69 :: (if adjusted < 0 then 45 else 43) :: natText adjusted.natAbs
  | infinity neg => (if neg then [45] else []) ++ txt "Infinity"
  | nan signaling => if signaling then txt "sNaN" else txt "NaN"

example : toText (finite false 1 2) = txt "1E+2" := by decide

/-! ## Reading back -/

/-- The characters of plain notation. -/
def IsPlainChar (c : ℕ) : Prop := isDigit c = true ∨ c = 46

/-- Plain characters are the digits and the point. -/
theorem IsPlainChar.bounds {c : ℕ} (h : IsPlainChar c) : 46 ≤ c ∧ c ≤ 57 := by
  rcases h with h | rfl
  · simp only [isDigit, Bool.and_eq_true, decide_eq_true_eq] at h
    omega
  · omega

theorem asciiDigit_plain {c : ℕ} (h : IsPlainChar c) : asciiDigit c = c := by
  have hall : ∀ d < 58, 46 ≤ d → asciiDigit d = d := by decide
  exact hall c (by have := h.bounds; omega) h.bounds.1

theorem isSpace_plain {c : ℕ} (h : IsPlainChar c) : isSpace c = false := by
  have hall : ∀ d < 58, 46 ≤ d → isSpace d = false := by decide
  exact hall c (by have := h.bounds; omega) h.bounds.1

theorem lower_plain {c : ℕ} (h : IsPlainChar c) : lower c = c := by
  obtain ⟨hlow, hhigh⟩ := h.bounds
  rw [lower, if_neg]
  simp
  omega

/-- Nothing is stripped off plain characters. -/
theorem strip_plain {t : Text} (h : ∀ c ∈ t, IsPlainChar c) : strip t = t := by
  have hdrop : ∀ u : Text, (∀ c ∈ u, IsPlainChar c) → u.dropWhile isSpace = u := by
    intro u hu
    cases u with
    | nil => rfl
    | cons c u => rw [List.dropWhile_cons_of_neg]; simp [isSpace_plain (hu c List.mem_cons_self)]
  rw [strip, hdrop t h, hdrop t.reverse fun c hc => h c (List.mem_reverse.mp hc),
    List.reverse_reverse]

/-- White space at the end is stripped. -/
theorem strip_append_space {t : Text} {c : ℕ} (h : isSpace c = true) :
    strip (t ++ [c]) = strip t := by
  rw [strip, strip, List.dropWhile_append]
  split
  · next hempty =>
    rw [List.isEmpty_iff.mp hempty, List.dropWhile_cons_of_pos h]
    rfl
  · rw [List.reverse_append, List.reverse_singleton, List.singleton_append,
      List.dropWhile_cons_of_pos h]

/-- A word of plain characters that starts with a digit is read as a number, after a
minus too. -/
theorem ofText_signed {c : ℕ} {t : Text} (neg : Bool) (hc : isDigit c = true)
    (ht : ∀ d ∈ t, IsPlainChar d) :
    ofText ((if neg then [45] else []) ++ c :: t) = readFinite neg (c :: t) := by
  have hall : ∀ d ∈ c :: t, IsPlainChar d := List.forall_mem_cons.mpr ⟨.inl hc, ht⟩
  have hfilter : (c :: t).filter (· ≠ 95) = c :: t := by
    refine List.filter_eq_self.mpr fun d hd => ?_
    have := (hall d hd).bounds
    simp only [ne_eq, decide_eq_true_eq]
    omega
  have hascii : (c :: t).map asciiDigit = c :: t :=
    (List.map_congr_left fun d hd => asciiDigit_plain (hall d hd)).trans (List.map_id _)
  have hlower : (c :: t).map lower = c :: t :=
    (List.map_congr_left fun d hd => lower_plain (hall d hd)).trans (List.map_id _)
  have hbounds : 46 ≤ c ∧ c ≤ 57 := (hall c List.mem_cons_self).bounds
  have hsign : takeSign (c :: t) = (false, c :: t) := by
    have h45 : c ≠ 45 := by omega
    have h43 : c ≠ 43 := by omega
    simp [takeSign, h45, h43]
  have hstrip : strip ((if neg then [45] else []) ++ c :: t) =
      (if neg then [45] else []) ++ c :: t := by
    cases neg with
    | false => exact strip_plain hall
    | true =>
      have hrev : ((c :: t).reverse ++ [45]).dropWhile isSpace = (c :: t).reverse ++ [45] := by
        match hreverse : (c :: t).reverse with
        | [] => rfl
        | d :: u =>
          have hd : d ∈ c :: t := List.mem_reverse.mp (by simp [hreverse])
          rw [List.cons_append, List.dropWhile_cons_of_neg]
          simp [isSpace_plain (hall d hd)]
      have hminus : isSpace 45 = false := by decide
      simp only [if_true, strip, List.cons_append, List.nil_append, List.dropWhile_cons, hminus,
        Bool.false_eq_true, if_false]
      rw [List.reverse_cons, hrev]
      simp
  have hword : takeSign ((((if neg then [45] else []) ++ c :: t).filter (· ≠ 95)).map asciiDigit) =
      (neg, c :: t) := by
    rw [List.filter_append, List.map_append, hfilter, hascii]
    cases neg with
    | false => exact hsign
    | true => rfl
  rw [ofText, hstrip, hword]
  simp only [hlower]
  rw [if_neg, if_neg, if_neg]
  all_goals
    simp [txt]
    omega

/-- The bounds of an exact decimal. -/
def InRange (coeff : ℕ) (exp : ℤ) : Prop :=
  exp + ((natText coeff).length : ℤ) - 1 ≤ maxEmax ∧ minEtiny ≤ exp

/-- The digits at the front are taken up to what is no digit. -/
theorem takeWhile_digits {whole r : Text} (hwhole : ∀ c ∈ whole, isDigit c = true)
    (hrest : ∀ c, r.head? = some c → isDigit c = false) :
    (whole ++ r).takeWhile isDigit = whole ∧ (whole ++ r).dropWhile isDigit = r := by
  have hnone : r.takeWhile isDigit = [] ∧ r.dropWhile isDigit = r := by
    cases r with
    | nil => exact ⟨rfl, rfl⟩
    | cons c r => simp [hrest c rfl]
  rw [List.takeWhile_append_of_pos hwhole, List.dropWhile_append_of_pos hwhole, hnone.1, hnone.2,
    List.append_nil]
  exact ⟨rfl, rfl⟩

/-- Digits without a point. -/
theorem readFinite_whole {neg : Bool} {whole : Text} (hne : whole ≠ [])
    (hwhole : ∀ c ∈ whole, isDigit c = true) (h : InRange (digitsValue whole) 0) :
    readFinite neg whole = some (.finite neg (digitsValue whole) 0) := by
  obtain ⟨htake, hdrop⟩ := takeWhile_digits (r := []) hwhole (by simp)
  rw [List.append_nil] at htake hdrop
  simp only [readFinite, htake, hdrop, List.append_nil, if_neg hne, readExponent, List.length_nil]
  exact if_pos h

/-- Digits on both sides of a point. -/
theorem readFinite_point (neg : Bool) (whole frac : Text) (hne : whole ≠ [])
    (hwhole : ∀ c ∈ whole, isDigit c = true) (hfrac : ∀ c ∈ frac, isDigit c = true)
    (h : InRange (digitsValue (whole ++ frac)) (-frac.length)) :
    readFinite neg (whole ++ 46 :: frac) =
      some (.finite neg (digitsValue (whole ++ frac)) (-frac.length)) := by
  obtain ⟨htake, hdrop⟩ := takeWhile_digits (r := 46 :: frac) hwhole (by
    rintro c ⟨⟩
    rfl)
  obtain ⟨htake', hdrop'⟩ := takeWhile_digits (r := []) hfrac (by simp)
  rw [List.append_nil] at htake' hdrop'
  have hboth : whole ++ frac ≠ [] := by simp [hne]
  simp only [readFinite, htake, hdrop, htake', hdrop', if_neg hboth, readExponent, zero_sub]
  exact if_pos h

/-- A plain text consists of plain characters. -/
theorem plainText_plain (coeff : ℕ) (exp : ℤ) : ∀ c ∈ plainText coeff exp, IsPlainChar c := by
  have hdigits : ∀ c ∈ natText coeff, IsPlainChar c := fun c hc => .inl (natText_digits coeff c hc)
  have hzeros : ∀ n, ∀ c ∈ List.replicate n 48, IsPlainChar c := by
    intro n c hc
    obtain rfl := List.eq_of_mem_replicate hc
    exact .inl rfl
  intro c hc
  rw [plainText] at hc
  split at hc
  · exact (List.mem_append.mp hc).elim (hdigits c) (hzeros _ c)
  · simp only at hc
    split at hc
    · rcases List.mem_append.mp hc with hc | hc
      · exact hdigits c (List.mem_of_mem_take hc)
      · rcases List.mem_cons.mp hc with rfl | hc
        · exact .inr rfl
        · exact hdigits c (List.mem_of_mem_drop hc)
    · rcases List.mem_append.mp hc with hc | hc
      · rcases List.mem_append.mp hc with hc | hc
        · have h0 : txt "0." = [48, 46] := rfl
          rw [h0] at hc
          rcases List.mem_pair.mp hc with rfl | rfl
          · exact .inl rfl
          · exact .inr rfl
        · exact hzeros _ c hc
      · exact hdigits c hc

/-- Plain notation starts with a digit. -/
theorem plainText_start (coeff : ℕ) (exp : ℤ) :
    ∃ c t, plainText coeff exp = c :: t ∧ isDigit c = true := by
  have hdigits := natText_digits coeff
  obtain ⟨d, u, hdu⟩ := List.exists_cons_of_ne_nil (natText_ne_nil coeff)
  have hd : isDigit d = true := hdigits d (hdu ▸ List.mem_cons_self)
  rw [plainText]
  split
  · exact ⟨d, _, by rw [hdu, List.cons_append], hd⟩
  · simp only
    split
    · rename_i hk
      obtain ⟨n, hn⟩ := Nat.exists_eq_add_of_lt hk
      rw [hn, Nat.add_assoc, Nat.add_sub_cancel_left, hdu]
      exact ⟨d, _, rfl, hd⟩
    · exact ⟨48, _, rfl, rfl⟩

/-- Plain notation is read as a number. -/
theorem ofText_plainText_eq (neg : Bool) (coeff : ℕ) (exp : ℤ) :
    ofText ((if neg then [45] else []) ++ plainText coeff exp) =
      readFinite neg (plainText coeff exp) := by
  have hplain := plainText_plain coeff exp
  obtain ⟨c, t, hct, hc⟩ := plainText_start coeff exp
  rw [hct] at hplain ⊢
  exact ofText_signed neg hc fun d hd => hplain d (List.mem_cons_of_mem _ hd)

/-- **Plain notation is read back**: as the same number, with the exponent that
plain notation can show. -/
theorem readFinite_plainText (neg : Bool) {coeff : ℕ} {exp : ℤ} (h0 : 0 < coeff)
    (h : InRange coeff exp) : readFinite neg (plainText coeff exp) =
      some (.finite neg (coeff * 10 ^ exp.toNat) (min exp 0)) := by
  have hdigits := natText_digits coeff
  have hne := natText_ne_nil coeff
  obtain ⟨hhigh, hlow⟩ := h
  rw [plainText]
  split
  · rename_i hexp
    have hrange : InRange (coeff * 10 ^ exp.toNat) 0 := by
      rw [InRange, natText_mul_pow h0, List.length_append, List.length_replicate]
      have : minEtiny ≤ 0 := by decide
      omega
    rw [← natText_mul_pow h0, readFinite_whole (natText_ne_nil _) (natText_digits _)
      (by rwa [digitsValue_natText]), digitsValue_natText, min_eq_right hexp]
  · rename_i hexp
    obtain ⟨k, hk⟩ : ∃ k : ℕ, exp = -k := ⟨(-exp).toNat, by omega⟩
    have htoNat : (-exp).toNat = k := by omega
    have hzero : exp.toNat = 0 := by omega
    simp only [htoNat, hzero, pow_zero, mul_one, min_eq_left (not_le.mp hexp).le]
    split
    · rename_i hlen
      have hsplit := List.take_append_drop ((natText coeff).length - k) (natText coeff)
      have hlength : (List.drop ((natText coeff).length - k) (natText coeff)).length = k := by
        rw [List.length_drop]
        omega
      have hread := readFinite_point neg
        ((natText coeff).take ((natText coeff).length - k))
        ((natText coeff).drop ((natText coeff).length - k))
      rw [hsplit, hlength, digitsValue_natText, ← hk] at hread
      refine hread ?_ (fun c hc => hdigits c (List.mem_of_mem_take hc))
        (fun c hc => hdigits c (List.mem_of_mem_drop hc)) ⟨hhigh, hlow⟩
      simp [hne]
      omega
    · rename_i hlen
      have htext : txt "0." ++ List.replicate (k - (natText coeff).length) 48 ++ natText coeff =
          [48] ++ 46 :: (List.replicate (k - (natText coeff).length) 48 ++ natText coeff) := rfl
      have hvalue : digitsValue ([48] ++ (List.replicate (k - (natText coeff).length) 48 ++
          natText coeff)) = coeff := by
        rw [show [48] = List.replicate 1 48 from rfl, digitsValue_zeros, digitsValue_zeros,
          digitsValue_natText]
      have hlength :
          (List.replicate (k - (natText coeff).length) 48 ++ natText coeff).length = k := by
        rw [List.length_append, List.length_replicate]
        omega
      have hread := readFinite_point neg [48]
        (List.replicate (k - (natText coeff).length) 48 ++ natText coeff)
      rw [hvalue, hlength, ← hk] at hread
      rw [htext]
      refine hread (by simp) (by simp [isDigit]) (fun c hc => ?_) ⟨hhigh, hlow⟩
      rcases List.mem_append.mp hc with hc | hc
      · obtain rfl := List.eq_of_mem_replicate hc
        rfl
      · exact hdigits c hc

/-- A plain text is read as its number. -/
theorem ofText_plainText {coeff : ℕ} {exp : ℤ} (h0 : 0 < coeff) (h : InRange coeff exp) :
    ofText (plainText coeff exp) = some (.finite false (coeff * 10 ^ exp.toNat) (min exp 0)) :=
  (ofText_plainText_eq false coeff exp).trans (readFinite_plainText false h0 h)

/-- Plain notation keeps the value. -/
theorem value_plain (coeff : ℕ) (exp : ℤ) :
    (finite false (coeff * 10 ^ exp.toNat) (min exp 0)).value = (finite false coeff exp).value := by
  have hpow : (10 : ℚ) ^ exp.toNat * 10 ^ min exp 0 = 10 ^ exp := by
    rw [← zpow_natCast, ← zpow_add₀ (by norm_num)]
    congr 1
    omega
  rw [value, value, ← hpow]
  push_cast
  ring

/-- What is read as a number is within the bounds. -/
theorem inRange_of_readFinite {t : Text} {neg neg' : Bool} {coeff : ℕ} {exp : ℤ}
    (h : readFinite neg' t = some (.finite neg coeff exp)) : InRange coeff exp := by
  unfold readFinite at h
  dsimp only at h
  repeat' split at h
  all_goals cases h
  all_goals assumption

/-- What is read is in the range of decimals. -/
theorem inRange_of_ofText {t : Text} {neg : Bool} {coeff : ℕ} {exp : ℤ}
    (h : ofText t = some (.finite neg coeff exp)) : InRange coeff exp := by
  rw [ofText] at h
  simp only at h
  split at h
  · cases h
  split at h
  · cases h
  split at h
  · cases h
  exact inRange_of_readFinite h

end Decimal

/-! ## Money -/

/-- `_format_money`. -/
def formatMoney (money : Decimal) : Text := if money.isZero then txt "0" else money.formatF

/-- `_money` of a number; `none` where it raises `ValueError`. -/
def moneyOfDecimal (money : Decimal) : Option Text :=
  if !money.isFinite || money.isNegative then none else some (formatMoney money)

/-- `_money` of a decimal string or a number. -/
def moneyOf : Text ⊕ Decimal → Option Text
  | .inl text => (Decimal.ofText text).bind moneyOfDecimal
  | .inr money => moneyOfDecimal money

/-- An amount as `_money` writes it. -/
def IsMoney (t : Text) : Prop :=
  ∃ d : Decimal, d.isFinite = true ∧ d.isNegative = false ∧ t = formatMoney d

/-- What is taken as money has the text of money. -/
theorem isMoney_of_moneyOf {x : Text ⊕ Decimal} {t : Text} (h : moneyOf x = some t) : IsMoney t := by
  have hdecimal : ∀ d, moneyOfDecimal d = some t → IsMoney t := by
    intro d hd
    rw [moneyOfDecimal] at hd
    split at hd
    · cases hd
    · rename_i hbad
      obtain ⟨hfinite, hpositive⟩ : d.isFinite = true ∧ d.isNegative = false := by simpa using hbad
      exact ⟨d, hfinite, hpositive, (Option.some.inj hd).symm⟩
  cases x with
  | inr d => exact hdecimal d h
  | inl text =>
    obtain ⟨d, -, hd⟩ := Option.bind_eq_some_iff.mp h
    exact hdecimal d hd

example : moneyOf (.inl <| txt " 007.50\n") = some (txt "7.50") := by decide

example : moneyOf (.inl <| txt "1e3") = some (txt "1000") := by decide

example : moneyOf (.inl <| txt "-1") = none := by decide

end RunpodJobrunner
