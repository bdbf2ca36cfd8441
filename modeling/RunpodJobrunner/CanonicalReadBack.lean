import RunpodJobrunner.CanonicalJson

/-!
# Canonical JSON is read back

A decimal is written as an integer or as a literal with a point, so canonical JSON is
what `json.dumps` writes of the value with its decimals replaced by those, and the
rules for that text apply. What is read back has the normalised decimals.
-/

namespace RunpodJobrunner

open Json Decimal

/-! ## Digits of a text -/

/-- A number has as many characters as digits. -/
theorem length_natText {n : ℕ} (h : n ≠ 0) : (natText n).length = digits n := by
  induction n using Nat.strong_induction_on with
  | _ n ih =>
    rw [natText_eq, digits]
    by_cases h10 : n < 10
    · rw [if_pos h10, Nat.log_of_lt h10]
      rfl
    · have hdiv := ih (n / 10) (by omega) (by omega)
      rw [if_neg h10, List.length_append, List.length_singleton, hdiv, digits, Nat.log_div_base]
      have hlog : 0 < Nat.log 10 n := Nat.log_pos (by norm_num) (by omega)
      omega

/-- The last character of a number is its last digit. -/
theorem natText_last (n : ℕ) : (natText n).getLast? = some (48 + n % 10) := by
  rw [natText_eq]
  split
  · next h => rw [Nat.mod_eq_of_lt h]; rfl
  · simp

/-- A decimal whose plain notation has at most 4000 digits. -/
def Decimal.IsPlain (d : Decimal) : Prop :=
  d.isFinite = true ∧ d.formatF.countP isDigit ≤ 4000

theorem countP_digits {t : Text} (h : ∀ c ∈ t, isDigit c = true) : t.countP isDigit = t.length :=
  List.countP_eq_length.mpr h

/-- Plain notation bounds the exponent from both sides. -/
theorem Decimal.IsPlain.bounds {neg : Bool} {coeff : ℕ} {exp : ℤ}
    (h : (Decimal.finite neg coeff exp).IsPlain) (h0 : coeff ≠ 0) :
    -4000 ≤ exp ∧ exp + digits coeff ≤ 4000 := by
  have hcount := h.2
  have hdigits := natText_digits coeff
  have hlength := length_natText h0
  have hzeros : ∀ k, (List.replicate k 48).countP isDigit = k := fun k =>
    (countP_digits fun c hc => List.eq_of_mem_replicate hc ▸ rfl).trans List.length_replicate
  have hsign : (if neg = true then [45] else []).countP isDigit = 0 := by cases neg <;> rfl
  rw [formatF, if_neg h0, List.countP_append, hsign, zero_add, plainText] at hcount
  split at hcount
  · next hexp =>
    rw [List.countP_append, countP_digits hdigits, hzeros] at hcount
    omega
  · next hexp =>
    simp only at hcount
    split at hcount
    · next hk =>
      have hall : ((natText coeff).take ((natText coeff).length - (-exp).toNat)).countP isDigit +
          ((natText coeff).drop ((natText coeff).length - (-exp).toNat)).countP isDigit =
          (natText coeff).length := by
        rw [← List.countP_append, List.take_append_drop, countP_digits hdigits]
      rw [List.countP_append, List.countP_cons] at hcount
      omega
    · next hk =>
      rw [List.countP_append, List.countP_append, countP_digits hdigits, hzeros] at hcount
      omega

/-- A plain decimal is inside the context. -/
theorem Decimal.IsPlain.inside {neg : Bool} {coeff : ℕ} {exp : ℤ}
    (h : (Decimal.finite neg coeff exp).IsPlain) (h0 : coeff ≠ 0) :
    defaultContext.Inside ⟨neg, coeff, exp⟩ := by
  obtain ⟨hlow, hhigh⟩ := h.bounds h0
  have hone : (1 : ℚ) ≤ coeff := by exact_mod_cast Nat.one_le_iff_ne_zero.mpr h0
  have hlt : (coeff : ℚ) < 10 ^ digits coeff := by exact_mod_cast Context.lt_pow_digits coeff
  refine ⟨?_, ?_⟩
  · calc (10 : ℚ) ^ (defaultContext.etiny + defaultContext.prec) ≤ 10 ^ exp :=
          zpow_le_zpow_right₀ (by norm_num) (by simp [Context.etiny, defaultContext]; omega)
      _ ≤ coeff * 10 ^ exp := le_mul_of_one_le_left (by positivity) hone
  · calc (coeff : ℚ) * 10 ^ exp ≤ 10 ^ digits coeff * 10 ^ exp :=
          mul_le_mul_of_nonneg_right hlt.le (by positivity)
      _ = 10 ^ (exp + digits coeff) := by
          rw [add_comm, zpow_add₀ (by norm_num), zpow_natCast]
      _ ≤ 10 ^ defaultContext.etop :=
          zpow_le_zpow_right₀ (by norm_num) (by simp [Context.etop, defaultContext]; omega)

/-! ## The numbers that are written -/

/-- A normalised number that plain notation shows. -/
structure IsShown (n : Number) : Prop where
  coeff : n.coeff ≠ 0
  last : n.exp < 0 → n.coeff % 10 ≠ 0
  short : n.coeff < 10 ^ 28
  low : -5000 ≤ n.exp
  high : n.magnitude < 10 ^ (4030 : ℤ)

/-- The integer a number with no fraction is. -/
def wholeOf (n : Number) : ℤ :=
  if n.neg then -(n.coeff * 10 ^ n.exp.toNat : ℕ) else (n.coeff * 10 ^ n.exp.toNat : ℕ)

/-- The whole part and the digits after the point of plain notation. -/
def plainParts (coeff : ℕ) (exp : ℤ) : ℕ × Text :=
  let digits := natText coeff
  let k := (-exp).toNat
  if k < digits.length then
    (digitsValue (digits.take (digits.length - k)), digits.drop (digits.length - k))
  else (0, List.replicate (k - digits.length) 48 ++ digits)

/-- What is written for a number: an integer, or a literal with a point. -/
def numberToken (n : Number) : Json :=
  if 0 ≤ n.exp then .int (wholeOf n)
  else
    match literalOf n.neg (plainParts n.coeff n.exp).1 (plainParts n.coeff n.exp).2 none with
    | some l => .float (.literal l)
    | none => .null

/-- What is read back for a number. -/
def rereadNumber (n : Number) : Json :=
  if 0 ≤ n.exp then .int (wholeOf n) else .decimal (.finite n.neg n.coeff n.exp)

section

variable {n : Number}

/-- A decimal with a point is its whole part, the point and its fraction. -/
theorem plainParts_text {coeff : ℕ} {exp : ℤ} (h0 : coeff ≠ 0) (hexp : exp < 0) :
    plainText coeff exp =
      natText (plainParts coeff exp).1 ++ 46 :: (plainParts coeff exp).2 ∧
    (∀ c ∈ (plainParts coeff exp).2, isDigit c = true) ∧ (plainParts coeff exp).2 ≠ [] ∧
    (natText (plainParts coeff exp).1).length ≤ (natText coeff).length := by
  have hdigits := natText_digits coeff
  have hne := natText_ne_nil coeff
  have hpos : 0 < (-exp).toNat := by omega
  have hlen : 0 < (natText coeff).length := List.length_pos_iff.mpr hne
  rw [plainText, if_neg (by omega), plainParts]
  simp only
  split
  · next hk =>
    set k := (-exp).toNat
    have htake : (natText coeff).take ((natText coeff).length - k) ≠ [] := by
      rw [ne_eq, List.take_eq_nil_iff, not_or]
      exact ⟨by omega, hne⟩
    have hlead : ((natText coeff).take ((natText coeff).length - k)).head? ≠ some 48 := by
      rw [List.head?_take, if_neg (by omega)]
      exact natText_head_ne_zero (Nat.pos_of_ne_zero h0)
    have htext := natText_digitsValue htake (fun c hc => hdigits c (List.mem_of_mem_take hc))
      fun _ => hlead
    rw [htext]
    refine ⟨rfl, fun c hc => hdigits c (List.mem_of_mem_drop hc), ?_, List.length_take_le' _ _⟩
    rw [ne_eq, List.drop_eq_nil_iff]
    omega
  · refine ⟨rfl, fun c hc => ?_, by simp [hne], ?_⟩
    · rcases List.mem_append.mp hc with hc | hc
      · exact List.eq_of_mem_replicate hc ▸ rfl
      · exact hdigits c hc
    · exact hlen

/-- A literal is written in plain notation. -/
theorem numberToken_literal (h0 : n.coeff ≠ 0) (hexp : n.exp < 0) :
    ∃ l, numberToken n = .float (.literal l) ∧
      literalText l = (if n.neg then [45] else []) ++ plainText n.coeff n.exp ∧
      (natText l.whole).length ≤ (natText n.coeff).length := by
  obtain ⟨htext, hfrac, hne, hlength⟩ := plainParts_text h0 hexp
  have hok : (∀ c ∈ (plainParts n.coeff n.exp).2, isDigit c = true) ∧
      (∀ e ∈ (none : Option (ℕ × Text × Text)), IsExponent e) ∧
      ((plainParts n.coeff n.exp).2 ≠ [] ∨ (none : Option (ℕ × Text × Text)).isSome = true) :=
    ⟨hfrac, nofun, .inl hne⟩
  refine ⟨_, by rw [numberToken, if_neg (by omega), literalOf, dif_pos hok], ?_, hlength⟩
  simp only [literalText, if_neg hne, exponentText, List.append_nil, htext, List.append_assoc]

/-- A whole number that is shown can be converted. -/
theorem IsShown.whole_short (h : IsShown n) (hexp : 0 ≤ n.exp) :
    (natText (wholeOf n).natAbs).length ≤ maxStrDigits := by
  have habs : (wholeOf n).natAbs = n.coeff * 10 ^ n.exp.toNat := by
    rw [wholeOf]
    split <;> omega
  have hpos : n.coeff * 10 ^ n.exp.toNat ≠ 0 :=
    Nat.mul_ne_zero h.coeff (Nat.pow_pos (by norm_num)).ne'
  have hlt : n.coeff * 10 ^ n.exp.toNat < 10 ^ 4030 := by
    have hhigh := h.high
    have hcast : (10 : ℚ) ^ n.exp = (10 ^ n.exp.toNat : ℕ) := by
      rw [Nat.cast_pow, ← zpow_natCast, Int.toNat_of_nonneg hexp]
      rfl
    rw [Number.magnitude, hcast] at hhigh
    exact_mod_cast hhigh
  rw [habs, length_natText hpos]
  exact (digits_le (by norm_num) hlt).trans (by decide)

/-- A number is written in plain notation. -/
theorem write_numberToken (h : IsShown n) : write rawText (numberToken n) =
    some ((if n.neg then [45] else []) ++ plainText n.coeff n.exp) := by
  by_cases hexp : 0 ≤ n.exp
  · have hpos : 0 < n.coeff * 10 ^ n.exp.toNat :=
      Nat.mul_pos (Nat.pos_of_ne_zero h.coeff) (Nat.pow_pos (by norm_num))
    have habs : (wholeOf n).natAbs = n.coeff * 10 ^ n.exp.toNat := by
      rw [wholeOf]
      split <;> omega
    have htext : plainText n.coeff n.exp = natText (wholeOf n).natAbs := by
      rw [plainText, if_pos hexp, habs, natText_mul_pow (Nat.pos_of_ne_zero h.coeff)]
    rw [numberToken, if_pos hexp, write, intText, if_pos (h.whole_short hexp), htext]
    cases hneg : n.neg with
    | false =>
      have hnot : ¬wholeOf n < 0 := by
        rw [wholeOf, hneg]
        simp
      rw [if_neg hnot]
      rfl
    | true =>
      have hlt : wholeOf n < 0 := by
        rw [wholeOf, if_pos hneg]
        omega
      rw [if_pos hlt]
      rfl
  · obtain ⟨l, hl, htext, -⟩ := numberToken_literal h.coeff (by omega)
    rw [hl, write, floatText, htext]

/-- A number is read back as it is. -/
theorem parseFloats_numberToken (h : IsShown n) :
    parseFloats (numberToken n) = some (rereadNumber n) := by
  by_cases hexp : 0 ≤ n.exp
  · rw [numberToken, rereadNumber, if_pos hexp, if_pos hexp]
    rfl
  · obtain ⟨l, hl, htext, -⟩ := numberToken_literal h.coeff (by omega)
    have hdigits : digits n.coeff ≤ 28 := digits_le (by norm_num) h.short
    have hrange : Decimal.InRange n.coeff n.exp := by
      rw [Decimal.InRange, length_natText h.coeff]
      have hlow := h.low
      simp only [Decimal.maxEmax, Decimal.minEtiny]
      omega
    have hread := (Decimal.ofText_plainText_eq n.neg n.coeff n.exp).trans
      (Decimal.readFinite_plainText n.neg (Nat.pos_of_ne_zero h.coeff) hrange)
    have hzero : n.exp.toNat = 0 := by omega
    rw [hl, parseFloats, htext, hread, rereadNumber, if_neg hexp, hzero, min_eq_left (by omega)]
    simp

/-- A number that is read again has its value. -/
theorem number_rereadNumber : (rereadNumber n).number = some n.value := by
  rw [rereadNumber]
  split
  · next hexp =>
    have hcast : (10 : ℚ) ^ n.exp = (10 ^ n.exp.toNat : ℕ) := by
      rw [Nat.cast_pow, ← zpow_natCast, Int.toNat_of_nonneg hexp]
      rfl
    rw [number, wholeOf, Number.value, Number.magnitude, hcast]
    split <;> push_cast <;> rfl
  · rw [number, Decimal.value, Number.value, Number.magnitude]
    split <;> simp

end

/-! ## The decimals that are written -/

section

variable {neg : Bool} {coeff : ℕ} {exp : ℤ}

/-- The normal form of a plain decimal can be shown, and has its value when that fits. -/
theorem Decimal.IsPlain.normalize (h : (Decimal.finite neg coeff exp).IsPlain) (h0 : coeff ≠ 0) :
    ∃ n, defaultContext.normalize ⟨neg, coeff, exp⟩ = some n ∧ IsShown n ∧
      (n.value = (Decimal.finite neg coeff exp).value ↔ defaultContext.Fits ⟨neg, coeff, exp⟩) := by
  obtain ⟨hlow, hhigh⟩ := h.bounds h0
  obtain ⟨n, hn, hform⟩ := Context.normalize_spec (h.inside h0) (by decide)
  have hdigits : 0 < digits coeff := by simp [digits]
  have hcoeff : n.coeff < 10 ^ 28 := hform.coeff_lt
  refine ⟨n, hn, ⟨hform.coeff_ne_zero, hform.last, hcoeff, ?_, ?_⟩, ?_⟩
  · -- the value is not small, and the coefficient is
    have hone : (1 : ℚ) ≤ coeff := by exact_mod_cast Nat.one_le_iff_ne_zero.mpr h0
    have hlarge := hform.lower (-4000) (by decide)
      ((zpow_le_zpow_right₀ (by norm_num) hlow).trans (le_mul_of_one_le_left (by positivity) hone))
    have hlt : (10 : ℚ) ^ (-4000 : ℤ) < 10 ^ (28 + n.exp) := by
      refine hlarge.trans_lt ?_
      rw [Number.magnitude, zpow_add₀ (by norm_num)]
      exact mul_lt_mul_of_pos_right (by exact_mod_cast hcoeff) (by positivity)
    have := (zpow_lt_zpow_iff_right₀ (by norm_num : (1 : ℚ) < 10)).mp hlt
    omega
  · refine hform.upper.trans_le (zpow_le_zpow_right₀ (by norm_num) ?_)
    simp only [defaultContext, Context.etiny]
    omega
  · rw [← hform.exact, Number.value, hform.neg, Decimal.value, Number.magnitude, Number.magnitude]
    cases neg <;> simp

/-- Nothing is stripped off a text that ends otherwise. -/
theorem rstrip_eq {c : ℕ} {t : Text} (h : t.getLast? ≠ some c) : rstrip c t = t := by
  rw [← List.head?_reverse] at h
  rw [rstrip, List.dropWhile_beq_eq_self_of_head?_ne h, List.reverse_reverse]

/-- Below the point, plain notation ends as the coefficient does. -/
theorem plainText_last {coeff : ℕ} {exp : ℤ} (hexp : exp < 0) :
    (plainText coeff exp).getLast? = some (48 + coeff % 10) := by
  have hne := natText_ne_nil coeff
  have hlast := natText_last coeff
  have hlen : 0 < (natText coeff).length := List.length_pos_iff.mpr hne
  rw [plainText, if_neg (by omega)]
  simp only
  split
  · next hk =>
    rw [List.getLast?_append_cons, List.getLast?_cons, List.getLast?_drop, if_neg (by omega), hlast]
    rfl
  · rw [List.getLast?_append_of_ne_nil _ hne, hlast]

/-- What the encoder writes for a decimal: no zero and no point is at its end. -/
theorem decimalText_eq {n : Number} (h0 : coeff ≠ 0)
    (hn : defaultContext.normalize ⟨neg, coeff, exp⟩ = some n) (h : IsShown n) :
    decimalText (.finite neg coeff exp) =
      some ((if n.neg then [45] else []) ++ plainText n.coeff n.exp) := by
  rw [decimalText, if_neg h0, hn, Option.map_some, formatF, if_neg h.coeff]
  simp only
  by_cases hexp : 0 ≤ n.exp
  · rw [if_neg]
    rw [plainText, if_pos hexp]
    have hdigits := natText_digits n.coeff
    intro hmem
    rcases List.mem_append.mp hmem with hmem | hmem
    · split at hmem <;> simp at hmem
    · rcases List.mem_append.mp hmem with hmem | hmem
      · exact absurd (hdigits 46 hmem) (by decide)
      · exact absurd (List.eq_of_mem_replicate hmem) (by decide)
  · obtain ⟨htext, -, -, -⟩ := plainParts_text h.coeff (by omega : n.exp < 0)
    have hne : plainText n.coeff n.exp ≠ [] := by
      rw [htext]
      simp
    have hlast : ((if n.neg = true then [45] else []) ++ plainText n.coeff n.exp).getLast? =
        some (48 + n.coeff % 10) := by
      rw [List.getLast?_append_of_ne_nil _ hne, plainText_last (by omega)]
    have hdigit := h.last (by omega)
    have hzero : rstrip 48 ((if n.neg = true then [45] else []) ++ plainText n.coeff n.exp) =
        (if n.neg = true then [45] else []) ++ plainText n.coeff n.exp := by
      apply rstrip_eq
      intro heq
      rw [hlast] at heq
      exact hdigit (by simpa using heq)
    rw [if_pos (by rw [htext]; simp), hzero, rstrip_eq]
    intro heq
    rw [hlast] at heq
    have := Option.some.inj heq
    omega

end

/-! ## The scalars that are written -/

/-- A Unicode scalar value: what UTF-8 has bytes for. -/
def IsScalarValue (c : ℕ) : Prop := c < 0xD800 ∨ 0xE000 ≤ c ∧ c < 0x110000

namespace Json

/-- What canonical JSON is for: no float, plain decimals and valid strings. -/
def IsCanonical : Json → Prop
  | float _ => False
  | decimal d => d.IsPlain
  | str t => ∀ c ∈ t, IsScalarValue c
  | _ => True

instance : DecidablePred Decimal.IsPlain := fun _ => inferInstanceAs (Decidable (_ ∧ _))

instance : DecidablePred IsScalarValue := fun _ => inferInstanceAs (Decidable (_ ∨ _))

instance : DecidablePred IsCanonical
  | float _ => .isFalse id
  | decimal d => inferInstanceAs (Decidable d.IsPlain)
  | str t => inferInstanceAs (Decidable (∀ c ∈ t, IsScalarValue c))
  | null | bool _ | int _ | arr _ | obj _ => .isTrue trivial

/-- Python converts the integer. -/
def IsShort : Json → Prop
  | int n => (natText n.natAbs).length ≤ maxStrDigits
  | _ => True

/-- The value of a decimal has no more significant digits than the default context. -/
def IsPrecise : Json → Prop
  | decimal (.finite neg coeff exp) => coeff = 0 ∨ defaultContext.Fits ⟨neg, coeff, exp⟩
  | _ => True

/-- What is written for a scalar. -/
def token : Json → Json
  | decimal (.finite neg coeff exp) =>
    if coeff = 0 then int 0
    else
      match defaultContext.normalize ⟨neg, coeff, exp⟩ with
      | some n => numberToken n
      | none => null
  | v => v

/-- What is read back for a scalar. -/
def reread : Json → Json
  | decimal (.finite neg coeff exp) =>
    if coeff = 0 then int 0
    else
      match defaultContext.normalize ⟨neg, coeff, exp⟩ with
      | some n => rereadNumber n
      | none => null
  | v => v

section

variable {v w : Json}

/-- The scalars by what is done with them. -/
theorem scalar_cases (hs : v.IsScalar) (hv : IsCanonical v) :
    (token v = v ∧ reread v = v ∧ (∀ x, v ≠ float x) ∧ IsPrecise v ∧ ∀ d, v ≠ decimal d) ∨
    (∃ neg exp, v = decimal (.finite neg 0 exp)) ∨
    ∃ neg coeff exp n, v = decimal (.finite neg coeff exp) ∧ coeff ≠ 0 ∧
      defaultContext.normalize ⟨neg, coeff, exp⟩ = some n ∧ IsShown n ∧
      (n.value = (Decimal.finite neg coeff exp).value ↔
        defaultContext.Fits ⟨neg, coeff, exp⟩) := by
  cases v with
  | arr vs | obj kvs => cases hs
  | float x => cases hv
  | decimal d =>
    cases d with
    | infinity neg | nan signaling => exact absurd hv.1 nofun
    | finite neg coeff exp =>
      by_cases h0 : coeff = 0
      · exact .inr (.inl ⟨neg, exp, by rw [h0]⟩)
      · obtain ⟨n, hn, hshown, hvalue⟩ := Decimal.IsPlain.normalize hv h0
        exact .inr (.inr ⟨neg, coeff, exp, n, rfl, h0, hn, hshown, hvalue⟩)
  | null | bool b | int n | str t => exact .inl ⟨rfl, rfl, nofun, trivial, nofun⟩

/-- The token of a number is an integer, a float or `null`. -/
theorem numberToken_cases (n : Number) :
    (∃ i, numberToken n = int i) ∨ (∃ l, numberToken n = float (.literal l)) ∨
      numberToken n = null := by
  rw [numberToken]
  split
  · exact .inl ⟨_, rfl⟩
  · split
    · exact .inr (.inl ⟨_, rfl⟩)
    · exact .inr (.inr rfl)

/-- Tokens leave strings as they are. -/
theorem keepsStrings_token : KeepsStrings token := by
  refine ⟨fun v hv => ?_, fun t => rfl⟩
  rw [token.eq_def]
  split
  · split
    · trivial
    · split
      · next n hn =>
        rcases numberToken_cases n with ⟨i, h⟩ | ⟨l, h⟩ | h <;> rw [h] <;> trivial
      · trivial
  · exact hv

/-- Reading again leaves strings as they are. -/
theorem keepsStrings_reread : KeepsStrings reread := by
  refine ⟨fun v hv => ?_, fun t => rfl⟩
  rw [reread.eq_def]
  split
  · split
    · trivial
    · split
      · rw [rereadNumber]
        split <;> trivial
      · trivial
  · exact hv

/-- The encoder writes what JSON writes of the token. -/
theorem encode_scalar (hs : v.IsScalar) (hv : IsCanonical v) :
    encode v = write rawText (token v) := by
  rcases scalar_cases hs hv with ⟨htoken, -, hfloat, -, hdecimal⟩ | ⟨neg, exp, rfl⟩ |
    ⟨neg, coeff, exp, n, rfl, h0, hn, hshown, -⟩
  · rw [htoken]
    cases v with
    | arr vs | obj kvs => cases hs
    | float x => exact absurd rfl (hfloat x)
    | decimal d => exact absurd rfl (hdecimal d)
    | null | bool b | int n | str t => rfl
  · rfl
  · rw [encode, decimalText_eq h0 hn hshown, token, if_neg h0, hn, write_numberToken hshown]

/-- The token is read back. -/
theorem parseFloats_scalar (hs : v.IsScalar) (hv : IsCanonical v) :
    parseFloats (token v) = some (reread v) := by
  rcases scalar_cases hs hv with ⟨htoken, hreread, hfloat, -, -⟩ | ⟨neg, exp, rfl⟩ |
    ⟨neg, coeff, exp, n, rfl, h0, hn, hshown, -⟩
  · rw [htoken, hreread]
    cases v with
    | arr vs | obj kvs => cases hs
    | float x => exact absurd rfl (hfloat x)
    | null | bool b | int n | str t | decimal d => rfl
  · rfl
  · rw [token, reread, if_neg h0, if_neg h0, hn]
    exact parseFloats_numberToken hshown

/-- The token of a scalar is written exactly when the scalar is short. -/
theorem isSome_scalar (hs : v.IsScalar) (hv : IsCanonical v) :
    (write rawText (token v)).isSome = true ↔ IsShort v := by
  rcases scalar_cases hs hv with ⟨htoken, -, hfloat, -, hdecimal⟩ | ⟨neg, exp, rfl⟩ |
    ⟨neg, coeff, exp, n, rfl, h0, hn, hshown, -⟩
  · rw [htoken]
    cases v with
    | arr vs | obj kvs => cases hs
    | float x => exact absurd rfl (hfloat x)
    | decimal d => exact absurd rfl (hdecimal d)
    | null | bool b | str t => simp [write, IsShort]
    | int n => simp [write, intText, IsShort]
  · exact iff_of_true rfl trivial
  · rw [token, if_neg h0, hn, write_numberToken hshown]
    exact iff_of_true rfl trivial

/-- The token of a scalar can be stored. -/
theorem storable_scalar (hs : v.IsScalar) (hv : IsCanonical v) :
    Storable literalDecoder (token v) := by
  rcases scalar_cases hs hv with ⟨htoken, -, hfloat, -, -⟩ | ⟨neg, exp, rfl⟩ |
    ⟨neg, coeff, exp, n, rfl, h0, hn, hshown, -⟩
  · rw [htoken]
    cases v with
    | arr vs | obj kvs => cases hs
    | float x => exact absurd rfl (hfloat x)
    | str t =>
      intro c hc
      have := hv c hc
      rw [IsScalarValue] at this
      omega
    | null | bool b | int n | decimal d => trivial
  · trivial
  · rw [token, if_neg h0, hn]
    by_cases hexp : 0 ≤ n.exp
    · simp only [numberToken, if_pos hexp]
      trivial
    · obtain ⟨l, hl, -, hlength⟩ := numberToken_literal hshown.coeff (by omega)
      simp only [hl]
      refine ⟨rfl, hlength.trans ?_⟩
      rw [length_natText hshown.coeff]
      exact (digits_le (by norm_num) hshown.short).trans (by decide)

/-- A character that UTF-8 has no bytes for. -/
def isUnencodable (c : ℕ) : Bool := (utf8Char c).isNone

/-- What UTF-8 cannot encode is a wide character. -/
theorem isWide_isUnencodable : IsWide isUnencodable := by
  intro c hc
  rw [isUnencodable, utf8Char, if_pos hc]
  rfl

/-- A scalar value can be encoded. -/
theorem isUnencodable_eq {c : ℕ} (h : IsScalarValue c) : isUnencodable c = false := by
  rw [IsScalarValue] at h
  rw [isUnencodable, utf8Char]
  split
  · rfl
  · split
    · rfl
    · split
      · rfl
      · rw [if_pos (by omega)]
        rfl

/-- The token of a scalar has no character that cannot be encoded. -/
theorem anyChar_scalar (hs : v.IsScalar) (hv : IsCanonical v) :
    anyChar isUnencodable (token v) = false := by
  rcases scalar_cases hs hv with ⟨htoken, -, hfloat, -, -⟩ | ⟨neg, exp, rfl⟩ |
    ⟨neg, coeff, exp, n, rfl, h0, hn, hshown, -⟩
  · rw [htoken]
    cases v with
    | arr vs | obj kvs => cases hs
    | str t =>
      rw [anyChar, List.any_eq_false]
      intro c hc
      simp [isUnencodable_eq (hv c hc)]
    | null | bool b | int n | decimal d | float x => rfl
  · rfl
  · rw [token, if_neg h0, hn]
    rcases numberToken_cases n with ⟨i, h⟩ | ⟨l, h⟩ | h <;> simp only [h] <;> rfl

/-- What is read back of a scalar: itself, or a number. -/
theorem reread_cases (hs : v.IsScalar) (hv : IsCanonical v) :
    (number v = none ∧ reread v = v ∧ IsPrecise v) ∨
      ∃ x y, number v = some x ∧ number (reread v) = some y ∧ (x = y ↔ IsPrecise v) := by
  rcases scalar_cases hs hv with ⟨-, hreread, hfloat, hprecise, hdecimal⟩ | ⟨neg, exp, rfl⟩ |
    ⟨neg, coeff, exp, n, rfl, h0, hn, hshown, hvalue⟩
  · rw [hreread]
    cases v with
    | arr vs | obj kvs => cases hs
    | float x => exact absurd rfl (hfloat x)
    | decimal d => exact absurd rfl (hdecimal d)
    | null | bool b | str t => exact .inl ⟨rfl, rfl, hprecise⟩
    | int n => exact .inr ⟨n, n, rfl, rfl, iff_of_true rfl hprecise⟩
  · refine .inr ⟨0, 0, ?_, rfl, iff_of_true rfl (.inl rfl)⟩
    simp [number, Decimal.value]
  · refine .inr ⟨_, n.value, rfl, ?_, ?_⟩
    · rw [reread, if_neg h0, hn]
      exact number_rereadNumber
    · rw [IsPrecise, or_iff_right h0, ← hvalue, eq_comm]

/-- Two numbers are the same where their values are. -/
theorem same_numbers {x y : ℚ} (hx : number v = some x) (hy : number w = some y) :
    same false v w = true ↔ x = y := by
  have hsame : same false v w = sameScalar false v w := by
    cases v with
    | arr vs | obj kvs => cases hx
    | _ => rfl
  have hunboxed : ∀ u, unboxed false u = u := by
    intro u
    cases u <;> rfl
  rw [hsame, sameScalar, hunboxed, hunboxed, hx, hy]
  exact beq_iff_eq

/-- A scalar that is no number is the same as itself. -/
theorem same_self (hs : v.IsScalar) (h : number v = none) : same false v v = true := by
  cases v with
  | arr vs | obj kvs => cases hs
  | _ => simp [same, sameScalar, unboxed, h]

/-- What is read back is equal to what was written when that is precise. -/
theorem same_scalar (hs : v.IsScalar) (hv : IsCanonical v) :
    same false v (reread v) = true ↔ IsPrecise v := by
  rcases reread_cases hs hv with ⟨hnumber, hreread, hprecise⟩ | ⟨x, y, hx, hy, hiff⟩
  · rw [hreread]
    exact iff_of_true (same_self hs hnumber) hprecise
  · rw [same_numbers hx hy, hiff]

/-- Precise scalars that are read back as one are equal. -/
theorem same_of_reread_eq (hv : v.IsScalar) (hw : w.IsScalar) (hpv : IsCanonical v ∧ IsPrecise v)
    (hpw : IsCanonical w ∧ IsPrecise w) (h : reread v = reread w) : same false v w = true := by
  rcases reread_cases hv hpv.1 with ⟨hnumber, hreread, -⟩ | ⟨x, y, hx, hy, hiff⟩ <;>
    rcases reread_cases hw hpw.1 with ⟨hnumber', hreread', -⟩ | ⟨x', y', hx', hy', hiff'⟩
  · obtain rfl : v = w := hreread.symm.trans (h.trans hreread')
    exact same_self hv hnumber
  · rw [← h, hreread, hnumber] at hy'
    cases hy'
  · rw [h, hreread', hnumber'] at hy
    cases hy
  · have hxy := hiff.mpr hpv.2
    have hxy' := hiff'.mpr hpw.2
    rw [h, hy'] at hy
    exact (same_numbers hx hx').mpr (hxy.trans ((Option.some.inj hy).symm.trans hxy'.symm))

end

end Json

/-! ## The values that are written -/

section

variable {v w : Json}

/-- `encode_eq`, of the elements of an array. -/
theorem encodeItems_eq {vs : List Json}
    (h : ∀ v ∈ vs, encode v = write rawText (mapScalars token v)) :
    encodeItems vs = writeItems rawText (vs.map (mapScalars token)) := by
  induction vs with
  | nil => rfl
  | cons v vs ih =>
    have hv := h v List.mem_cons_self
    have hvs := ih fun u hu => h u (List.mem_cons_of_mem _ hu)
    rw [encodeItems, List.map_cons, writeItems, hv, hvs]
    cases write rawText (mapScalars token v) with
    | none => rfl
    | some t =>
      cases writeItems rawText (vs.map (mapScalars token)) with
      | none => rfl
      | some u => simp only [List.isEmpty_map]

/-- `encode_eq`, of the members of an object. -/
theorem encodeMembers_eq {kvs : List (Text × Json)}
    (h : ∀ r ∈ kvs, encode r.2 = write rawText (mapScalars token r.2)) :
    encodeMembers kvs = writeMembers rawText (kvs.map fun r => (r.1, mapScalars token r.2)) := by
  induction kvs with
  | nil => rfl
  | cons r kvs ih =>
    have hr := h r List.mem_cons_self
    have hkvs := ih fun q hq => h q (List.mem_cons_of_mem _ hq)
    rw [encodeMembers, List.map_cons, writeMembers, hr, hkvs, List.isEmpty_map]
    rfl

/-- The encoder writes what JSON writes of the tokens. -/
theorem encode_eq (hv : Every IsCanonical v) : encode v = write rawText (mapScalars token v) := by
  induction v using induct with
  | scalar v hs =>
    rw [mapScalars_scalar hs]
    exact encode_scalar hs ((every_scalar hs).mp hv)
  | arr vs ih =>
    rw [mapScalars_arr, encode, write,
      encodeItems_eq fun v hmem => ih v hmem (every_arr.mp hv v hmem)]
  | obj kvs ih =>
    rw [mapScalars_obj, encode, write,
      encodeMembers_eq fun r hr => ih r hr ((every_obj.mp hv).2 r hr).2]

/-- Floats are parsed in every element. -/
theorem parseFloatItems_map {f g : Json → Json} {vs : List Json}
    (h : ∀ v ∈ vs, parseFloats (f v) = some (g v)) :
    parseFloatItems (vs.map f) = some (vs.map g) := by
  induction vs with
  | nil => rfl
  | cons v vs ih =>
    have hv := h v List.mem_cons_self
    have hvs := ih fun u hu => h u (List.mem_cons_of_mem _ hu)
    rw [List.map_cons, parseFloatItems, hv, hvs, List.map_cons]

/-- Floats are parsed in every value of a member. -/
theorem parseFloatMembers_map {f g : Json → Json} {kvs : List (Text × Json)}
    (h : ∀ r ∈ kvs, parseFloats (f r.2) = some (g r.2)) :
    parseFloatMembers (kvs.map fun r => (r.1, f r.2)) = some (kvs.map fun r => (r.1, g r.2)) := by
  induction kvs with
  | nil => rfl
  | cons r kvs ih =>
    have hr := h r List.mem_cons_self
    have hkvs := ih fun q hq => h q (List.mem_cons_of_mem _ hq)
    rw [List.map_cons, parseFloatMembers, hr, hkvs, List.map_cons]

/-- The tokens are read back. -/
theorem parseFloats_eq (hv : Every IsCanonical v) :
    parseFloats (mapScalars token v) = some (mapScalars reread v) := by
  induction v using induct with
  | scalar v hs =>
    rw [mapScalars_scalar hs, mapScalars_scalar hs]
    exact parseFloats_scalar hs ((every_scalar hs).mp hv)
  | arr vs ih =>
    rw [mapScalars_arr, mapScalars_arr, parseFloats,
      parseFloatItems_map fun v hmem => ih v hmem (every_arr.mp hv v hmem)]
    rfl
  | obj kvs ih =>
    rw [mapScalars_obj, mapScalars_obj, parseFloats,
      parseFloatMembers_map fun r hr => ih r hr ((every_obj.mp hv).2 r hr).2]
    rfl

/-- A text of scalar values is encoded. -/
theorem encodeUtf8_isSome {t : Text} (h : t.any isUnencodable = false) :
    ∃ data, encodeUtf8 t = some data := by
  induction t with
  | nil => exact ⟨[], rfl⟩
  | cons c t ih =>
    rw [List.any_cons, Bool.or_eq_false_iff] at h
    obtain ⟨data, hdata⟩ := ih h.2
    obtain ⟨b, hb⟩ := Option.isSome_iff_exists.mp (Option.isNone_eq_false_iff.mp h.1)
    exact ⟨b ++ data, by rw [encodeUtf8, hb, hdata]⟩

/-- Canonical JSON is written when every integer is short. -/
theorem canonicalJson_isSome (hv : Every IsCanonical v) :
    (canonicalJson v).isSome = true ↔ Every IsShort v := by
  have hsorted := (every_sortKeys v).mpr hv
  have hwritten : (write rawText (mapScalars token v.sortKeys)).isSome = true ↔ Every IsShort v :=
    (isSome_write (fun _ => trivial) (fun _ hs hu => isSome_scalar hs hu) v.sortKeys hsorted).trans
      (every_sortKeys v)
  rw [canonicalJson, encode_eq hsorted, ← hwritten]
  cases hw : write rawText (mapScalars token v.sortKeys) with
  | none => rfl
  | some t =>
    have hstorable := every_mapScalars (q := Storable literalDecoder) keepsStrings_token
      (fun _ hs hu => storable_scalar hs hu) v.sortKeys hsorted
    have hany := every_mapScalars (q := fun u => anyChar isUnencodable u = false) keepsStrings_token
      (fun _ hs hu => anyChar_scalar hs hu) v.sortKeys hsorted
    have htext :=
      textOf_write isWide_isUnencodable _ hw (storable_of_every (fun _ _ h => h) _ hstorable)
    rw [anyChar_of_every (fun _ _ h => h) _ hany] at htext
    obtain ⟨data, hdata⟩ := encodeUtf8_isSome htext.any
    rw [Option.bind_some, hdata]
    rfl

/-- **What canonical JSON is read back as.** -/
theorem loadsDecimal_canonicalJson {data : Bytes} (hv : Every IsCanonical v)
    (h : canonicalJson v = some data) : loadsDecimal data = some (mapScalars reread v.sortKeys) := by
  have hsorted := (every_sortKeys v).mpr hv
  obtain ⟨t, ht, hdata⟩ := Option.bind_eq_some_iff.mp h
  rw [encode_eq hsorted] at ht
  have hevery := every_mapScalars (q := Storable literalDecoder) keepsStrings_token
    (fun _ hs hu => storable_scalar hs hu) v.sortKeys hsorted
  have hstorable := storable_of_every (fun _ _ h => h) _ hevery
  have hdicts : literalDecoder.KeepsDicts := fun _ hnodup => lastWins_nodup hnodup
  have hloads : loads literalDecoder t = .ok (mapScalars token v.sortKeys) := by
    rw [loads_write ht (Storable.loadable hdicts _ hstorable), rawText, readBack_storable _ hstorable]
  rw [loadsDecimal, decode_encode hdata]
  simp only [hloads, parseFloats_eq hsorted]

end

end RunpodJobrunner
