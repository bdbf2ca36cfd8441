import Mathlib.Data.Nat.Cast.Field
import RunpodJobrunner.DecimalNormalize

/-!
# Products and quotients of decimal numbers

Multiplication and division in a context. A product is formed exactly and then fixed.
A quotient has at least two digits more than the context keeps, the last of which is
moved off zero and five when the division leaves a remainder, so that fixing it rounds
the exact quotient.

What rounding does is said by the numbers it can reach: the result is `c` units of its
last place or more exactly when the exact value `RoundsTo` that (`fix_units`,
`div_units`), and an integer or more exactly when the exact value is less than half a
unit below it (`le_fix_iff`). Nothing here depends on the program being verified.
-/

namespace RunpodJobrunner

namespace Number

variable {a b : Number}

/-- The exact product. -/
def times (a b : Number) : Number := ⟨a.neg ^^ b.neg, a.coeff * b.coeff, a.exp + b.exp⟩

theorem times_magnitude (a b : Number) : (a.times b).magnitude = a.magnitude * b.magnitude := by
  simp only [times, magnitude, Nat.cast_mul, zpow_add₀ (by norm_num : (10 : ℚ) ≠ 0)]
  ring

/-- How many digits the dividend is moved to the left. -/
def shift (prec : ℕ) (a b : Number) : ℤ := digits b.coeff - digits a.coeff + prec + 1

/-- The integers that are divided, after the shift. -/
def shifted (prec : ℕ) (a b : Number) : ℕ × ℕ :=
  if 0 ≤ shift prec a b then (a.coeff * 10 ^ (shift prec a b).toNat, b.coeff)
  else (a.coeff, b.coeff * 10 ^ (-shift prec a b).toNat)

/-- The quotient before it is fixed: one that is not exact does not end in `0` or `5`. -/
def quotient (prec : ℕ) (a b : Number) : Number :=
  let neg := a.neg ^^ b.neg
  let ideal := a.exp - b.exp
  if a.coeff = 0 then ⟨neg, 0, ideal⟩
  else
    let exp := ideal - shift prec a b
    let (num, den) := shifted prec a b
    let c := num / den
    if num % den = 0 then
      let p := dropZeros ideal (digits c) c exp
      ⟨neg, p.1, p.2⟩
    else if c % 5 = 0 then ⟨neg, c + 1, exp⟩
    else ⟨neg, c, exp⟩

/-- `int(n)`: toward zero. -/
def truncate (n : Number) : ℤ :=
  (if n.neg then -1 else 1) *
    (if 0 ≤ n.exp then n.coeff * 10 ^ n.exp.toNat else n.coeff / 10 ^ (-n.exp).toNat : ℕ)

/-- What is truncated is at least an integer when it was. -/
theorem le_truncate_iff {n : Number} (hn : n.neg = false) (m : ℕ) :
    (m : ℤ) ≤ n.truncate ↔ (m : ℚ) ≤ n.magnitude := by
  rw [truncate, hn]
  simp only [Bool.false_eq_true, if_false, one_mul]
  split
  · next h =>
    rw [magnitude, ← Int.toNat_of_nonneg h, zpow_natCast]
    simp only [Int.toNat_natCast]
    exact_mod_cast Iff.rfl
  · next h =>
    have hexp : n.exp = -((-n.exp).toNat : ℤ) := by omega
    rw [magnitude, hexp, zpow_neg, zpow_natCast, ← div_eq_mul_inv, le_div_iff₀ (by positivity)]
    simp only [neg_neg, Int.toNat_natCast]
    rw [Int.ofNat_le, Nat.le_div_iff_mul_le (by positivity)]
    exact_mod_cast Iff.rfl

/-! ## The shifted integers -/

theorem shifted_pos (prec : ℕ) (hb : b.coeff ≠ 0) : 0 < (shifted prec a b).2 := by
  rw [shifted]
  split
  · exact Nat.pos_of_ne_zero hb
  · exact Nat.mul_pos (Nat.pos_of_ne_zero hb) (by positivity)

theorem shifted_value (prec : ℕ) (hb : b.coeff ≠ 0) :
    a.magnitude / b.magnitude =
      (shifted prec a b).1 / (shifted prec a b).2 * (10 : ℚ) ^ (a.exp - b.exp - shift prec a b) := by
  have hb' : (b.coeff : ℚ) ≠ 0 := by exact_mod_cast hb
  have h10 : (10 : ℚ) ≠ 0 := by norm_num
  rw [shifted, magnitude, magnitude, zpow_sub₀ h10, zpow_sub₀ h10]
  split
  · next h =>
    have hpow : (10 : ℚ) ^ shift prec a b = 10 ^ (shift prec a b).toNat := by
      rw [← zpow_natCast, Int.toNat_of_nonneg h]
    rw [hpow]
    push_cast
    field_simp
  · next h =>
    have hpow : (10 : ℚ) ^ shift prec a b = (10 ^ (-shift prec a b).toNat)⁻¹ := by
      rw [← zpow_natCast, ← zpow_neg, Int.toNat_of_nonneg (by omega), neg_neg]
    rw [hpow]
    push_cast
    field_simp

/-- The integer quotient has more digits than the precision. -/
theorem shifted_large (prec : ℕ) (ha : a.coeff ≠ 0) (hb : b.coeff ≠ 0) :
    10 ^ prec ≤ (shifted prec a b).1 / (shifted prec a b).2 := by
  have hlow : 10 ^ (digits a.coeff - 1) ≤ a.coeff := Nat.pow_log_le_self 10 ha
  have hhigh : b.coeff < 10 ^ digits b.coeff := Context.lt_pow_digits b.coeff
  have hdigits : 0 < digits a.coeff := Nat.succ_pos _
  rw [Nat.le_div_iff_mul_le (shifted_pos prec hb), shifted]
  split
  · next h =>
    have hexp : prec + digits b.coeff = digits a.coeff - 1 + (shift prec a b).toNat := by
      simp only [shift] at h ⊢
      omega
    calc 10 ^ prec * b.coeff ≤ 10 ^ prec * 10 ^ digits b.coeff := Nat.mul_le_mul_left _ hhigh.le
      _ = 10 ^ (digits a.coeff - 1) * 10 ^ (shift prec a b).toNat := by
          rw [← pow_add, ← pow_add, hexp]
      _ ≤ a.coeff * 10 ^ (shift prec a b).toNat := Nat.mul_le_mul_right _ hlow
  · next h =>
    have hexp : prec + digits b.coeff + (-shift prec a b).toNat = digits a.coeff - 1 := by
      simp only [shift] at h ⊢
      omega
    calc 10 ^ prec * (b.coeff * 10 ^ (-shift prec a b).toNat)
        ≤ 10 ^ prec * (10 ^ digits b.coeff * 10 ^ (-shift prec a b).toNat) :=
          Nat.mul_le_mul_left _ (Nat.mul_le_mul_right _ hhigh.le)
      _ = 10 ^ (digits a.coeff - 1) := by rw [← mul_assoc, ← pow_add, ← pow_add, hexp]
      _ ≤ a.coeff := hlow

end Number

namespace Context

variable {ctx : Context} {n a b r : Number}

/-! ## What rounding reaches -/

/-- `x` is rounded to `c` units of `10^e` or more: it is at least half a unit below
that, and the half itself goes to an even `c`. -/
def RoundsTo (x : ℚ) (c : ℕ) (e : ℤ) : Prop :=
  (2 * c - 1) * (10 : ℚ) ^ e < 2 * x ∨ (2 * c - 1) * (10 : ℚ) ^ e = 2 * x ∧ Even c

variable (ctx) in
/-- The exponent of the last place that is kept of `x`. -/
def lastPlace (x : ℚ) : ℤ := max (Int.log 10 x + 1 - ctx.prec) ctx.etiny

theorem RoundsTo.le {x : ℚ} {c : ℕ} {e : ℤ} (h : RoundsTo x c e) :
    (2 * c - 1) * (10 : ℚ) ^ e ≤ 2 * x :=
  h.elim le_of_lt fun h => h.1.le

/-- Of a multiple of the unit nothing is lost. -/
theorem roundsTo_units (m c : ℕ) (e : ℤ) : RoundsTo (m * (10 : ℚ) ^ e) c e ↔ c ≤ m := by
  have hpos : (0 : ℚ) < 10 ^ e := by positivity
  have hne : (2 * c - 1 : ℤ) ≠ 2 * m := by omega
  rw [RoundsTo, ← mul_assoc, mul_lt_mul_iff_left₀ hpos, mul_left_inj' hpos.ne']
  constructor
  · rintro (h | ⟨h, -⟩)
    · have h' : (2 * c - 1 : ℤ) < 2 * m := by exact_mod_cast h
      omega
    · exact absurd (by exact_mod_cast h) hne
  · intro h
    have h' : (2 * c - 1 : ℤ) < 2 * m := by omega
    exact .inl (by exact_mod_cast h')

/-- `roundHalfEven` reaches what `RoundsTo` says. -/
theorem le_roundHalfEven_iff (m c k : ℕ) (e : ℤ) :
    c ≤ roundHalfEven m k ↔ RoundsTo (m * (10 : ℚ) ^ e) c (e + k) := by
  have hpos : (0 : ℚ) < 10 ^ e := by positivity
  have hten : 0 < 10 ^ k := by positivity
  rw [RoundsTo, zpow_add₀ (by norm_num), zpow_natCast, mul_comm ((10 : ℚ) ^ e), ← mul_assoc,
    ← mul_assoc, mul_lt_mul_iff_left₀ hpos, mul_left_inj' hpos.ne']
  have hlt : (2 * c - 1) * (10 : ℚ) ^ k < 2 * m ↔ 2 * (c * 10 ^ k) < 2 * m + 10 ^ k := by
    rw [← Nat.cast_lt (α := ℚ)]
    push_cast
    constructor <;> intro h <;> linarith
  have heq : (2 * c - 1) * (10 : ℚ) ^ k = 2 * m ↔ 2 * (c * 10 ^ k) = 2 * m + 10 ^ k := by
    rw [← Nat.cast_inj (R := ℚ)]
    push_cast
    constructor <;> intro h <;> linarith
  rw [hlt, heq]
  have hdiv := Nat.div_add_mod m (10 ^ k)
  have hmod := Nat.mod_lt m hten
  set q := m / 10 ^ k with hq
  set s := m % 10 ^ k
  rw [roundHalfEven, ← hq]
  -- compare `c` with the quotient and the one after it
  rcases lt_trichotomy c (q + 1) with hc | rfl | hc
  · have hle : c * 10 ^ k ≤ 10 ^ k * q := by
      rw [mul_comm]
      exact Nat.mul_le_mul_left _ (by omega)
    refine iff_of_true (by split <;> omega) (.inl (by omega))
  · have hexpand : (q + 1) * 10 ^ k = 10 ^ k * q + 10 ^ k := by ring
    rw [hexpand, Nat.even_add_one, Nat.not_even_iff]
    split <;> omega
  · have hle : 10 ^ k * q + 2 * 10 ^ k ≤ c * 10 ^ k := by
      rw [mul_comm c, mul_comm 2, ← Nat.mul_add]
      exact Nat.mul_le_mul_left _ (by omega)
    refine iff_of_false (by split <;> omega) (by omega)

/-- The order of magnitude of what lies between two powers of ten. -/
theorem log_eq {x : ℚ} {l : ℤ} (hlow : (10 : ℚ) ^ l ≤ x) (hhigh : x < 10 ^ (l + 1)) :
    Int.log 10 x = l := by
  have hpos : 0 < x := lt_of_lt_of_le (by positivity) hlow
  have h1 := (log_lt_iff hpos).mpr hhigh
  have h2 := (Int.zpow_le_iff_le_log (by norm_num : 1 < 10) hpos).mp (by exact_mod_cast hlow)
  omega

/-- **Rounding.** What is fixed is a whole number of units of its last place, and of
`c` units or more exactly when the exact value is rounded to that. -/
theorem fix_units (hn : n.coeff ≠ 0) (hr : ctx.fix n = some r) :
    ∃ m : ℕ, r.neg = n.neg ∧ r.magnitude = m * (10 : ℚ) ^ ctx.lastPlace n.magnitude ∧
      ∀ c, c ≤ m ↔ RoundsTo n.magnitude c (ctx.lastPlace n.magnitude) := by
  have hprec := ctx.prec_pos
  rw [fix, if_neg hn] at hr
  simp only [least_eq hn] at hr
  change (if _ then none else if ctx.lastPlace n.magnitude ≤ n.exp then _ else _) = _ at hr
  set e := ctx.lastPlace n.magnitude with he
  split at hr
  · cases hr
  · split at hr
    · next hexp =>
      obtain rfl := Option.some.inj hr
      refine ⟨_, rfl, mul_zpow_of_le n.coeff hexp, fun c => ?_⟩
      rw [Number.magnitude, mul_zpow_of_le n.coeff hexp, roundsTo_units]
    · next hexp =>
      have hk : n.exp + ((e - n.exp).toNat : ℤ) = e := by omega
      have hreach : ∀ c, c ≤ roundHalfEven n.coeff (e - n.exp).toNat ↔ RoundsTo n.magnitude c e := by
        intro c
        rw [le_roundHalfEven_iff n.coeff c _ n.exp, hk, Number.magnitude]
      split at hr
      · obtain rfl := Option.some.inj hr
        exact ⟨_, rfl, rfl, hreach⟩
      · next hdigits =>
        split at hr
        · cases hr
        · obtain rfl := Option.some.inj hr
          refine ⟨_, rfl, ?_, hreach⟩
          -- the carry made the power of ten itself
          have hcoeff : n.coeff ≤ 10 ^ ctx.prec * 10 ^ (e - n.exp).toNat := by
            rw [← pow_add]
            refine (lt_pow_digits n.coeff).le.trans (Nat.pow_le_pow_right (by norm_num) ?_)
            have := @least_eq ctx n hn
            simp only [lastPlace] at he
            omega
          have hle := roundHalfEven_le hcoeff
          have hge : 10 ^ ctx.prec ≤ roundHalfEven n.coeff (e - n.exp).toNat := by
            by_contra hlt
            exact hdigits (digits_le hprec (not_le.mp hlt))
          have hpow : roundHalfEven n.coeff (e - n.exp).toNat = 10 ^ (ctx.prec - 1) * 10 := by
            rw [← pow_succ, Nat.sub_add_cancel hprec]
            omega
          have hvalue : ((roundHalfEven n.coeff (e - n.exp).toNat / 10 : ℕ) : ℚ) * 10 ^ (e + 1) =
              (roundHalfEven n.coeff (e - n.exp).toNat : ℕ) * 10 ^ e := by
            rw [hpow, Nat.mul_div_cancel _ (by norm_num), zpow_add₀ (by norm_num)]
            push_cast
            ring
          exact hvalue

theorem fix_neg (hr : ctx.fix n = some r) : r.neg = n.neg := by
  by_cases hn : n.coeff = 0
  · rw [fix, if_pos hn] at hr
    obtain rfl := Option.some.inj hr
    rfl
  · obtain ⟨m, hneg, -⟩ := fix_units hn hr
    exact hneg

/-! ## Products -/

variable (ctx) in
/-- `a * b`. -/
def mul (a b : Number) : Option Number := ctx.fix (a.times b)

/-- An integer with room for one more digit is reached from half a unit below it on; the
unit is the one of the numbers just below. -/
theorem le_fix_iff {k : ℕ} (hemin : ctx.emin < 0) (hn : n.coeff ≠ 0) (hr : ctx.fix n = some r)
    (hk : 0 < k) (hroom : k < 10 ^ (ctx.prec - 1)) :
    (k : ℚ) ≤ r.magnitude ↔
      2 * k - (10 : ℚ) ^ ((Nat.clog 10 k : ℤ) - ctx.prec) ≤ 2 * n.magnitude := by
  have hprec := ctx.prec_pos
  have hpos := Number.magnitude_pos hn
  have hclog : k ≤ 10 ^ Nat.clog 10 k := Nat.le_pow_clog (by norm_num) k
  have hclogle : Nat.clog 10 k ≤ ctx.prec - 1 := Nat.clog_le_of_le_pow hroom.le
  set l := Nat.clog 10 k with hl
  have hunit : (0 : ℚ) < 10 ^ ((l : ℤ) - ctx.prec) := by positivity
  have hetiny : ctx.etiny ≤ (l : ℤ) - ctx.prec := by
    simp only [etiny]
    omega
  -- by the decade of the number: above the integer's, in it, or below
  by_cases hlarge : (10 : ℚ) ^ (l : ℤ) ≤ n.magnitude
  · -- both are reached
    have hkl : (k : ℚ) ≤ 10 ^ (l : ℤ) := by exact_mod_cast hclog
    have := (fix_large (by omega) hlarge hr).2
    exact iff_of_true (by linarith) (by linarith)
  · have hlog : Int.log 10 n.magnitude < l := (log_lt_iff hpos).mpr (not_le.mp hlarge)
    obtain ⟨m, -, hm, hreach⟩ := fix_units hn hr
    set e := ctx.lastPlace n.magnitude with he
    have hel : e ≤ (l : ℤ) - ctx.prec := by
      simp only [he, lastPlace]
      omega
    have hke : (k : ℚ) = (k * 10 ^ (0 - e).toNat : ℕ) * (10 : ℚ) ^ e := by
      have := mul_zpow_of_le k (show e ≤ 0 by omega)
      rwa [zpow_zero, mul_one] at this
    have hiff : (k : ℚ) ≤ r.magnitude ↔ RoundsTo n.magnitude (k * 10 ^ (0 - e).toNat) e := by
      rw [← hreach, hm, hke, mul_le_mul_iff_left₀ (by positivity), Nat.cast_le]
    have hdouble : (2 * (k * 10 ^ (0 - e).toNat : ℕ) - 1) * (10 : ℚ) ^ e = 2 * k - 10 ^ e := by
      rw [sub_mul, mul_assoc, ← hke, one_mul]
    have hmono : (10 : ℚ) ^ e ≤ 10 ^ ((l : ℤ) - ctx.prec) := zpow_le_zpow_right₀ (by norm_num) hel
    rw [hiff]
    by_cases hnext : (10 : ℚ) ^ ((l : ℤ) - 1) ≤ n.magnitude
    · -- the last place is the unit, of which the integer is an even multiple
      have hlogeq : Int.log 10 n.magnitude = (l : ℤ) - 1 := log_eq hnext (by simpa using hlarge)
      have heq : e = (l : ℤ) - ctx.prec := by
        simp only [he, lastPlace, hlogeq]
        omega
      have heven : Even (k * 10 ^ (0 - e).toNat) := by
        refine Even.mul_left ?_ k
        exact (by decide : Even 10).pow_of_ne_zero (by omega)
      rw [RoundsTo, hdouble, heq]
      rw [heq] at heven
      exact ⟨fun h => h.elim le_of_lt fun h => h.1.le,
        fun h => h.lt_or_eq.imp id fun h => ⟨h, heven⟩⟩
    · -- neither is reached
      have hnone : ¬2 * (k : ℚ) - 10 ^ ((l : ℤ) - ctx.prec) ≤ 2 * n.magnitude := by
        rw [not_le]
        have htenth : (10 : ℚ) ^ ((l : ℤ) - ctx.prec) ≤ 10 ^ (-1 : ℤ) :=
          zpow_le_zpow_right₀ (by norm_num) (by omega)
        have hbelow : (10 : ℚ) ^ ((l : ℤ) - 1) ≤ k - 9 / 10 := by
          rcases Nat.eq_zero_or_pos l with hzero | hlpos
          · have hone : (1 : ℚ) ≤ k := by exact_mod_cast hk
            rw [hzero]
            norm_num
            linarith
          · have hlt : 10 ^ (l - 1) < k := (Nat.lt_clog_iff_pow_lt (by norm_num)).mp (by omega)
            have hlt' : (10 : ℚ) ^ (l - 1) + 1 ≤ k := by exact_mod_cast hlt
            have hcast : (l : ℤ) - 1 = (l - 1 : ℕ) := by omega
            rw [hcast, zpow_natCast]
            linarith
        norm_num at htenth
        linarith [not_le.mp hnext]
      refine iff_of_false (fun h => hnone ?_) hnone
      have := h.le
      rw [hdouble] at this
      linarith

/-! ## Quotients -/

variable (ctx) in
/-- `a / b`; `none` where it raises. -/
def div (a b : Number) : Option Number :=
  if b.coeff = 0 then none else ctx.fix (Number.quotient ctx.prec a b)

/-- The integer that decides the rounding when at least one digit is dropped. -/
theorem roundsTo_half (x : ℚ) (c k : ℕ) (e : ℤ) :
    RoundsTo (x * (10 : ℚ) ^ e) c (e + (k + 1 : ℕ)) ↔
      (((2 * c - 1) * 10 ^ k * 5 : ℤ) : ℚ) < x ∨ (((2 * c - 1) * 10 ^ k * 5 : ℤ) : ℚ) = x ∧
      Even c := by
  have hpos : (0 : ℚ) < 2 * 10 ^ e := by positivity
  have hleft : (2 * c - 1) * (10 : ℚ) ^ (e + (k + 1 : ℕ)) =
      ((2 * c - 1) * 10 ^ k * 5 : ℤ) * (2 * 10 ^ e) := by
    rw [zpow_add₀ (by norm_num), zpow_natCast]
    push_cast
    ring
  have hright : 2 * (x * (10 : ℚ) ^ e) = x * (2 * 10 ^ e) := by ring
  rw [RoundsTo, hleft, hright, mul_lt_mul_iff_left₀ hpos, mul_left_inj' hpos.ne']

/-- A last digit moved off `0` and `5` stands for what follows it. -/
theorem roundsTo_sticky {x : ℚ} {q k : ℕ} (hlow : q < x) (hhigh : x < q + 1) (hk : 0 < k) (c : ℕ)
    (e : ℤ) :
    RoundsTo ((if q % 5 = 0 then q + 1 else q : ℕ) * (10 : ℚ) ^ e) c (e + k) ↔
      RoundsTo (x * (10 : ℚ) ^ e) c (e + k) := by
  obtain ⟨k, rfl⟩ := Nat.exists_eq_succ_of_ne_zero hk.ne'
  rw [roundsTo_half, roundsTo_half]
  generalize hh : ((2 * c - 1) * 10 ^ k * 5 : ℤ) = h
  have hfive : h % 5 = 0 := by omega
  have hx : (h : ℚ) < x ↔ h ≤ q := by
    constructor
    · intro hlt
      have : (h : ℚ) < (q + 1 : ℤ) := by
        push_cast
        linarith
      exact Int.lt_add_one_iff.mp (by exact_mod_cast this)
    · intro hle
      have : (h : ℚ) ≤ q := by exact_mod_cast hle
      linarith
  have hne : (h : ℚ) ≠ x := by
    rintro rfl
    have h1 : (q : ℤ) < h := by exact_mod_cast hlow
    have h2 : h < q + 1 := by exact_mod_cast hhigh
    omega
  have hright : ((h : ℚ) < x ∨ (h : ℚ) = x ∧ Even c) ↔ h ≤ q := by
    rw [hx, or_iff_left fun h' => hne h'.1]
  rw [hright]
  generalize hq : (if q % 5 = 0 then q + 1 else q : ℕ) = q'
  have hlt : (h : ℚ) < (q' : ℚ) ↔ h < q' := by exact_mod_cast Iff.rfl
  have heq : (h : ℚ) = (q' : ℚ) ↔ h = q' := by exact_mod_cast Iff.rfl
  rw [hlt, heq]
  split at hq <;> omega

/-- The quotient that is fixed is rounded as the exact one. -/
theorem quotient_units (ha : a.coeff ≠ 0) (hb : b.coeff ≠ 0) :
    ∃ n, Number.quotient ctx.prec a b = n ∧ n.coeff ≠ 0 ∧ n.neg = (a.neg ^^ b.neg) ∧
      ctx.lastPlace n.magnitude = ctx.lastPlace (a.magnitude / b.magnitude) ∧
      ∀ c, RoundsTo n.magnitude c (ctx.lastPlace n.magnitude) ↔
        RoundsTo (a.magnitude / b.magnitude) c (ctx.lastPlace (a.magnitude / b.magnitude)) := by
  have hvalue := Number.shifted_value ctx.prec (a := a) hb
  have hlarge := Number.shifted_large ctx.prec ha hb
  have hden := Number.shifted_pos ctx.prec (a := a) hb
  refine ⟨_, rfl, ?_⟩
  rw [Number.quotient, if_neg ha]
  simp only
  set x := a.magnitude / b.magnitude
  set e := a.exp - b.exp - Number.shift ctx.prec a b
  set num := (Number.shifted ctx.prec a b).1
  set den := (Number.shifted ctx.prec a b).2
  have hxpos : 0 < x := div_pos (Number.magnitude_pos ha) (Number.magnitude_pos hb)
  by_cases hexact : num % den = 0
  · -- only zeros are dropped
    rw [if_pos hexact]
    have hcast : ((num / den : ℕ) : ℚ) = num / den := 
      Nat.cast_div_charZero (Nat.dvd_of_mod_eq_zero hexact)
    have hmagnitude : ∀ neg, (⟨neg, (dropZeros (a.exp - b.exp) (digits (num / den)) (num / den) e).1,
        (dropZeros (a.exp - b.exp) (digits (num / den)) (num / den) e).2⟩ : Number).magnitude
          = x := by
      intro neg
      rw [hvalue, ← hcast]
      exact dropZeros_value _ _ _ _
    rw [hmagnitude]
    refine ⟨fun h0 => ?_, rfl, rfl, fun c => Iff.rfl⟩
    have hzero := hmagnitude false
    simp only at h0
    rw [Number.magnitude, h0, Nat.cast_zero, zero_mul] at hzero
    exact hxpos.ne hzero
  · rw [if_neg hexact]
    have hq : num / den ≠ 0 := by
      have := Nat.one_le_pow ctx.prec 10 (by norm_num)
      omega
    have hdivmod := Nat.div_add_mod num den
    have hmod := Nat.mod_lt num hden
    have hdenq : (0 : ℚ) < den := by exact_mod_cast hden
    set q := num / den
    have hlow : (q : ℚ) < num / den := by
      rw [lt_div_iff₀ hdenq, mul_comm]
      exact_mod_cast (by omega : den * q < num)
    have hhigh : (num : ℚ) / den < q + 1 := by
      rw [div_lt_iff₀ hdenq]
      have : num < den * q + den := by omega
      have hcast : (num : ℚ) < den * q + den := by exact_mod_cast this
      linarith
    have hshape : (if q % 5 = 0 then (⟨a.neg ^^ b.neg, q + 1, e⟩ : Number)
        else ⟨a.neg ^^ b.neg, q, e⟩) = ⟨a.neg ^^ b.neg, if q % 5 = 0 then q + 1 else q, e⟩ := by
      split <;> rfl
    rw [hshape]
    set q' := if q % 5 = 0 then q + 1 else q with hq'
    -- both have the digits of the integer quotient
    have hloglow : 10 ^ Nat.log 10 q ≤ q := Nat.pow_log_le_self 10 hq
    have hloghigh : q < 10 ^ (Nat.log 10 q + 1) := Nat.lt_pow_succ_log_self (by norm_num) q
    have hq'high : q' < 10 ^ (Nat.log 10 q + 1) := by
      have hten : 10 ^ (Nat.log 10 q + 1) % 5 = 0 := by
        rw [pow_succ]
        omega
      rw [hq']
      split <;> omega
    have hq'low : q ≤ q' := by
      rw [hq']
      split <;> omega
    have hlog : ∀ {y : ℚ}, (q : ℚ) ≤ y → y < 10 ^ (Nat.log 10 q + 1) →
        Int.log 10 (y * (10 : ℚ) ^ e) = Nat.log 10 q + e := by
      intro y hy hy'
      refine log_eq ?_ ?_
      · rw [zpow_add₀ (by norm_num), zpow_natCast]
        refine mul_le_mul_of_nonneg_right (le_trans ?_ hy) (by positivity)
        exact_mod_cast hloglow
      · have hsum : (Nat.log 10 q : ℤ) + e + 1 = ((Nat.log 10 q + 1 : ℕ) : ℤ) + e := by
          push_cast
          ring
        rw [hsum, zpow_add₀ (by norm_num), zpow_natCast]
        exact mul_lt_mul_of_pos_right hy' (by positivity)
    have hxlog : Int.log 10 x = Nat.log 10 q + e := by
      rw [hvalue]
      refine hlog hlow.le (hhigh.trans_le ?_)
      exact_mod_cast hloghigh
    have hnlog : Int.log 10 (⟨a.neg ^^ b.neg, q', e⟩ : Number).magnitude = Nat.log 10 q + e :=
      hlog (by exact_mod_cast hq'low) (by exact_mod_cast hq'high)
    have hprec : ctx.prec ≤ Nat.log 10 q := Nat.le_log_of_pow_le (by norm_num) hlarge
    have hplace : ctx.lastPlace (⟨a.neg ^^ b.neg, q', e⟩ : Number).magnitude = ctx.lastPlace x := by
      rw [lastPlace, lastPlace, hxlog, hnlog]
    refine ⟨fun h0 => hq (Nat.le_zero.mp (hq'low.trans_eq h0)), rfl, hplace, fun c => ?_⟩
    obtain ⟨k, hk⟩ : ∃ k : ℕ, ctx.lastPlace x = e + k :=
      ⟨(ctx.lastPlace x - e).toNat, by
        simp only [lastPlace, hxlog]
        omega⟩
    have hkpos : 0 < k := by
      simp only [lastPlace, hxlog] at hk
      omega
    rw [hplace, hk, hvalue]
    exact roundsTo_sticky hlow hhigh hkpos c e

/-- **Division rounds the exact quotient.** -/
theorem div_units (ha : a.coeff ≠ 0) (hr : ctx.div a b = some r) :
    ∃ m : ℕ, r.neg = (a.neg ^^ b.neg) ∧
      r.magnitude = m * (10 : ℚ) ^ ctx.lastPlace (a.magnitude / b.magnitude) ∧
      ∀ c, c ≤ m ↔
        RoundsTo (a.magnitude / b.magnitude) c (ctx.lastPlace (a.magnitude / b.magnitude)) := by
  rw [div] at hr
  split at hr
  · cases hr
  · next hb =>
    obtain ⟨n, hn, hn0, hneg, hplace, hround⟩ := @quotient_units ctx a b ha hb
    rw [hn] at hr
    obtain ⟨m, hrneg, hm, hreach⟩ := fix_units hn0 hr
    exact ⟨m, hrneg.trans hneg, by rw [hm, hplace], fun c => (hreach c).trans (hround c)⟩

/-- A quotient that is at least a power of ten is still so after rounding. -/
theorem div_large {e : ℤ} (ha : a.coeff ≠ 0) (hlow : ctx.etiny ≤ e)
    (h : (10 : ℚ) ^ e ≤ a.magnitude / b.magnitude) (hr : ctx.div a b = some r) :
    (10 : ℚ) ^ e ≤ r.magnitude := by
  obtain ⟨m, -, hm, hreach⟩ := div_units ha hr
  set x := a.magnitude / b.magnitude
  have hprec := ctx.prec_pos
  have hxpos : 0 < x := lt_of_lt_of_le (by positivity) h
  have hlog : e ≤ Int.log 10 x :=
    (Int.zpow_le_iff_le_log (by norm_num) hxpos).mp (by exact_mod_cast h)
  have hplace : ctx.lastPlace x ≤ Int.log 10 x := by
    simp only [lastPlace]
    omega
  -- the leading power of ten is a whole number of units
  have hlead := mul_zpow_of_le 1 hplace
  have hround : RoundsTo x (1 * 10 ^ (Int.log 10 x - ctx.lastPlace x).toNat) (ctx.lastPlace x) := by
    left
    have hle : (10 : ℚ) ^ Int.log 10 x ≤ x := by
      exact_mod_cast Int.zpow_log_le_self (by norm_num) hxpos
    have hunit : (0 : ℚ) < 10 ^ ctx.lastPlace x := by positivity
    rw [sub_mul, mul_assoc, ← hlead, Nat.cast_one, one_mul, one_mul]
    linarith
  have hle := (hreach _).mpr hround
  calc (10 : ℚ) ^ e ≤ 10 ^ Int.log 10 x := zpow_le_zpow_right₀ (by norm_num) hlog
    _ = (1 * 10 ^ (Int.log 10 x - ctx.lastPlace x).toNat : ℕ) * 10 ^ ctx.lastPlace x := by
        rw [← hlead, Nat.cast_one, one_mul]
    _ ≤ r.magnitude := by
        rw [hm]
        exact mul_le_mul_of_nonneg_right (by exact_mod_cast hle) (by positivity)

end Context

end RunpodJobrunner
