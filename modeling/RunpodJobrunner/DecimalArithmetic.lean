import Mathlib.Algebra.BigOperators.Group.List.Basic
import Mathlib.Algebra.Order.Field.Power
import Mathlib.Data.Int.Log
import Mathlib.Data.Rat.Floor
import Mathlib.Tactic.Linarith
import Mathlib.Tactic.Positivity
import Mathlib.Tactic.Ring

/-!
# Decimal arithmetic in a context

Addition of decimal numbers as the general decimal arithmetic defines it: the
exact sum is formed at the smaller exponent and then fixed to a context, which
rounds it to a number of digits (half to even), raises the exponent of what is
too small and traps what is too large. Comparison is exact.

A number is a sign, a coefficient and an exponent, so the results keep track of
both its value and its exponent: `sum_exact` says when a sum is formed without
rounding and which representation it has, and with it that the order of the
terms does not matter (`sum_perm`). Nothing here depends on the program being
verified.
-/

namespace RunpodJobrunner

/-- A finite decimal number `±coeff·10^exp`. -/
structure Number where
  neg : Bool
  coeff : ℕ
  exp : ℤ
  deriving DecidableEq

namespace Number

/-- The absolute value. -/
def magnitude (n : Number) : ℚ := n.coeff * (10 : ℚ) ^ n.exp

/-- The rational number it denotes. -/
def value (n : Number) : ℚ := if n.neg then -n.magnitude else n.magnitude

/-- The number in units of `10^e`, for an `e` not above its exponent. -/
def units (n : Number) (e : ℤ) : ℤ :=
  (if n.neg then -1 else 1) * (n.coeff * 10 ^ (n.exp - e).toNat : ℕ)

/-- `a < b`. -/
def lt (a b : Number) : Bool := a.units (min a.exp b.exp) < b.units (min a.exp b.exp)

/-- `a == b`. -/
def same (a b : Number) : Bool := a.units (min a.exp b.exp) = b.units (min a.exp b.exp)

/-- Units of a lower exponent have the same value. -/
theorem units_value {n : Number} {e : ℤ} (h : e ≤ n.exp) : (n.units e : ℚ) * 10 ^ e = n.value := by
  have hpow : (10 : ℚ) ^ (n.exp - e).toNat * 10 ^ e = 10 ^ n.exp := by
    rw [← zpow_natCast, ← zpow_add₀ (by norm_num), Int.toNat_of_nonneg (by omega), sub_add_cancel]
  rw [units, value, magnitude, ← hpow]
  cases n.neg <;> push_cast <;> simp <;> ring

/-- `<` compares the values. -/
theorem lt_iff (a b : Number) : a.lt b = true ↔ a.value < b.value := by
  rw [lt, decide_eq_true_eq, ← units_value (min_le_left a.exp b.exp),
    ← units_value (min_le_right a.exp b.exp), mul_lt_mul_iff_left₀ (by positivity), Int.cast_lt]

/-- `==` compares the values. -/
theorem same_iff (a b : Number) : a.same b = true ↔ a.value = b.value := by
  rw [same, decide_eq_true_eq, ← units_value (min_le_left a.exp b.exp),
    ← units_value (min_le_right a.exp b.exp), mul_left_inj' (by positivity), Int.cast_inj]

/-- The exact sum, at the smaller exponent; a zero is negative only when both terms are. -/
def plus (a b : Number) : Number :=
  let e := min a.exp b.exp
  let s := a.units e + b.units e
  ⟨if s = 0 then a.neg && b.neg else decide (s < 0), s.natAbs, e⟩

/-- The exact sum has the sum of the values. -/
theorem plus_value (a b : Number) : (a.plus b).value = a.value + b.value := by
  rw [← units_value (min_le_left a.exp b.exp), ← units_value (min_le_right a.exp b.exp), ← add_mul,
    plus, value, magnitude]
  simp only
  set s := a.units (min a.exp b.exp) + b.units (min a.exp b.exp) with hs
  have hcast : (s : ℚ) = a.units (min a.exp b.exp) + b.units (min a.exp b.exp) := by
    rw [hs, Int.cast_add]
  rw [← hcast]
  rcases lt_trichotomy s 0 with hneg | hzero | hpos
  · have habs : ((s.natAbs : ℕ) : ℚ) = -s := by
      rw [Nat.cast_natAbs, abs_of_neg hneg, Int.cast_neg]
    simp [hneg, hneg.ne, habs]
  · simp [hzero]
  · have habs : ((s.natAbs : ℕ) : ℚ) = s := by rw [Nat.cast_natAbs, abs_of_pos hpos]
    simp [hpos.le, hpos.ne', habs]

theorem units_nonneg {n : Number} (h : n.neg = false) (e : ℤ) : 0 ≤ n.units e := by
  simp [units, h]

/-- The exact sum of numbers that are not negative is not negative. -/
theorem plus_neg {a b : Number} (ha : a.neg = false) (hb : b.neg = false) :
    (a.plus b).neg = false := by
  have := units_nonneg ha (min a.exp b.exp)
  have := units_nonneg hb (min a.exp b.exp)
  simp only [plus, ha, Bool.false_and]
  split
  · rfl
  · simp only [decide_eq_false_iff_not, not_lt]
    omega

theorem magnitude_nonneg (n : Number) : 0 ≤ n.magnitude :=
  mul_nonneg (Nat.cast_nonneg _) (by positivity)

theorem abs_value (n : Number) : |n.value| = n.magnitude := by
  have h := n.magnitude_nonneg
  rw [value]
  split
  · rw [abs_neg, abs_of_nonneg h]
  · exact abs_of_nonneg h

theorem value_of_nonneg {n : Number} (h : n.neg = false) : n.value = n.magnitude := by
  simp [value, h]

/-- A nonnegative number is known by its value and its exponent. -/
theorem ext_of_magnitude {a b : Number} (hneg : a.neg = b.neg) (hexp : a.exp = b.exp)
    (hvalue : a.magnitude = b.magnitude) : a = b := by
  rw [magnitude, magnitude, hexp, mul_left_inj' (by positivity), Nat.cast_inj] at hvalue
  obtain ⟨na, ca, ea⟩ := a
  obtain ⟨nb, cb, eb⟩ := b
  simp_all

/-- Magnitudes of numbers that are not negative add up. -/
theorem plus_magnitude {a b : Number} (ha : a.neg = false) (hb : b.neg = false) :
    (a.plus b).magnitude = a.magnitude + b.magnitude := by
  have := plus_value a b
  rwa [value_of_nonneg ha, value_of_nonneg hb, value_of_nonneg (plus_neg ha hb)] at this

theorem magnitude_pos {n : Number} (h : n.coeff ≠ 0) : 0 < n.magnitude :=
  mul_pos (by exact_mod_cast Nat.pos_of_ne_zero h) (by positivity)

/-- The decimal order of magnitude. -/
theorem log_magnitude {n : Number} (h : n.coeff ≠ 0) :
    Int.log 10 n.magnitude = n.exp + Nat.log 10 n.coeff := by
  have hpos := magnitude_pos h
  have hlow : (10 : ℚ) ^ Nat.log 10 n.coeff ≤ n.coeff := by
    exact_mod_cast Nat.pow_log_le_self 10 h
  have hhigh : (n.coeff : ℚ) < 10 ^ (Nat.log 10 n.coeff + 1) := by
    exact_mod_cast Nat.lt_pow_succ_log_self (by norm_num) n.coeff
  have hexp : (0 : ℚ) < 10 ^ n.exp := by positivity
  apply le_antisymm
  · refine Int.lt_add_one_iff.mp ((Int.lt_zpow_iff_log_lt (by norm_num) hpos).mp ?_)
    rw [add_assoc, zpow_add₀ (by norm_num), mul_comm, magnitude]
    exact mul_lt_mul_of_pos_right (by exact_mod_cast hhigh) hexp
  · refine (Int.zpow_le_iff_le_log (by norm_num) hpos).mp ?_
    rw [zpow_add₀ (by norm_num), mul_comm, magnitude]
    exact mul_le_mul_of_nonneg_right (by exact_mod_cast hlow) hexp.le

end Number

/-! ## Rounding -/

/-- The number of digits of a coefficient. -/
def digits (coeff : ℕ) : ℕ := Nat.log 10 coeff + 1

/-- A coefficient below a power of ten has no more digits. -/
theorem digits_le {coeff prec : ℕ} (hprec : 0 < prec) (h : coeff < 10 ^ prec) :
    digits coeff ≤ prec := by
  by_cases h0 : coeff = 0
  · rw [h0, digits, Nat.log_zero_right]
    exact hprec
  · exact (Nat.log_lt_iff_lt_pow (by norm_num) h0).mpr h

/-- `coeff / 10^k` to the nearest integer, a tie to the even one. -/
def roundHalfEven (coeff k : ℕ) : ℕ :=
  if 10 ^ k < 2 * (coeff % 10 ^ k) ∨
      (10 ^ k = 2 * (coeff % 10 ^ k) ∧ coeff / 10 ^ k % 2 = 1) then coeff / 10 ^ k + 1
  else coeff / 10 ^ k

/-- A multiple is not rounded. -/
theorem roundHalfEven_mul (m k : ℕ) : roundHalfEven (m * 10 ^ k) k = m := by
  have hpos : 0 < 10 ^ k := by positivity
  simp [roundHalfEven, Nat.mul_div_cancel _ hpos]

/-- Rounding does not fall below a multiple that is below. -/
theorem le_roundHalfEven {m c k : ℕ} (h : m * 10 ^ k ≤ c) : m ≤ roundHalfEven c k := by
  have hdiv : m ≤ c / 10 ^ k := (Nat.le_div_iff_mul_le (by positivity)).mpr h
  rw [roundHalfEven]
  split <;> omega

/-- Rounding does not rise above a multiple that is above. -/
theorem roundHalfEven_le {m c k : ℕ} (h : c ≤ m * 10 ^ k) : roundHalfEven c k ≤ m := by
  rcases h.eq_or_lt with rfl | h
  · exact (roundHalfEven_mul m k).le
  · have hdiv : c / 10 ^ k < m := (Nat.div_lt_iff_lt_mul (by positivity)).mpr h
    rw [roundHalfEven]
    split <;> omega

/-- A precision and the exponents of the smallest and largest normal numbers. -/
structure Context where
  prec : ℕ
  emin : ℤ
  emax : ℤ
  prec_pos : 0 < prec
  emin_le : emin ≤ emax

/-- `decimal.getcontext()` of a thread that never set one. -/
def defaultContext : Context := ⟨28, -999999, 999999, by decide, by decide⟩

namespace Context

variable (ctx : Context)

/-- The least exponent of a result. -/
def etiny : ℤ := ctx.emin - ctx.prec + 1

/-- The largest exponent of a result with all its digits. -/
def etop : ℤ := ctx.emax - ctx.prec + 1

/-- The largest number of the context. -/
def largest : ℚ := (10 ^ ctx.prec - 1) * 10 ^ ctx.etop

/-- `_fix`: the number rounded to the context, `none` where the overflow is trapped. -/
def fix (n : Number) : Option Number :=
  if n.coeff = 0 then some { n with exp := max ctx.etiny (min n.exp ctx.emax) }
  else
    let least := n.exp + digits n.coeff - ctx.prec
    if ctx.etop < least then none
    else
      let e := max least ctx.etiny
      if e ≤ n.exp then some n
      else
        let c := roundHalfEven n.coeff (e - n.exp).toNat
        if digits c ≤ ctx.prec then some { n with coeff := c, exp := e }
        -- the carry made one digit too many, the last of which is zero
        else if ctx.etop < e + 1 then none
        else some { n with coeff := c / 10, exp := e + 1 }

/-- `a + b`. -/
def add (a b : Number) : Option Number := ctx.fix (a.plus b)

/-- `a - b`. -/
def sub (a b : Number) : Option Number := ctx.add a { b with neg := !b.neg }

/-! ## What fixing keeps -/

/-- The exponent of a number that fits the context: its own, or the least one
that its digits leave room for. -/
def canonicalExp (m : ℚ) (e : ℤ) : ℤ := max e (max (Int.log 10 m + 1 - ctx.prec) ctx.etiny)

variable {ctx}

/-- The logarithm, by the powers of ten. -/
theorem log_lt_iff {m : ℚ} {e : ℤ} (h : 0 < m) : Int.log 10 m < e ↔ m < 10 ^ e := by
  simpa using (Int.lt_zpow_iff_log_lt (by norm_num : 1 < 10) h).symm

/-- A multiple of `10^e` is one of `10^f` for every smaller `f`. -/
theorem mul_zpow_of_le (m : ℕ) {e f : ℤ} (h : f ≤ e) :
    (m : ℚ) * 10 ^ e = (m * 10 ^ (e - f).toNat : ℕ) * (10 : ℚ) ^ f := by
  push_cast
  rw [mul_assoc, ← zpow_natCast, ← zpow_add₀ (by norm_num), Int.toNat_of_nonneg (by omega),
    sub_add_cancel]

/-- The first exponent tried is the one with room for all digits. -/
theorem least_eq {n : Number} (h : n.coeff ≠ 0) :
    n.exp + digits n.coeff - ctx.prec = Int.log 10 n.magnitude + 1 - ctx.prec := by
  rw [Number.log_magnitude h, digits]
  push_cast
  ring

/-- **Exactness.** A multiple of `10^e` with no more digits than the precision
is kept as it is, at the exponent `canonicalExp`. -/
theorem fix_exact {n : Number} {k : ℕ} {e : ℤ} (hn : n.coeff ≠ 0)
    (hvalue : n.magnitude = k * (10 : ℚ) ^ e) (hk : k < 10 ^ ctx.prec) (hlow : ctx.etiny ≤ e)
    (hhigh : e ≤ ctx.etop) :
    ∃ r, ctx.fix n = some r ∧ r.neg = n.neg ∧ r.magnitude = n.magnitude ∧
      r.exp = ctx.canonicalExp n.magnitude n.exp := by
  have hpos := Number.magnitude_pos hn
  have hroom : Int.log 10 n.magnitude + 1 - ctx.prec ≤ e := by
    have : Int.log 10 n.magnitude < ctx.prec + e := by
      rw [log_lt_iff hpos, hvalue, zpow_add₀ (by norm_num), zpow_natCast]
      exact mul_lt_mul_of_pos_right (by exact_mod_cast hk) (by positivity)
    omega
  rw [fix, if_neg hn]
  simp only [least_eq hn]
  rw [if_neg (by omega)]
  set E := max (Int.log 10 n.magnitude + 1 - ctx.prec) ctx.etiny with hE
  by_cases hle : E ≤ n.exp
  · rw [if_pos hle]
    exact ⟨n, rfl, rfl, rfl, by rw [canonicalExp, ← hE, max_eq_left hle]⟩
  · rw [if_neg hle]
    -- the coefficient only loses zeros
    have hvalueE := hvalue.trans (mul_zpow_of_le k (max_le hroom hlow : E ≤ e))
    set c := k * 10 ^ (e - E).toNat
    have hcoeff : n.coeff = c * 10 ^ (E - n.exp).toNat := by
      have h := hvalueE.trans (mul_zpow_of_le c (by omega : n.exp ≤ E))
      rw [Number.magnitude, mul_left_inj' (by positivity)] at h
      exact_mod_cast h
    have hc : c < 10 ^ ctx.prec := by
      have hlt := (log_lt_iff (e := ctx.prec + E) hpos).mp (by omega)
      rw [hvalueE, zpow_add₀ (by norm_num), zpow_natCast,
        mul_lt_mul_iff_left₀ (by positivity)] at hlt
      exact_mod_cast hlt
    rw [hcoeff, roundHalfEven_mul, if_pos (digits_le ctx.prec_pos hc)]
    refine ⟨_, rfl, rfl, hvalueE.symm, ?_⟩
    rw [canonicalExp, ← hE, max_eq_right (by omega)]

/-- What is not above the largest number of the context does not overflow. -/
theorem fix_isSome {n : Number} (h : n.magnitude ≤ ctx.largest) : (ctx.fix n).isSome = true := by
  rw [fix]
  split
  · rfl
  · rename_i hn
    have hlog : Int.log 10 n.magnitude < ctx.prec + ctx.etop := by
      rw [log_lt_iff (Number.magnitude_pos hn), zpow_add₀ (by norm_num), zpow_natCast]
      refine h.trans_lt (mul_lt_mul_of_pos_right (by linarith) (by positivity))
    have hbounds : ctx.etiny ≤ ctx.etop := by
      have := ctx.emin_le
      simp only [etiny, etop]
      omega
    simp only [least_eq hn]
    rw [if_neg (by omega)]
    set E := max (Int.log 10 n.magnitude + 1 - ctx.prec) ctx.etiny with hE
    split
    · rfl
    · split
      · rfl
      · rename_i hexp hdigits
        rw [if_neg]
        · rfl
        · intro hcarry
          -- at the top exponent there is nothing to round up to
          have htop : E = ctx.etop := by omega
          rw [largest, ← htop] at h
          have hcoeff : n.coeff ≤ (10 ^ ctx.prec - 1) * 10 ^ (E - n.exp).toNat := by
            have h' : n.magnitude ≤ ((10 ^ ctx.prec - 1 : ℕ) : ℚ) * 10 ^ E := by
              rw [Nat.cast_sub (Nat.one_le_pow _ _ (by norm_num))]
              exact_mod_cast h
            rw [mul_zpow_of_le _ (by omega : n.exp ≤ E), Number.magnitude,
              mul_le_mul_iff_left₀ (by positivity)] at h'
            exact_mod_cast h'
          have hround := roundHalfEven_le hcoeff
          have := Nat.one_le_pow ctx.prec 10 (by norm_num)
          exact hdigits (digits_le ctx.prec_pos (by omega))

/-- A number that is at least `10^e` is still so after rounding. -/
theorem fix_large {n r : Number} {e : ℤ} (hlow : ctx.etiny ≤ e) (h : (10 : ℚ) ^ e ≤ n.magnitude)
    (hr : ctx.fix n = some r) : r.neg = n.neg ∧ (10 : ℚ) ^ e ≤ r.magnitude := by
  have hn : n.coeff ≠ 0 := by
    intro h0
    rw [Number.magnitude, h0, Nat.cast_zero, zero_mul] at h
    exact absurd h (not_le.mpr (by positivity))
  have hpos := Number.magnitude_pos hn
  have helog : e ≤ Int.log 10 n.magnitude := by
    by_contra hlt
    exact absurd ((log_lt_iff hpos).mp (not_le.mp hlt)) (not_lt.mpr h)
  have hprec := ctx.prec_pos
  rw [fix, if_neg hn] at hr
  simp only [least_eq hn] at hr
  split at hr
  · cases hr
  · set E := max (Int.log 10 n.magnitude + 1 - ctx.prec) ctx.etiny with hE
    set L := Int.log 10 n.magnitude with hL
    have hEL : E ≤ L := by omega
    split at hr
    · cases hr
      exact ⟨rfl, h⟩
    · rename_i hexp
      -- the leading power of ten survives
      have hlead : 10 ^ (L - E).toNat * 10 ^ (E - n.exp).toNat ≤ n.coeff := by
        have hle : ((1 : ℕ) : ℚ) * 10 ^ L ≤ n.magnitude := by
          rw [Nat.cast_one, one_mul]
          exact Int.zpow_log_le_self (by norm_num : 1 < 10) hpos
        rw [mul_zpow_of_le 1 (by omega : n.exp ≤ L), Number.magnitude,
          mul_le_mul_iff_left₀ (by positivity), one_mul] at hle
        rw [← pow_add]
        have : (L - E).toNat + (E - n.exp).toNat = (L - n.exp).toNat := by omega
        rw [this]
        exact_mod_cast hle
      have hround := le_roundHalfEven hlead
      have hpow : (10 : ℚ) ^ e ≤ (10 ^ (L - E).toNat : ℕ) * 10 ^ E := by
        have := mul_zpow_of_le 1 hEL
        rw [one_mul, Nat.cast_one, one_mul] at this
        rw [← this]
        exact zpow_le_zpow_right₀ (by norm_num) helog
      split at hr
      · cases hr
        refine ⟨rfl, hpow.trans (mul_le_mul_of_nonneg_right ?_ (by positivity))⟩
        exact_mod_cast hround
      · rename_i hdigits
        split at hr
        · cases hr
        · cases hr
          -- one digit too many: the coefficient is at least `10^prec`
          set c := roundHalfEven n.coeff (E - n.exp).toNat
          have hc : 10 ^ ctx.prec ≤ c := by
            by_contra hlt
            exact hdigits (digits_le hprec (not_le.mp hlt))
          have hdiv : 10 ^ (ctx.prec - 1) ≤ c / 10 := by
            rw [Nat.le_div_iff_mul_le (by norm_num), ← pow_succ, Nat.sub_add_cancel hprec]
            exact hc
          refine ⟨rfl, ?_⟩
          calc (10 : ℚ) ^ e ≤ 10 ^ (((ctx.prec - 1 : ℕ) : ℤ) + (E + 1)) :=
                zpow_le_zpow_right₀ (by norm_num) (by omega)
            _ = (10 ^ (ctx.prec - 1) : ℕ) * 10 ^ (E + 1) := by
                rw [zpow_add₀ (by norm_num), zpow_natCast, Nat.cast_pow, Nat.cast_ofNat]
            _ ≤ (c / 10 : ℕ) * 10 ^ (E + 1) :=
                mul_le_mul_of_nonneg_right (by exact_mod_cast hdiv) (by positivity)

/-- A rounded sum above a power of ten is so many of its units. -/
theorem add_large {a b r : Number} {e : ℤ} (ha : a.neg = false) (hb : b.neg = false)
    (hlow : ctx.etiny ≤ e) (h : (10 : ℚ) ^ e ≤ a.magnitude + b.magnitude)
    (hr : ctx.add a b = some r) : r.neg = false ∧ (10 : ℚ) ^ e ≤ r.magnitude := by
  rw [← Number.plus_magnitude ha hb] at h
  obtain ⟨hneg, hle⟩ := fix_large hlow h hr
  exact ⟨hneg.trans (Number.plus_neg ha hb), hle⟩

/-- What is left of a number of the context does not overflow. -/
theorem sub_isSome {a b : Number} (ha : a.neg = false) (hb : b.neg = false)
    (hle : b.magnitude ≤ a.magnitude) (h : a.magnitude ≤ ctx.largest) :
    (ctx.sub a b).isSome = true := by
  refine fix_isSome (le_trans ?_ h)
  have hvalue := Number.plus_value a { b with neg := !b.neg }
  rw [← Number.abs_value, hvalue, Number.value_of_nonneg ha]
  have hminus : ({ b with neg := !b.neg } : Number).value = -b.magnitude := by
    simp [Number.value, Number.magnitude, hb]
  have hpos := Number.magnitude_nonneg b
  rw [hminus, abs_of_nonneg (by linarith)]
  linarith

/-! ## Sums -/

variable (ctx)

/-- `sum(terms, Decimal("0"))`. -/
def sum (terms : List Number) : Option Number := terms.foldlM ctx.add ⟨false, 0, 0⟩

variable {ctx}

/-- The rounded sum of one term more. -/
theorem sum_append_one (terms : List Number) (t : Number) :
    ctx.sum (terms ++ [t]) = (ctx.sum terms).bind (ctx.add · t) := by
  simp [sum, List.foldlM_append]

/-- The total of the magnitudes. -/
def total (terms : List Number) : ℚ := (terms.map Number.magnitude).sum

/-- The least exponent, the start of the sum included. -/
def leastExp (terms : List Number) : ℤ := (terms.map Number.exp).foldl min 0

variable (ctx) in
/-- Positive multiples of `10^e`, for an `e` within the context. -/
structure MultiplesOf (e : ℤ) (terms : List Number) : Prop where
  low : ctx.etiny ≤ e
  high : e ≤ ctx.etop
  nonneg : ∀ x ∈ terms, x.neg = false
  nonzero : ∀ x ∈ terms, x.coeff ≠ 0
  units : ∀ x ∈ terms, ∃ k : ℕ, x.magnitude = k * (10 : ℚ) ^ e

/-- Fewer terms are multiples too. -/
theorem MultiplesOf.mono {e : ℤ} {terms terms' : List Number} (h : ctx.MultiplesOf e terms)
    (hsub : terms' ⊆ terms) : ctx.MultiplesOf e terms' :=
  ⟨h.low, h.high, fun x hx => h.nonneg x (hsub hx), fun x hx => h.nonzero x (hsub hx),
    fun x hx => h.units x (hsub hx)⟩

/-- The exact sum of one term more. -/
theorem total_append_one (terms : List Number) (t : Number) :
    total (terms ++ [t]) = total terms + t.magnitude := by
  simp [total]

theorem total_nonneg {terms : List Number} : 0 ≤ total terms := by
  refine List.sum_nonneg fun m hm => ?_
  obtain ⟨x, -, rfl⟩ := List.mem_map.mp hm
  exact x.magnitude_nonneg

/-- The exact sum of multiples is a multiple. -/
theorem MultiplesOf.total_eq {e : ℤ} {terms : List Number} (h : ctx.MultiplesOf e terms) :
    ∃ k : ℕ, total terms = k * (10 : ℚ) ^ e := by
  induction terms using List.reverseRecOn with
  | nil => exact ⟨0, by simp [total]⟩
  | append_singleton terms t ih =>
    obtain ⟨k, hk⟩ := ih (h.mono fun x hx => List.mem_append_left _ hx)
    obtain ⟨l, hl⟩ := h.units t (by simp)
    exact ⟨k + l, by rw [total_append_one, hk, hl]; push_cast; ring⟩

/-- The exponent of a growing sum forgets the exponents it passed through. -/
theorem canonicalExp_min {m m' : ℚ} (hpos : 0 < m) (hle : m ≤ m') (e f : ℤ) :
    ctx.canonicalExp m' (min (ctx.canonicalExp m e) f) = ctx.canonicalExp m' (min e f) := by
  have hlog := Int.log_mono_right (b := 10) hpos hle
  simp only [canonicalExp]
  omega

/-- **Exact sums.** A sum of multiples of `10^e` that stays below the precision
is formed without rounding, at an exponent that depends on its value and the
least exponent only. -/
theorem sum_exact {e : ℤ} {terms : List Number} (h : ctx.MultiplesOf e terms)
    (hroom : total terms < 10 ^ (ctx.prec + e)) :
    ∃ r, ctx.sum terms = some r ∧ r.neg = false ∧ r.magnitude = total terms ∧
      (terms = [] ∧ r.exp = 0 ∨
        terms ≠ [] ∧ r.exp = ctx.canonicalExp (total terms) (leastExp terms)) := by
  induction terms using List.reverseRecOn with
  | nil => exact ⟨⟨false, 0, 0⟩, rfl, rfl, by simp [Number.magnitude, total], .inl ⟨rfl, rfl⟩⟩
  | append_singleton terms t ih =>
    have hinit : ctx.MultiplesOf e terms := h.mono fun x hx => List.mem_append_left _ hx
    have ht : t ∈ terms ++ [t] := by simp
    have htpos := Number.magnitude_pos (h.nonzero t ht)
    obtain ⟨k, hk⟩ := h.total_eq
    rw [total_append_one] at hroom hk
    have hnonneg := @total_nonneg terms
    obtain ⟨r, hr, hrneg, hrmag, hrexp⟩ := ih hinit (by linarith)
    have hplus := Number.plus_magnitude hrneg (h.nonneg t ht)
    rw [hrmag] at hplus
    have hpluspos : 0 < (r.plus t).magnitude := by linarith
    have hcoeff : (r.plus t).coeff ≠ 0 := by
      intro h0
      rw [Number.magnitude, h0, Nat.cast_zero, zero_mul] at hpluspos
      exact lt_irrefl _ hpluspos
    have hkprec : k < 10 ^ ctx.prec := by
      rw [hk, zpow_add₀ (by norm_num), zpow_natCast, mul_lt_mul_iff_left₀ (by positivity)] at hroom
      exact_mod_cast hroom
    obtain ⟨s, hs, hsneg, hsmag, hsexp⟩ :=
      fix_exact hcoeff (hplus.trans hk) hkprec h.low h.high
    refine ⟨s, by rw [sum_append_one, hr]; exact hs,
      hsneg.trans (Number.plus_neg hrneg (h.nonneg t ht)),
      by rw [hsmag, hplus, total_append_one], .inr ⟨by simp, ?_⟩⟩
    have hleast : leastExp (terms ++ [t]) = min (leastExp terms) t.exp := by simp [leastExp]
    rw [hsexp, hplus, total_append_one, hleast]
    change ctx.canonicalExp _ (min r.exp t.exp) = _
    rcases hrexp with ⟨rfl, hexp⟩ | ⟨hne, hexp⟩
    · rw [hexp]
      rfl
    · have hpos : 0 < total terms := by
        obtain ⟨x, hx⟩ := List.exists_mem_of_ne_nil _ hne
        refine (Number.magnitude_pos (hinit.nonzero x hx)).trans_le ?_
        refine List.single_le_sum (fun m hm => ?_) _ (List.mem_map_of_mem hx)
        obtain ⟨y, -, rfl⟩ := List.mem_map.mp hm
        exact y.magnitude_nonneg
      rw [hexp, canonicalExp_min hpos (by linarith)]

/-- The order of the terms of an exact sum does not matter. -/
theorem sum_perm {e : ℤ} {terms terms' : List Number} (hperm : terms.Perm terms')
    (h : ctx.MultiplesOf e terms) (hroom : total terms < 10 ^ (ctx.prec + e)) :
    ctx.sum terms = ctx.sum terms' := by
  have htotal : total terms = total terms' := (hperm.map _).sum_eq
  have hleast : leastExp terms = leastExp terms' := (hperm.map _).foldl_eq 0
  obtain ⟨r, hr, hrneg, hrmag, hrexp⟩ := sum_exact h hroom
  obtain ⟨s, hs, hsneg, hsmag, hsexp⟩ :=
    sum_exact (h.mono hperm.symm.subset) (htotal ▸ hroom)
  rw [hr, hs, Number.ext_of_magnitude (hrneg.trans hsneg.symm) _ (by rw [hrmag, hsmag, htotal])]
  rcases hrexp with ⟨rfl, hexp⟩ | ⟨hne, hexp⟩
  · rcases hsexp with ⟨-, hexp'⟩ | ⟨hne', -⟩
    · rw [hexp, hexp']
    · exact absurd (List.nil_perm.mp hperm) hne'
  · rcases hsexp with ⟨rfl, -⟩ | ⟨-, hexp'⟩
    · exact absurd (List.perm_nil.mp hperm) hne
    · rw [hexp, hexp', htotal, hleast]

end Context

end RunpodJobrunner
