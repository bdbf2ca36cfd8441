import RunpodJobrunner.DecimalArithmetic

/-!
# Normal form of a decimal number

`normalize` fixes a number to the context and drops the zeros at its end. Away from
the bounds of the context it keeps the value exactly when the value has no more
significant digits than the precision (`normalize_value_iff`). Nothing here depends
on the program being verified.
-/

namespace RunpodJobrunner

/-- The coefficient without the zeros at its end, up to an exponent. -/
def dropZeros (limit : ℤ) : ℕ → ℕ → ℤ → ℕ × ℤ
  | 0, c, e => (c, e)
  | fuel + 1, c, e =>
    if c % 10 = 0 ∧ e < limit then dropZeros limit fuel (c / 10) (e + 1) else (c, e)

theorem dropZeros_value (limit : ℤ) (fuel c : ℕ) (e : ℤ) :
    ((dropZeros limit fuel c e).1 : ℚ) * 10 ^ (dropZeros limit fuel c e).2 = c * 10 ^ e := by
  induction fuel generalizing c e with
  | zero => rfl
  | succ fuel ih =>
    rw [dropZeros]
    split
    · next h =>
      obtain ⟨k, hk⟩ := Nat.dvd_of_mod_eq_zero h.1
      rw [ih, hk, Nat.mul_div_cancel_left k (by norm_num), zpow_add₀ (by norm_num)]
      push_cast
      ring
    · rfl

theorem dropZeros_le (limit : ℤ) (fuel c : ℕ) (e : ℤ) : (dropZeros limit fuel c e).1 ≤ c := by
  induction fuel generalizing c e with
  | zero => rfl
  | succ fuel ih =>
    rw [dropZeros]
    split
    · exact (ih (c / 10) (e + 1)).trans (Nat.div_le_self c 10)
    · rfl

/-- Below the limit no zero is left. -/
theorem dropZeros_last {limit : ℤ} {fuel c : ℕ} {e : ℤ} (h0 : c ≠ 0) (hfuel : c < 10 ^ fuel)
    (h : (dropZeros limit fuel c e).2 < limit) : (dropZeros limit fuel c e).1 % 10 ≠ 0 := by
  induction fuel generalizing c e with
  | zero => omega
  | succ fuel ih =>
    rw [dropZeros] at h ⊢
    split at h
    · next hzero =>
      rw [if_pos hzero]
      rw [pow_succ] at hfuel
      exact ih (by omega) (by omega) h
    · next hzero =>
      rw [if_neg hzero]
      exact fun hlast => hzero ⟨hlast, h⟩

namespace Context

variable (ctx : Context)

/-- A fixed number without the zeros at its end. -/
def reduced (r : Number) : Number :=
  if r.coeff = 0 then { r with exp := 0 }
  else
    let p := dropZeros ctx.emax (digits r.coeff) r.coeff r.exp
    { r with coeff := p.1, exp := p.2 }

/-- `normalize`. -/
def normalize (n : Number) : Option Number := (ctx.fix n).map ctx.reduced

/-- The value has no more significant digits than the precision. -/
def Fits (n : Number) : Prop :=
  ∃ (c : ℕ) (e : ℤ), c < 10 ^ ctx.prec ∧ n.magnitude = c * (10 : ℚ) ^ e

/-- The number is away from the bounds of the context. -/
structure Inside (n : Number) : Prop where
  low : (10 : ℚ) ^ (ctx.etiny + ctx.prec) ≤ n.magnitude
  high : n.magnitude ≤ (10 : ℚ) ^ ctx.etop

variable {ctx} {n r : Number}

theorem lt_pow_digits (c : ℕ) : c < 10 ^ digits c := Nat.lt_pow_succ_log_self (by norm_num) c

/-- What is fixed has no more digits than the precision. -/
theorem fix_coeff_lt (hn : n.coeff ≠ 0) (hr : ctx.fix n = some r) :
    r.neg = n.neg ∧ r.coeff < 10 ^ ctx.prec ∧
      r.exp ≤ max n.exp (max (n.exp + digits n.coeff - ctx.prec) ctx.etiny + 1) := by
  have hprec := ctx.prec_pos
  have hcoeff := lt_pow_digits n.coeff
  have hpow : ∀ {c : ℕ}, digits c ≤ ctx.prec → c < 10 ^ ctx.prec := fun h =>
    (lt_pow_digits _).trans_le (Nat.pow_le_pow_right (by norm_num) h)
  rw [fix, if_neg hn] at hr
  simp only at hr
  split at hr
  · cases hr
  · split at hr
    · obtain rfl := Option.some.inj hr
      exact ⟨rfl, hpow (by omega), le_max_left _ _⟩
    · next hexp =>
      split at hr
      · next hdigits =>
        obtain rfl := Option.some.inj hr
        refine ⟨rfl, hpow hdigits, le_max_of_le_right ?_⟩
        simp only
        omega
      · split at hr
        · cases hr
        · obtain rfl := Option.some.inj hr
          refine ⟨rfl, ?_, le_max_right _ _⟩
          -- the carry makes at most the power of ten itself
          set e := max (n.exp + digits n.coeff - ctx.prec) ctx.etiny with he
          have hle : n.coeff ≤ 10 ^ ctx.prec * 10 ^ (e - n.exp).toNat := by
            rw [← pow_add]
            exact hcoeff.le.trans (Nat.pow_le_pow_right (by norm_num) (by omega))
          have hround := roundHalfEven_le hle
          have hone := Nat.one_le_pow ctx.prec 10 (by norm_num)
          simp only
          omega

theorem Inside.coeff_ne_zero (h : ctx.Inside n) : n.coeff ≠ 0 := by
  intro h0
  have hlow := h.low
  rw [Number.magnitude, h0, Nat.cast_zero, zero_mul] at hlow
  exact absurd hlow (not_le.mpr (by positivity))

/-- Inside the context, what fits is fixed as it is, and nothing else is. -/
theorem fix_magnitude_iff (h : ctx.Inside n) (hr : ctx.fix n = some r) :
    r.magnitude = n.magnitude ↔ ctx.Fits n := by
  have hn := h.coeff_ne_zero
  refine ⟨fun hsame => ⟨r.coeff, r.exp, (fix_coeff_lt hn hr).2.1, hsame.symm⟩, ?_⟩
  rintro ⟨c, e, hc, hvalue⟩
  have hpos := Number.magnitude_pos hn
  have hc0 : 1 ≤ c := by
    rcases Nat.eq_zero_or_pos c with rfl | hpos'
    · rw [hvalue] at hpos
      simp at hpos
    · exact hpos'
  have hlow : ctx.etiny ≤ e := by
    -- the coefficient is less than the precision leaves room for
    have hlt : (10 : ℚ) ^ (ctx.etiny + ctx.prec) < 10 ^ (e + ctx.prec) := by
      refine h.low.trans_lt ?_
      rw [hvalue, zpow_add₀ (by norm_num) e, mul_comm, zpow_natCast]
      exact mul_lt_mul_of_pos_left (by exact_mod_cast hc) (by positivity)
    have := (zpow_lt_zpow_iff_right₀ (by norm_num : (1 : ℚ) < 10)).mp hlt
    omega
  have hhigh : e ≤ ctx.etop := by
    refine (zpow_le_zpow_iff_right₀ (by norm_num : (1 : ℚ) < 10)).mp (le_trans ?_ h.high)
    rw [hvalue]
    exact le_mul_of_one_le_left (by positivity) (by exact_mod_cast hc0)
  obtain ⟨r', hr', -, hmagnitude, -⟩ := fix_exact hn hvalue hc hlow hhigh
  obtain rfl := Option.some.inj (hr.symm.trans hr')
  exact hmagnitude

theorem reduced_magnitude (r : Number) : (ctx.reduced r).magnitude = r.magnitude := by
  rw [reduced]
  split
  · next h0 => simp [Number.magnitude, h0]
  · exact dropZeros_value ctx.emax (digits r.coeff) r.coeff r.exp

/-- A number that is not zero has no zero left before the limit. -/
theorem reduced_last (hr : r.coeff ≠ 0) (h : (ctx.reduced r).exp < ctx.emax) :
    (ctx.reduced r).coeff % 10 ≠ 0 := by
  rw [reduced, if_neg hr] at h ⊢
  exact dropZeros_last hr (lt_pow_digits r.coeff) h

theorem reduced_coeff_le (r : Number) : (ctx.reduced r).coeff ≤ r.coeff := by
  rw [reduced]
  split
  · exact le_rfl
  · exact dropZeros_le _ _ _ _

variable (ctx) in
/-- What the normal form of a number is. -/
structure NormalForm (n r : Number) : Prop where
  neg : r.neg = n.neg
  coeff_ne_zero : r.coeff ≠ 0
  last : r.exp < 0 → r.coeff % 10 ≠ 0
  coeff_lt : r.coeff < 10 ^ ctx.prec
  lower : ∀ e, ctx.etiny ≤ e → (10 : ℚ) ^ e ≤ n.magnitude → (10 : ℚ) ^ e ≤ r.magnitude
  upper : r.magnitude <
    10 ^ (ctx.prec + max n.exp (max (n.exp + digits n.coeff - ctx.prec) ctx.etiny + 1))
  exact : r.magnitude = n.magnitude ↔ ctx.Fits n

/-- **The normal form** of a number inside the context: it has no zero at its end, and
the value of the number when that fits. -/
theorem normalize_spec (h : ctx.Inside n) (hemax : 0 < ctx.emax) :
    ∃ r, ctx.normalize n = some r ∧ ctx.NormalForm n r := by
  have hn := h.coeff_ne_zero
  have hlargest : n.magnitude ≤ ctx.largest := by
    refine h.high.trans (le_mul_of_one_le_left (by positivity) ?_)
    have : (10 : ℚ) ^ 1 ≤ 10 ^ ctx.prec := pow_le_pow_right₀ (by norm_num) ctx.prec_pos
    linarith
  obtain ⟨r, hr⟩ := Option.isSome_iff_exists.mp (fix_isSome hlargest)
  obtain ⟨hneg, hcoeff, hexp⟩ := fix_coeff_lt hn hr
  have hprec := ctx.prec_pos
  have hlarge := (fix_large (by omega) h.low hr).2
  have hpos : 0 < r.magnitude := lt_of_lt_of_le (by positivity) hlarge
  have hnonzero : ∀ {m : Number}, 0 < m.magnitude → m.coeff ≠ 0 := by
    intro m hm h0
    rw [Number.magnitude, h0, Nat.cast_zero, zero_mul] at hm
    exact hm.false
  have hvalue := @reduced_magnitude ctx r
  refine ⟨ctx.reduced r, by rw [normalize, hr, Option.map_some], ?_, hnonzero (hvalue ▸ hpos),
    fun hnegative => reduced_last (hnonzero hpos) (hnegative.trans hemax),
    (reduced_coeff_le r).trans_lt hcoeff, fun e he hle => hvalue ▸ (fix_large he hle hr).2, ?_, ?_⟩
  · rw [← hneg, reduced]
    split <;> rfl
  · rw [hvalue, zpow_add₀ (by norm_num), zpow_natCast]
    exact mul_lt_mul (by exact_mod_cast hcoeff) (zpow_le_zpow_right₀ (by norm_num) hexp)
      (by positivity) (by positivity)
  · rw [hvalue]
    exact fix_magnitude_iff h hr

end Context

end RunpodJobrunner
