import RunpodJobrunner.JsonText
import RunpodJobrunner.ProviderDeadline

/-!
# Seconds

Times are rational numbers of seconds. A time that `round(t, 6)` returned is a number of
millionths, which `float.__repr__` writes without zeros at the end; what it costs is a
decimal computed from that text.
-/

namespace RunpodJobrunner

open Json

/-! ## Rounding -/

/-- `round(t, 6)` of a time that is not negative, in millionths: to the nearest, a tie to the
even one. -/
def micros (t : ℚ) : ℕ :=
  let n := ⌊t * 1000000⌋.toNat
  let rest := t * 1000000 - n
  if rest < 1 / 2 ∨ rest = 1 / 2 ∧ n % 2 = 0 then n else n + 1

/-- Millionths as seconds. -/
def ofMicros (n : ℕ) : ℚ := n / 1000000

theorem ofMicros_nonneg (n : ℕ) : 0 ≤ ofMicros n := div_nonneg (Nat.cast_nonneg n) (by norm_num)

theorem ofMicros_mono {m n : ℕ} (h : m ≤ n) : ofMicros m ≤ ofMicros n :=
  div_le_div_of_nonneg_right (by exact_mod_cast h) (by norm_num)

@[simp] theorem micros_ofMicros (n : ℕ) : micros (ofMicros n) = n := by
  have hexact : ofMicros n * 1000000 = n := by
    rw [ofMicros]
    ring
  rw [micros, hexact, Int.floor_natCast, Int.toNat_natCast, sub_self]
  exact if_pos (.inl (by norm_num))

/-- Rounding to microseconds keeps the order. -/
theorem micros_mono {s t : ℚ} (hs : 0 ≤ s) (h : s ≤ t) : micros s ≤ micros t := by
  have hle : s * 1000000 ≤ t * 1000000 := by linarith
  have hs' : 0 ≤ ⌊s * 1000000⌋ := Int.floor_nonneg.mpr (by linarith)
  have hfloor : ⌊s * 1000000⌋ ≤ ⌊t * 1000000⌋ := Int.floor_le_floor hle
  obtain ⟨m, hm⟩ := Int.eq_ofNat_of_zero_le hs'
  obtain ⟨n, hn⟩ := Int.eq_ofNat_of_zero_le (hs'.trans hfloor)
  have hmn : m ≤ n := by
    rw [hm, hn] at hfloor
    exact_mod_cast hfloor
  have htn : t * 1000000 < n + 1 := by
    have := Int.lt_floor_add_one (t * 1000000)
    rw [hn] at this
    exact_mod_cast this
  simp only [micros, hm, hn, Int.toNat_natCast]
  rcases hmn.eq_or_lt with rfl | hlt
  · split
    · split <;> omega
    · next hround =>
      rw [if_neg]
      rintro (hless | ⟨htie, heven⟩)
      · exact hround (.inl (by linarith))
      · exact hround ((show s * 1000000 - m ≤ 1 / 2 by linarith).lt_or_eq.imp id fun heq =>
          ⟨heq, heven⟩)
  · split <;> split <;> omega

/-! ## As text -/

/-- The digits of `f / 10^k`, the last of which is no zero unless it is the only one. -/
def fraction : ℕ → ℕ → Text
  | 0, _ => []
  | k + 1, f => (48 + f / 10 ^ k) :: if f % 10 ^ k = 0 then [] else fraction k (f % 10 ^ k)

/-- A fraction consists of digits. -/
theorem fraction_digits (k : ℕ) {f : ℕ} (hf : f < 10 ^ k) : ∀ c ∈ fraction k f, isDigit c = true := by
  induction k generalizing f with
  | zero => nofun
  | succ k ih =>
    have hdigit : f / 10 ^ k < 10 := Nat.div_lt_of_lt_mul (by rwa [← pow_succ])
    refine List.forall_mem_cons.mpr ⟨by simp [isDigit]; omega, ?_⟩
    split
    · nofun
    · exact ih (Nat.mod_lt _ (by positivity))

/-- What the digits denote after those of a whole number. -/
theorem fraction_value {k f : ℕ} (w : Text) (hf : f < 10 ^ k) :
    (fraction k f).length ≤ k ∧
      digitsValue (w ++ fraction k f) * 10 ^ (k - (fraction k f).length) =
        digitsValue w * 10 ^ k + f := by
  induction k generalizing w f with
  | zero => simp_all [fraction]
  | succ k ih =>
    have hsplit : f = f / 10 ^ k * 10 ^ k + f % 10 ^ k := by
      have := Nat.div_add_mod f (10 ^ k)
      rw [mul_comm] at this
      exact this.symm
    have hw : digitsValue (w ++ [48 + f / 10 ^ k]) = 10 * digitsValue w + f / 10 ^ k := by
      rw [digitsValue_append_one, Nat.add_sub_cancel_left]
    rw [fraction]
    split
    · next hzero =>
      refine ⟨by simp, ?_⟩
      rw [hw, List.length_singleton, Nat.add_sub_cancel]
      rw [hzero] at hsplit
      rw [pow_succ]
      nlinarith
    · obtain ⟨hlength, hvalue⟩ := ih (w ++ [48 + f / 10 ^ k]) (Nat.mod_lt f (by positivity))
      rw [List.append_assoc, List.singleton_append, hw] at hvalue
      refine ⟨by rw [List.length_cons]; omega, ?_⟩
      rw [List.length_cons, Nat.add_sub_add_right, hvalue, pow_succ]
      nlinarith

/-- `float.__repr__` of `n` millionths of a second, which has an exponent below `1e-4`. -/
def secondsLiteral (n : ℕ) : FloatLiteral :=
  if n = 0 ∨ 100 ≤ n then
    ⟨false, n / 1000000, fraction 6 (n % 1000000), none,
      fraction_digits 6 (Nat.mod_lt _ (by decide)), FloatLiteral.exp_none, .inl (by simp [fraction])⟩
  else
    -- one digit before the point
    have hfrac : ∀ c ∈ (if n < 10 ∨ n % 10 = 0 then [] else [48 + n % 10]), isDigit c = true := by
      intro c hc
      split at hc
      · cases hc
      · obtain rfl := List.mem_singleton.mp hc
        simp [isDigit]
        omega
    ⟨false, if n < 10 then n else n / 10, if n < 10 ∨ n % 10 = 0 then [] else [48 + n % 10],
      some (101, [45], if n < 10 then txt "06" else txt "05"), hfrac,
      fun m s d h => by
        obtain ⟨rfl, rfl, rfl⟩ :
          101 = m ∧ [45] = s ∧ (if n < 10 then txt "06" else txt "05") = d := by
          simpa using h
        split <;> decide,
      .inr rfl⟩

example :
    literalText (secondsLiteral 1500000) = txt "1.5" ∧ literalText (secondsLiteral 0) = txt "0.0" ∧
    literalText (secondsLiteral 12) = txt "1.2e-05" := by decide +kernel

theorem secondsLiteral_neg (n : ℕ) : (secondsLiteral n).neg = false := by
  rw [secondsLiteral]
  split <;> rfl

/-- A time is written as what it is. -/
theorem secondsLiteral_value (n : ℕ) : (secondsLiteral n).value = ofMicros n := by
  by_cases h : n = 0 ∨ 100 ≤ n
  · obtain ⟨hlength, hvalue⟩ :=
      @fraction_value 6 (n % 1000000) (natText (n / 1000000)) (Nat.mod_lt n (by decide))
    rw [digitsValue_natText, show n / 1000000 * 10 ^ 6 + n % 1000000 = n by omega] at hvalue
    rw [secondsLiteral, if_pos h, FloatLiteral.value, ofMicros, eq_div_iff (by norm_num)]
    simp only [zero_sub, Bool.false_eq_true, if_false, one_mul]
    set l := (fraction 6 (n % 1000000)).length
    have hpow : (10 : ℚ) ^ (-(l : ℤ)) * 1000000 = 10 ^ (6 - l) := by
      rw [show (1000000 : ℚ) = 10 ^ (6 : ℤ) by norm_num, ← zpow_add₀ (by norm_num), ← zpow_natCast]
      congr 1
      omega
    rw [mul_assoc, hpow]
    exact_mod_cast hvalue
  · rw [not_or, not_le] at h
    have hall : ∀ m < 100, m ≠ 0 → (secondsLiteral m).value = ofMicros m := by decide +kernel
    exact hall n h.2 h.1

/-- A time as a JSON number. -/
def secondsJson (n : ℕ) : Json := .float (.literal (secondsLiteral n))

@[simp] theorem number_secondsJson (n : ℕ) : (secondsJson n).number = some (ofMicros n) :=
  congrArg some (secondsLiteral_value n)

/-! ## What it costs -/

namespace Runner

/-- `Decimal(text)`, where it is finite. -/
def decimalOf (text : Text) : Option Number :=
  match Decimal.ofText text with
  | some (.finite neg coeff exp) => some ⟨neg, coeff, exp⟩
  | _ => none

/-- `Decimal(str(seconds)) * usd_per_hour / Decimal(3600)`; `none` where a signal is raised. -/
def estimatedCost (usdPerHour : Number) (n : ℕ) : Option Number := do
  let seconds ← decimalOf (literalText (secondsLiteral n))
  let product ← defaultContext.mul seconds usdPerHour
  defaultContext.div product Application.secondsPerHour

/-- `_decimal_text`. -/
def decimalText (d : Number) : Option Text :=
  if d.coeff = 0 then some (txt "0")
  else (defaultContext.normalize d).map fun r => Decimal.formatF (.finite r.neg r.coeff r.exp)

end Runner

namespace Context

variable {ctx : Context} {n r : Number}

/-- Dropping zeros raises the exponent, up to the limit. -/
theorem dropZeros_exp (limit : ℤ) (fuel c : ℕ) (e : ℤ) :
    e ≤ (dropZeros limit fuel c e).2 ∧ (dropZeros limit fuel c e).2 ≤ max e limit := by
  induction fuel generalizing c e with
  | zero => exact ⟨le_rfl, le_max_left _ _⟩
  | succ fuel ih =>
    rw [dropZeros]
    split
    · next h =>
      obtain ⟨hlow, hhigh⟩ := ih (c / 10) (e + 1)
      omega
    · exact ⟨le_rfl, le_max_left _ _⟩

/-- A fixed number has an exponent of the context. -/
theorem fix_exp (hr : ctx.fix n = some r) : ctx.etiny ≤ r.exp ∧ r.exp ≤ ctx.emax := by
  have hprec := ctx.prec_pos
  have hbounds := ctx.emin_le
  have hdigits : 0 < digits n.coeff := Nat.succ_pos _
  have htop : ctx.etop = ctx.emax - ctx.prec + 1 := rfl
  have htiny : ctx.etiny = ctx.emin - ctx.prec + 1 := rfl
  rw [fix] at hr
  split at hr
  · obtain rfl := Option.some.inj hr
    simp only
    omega
  simp only at hr
  split at hr
  · cases hr
  split at hr
  · obtain rfl := Option.some.inj hr
    omega
  split at hr
  · obtain rfl := Option.some.inj hr
    simp only
    omega
  split at hr
  · cases hr
  · obtain rfl := Option.some.inj hr
    simp only
    omega

/-- Normalizing leaves the exponent in the range of the context. -/
theorem reduced_exp (r : Number) :
    min 0 r.exp ≤ (ctx.reduced r).exp ∧ (ctx.reduced r).exp ≤ max 0 (max r.exp ctx.emax) := by
  rw [reduced]
  split
  · simp
  · obtain ⟨hlow, hhigh⟩ := dropZeros_exp ctx.emax (digits r.coeff) r.coeff r.exp
    simp only
    omega

end Context

namespace Runner

/-- The sign of what is read without a minus. -/
theorem readFinite_neg {neg neg' : Bool} {t : Text} {coeff : ℕ} {exp : ℤ}
    (h : Decimal.readFinite neg t = some (.finite neg' coeff exp)) : neg' = neg := by
  unfold Decimal.readFinite at h
  dsimp only at h
  repeat' split at h
  all_goals cases h
  all_goals rfl

/-- The text of a time has no sign. -/
theorem decimalOf_seconds {n : ℕ} {d : Number}
    (h : decimalOf (literalText (secondsLiteral n)) = some d) : d.neg = false := by
  by_cases hn : n = 0 ∨ 100 ≤ n
  · have hdigits := natText_digits (n / 1000000)
    obtain ⟨c, t, hct⟩ := List.exists_cons_of_ne_nil (natText_ne_nil (n / 1000000))
    have htext : literalText (secondsLiteral n) =
        (if false then [45] else []) ++ c :: (t ++ 46 :: fraction 6 (n % 1000000)) := by
      rw [secondsLiteral, if_pos hn, literalText, ← List.cons_append, ← hct]
      simp [exponentText, fraction]
    rw [hct] at hdigits
    rw [decimalOf, htext, Decimal.ofText_signed false (hdigits c List.mem_cons_self)] at h
    · split at h
      · next hread =>
        obtain rfl := Option.some.inj h
        exact readFinite_neg hread
      · cases h
    · intro d hd
      rcases List.mem_append.mp hd with hd | hd
      · exact .inl (hdigits d (List.mem_cons_of_mem _ hd))
      · rcases List.mem_cons.mp hd with rfl | hd
        · exact .inr rfl
        · exact .inl (fraction_digits 6 (Nat.mod_lt _ (by decide)) d hd)
  · rw [not_or, not_le] at hn
    have hall :
        ∀ m < 100, m ≠ 0 → ∀ d ∈ decimalOf (literalText (secondsLiteral m)), d.neg = false := by
      decide +kernel
    exact hall n hn.2 hn.1 d h

/-- A cost is not negative where the rate is not. -/
theorem estimatedCost_neg {usdPerHour d : Number} {n : ℕ} (hrate : usdPerHour.neg = false)
    (h : estimatedCost usdPerHour n = some d) : d.neg = false := by
  obtain ⟨seconds, hseconds, h⟩ := Option.bind_eq_some_iff.mp h
  obtain ⟨product, hproduct, h⟩ := Option.bind_eq_some_iff.mp h
  have hproductNeg : product.neg = false := by
    rw [Context.fix_neg hproduct, Number.times, decimalOf_seconds hseconds, hrate]
    rfl
  rw [Context.div, if_neg (by decide)] at h
  rw [Context.fix_neg h, Number.quotient]
  dsimp only
  repeat' split
  all_goals simp [hproductNeg, Application.secondsPerHour]

/-- **The text of an amount** is read as a number, which is not negative when the amount is not. -/
theorem ofText_decimalText {d : Number} {t : Text} (hd : d.neg = false) (h : decimalText d = some t) :
    ∃ coeff exp, Decimal.ofText t = some (.finite false coeff exp) := by
  rw [decimalText] at h
  split at h
  · obtain rfl := Option.some.inj h
    exact ⟨0, 0, by decide⟩
  next hcoeff =>
  obtain ⟨r, hr, rfl⟩ := Option.map_eq_some_iff.mp h
  obtain ⟨m, hm, rfl⟩ := Option.map_eq_some_iff.mp hr
  obtain ⟨hneg, hlt, -⟩ := Context.fix_coeff_lt hcoeff hm
  obtain ⟨hlow, hhigh⟩ := Context.fix_exp hm
  obtain ⟨hlow', hhigh'⟩ := @Context.reduced_exp defaultContext m
  have hreduced : (defaultContext.reduced m).neg = false := by
    rw [Context.reduced]
    split <;> simp [hneg, hd]
  have hreducedLt : (defaultContext.reduced m).coeff < 10 ^ 28 :=
    (Context.reduced_coeff_le m).trans_lt hlt
  have htiny : defaultContext.etiny = -1000026 := rfl
  have hemax : defaultContext.emax = 999999 := rfl
  have hlength := DateTime.natText_length_le (by decide) hreducedLt
  have hrange : Decimal.InRange (defaultContext.reduced m).coeff (defaultContext.reduced m).exp := by
    simp only [Decimal.InRange, Decimal.maxEmax, Decimal.minEtiny]
    omega
  rw [Decimal.formatF, hreduced]
  by_cases hzero : (defaultContext.reduced m).coeff = 0
  · -- a zero has no digits to drop
    have hm0 : m.coeff = 0 := by
      by_contra h0
      have hpos := Number.magnitude_pos h0
      rw [← @Context.reduced_magnitude defaultContext m, Number.magnitude, hzero] at hpos
      simp at hpos
    rw [Context.reduced, if_pos hm0, if_pos hm0]
    simp only [hm0]
    exact ⟨0, 0, by decide⟩
  · rw [if_neg hzero]
    exact ⟨_, _, Decimal.ofText_plainText (Nat.pos_of_ne_zero hzero) hrange⟩

end Runner

end RunpodJobrunner
