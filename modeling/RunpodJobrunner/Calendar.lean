import Mathlib.Data.List.Range
import Mathlib.Tactic.Linarith
import RunpodJobrunner.DateTime

/-!
# Dates from instants

The datetime of an instant in UTC, and the text `%Y-%m-%dT%H:%M:%SZ` of it. An instant
is found back from its datetime (`ofInstant_instant`), and the whole second of a
datetime from its text (`readUtc_utcText`).
-/

namespace RunpodJobrunner

namespace DateTime

/-! ## The date of an ordinal -/

/-- The month of a day of a year, counted from `0`: the last one that starts by then. -/
def monthOf (year day : ℕ) : ℕ :=
  ((List.range' 1 12).filter fun month => daysBeforeMonth year month ≤ day).length

/-- `date.fromordinal(n)`: the year, the month and the day. -/
def ofOrdinal (n : ℕ) : ℕ × ℕ × ℕ :=
  let r := n - 1
  let n400 := r / 146097
  let r := r % 146097
  let n100 := r / 36524
  let r := r % 36524
  let n4 := r / 1461
  let r := r % 1461
  let n1 := r / 365
  let r := r % 365
  let year := n400 * 400 + n100 * 100 + n4 * 4 + n1 + 1
  -- the last day of a cycle of 4 or 400 years
  if n1 = 4 ∨ n100 = 4 then (year - 1, 12, 31)
  else (year, monthOf year r, r - daysBeforeMonth year (monthOf year r) + 1)

/-- `MAXORDINAL`, the last day of the year 9999. -/
def maxOrdinal : ℕ := 3652059

/-- The fields of an instant in UTC; `none` where the date is out of range. -/
def ofInstant (instant : ℤ) : Option DateTime :=
  let day := instant / 86400000000
  if 1 ≤ day ∧ day ≤ maxOrdinal then
    let us := (instant % 86400000000).toNat
    let (year, month, dayOfMonth) := ofOrdinal day.toNat
    some ⟨year, month, dayOfMonth, us / 3600000000, us / 60000000 % 60, us / 1000000 % 60,
      us % 1000000, some 0⟩
  else none

/-- `d.astimezone(UTC)` of an aware datetime; `none` where it overflows. -/
def toUtc (d : DateTime) : Option DateTime := ofInstant d.instant

/-- `d + timedelta(seconds=n)` of a datetime in UTC; `none` where it overflows. -/
def addSeconds (d : DateTime) (n : ℕ) : Option DateTime := ofInstant (d.instant + n * 1000000)

/-- `strftime("%Y-%m-%dT%H:%M:%SZ")`. -/
def utcText (d : DateTime) : Text :=
  padded 4 d.year ++ [45] ++ padded 2 d.month ++ [45] ++ padded 2 d.day ++ [84] ++
    padded 2 d.hour ++ [58] ++ padded 2 d.minute ++ [58] ++ padded 2 d.second ++ [90]

/-- The datetime that a text of this format denotes. -/
def readUtc : Text → Option DateTime
  | [y₁, y₂, y₃, y₄, 45, m₁, m₂, 45, d₁, d₂, 84, h₁, h₂, 58, n₁, n₂, 58, s₁, s₂, 90] =>
    if [y₁, y₂, y₃, y₄, m₁, m₂, d₁, d₂, h₁, h₂, n₁, n₂, s₁, s₂].all isDigit then
      some ⟨digitsValue [y₁, y₂, y₃, y₄], digitsValue [m₁, m₂], digitsValue [d₁, d₂],
        digitsValue [h₁, h₂], digitsValue [n₁, n₂], digitsValue [s₁, s₂], 0, some 0⟩
    else none
  | _ => none

/-! ## Ordinals and instants -/

/-- Days before a month of a leap year or another. -/
def daysBefore (leap : Bool) (month : ℕ) : ℕ :=
  let days := [0, 31, 59, 90, 120, 151, 181, 212, 243, 273, 304, 334].getD (month - 1) 0
  if 2 < month && leap then days + 1 else days

theorem monthOf_spec (leap : Bool) : ∀ day < 366,
    let month := ((List.range' 1 12).filter fun month => daysBefore leap month ≤ day).length
    month ≤ 12 ∧ daysBefore leap month ≤ day ∧ day - daysBefore leap month < 32 := by
  cases leap <;> decide +kernel

theorem monthOf_bounds (year : ℕ) {day : ℕ} (h : day < 366) :
    monthOf year day ≤ 12 ∧ daysBeforeMonth year (monthOf year day) ≤ day ∧
      day - daysBeforeMonth year (monthOf year day) < 32 :=
  monthOf_spec (isLeap year) day h

/-- The days before a year, of which `_ord2ymd` takes cycles of 400, 100, 4 and 1 years. -/
theorem days_before_year {n400 n100 n4 n1 : ℕ} (h100 : n100 ≤ 3) (h4 : n4 ≤ 24) (h1 : n1 ≤ 3) :
    let y := n400 * 400 + n100 * 100 + n4 * 4 + n1
    y * 365 + y / 4 - y / 100 + y / 400 = n400 * 146097 + n100 * 36524 + n4 * 1461 + n1 * 365 := by
  intro y
  have hy : y = n400 * 400 + n100 * 100 + n4 * 4 + n1 := rfl
  have hdiv4 : y / 4 = n400 * 100 + n100 * 25 + n4 := by omega
  have hdiv100 : y / 100 = n400 * 4 + n100 := by omega
  have hdiv400 : y / 400 = n400 := by omega
  omega

/-- The ordinal of a date whose year ends the given cycles. -/
theorem ordinal_eq {n400 n100 n4 n1 month day hour minute second us : ℕ} {offset : Option ℤ}
    (h100 : n100 ≤ 3) (h4 : n4 ≤ 24) (h1 : n1 ≤ 3) :
    (⟨n400 * 400 + n100 * 100 + n4 * 4 + n1 + 1, month, day, hour, minute, second, us, offset⟩ :
      DateTime).ordinal = n400 * 146097 + n100 * 36524 + n4 * 1461 + n1 * 365 +
        daysBeforeMonth (n400 * 400 + n100 * 100 + n4 * 4 + n1 + 1) month + day := by
  rw [← days_before_year h100 h4 h1]
  rfl

theorem daysBeforeMonth_december {year : ℕ} (h : isLeap year = true) :
    daysBeforeMonth year 12 = 335 := by
  rw [daysBeforeMonth, h]
  rfl

/-- The date of an ordinal has that ordinal, and fields of two digits, four for the year. -/
theorem ofOrdinal_spec {n : ℕ} (h1 : 1 ≤ n) (hn : n ≤ maxOrdinal) :
    ∃ year month day, ofOrdinal n = (year, month, day) ∧ year < 10000 ∧ month < 100 ∧ day < 100 ∧
      ∀ hour minute second us offset,
        (⟨year, month, day, hour, minute, second, us, offset⟩ : DateTime).ordinal = n := by
  rw [maxOrdinal] at hn
  rw [ofOrdinal]
  obtain ⟨r, rfl⟩ : ∃ r, n = r + 1 := ⟨n - 1, by omega⟩
  rw [Nat.add_sub_cancel]
  generalize h400 : r / 146097 = n400
  generalize hr400 : r % 146097 = r400
  generalize h100 : r400 / 36524 = n100
  generalize hr100 : r400 % 36524 = r100
  generalize h4 : r100 / 1461 = n4
  generalize hr4 : r100 % 1461 = r4
  generalize hn1 : r4 / 365 = n1
  generalize hday : r4 % 365 = day
  have hcycles : r = n400 * 146097 + n100 * 36524 + n4 * 1461 + n1 * 365 + day := by omega
  have hbounds : n400 ≤ 24 ∧ n100 ≤ 4 ∧ n4 ≤ 24 ∧ n1 ≤ 4 ∧ day < 365 := by omega
  have h100zero : n100 = 4 → n4 = 0 ∧ n1 = 0 ∧ day = 0 := by omega
  have h1last : n1 = 4 → n4 ≤ 23 ∧ day = 0 := by omega
  clear h400 hr400 h100 hr100 h4 hr4 hn1 hday
  split
  · next hlast =>
    -- the last day of a leap year that ends a cycle
    have hleap : isLeap (n400 * 400 + n100 * 100 + n4 * 4 + n1) = true := by
      simp only [isLeap, Bool.and_eq_true, Bool.or_eq_true, beq_iff_eq, bne_iff_ne]
      omega
    obtain ⟨m100, m4, hm100, hm4, hyear, hdays⟩ : ∃ m100 m4, m100 ≤ 3 ∧ m4 ≤ 24 ∧
        n400 * 400 + n100 * 100 + n4 * 4 + n1 = n400 * 400 + m100 * 100 + m4 * 4 + 3 + 1 ∧
        n100 * 36524 + n4 * 1461 + n1 * 365 = m100 * 36524 + m4 * 1461 + 3 * 365 + 365 := by
      by_cases hfour : n100 = 4
      · exact ⟨3, 24, by omega, by omega, by omega, by omega⟩
      · exact ⟨n100, n4, by omega, by omega, by omega, by omega⟩
    rw [Nat.add_sub_cancel]
    refine ⟨_, _, _, rfl, by omega, by norm_num, by norm_num, fun hour minute second us offset => ?_⟩
    have hzero : day = 0 := by omega
    rw [hyear, ordinal_eq hm100 hm4 le_rfl, ← hyear, daysBeforeMonth_december hleap]
    linarith
  · next hlast =>
    obtain ⟨hmonth, hbefore, hafter⟩ :=
      monthOf_bounds (n400 * 400 + n100 * 100 + n4 * 4 + n1 + 1) (show day < 366 by omega)
    refine ⟨_, _, _, rfl, by omega, by omega, by omega, fun hour minute second us offset => ?_⟩
    rw [ordinal_eq (by omega) (by omega) (by omega)]
    omega

/-- The fields are two digits, four for the year, so that the text of the format is one of
twenty characters. -/
structure Readable (d : DateTime) : Prop where
  year : d.year < 10 ^ 4
  month : d.month < 10 ^ 2
  day : d.day < 10 ^ 2
  hour : d.hour < 10 ^ 2
  minute : d.minute < 10 ^ 2
  second : d.second < 10 ^ 2
  utc : d.offset = some 0

/-- **The datetime of an instant** is at that instant. -/
theorem ofInstant_instant {i : ℤ} {d : DateTime} (h : ofInstant i = some d) :
    d.instant = i ∧ d.Readable := by
  rw [ofInstant] at h
  simp only at h
  split at h
  · next hday =>
    obtain ⟨year, month, day, hordinal, hyear, hmonth, hday', hof⟩ :=
      ofOrdinal_spec (n := (i / 86400000000).toNat) (by omega) (by omega)
    rw [hordinal] at h
    obtain rfl := Option.some.inj h
    have hrest : 0 ≤ i % 86400000000 ∧ i % 86400000000 < 86400000000 := by omega
    have hsplit : i = i / 86400000000 * 86400000000 + i % 86400000000 := by omega
    refine ⟨?_, ⟨hyear, hmonth, hday', ?_, ?_, ?_, rfl⟩⟩
    · rw [instant, hof]
      simp only [Option.getD_some]
      omega
    all_goals
      simp only
      omega
  · cases h

/-- An instant that has a datetime is in the years 1 to 9999. -/
theorem ofInstant_range {i : ℤ} {d : DateTime} (h : ofInstant i = some d) :
    0 < i ∧ i < 1000000000000000000 := by
  have hmax : (maxOrdinal : ℤ) = 3652059 := rfl
  rw [ofInstant] at h
  simp only at h
  split at h
  · omega
  · cases h

/-! ## Reading a text back -/

theorem natText_length_le {n w : ℕ} (hw : 0 < w) (h : n < 10 ^ w) : (natText n).length ≤ w := by
  induction w generalizing n with
  | zero => omega
  | succ w ih =>
    rw [natText_eq]
    split
    · exact Nat.succ_le_succ (Nat.zero_le w)
    · next hn =>
      rw [pow_succ] at h
      have hpos : 0 < w := by
        rcases Nat.eq_zero_or_pos w with rfl | hpos
        · omega
        · exact hpos
      have := ih hpos (n := n / 10) (by omega)
      rw [List.length_append, List.length_singleton]
      omega

theorem padded_spec {n w : ℕ} (hw : 0 < w) (h : n < 10 ^ w) :
    (padded w n).length = w ∧ (∀ c ∈ padded w n, isDigit c = true) ∧
    digitsValue (padded w n) = n := by
  have hlength := natText_length_le hw h
  rw [padded]
  refine ⟨?_, fun c hc => ?_, by rw [digitsValue_zeros, digitsValue_natText]⟩
  · rw [List.length_append, List.length_replicate]
    omega
  · rcases List.mem_append.mp hc with hc | hc
    · rw [List.eq_of_mem_replicate hc]
      rfl
    · exact natText_digits n c hc

theorem padded_two {n : ℕ} (h : n < 10 ^ 2) :
    ∃ a b, padded 2 n = [a, b] ∧ isDigit a = true ∧ isDigit b = true ∧ digitsValue [a, b] = n := by
  obtain ⟨hlength, hdigits, hvalue⟩ := padded_spec (by norm_num) h
  obtain ⟨a, b, hab⟩ := List.length_eq_two.mp hlength
  rw [hab] at hdigits hvalue
  exact ⟨a, b, hab, hdigits a (by simp), hdigits b (by simp), hvalue⟩

/-- **The text of a datetime** denotes its whole second. -/
theorem readUtc_utcText {d : DateTime} (h : d.Readable) :
    readUtc (utcText d) = some { d with microsecond := 0 } := by
  obtain ⟨hlength, hdigits, hyear⟩ := padded_spec (by norm_num) h.year
  obtain ⟨y₁, y₂, y₃, y₄, hy⟩ : ∃ a b c e, padded 4 d.year = [a, b, c, e] := by
    match hyears : padded 4 d.year, hlength with
    | [a, b, c, e], _ => exact ⟨a, b, c, e, rfl⟩
  rw [hy] at hdigits hyear
  obtain ⟨m₁, m₂, hm, hm₁, hm₂, hmonth⟩ := padded_two h.month
  obtain ⟨d₁, d₂, hd, hd₁, hd₂, hday⟩ := padded_two h.day
  obtain ⟨h₁, h₂, hh, hh₁, hh₂, hhour⟩ := padded_two h.hour
  obtain ⟨n₁, n₂, hn, hn₁, hn₂, hminute⟩ := padded_two h.minute
  obtain ⟨s₁, s₂, hs, hs₁, hs₂, hsecond⟩ := padded_two h.second
  have hall : [y₁, y₂, y₃, y₄, m₁, m₂, d₁, d₂, h₁, h₂, n₁, n₂, s₁, s₂].all isDigit = true := by
    simp [hm₁, hm₂, hd₁, hd₂, hh₁, hh₂, hn₁, hn₂, hs₁, hs₂, hdigits]
  rw [utcText, hy, hm, hd, hh, hn, hs]
  simp only [List.cons_append, List.nil_append, readUtc, hall, if_true, hyear, hmonth, hday, hhour,
    hminute, hsecond, ← h.utc]

/-- What is dropped is a part of a second. -/
theorem instant_whole_le (d : DateTime) :
    ({ d with microsecond := 0 } : DateTime).instant ≤ d.instant := by
  simp only [instant, ordinal]
  omega

example : utcText ⟨2026, 8, 1, 0, 5, 9, 999999, some 0⟩ = txt "2026-08-01T00:05:09Z" := by decide

end DateTime

end RunpodJobrunner
