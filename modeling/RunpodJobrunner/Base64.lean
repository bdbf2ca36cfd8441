import RunpodJobrunner.Utf8

/-!
# Base64

The standard alphabet with padding, and strict decoding: whole quanta only, padding at
the very end only, and nothing outside the alphabet. The bits that padding stands for are
not looked at, so decoding is a left inverse of encoding and not a right one. Nothing here
depends on the program being verified.
-/

namespace RunpodJobrunner

namespace Base64

/-- The character of six bits. -/
def digit (n : ℕ) : ℕ :=
  if n < 26 then 65 + n else if n < 52 then 71 + n
  else if n < 62 then n - 4 else if n = 62 then 43 else 47

/-- The six bits of a character of the alphabet. -/
def value (c : ℕ) : Option ℕ :=
  if 65 ≤ c ∧ c ≤ 90 then some (c - 65)
  else if 97 ≤ c ∧ c ≤ 122 then some (c - 71)
  else if 48 ≤ c ∧ c ≤ 57 then some (c + 4)
  else if c = 43 then some 62
  else if c = 47 then some 63
  else none

/-- `=`. -/
def pad : ℕ := 61

/-- `base64.b64encode(data).decode("ascii")`. -/
def encode : Bytes → Text
  | [] => []
  | [a] => [digit (a / 4), digit (a % 4 * 16), pad, pad]
  | [a, b] => [digit (a / 4), digit (a % 4 * 16 + b / 16), digit (b % 16 * 4), pad]
  | a :: b :: c :: t =>
    digit (a / 4) :: digit (a % 4 * 16 + b / 16) :: digit (b % 16 * 4 + c / 64) :: digit (c % 64) ::
      encode t

/-- The bytes of four characters; the third or the fourth is padding where there are fewer. -/
def quantum (w x y z : ℕ) : Option Bytes := do
  let p ← value w
  let q ← value x
  if y = pad then
    if z = pad then some [p * 4 + q / 16] else none
  else do
    let r ← value y
    if z = pad then some [p * 4 + q / 16, q % 16 * 16 + r / 4]
    else do
      let s ← value z
      some [p * 4 + q / 16, q % 16 * 16 + r / 4, r % 4 * 64 + s]

/-- `base64.b64decode(text, validate=True)`; `none` where it raises a `ValueError`. -/
def decode : Text → Option Bytes
  | [] => some []
  | w :: x :: y :: z :: t =>
    if z = pad ∧ t ≠ [] then none
    else do
      let bytes ← quantum w x y z
      let rest ← decode t
      some (bytes ++ rest)
  | _ => none

theorem value_digit {n : ℕ} (h : n < 64) : value (digit n) = some n := by
  have hall : ∀ n < 64, value (digit n) = some n := by decide
  exact hall n h

theorem digit_ne_pad {n : ℕ} (h : n < 64) : digit n ≠ pad := by
  have hall : ∀ n < 64, digit n ≠ pad := by decide
  exact hall n h

theorem ascii_of_value {c n : ℕ} (h : value c = some n) : c < 128 := by
  unfold value at h
  grind

/-- **Round trip.** -/
theorem decode_encode {data : Bytes} (h : ∀ b ∈ data, b < 256) :
    decode (encode data) = some data := by
  fun_induction encode data with
  | case1 => rfl
  | case2 a =>
    have ha : a < 256 := h a (by simp)
    have hq : quantum (digit (a / 4)) (digit (a % 4 * 16)) pad pad = some [a] := by
      simp only [quantum, value_digit (n := a / 4) (by omega),
        value_digit (n := a % 4 * 16) (by omega), Option.bind_eq_bind, Option.bind_some, if_true,
          Option.some.injEq, List.cons.injEq, and_true]
      omega
    simp [decode, hq]
  | case3 a b =>
    have ha : a < 256 := h a (by simp)
    have hb : b < 256 := h b (by simp)
    have hy := digit_ne_pad (n := b % 16 * 4) (by omega)
    have hq : quantum (digit (a / 4)) (digit (a % 4 * 16 + b / 16)) (digit (b % 16 * 4)) pad =
        some [a, b] := by
      simp only [quantum, value_digit (n := a / 4) (by omega),
        value_digit (n := a % 4 * 16 + b / 16) (by omega), value_digit (n := b % 16 * 4) (by omega),
        Option.bind_eq_bind, Option.bind_some, if_neg hy, if_true, Option.some.injEq, List.cons.injEq,
        and_true]
      omega
    simp [decode, hq]
  | case4 a b c t ih =>
    have ha : a < 256 := h a (by simp)
    have hb : b < 256 := h b (by simp)
    have hc : c < 256 := h c (by simp)
    have hy := digit_ne_pad (n := b % 16 * 4 + c / 64) (by omega)
    have hz := digit_ne_pad (n := c % 64) (by omega)
    have hq : quantum (digit (a / 4)) (digit (a % 4 * 16 + b / 16)) (digit (b % 16 * 4 + c / 64))
        (digit (c % 64)) = some [a, b, c] := by
      simp only [quantum, value_digit (n := a / 4) (by omega),
        value_digit (n := a % 4 * 16 + b / 16) (by omega),
        value_digit (n := b % 16 * 4 + c / 64) (by omega), value_digit (n := c % 64) (by omega),
        Option.bind_eq_bind, Option.bind_some, if_neg hy, if_neg hz, Option.some.injEq,
        List.cons.injEq,
        and_true]
      omega
    have hrest := ih fun b hb => h b (by simp [hb])
    simp [decode, hz, hq, hrest]

theorem ascii_of_quantum {w x y z : ℕ} {bytes : Bytes} (h : quantum w x y z = some bytes) :
    w < 128 ∧ x < 128 ∧ y < 128 ∧ z < 128 := by
  obtain ⟨p, hw, h⟩ := Option.bind_eq_some_iff.mp h
  obtain ⟨q, hx, h⟩ := Option.bind_eq_some_iff.mp h
  refine ⟨ascii_of_value hw, ascii_of_value hx, ?_⟩
  split at h
  · next hy =>
    split at h
    · next hz => exact ⟨by rw [hy]; decide, by rw [hz]; decide⟩
    · cases h
  · obtain ⟨r, hy, h⟩ := Option.bind_eq_some_iff.mp h
    refine ⟨ascii_of_value hy, ?_⟩
    split at h
    · next hz => rw [hz]; decide
    · obtain ⟨s, hz, -⟩ := Option.bind_eq_some_iff.mp h
      exact ascii_of_value hz

/-- What is decoded has only ASCII characters. -/
theorem ascii_of_decode {t : Text} {data : Bytes} (h : decode t = some data) : ∀ c ∈ t, c < 128 := by
  fun_induction decode t generalizing data with
  | case1 => exact nofun
  | case2 => cases h
  | case3 w x y z t _ ih =>
    obtain ⟨bytes, hq, h⟩ := Option.bind_eq_some_iff.mp h
    obtain ⟨rest, hrest, -⟩ := Option.bind_eq_some_iff.mp h
    obtain ⟨hw, hx, hy, hz⟩ := ascii_of_quantum hq
    simp only [List.forall_mem_cons]
    exact ⟨hw, hx, hy, hz, ih hrest⟩
  | case4 => cases h

end Base64

end RunpodJobrunner
