import RunpodJobrunner.JsonText

/-!
# Written JSON is read back

What `scanOnce` makes of the text of a value, whatever follows it: the value, as
`json.loads(json.dumps(value))` returns it. Strings come first, one written
character at a time, then numbers, then values by induction.
-/

namespace RunpodJobrunner

namespace Json

/-! ## Characters -/

/-- A hexadecimal digit is read back. -/
theorem hexValue_hexDigit {n : ℕ} (h : n < 16) : hexValue (hexDigit n) = some n := by
  have hall : ∀ n < 16, hexValue (hexDigit n) = some n := by decide
  exact hall n h

/-- The four digits of an escape are read back. -/
theorem hexValue4_digits {c : ℕ} (h : c < 0x10000) :
    hexValue4 (hexDigit (c / 4096 % 16)) (hexDigit (c / 256 % 16)) (hexDigit (c / 16 % 16))
      (hexDigit (c % 16)) = some c := by
  rw [hexValue4, hexValue_hexDigit (Nat.mod_lt _ (by decide)),
    hexValue_hexDigit (Nat.mod_lt _ (by decide)), hexValue_hexDigit (Nat.mod_lt _ (by decide)),
    hexValue_hexDigit (Nat.mod_lt _ (by decide))]
  simp only [Option.some.injEq]
  omega

/-- A high surrogate. -/
def IsHigh (c : ℕ) : Prop := 0xD800 ≤ c ∧ c < 0xDC00

/-- A low surrogate. -/
def IsLow (c : ℕ) : Prop := 0xDC00 ≤ c ∧ c < 0xE000

instance : DecidablePred IsHigh := fun _ => inferInstanceAs (Decidable (_ ∧ _))

instance : DecidablePred IsLow := fun _ => inferInstanceAs (Decidable (_ ∧ _))

/-- How a character below `0x10000` is written. -/
inductive Written (ascii : Bool) (c : ℕ) : Text → Prop where
  | raw : c ≠ 34 → c ≠ 92 → 32 ≤ c → (ascii = true → c < 127) → Written ascii c [c]
  | simple {e : ℕ} : e ≠ 117 → simpleEscape e = some c → c < 127 → Written ascii c [92, e]
  | unicode : c < 0x10000 → (ascii = false → c < 32) → Written ascii c (unicodeEscape c)

/-- Every character is written in a form that is read back. -/
theorem written_escapeChar {ascii : Bool} {c : ℕ} (h : ascii = true → c < 0x10000) :
    Written ascii c (escapeChar ascii c) := by
  unfold escapeChar
  split
  · next hc => exact .simple (by decide) (by rw [hc]; rfl) (by omega)
  split
  · next hc => exact .simple (by decide) (by rw [hc]; rfl) (by omega)
  split
  · next hc => exact .simple (by decide) (by rw [hc]; rfl) (by omega)
  split
  · next hc => exact .simple (by decide) (by rw [hc]; rfl) (by omega)
  split
  · next hc => exact .simple (by decide) (by rw [hc]; rfl) (by omega)
  split
  · next hc => exact .simple (by decide) (by rw [hc]; rfl) (by omega)
  split
  · next hc => exact .simple (by decide) (by rw [hc]; rfl) (by omega)
  split
  · next hc => exact .unicode (by omega) fun _ => hc
  split
  · next hquote hslash _ _ _ _ _ hlow hraw =>
    refine .raw hquote hslash (by omega) fun hascii => ?_
    rcases hraw with hfalse | hlt
    · simp [hascii] at hfalse
    · exact hlt
  · next hraw =>
    obtain ⟨hascii, hhigh⟩ := not_or.mp hraw
    have htrue : ascii = true := by simpa using hascii
    rw [if_pos (h htrue)]
    exact .unicode (h htrue) fun hfalse => absurd hfalse hascii

/-- The characters of a string, where the wide ones are written as two escapes. -/
def units (ascii : Bool) (t : Text) : Text :=
  if ascii then
    t.flatMap fun c =>
      if c < 0x10000 then [c]
      else [0xD800 + (c - 0x10000) / 0x400, 0xDC00 + (c - 0x10000) % 0x400]
  else t

/-- Every code point is one of Unicode. -/
def IsUnicode (t : Text) : Prop := ∀ c ∈ t, c < 0x110000

instance : DecidablePred IsUnicode := fun t => inferInstanceAs (Decidable (∀ c ∈ t, c < 0x110000))

/-- What can be written one escape a character. -/
def IsNarrow (ascii : Bool) (t : Text) : Prop := ∀ c ∈ t, ascii = true → c < 0x10000

/-- A wide character is two units, in ASCII output. -/
theorem units_cons (c : ℕ) (t : Text) :
    units true (c :: t) =
      (if c < 0x10000 then [c]
        else [0xD800 + (c - 0x10000) / 0x400, 0xDC00 + (c - 0x10000) % 0x400]) ++ units true t := rfl

/-- Units are below the bound of one escape. -/
theorem isNarrow_units {ascii : Bool} {t : Text} (h : IsUnicode t) :
    IsNarrow ascii (units ascii t) := by
  intro c hc hascii
  subst hascii
  obtain ⟨d, hd, hcd⟩ := List.mem_flatMap.mp hc
  have hdlt := h d hd
  split at hcd
  · next hlt =>
    obtain rfl := List.mem_singleton.mp hcd
    exact hlt
  · simp only [List.mem_cons, List.not_mem_nil, or_false] at hcd
    omega

/-- A string is written unit by unit. -/
theorem stringTail_units (ascii : Bool) {t : Text} (h : IsUnicode t) :
    stringTail ascii (units ascii t) = stringTail ascii t := by
  cases ascii with
  | false => rfl
  | true =>
    induction t with
    | nil => rfl
    | cons c t ih =>
      have htail := ih fun d hd => h d (List.mem_cons_of_mem _ hd)
      have hc := h c List.mem_cons_self
      rw [units_cons]
      split
      · rw [List.cons_append, List.nil_append, stringTail, htail, stringTail]
      · next hwide =>
        -- each half is a surrogate, which is written as one escape
        have hhalf : ∀ d, 0xD800 ≤ d → d < 0xE000 → escapeChar true d = unicodeEscape d := by
          intro d hlo hhi
          have hlt : d < 0x10000 := by omega
          simp only [escapeChar, hlt, if_true]
          grind
        have hpair : escapeChar true c =
            unicodeEscape (0xD800 + (c - 0x10000) / 0x400) ++
              unicodeEscape (0xDC00 + (c - 0x10000) % 0x400) := by
          simp only [escapeChar, hwide, if_false]
          grind
        rw [List.cons_append, List.cons_append, List.nil_append, stringTail, stringTail, htail,
          stringTail, hpair, hhalf _ (by omega) (by omega), hhalf _ (by omega) (by omega),
          List.append_assoc]

/-- What a string is read back as. -/
def joined (ascii : Bool) (t : Text) : Text := if ascii then joinSurrogates t else t

/-- Nothing is joined to what is no high surrogate. -/
theorem joinSurrogates_of_not_high {c : ℕ} {t : Text} (h : ¬IsHigh c) :
    joinSurrogates (c :: t) = c :: joinSurrogates t := by
  cases t with
  | nil => rfl
  | cons d t =>
    rw [joinSurrogates, if_neg]
    simp only [Bool.and_eq_true, decide_eq_true_eq]
    exact fun hall => h ⟨hall.1.1.1, hall.1.1.2⟩

/-- A high surrogate stays alone where no low one follows. -/
theorem joinSurrogates_of_not_low {c : ℕ} {t : Text} (h : ∀ d, t.head? = some d → ¬IsLow d) :
    joinSurrogates (c :: t) = c :: joinSurrogates t := by
  cases t with
  | nil => rfl
  | cons d t =>
    rw [joinSurrogates, if_neg]
    simp only [Bool.and_eq_true, decide_eq_true_eq]
    exact fun hall => h d rfl ⟨hall.1.2, hall.2⟩

/-- A pair of surrogates is one character. -/
theorem joinSurrogates_pair {c d : ℕ} {t : Text} (hc : IsHigh c) (hd : IsLow d) :
    joinSurrogates (c :: d :: t) =
      (0x10000 + (c - 0xD800) * 0x400 + (d - 0xDC00)) :: joinSurrogates t := by
  rw [joinSurrogates, if_pos]
  simp only [Bool.and_eq_true, decide_eq_true_eq]
  exact ⟨⟨hc, hd.1⟩, hd.2⟩

/-- The units of a text start with a low surrogate only where the text does. -/
theorem head_units {t : Text} (ht : IsUnicode t) (h : ∀ d, t.head? = some d → ¬IsLow d) :
    ∀ d, (units true t).head? = some d → ¬IsLow d := by
  cases t with
  | nil => nofun
  | cons c t =>
    intro d hd
    have hc := ht c List.mem_cons_self
    rw [units_cons] at hd
    split at hd
    · exact h d hd
    · simp only [List.cons_append, List.head?_cons, Option.some.injEq] at hd
      subst hd
      rintro ⟨hlow, -⟩
      omega

/-- Joining undoes the splitting of wide characters. -/
theorem joined_units (ascii : Bool) {t : Text} (h : IsUnicode t) :
    joined ascii (units ascii t) = joined ascii t := by
  cases ascii with
  | false => rfl
  | true =>
    simp only [joined, if_true]
    induction hlen : t.length using Nat.strong_induction_on generalizing t with
    | _ n ih =>
      cases t with
      | nil => rfl
      | cons c t =>
        have hc := h c List.mem_cons_self
        have ht : IsUnicode t := fun d hd => h d (List.mem_cons_of_mem _ hd)
        have htail := ih t.length (by simp [← hlen]) ht rfl
        rw [units_cons]
        split
        · next hnarrow =>
          rw [List.cons_append, List.nil_append]
          by_cases hhigh : IsHigh c
          · cases t with
            | nil => rfl
            | cons d t =>
              by_cases hlow : IsLow d
              · have hd : d < 0x10000 := hlow.2.trans (by decide)
                have htail' := ih t.length (by simp only [← hlen, List.length_cons]; omega)
                  (fun e he => ht e (List.mem_cons_of_mem _ he)) rfl
                rw [units_cons, if_pos hd, List.cons_append, List.nil_append,
                  joinSurrogates_pair hhigh hlow, joinSurrogates_pair hhigh hlow, htail']
              · have hhead : ∀ e, (d :: t).head? = some e → ¬IsLow e := by
                  rintro e ⟨⟩
                  exact hlow
                rw [joinSurrogates_of_not_low (head_units ht hhead), joinSurrogates_of_not_low hhead,
                  htail]
          · rw [joinSurrogates_of_not_high hhigh, joinSurrogates_of_not_high hhigh, htail]
        · next hwide =>
          have hhigh : IsHigh (0xD800 + (c - 0x10000) / 0x400) := by
            constructor <;> omega
          have hlow : IsLow (0xDC00 + (c - 0x10000) % 0x400) := by
            constructor <;> omega
          have hnot : ¬IsHigh c := by
            rintro ⟨-, hlt⟩
            omega
          have hvalue : 0x10000 + (0xD800 + (c - 0x10000) / 0x400 - 0xD800) * 0x400 +
              (0xDC00 + (c - 0x10000) % 0x400 - 0xDC00) = c := by omega
          rw [List.cons_append, List.cons_append, List.nil_append, joinSurrogates_pair hhigh hlow,
            joinSurrogates_of_not_high hnot, htail, hvalue]

/-! ## Strings -/

section

variable {ascii : Bool} {start rest t : Text} {c : ℕ}

/-- A quote ends the string. -/
theorem scanString_quote : scanString start (34 :: rest) = .ok ([], rest) := by
  simp [scanString.eq_def start (34 :: rest)]

/-- A character that needs no escape stands for itself. -/
theorem scanString_raw (hquote : c ≠ 34) (hslash : c ≠ 92) (hlow : 32 ≤ c) :
    scanString start (c :: rest) = push c (scanString start rest) := by
  have hlt : ¬c < 32 := by omega
  simp [scanString.eq_def start (c :: rest), hquote, hslash, hlt]

/-- A short escape stands for its character. -/
theorem scanString_simple {e : ℕ} (hu : e ≠ 117) (he : simpleEscape e = some c) :
    scanString start (92 :: e :: rest) = push c (scanString start rest) := by
  simp [scanString.eq_def start (92 :: e :: rest), hu, he]

/-- An escape that no low surrogate joins. -/
theorem scanString_unicode (hc : c < 0x10000) (hrest : rest ≠ [])
    (hlow : IsHigh c → lowSurrogate rest = .ok none) :
    scanString start (unicodeEscape c ++ rest) = push c (scanString start rest) := by
  rw [scanString.eq_def]
  by_cases hhigh : 0xD800 ≤ c ∧ c < 0xDC00
  · simp [unicodeEscape, hexValue4_digits hc, hrest, hhigh, hlow hhigh]
  · simp [unicodeEscape, hexValue4_digits hc, hrest, hhigh]

/-- Two escapes that are one character. -/
theorem scanString_pair {y : ℕ} (hc : IsHigh c) (hy : IsLow y) (hrest : rest ≠ []) :
    scanString start (unicodeEscape c ++ (unicodeEscape y ++ rest)) =
      push (0x10000 + (c - 0xD800) * 0x400 + (y - 0xDC00)) (scanString start rest) := by
  have hc' : c < 0x10000 := by
    obtain ⟨-, hhi⟩ := hc
    omega
  have hy' : y < 0x10000 := by
    obtain ⟨-, hhi⟩ := hy
    omega
  have hhigh : 0xD800 ≤ c ∧ c < 0xDC00 := hc
  have hlow : 0xDC00 ≤ y ∧ y < 0xE000 := hy
  rw [scanString.eq_def]
  simp [unicodeEscape, lowSurrogate, hexValue4_digits hc', hexValue4_digits hy', hrest, hhigh, hlow]

/-- Without a backslash there is no second half. -/
theorem lowSurrogate_of_ne (h : c ≠ 92) : lowSurrogate (c :: rest) = .ok none := by
  rw [lowSurrogate.eq_def]
  split
  · next heq =>
    obtain ⟨rfl, -⟩ := List.cons.inj heq
    simp [h]
  · rfl

/-- A short escape is no second half. -/
theorem lowSurrogate_simple {e : ℕ} (h : e ≠ 117) : lowSurrogate (92 :: e :: rest) = .ok none := by
  rw [lowSurrogate.eq_def]
  split
  · next heq =>
    simp only [List.cons.injEq] at heq
    obtain ⟨rfl, rfl, -⟩ := heq
    simp [h]
  · rfl

/-- A `\u` escape of anything but a low surrogate is no second half. -/
theorem lowSurrogate_unicode (hc : c < 0x10000) (hlow : ¬IsLow c) :
    lowSurrogate (unicodeEscape c ++ rest) = .ok none := by
  have hnot : ¬(0xDC00 ≤ c ∧ c < 0xE000) := hlow
  by_cases hrest : rest = []
  · simp [unicodeEscape, lowSurrogate, hrest]
  · simp [unicodeEscape, lowSurrogate, hrest, hexValue4_digits hc, hnot]

/-- The text of characters that start with no low surrogate holds none at its front. -/
theorem lowSurrogate_stringTail (hnarrow : IsNarrow ascii t)
    (h : ∀ d, t.head? = some d → ¬IsLow d) :
    lowSurrogate (stringTail ascii t ++ rest) = .ok none := by
  cases t with
  | nil => exact lowSurrogate_of_ne (by decide)
  | cons d t =>
    rw [stringTail, List.append_assoc]
    have hwritten := written_escapeChar (hnarrow d List.mem_cons_self)
    generalize escapeChar ascii d = w at hwritten
    cases hwritten with
    | raw _ hslash _ _ => exact lowSurrogate_of_ne hslash
    | simple hu _ _ => exact lowSurrogate_simple hu
    | unicode hlt _ => exact lowSurrogate_unicode hlt (h d rfl)

/-- What is left of a string has its quote at least. -/
theorem stringTail_ne_nil (ascii : Bool) (t : Text) : stringTail ascii t ≠ [] := by
  induction t with
  | nil => nofun
  | cons c t ih => exact List.append_ne_nil_of_right_ne_nil _ ih

/-- What is read back begins with the character, where it is no first half. -/
theorem joined_of_not_high (h : ascii = true → ¬IsHigh c) :
    joined ascii (c :: t) = c :: joined ascii t := by
  cases ascii with
  | false => rfl
  | true => exact joinSurrogates_of_not_high (h rfl)

/-- A low surrogate is escaped in ASCII output. -/
theorem escapeChar_low (h : IsLow c) : escapeChar true c = unicodeEscape c := by
  obtain ⟨hlo, hhi⟩ := h
  have hlt : c < 0x10000 := by omega
  simp only [escapeChar, hlt, if_true]
  grind

/-- The text of a string, character by character, is read back. -/
theorem scanString_narrow (h : IsNarrow ascii t) :
    scanString start (stringTail ascii t ++ rest) = .ok (joined ascii t, rest) := by
  induction hlen : t.length using Nat.strong_induction_on generalizing t with
  | _ n ih =>
    cases t with
    | nil => cases ascii <;> exact scanString_quote
    | cons c t =>
      have ht : IsNarrow ascii t := fun d hd => h d (List.mem_cons_of_mem _ hd)
      have htail := ih t.length (by simp [← hlen]) ht rfl
      have hlowest : c < 127 → ¬IsHigh c := by
        rintro hlt ⟨hlo, -⟩
        omega
      rw [stringTail, List.append_assoc]
      have hwritten := written_escapeChar (h c List.mem_cons_self)
      generalize escapeChar ascii c = w at hwritten
      cases hwritten with
      | raw hquote hslash hlow hascii =>
        rw [List.cons_append, List.nil_append, scanString_raw hquote hslash hlow, htail,
          joined_of_not_high fun h => hlowest (hascii h)]
        rfl
      | simple hu he hlt =>
        rw [List.cons_append, List.cons_append, List.nil_append, scanString_simple hu he, htail,
          joined_of_not_high fun _ => hlowest hlt]
        rfl
      | unicode hlt hascii =>
        have hne : stringTail ascii t ++ rest ≠ [] :=
          List.append_ne_nil_of_left_ne_nil (stringTail_ne_nil ascii t) rest
        by_cases hhigh : ascii = true ∧ IsHigh c
        · obtain ⟨rfl, hhigh⟩ := hhigh
          by_cases hlow : ∃ d u, t = d :: u ∧ IsLow d
          · -- the next escape is the other half
            obtain ⟨d, u, rfl, hd⟩ := hlow
            have htail' := ih u.length (by simp only [← hlen, List.length_cons]; omega)
              (fun e he => ht e (List.mem_cons_of_mem _ he)) rfl
            have hne' : stringTail true u ++ rest ≠ [] :=
              List.append_ne_nil_of_left_ne_nil (stringTail_ne_nil true u) rest
            rw [stringTail, List.append_assoc, escapeChar_low hd, scanString_pair hhigh hd hne',
              htail']
            simp only [joined, if_true, joinSurrogates_pair hhigh hd]
            rfl
          · have hhead : ∀ d, t.head? = some d → ¬IsLow d := by
              intro d hd hdlow
              obtain ⟨u, rfl⟩ := List.head?_eq_some_iff.mp hd
              exact hlow ⟨d, u, rfl, hdlow⟩
            rw [scanString_unicode hlt hne fun _ => lowSurrogate_stringTail ht hhead, htail]
            simp only [joined, if_true, joinSurrogates_of_not_low hhead]
            rfl
        · have hnot : ascii = true → ¬IsHigh c := fun h hc => hhigh ⟨h, hc⟩
          have hnever : ¬IsHigh c := by
            cases ascii with
            | true => exact hnot rfl
            | false => exact hlowest ((hascii rfl).trans (by decide))
          rw [scanString_unicode hlt hne fun h => absurd h hnever, htail, joined_of_not_high hnot]
          rfl

/-- **Strings.** The text of a string is read back, wide characters joined. -/
theorem scanString_stringTail (h : IsUnicode t) :
    scanString start (stringTail ascii t ++ rest) = .ok (joined ascii t, rest) := by
  rw [← stringTail_units ascii h, scanString_narrow (isNarrow_units h), joined_units ascii h]

end

/-! ## Numbers -/

/-- What ends a number. -/
def Stops (rest : Text) : Prop :=
  ∀ c, rest.head? = some c → isDigit c = false ∧ c ≠ 46 ∧ c ≠ 101 ∧ c ≠ 69

section

variable {d : Decoder} {rest : Text}

/-- A number does not go on where it stops. -/
theorem Stops.no_digit (h : Stops rest) : ∀ c, rest.head? = some c → isDigit c = false :=
  fun c hc => (h c hc).1

/-- No point, no fraction. -/
theorem scanFraction_of_ne (h : rest.head? ≠ some 46) : scanFraction rest = ([], rest) := by
  rw [scanFraction.eq_def]
  split
  · next p c t =>
    have hp : p ≠ 46 := by
      rintro rfl
      exact h rfl
    simp [hp]
  · rfl

/-- No `e`, no exponent. -/
theorem scanExponent_of_ne (h : ∀ m, rest.head? = some m → m ≠ 101 ∧ m ≠ 69) :
    scanExponent rest = (none, rest) := by
  rw [scanExponent.eq_def]
  split
  · next m c t =>
    obtain ⟨he, hE⟩ := h m rfl
    simp [he, hE]
  · rfl

/-- A fraction is read as its digits. -/
theorem scanFraction_point {frac : Text} (hne : frac ≠ []) (hfrac : ∀ c ∈ frac, isDigit c = true)
    (hrest : ∀ c, rest.head? = some c → isDigit c = false) :
    scanFraction (46 :: (frac ++ rest)) = (frac, rest) := by
  obtain ⟨c, t, rfl⟩ := List.exists_cons_of_ne_nil hne
  obtain ⟨htake, hdrop⟩ :=
    Decimal.takeWhile_digits (fun e he => hfrac e (List.mem_cons_of_mem _ he)) hrest
  simp [scanFraction, hfrac c List.mem_cons_self, htake, hdrop]

/-- An exponent is read as its letter, its sign and its digits. -/
theorem scanExponent_digits {m : ℕ} {sign digits : Text} (he : IsExponent (m, sign, digits))
    (hrest : ∀ c, rest.head? = some c → isDigit c = false) :
    scanExponent (m :: (sign ++ digits ++ rest)) = (some (m, sign, digits), rest) := by
  obtain ⟨hm, hsign, hne, hdigits⟩ := he
  obtain ⟨htake, hdrop⟩ := Decimal.takeWhile_digits hdigits hrest
  obtain ⟨c, t, rfl⟩ := List.exists_cons_of_ne_nil hne
  have hc : c ≠ 43 ∧ c ≠ 45 := by
    have := hdigits c List.mem_cons_self
    simp only [isDigit, Bool.and_eq_true, decide_eq_true_eq] at this
    omega
  have hunsigned : scanSign (c :: (t ++ rest)) = ([], c :: (t ++ rest)) := by
    cases htail : t ++ rest with
    | nil => rfl
    | cons e u => simp [scanSign, hc.1, hc.2]
  have hm' : m = 101 ∨ m = 69 := hm
  rw [List.cons_append] at htake hdrop
  rcases hsign with rfl | rfl | rfl
  · simp [scanExponent, hm', hunsigned, htake, hdrop]
  · simp [scanExponent, hm', scanSign, htake, hdrop]
  · simp [scanExponent, hm', scanSign, htake, hdrop]

/-- The digits of a number are read up to what does not continue them. -/
theorem scanDigits_natText (start : Text) (neg : Bool) (n : ℕ)
    (hrest : ∀ c, rest.head? = some c → isDigit c = false) :
    scanDigits d start neg (natText n ++ rest) = scanNumberTail d neg (natText n) rest := by
  rcases Nat.eq_zero_or_pos n with rfl | hpos
  · rw [natText_zero]
    simp [scanDigits]
  · have hdigits := natText_digits n
    have hhead := natText_head_ne_zero hpos
    obtain ⟨c, t, ht⟩ := List.exists_cons_of_ne_nil (natText_ne_nil n)
    rw [ht] at hdigits hhead ⊢
    have hc : c ≠ 48 := by
      rintro rfl
      exact hhead rfl
    obtain ⟨htake, hdrop⟩ :=
      Decimal.takeWhile_digits (fun e he => hdigits e (List.mem_cons_of_mem _ he)) hrest
    simp [scanDigits, hc, hdigits c List.mem_cons_self, htake, hdrop]

/-- A number starts with a digit, or with a sign and one. -/
theorem scanNumber_unsigned (n : ℕ) (hrest : ∀ c, rest.head? = some c → isDigit c = false) :
    scanNumber d (natText n ++ rest) = scanNumberTail d false (natText n) rest := by
  obtain ⟨c, t, ht⟩ := List.exists_cons_of_ne_nil (natText_ne_nil n)
  have hc : isDigit c = true := natText_digits n c (by simp [ht])
  have hminus : c ≠ 45 := by
    rintro rfl
    cases hc
  have hdigits := @scanDigits_natText d rest (natText n ++ rest) false n hrest
  rw [ht, List.cons_append] at hdigits ⊢
  rw [scanNumber.eq_def]
  split
  · next heq => exact absurd (List.cons.inj heq).1 hminus
  · exact hdigits

/-- A minus is taken off first. -/
theorem scanNumber_signed (n : ℕ) (hrest : ∀ c, rest.head? = some c → isDigit c = false) :
    scanNumber d (45 :: (natText n ++ rest)) = scanNumberTail d true (natText n) rest :=
  scanDigits_natText _ true n hrest

/-- The digits of a number are read as a whole, with either sign. -/
theorem scanNumber_natText (neg : Bool) (n : ℕ)
    (hrest : ∀ c, rest.head? = some c → isDigit c = false) :
    scanNumber d ((if neg then [45] else []) ++ (natText n ++ rest)) =
      scanNumberTail d neg (natText n) rest := by
  cases neg with
  | false => exact scanNumber_unsigned n hrest
  | true => exact scanNumber_signed n hrest

/-- The text of an integer is its sign and its digits, as far as they can be converted. -/
theorem intText_eq {n : ℤ} {w : Text} (h : intText n = some w) :
    (natText n.natAbs).length ≤ maxStrDigits ∧
      w = (if decide (n < 0) then [45] else []) ++ natText n.natAbs := by
  simp only [intText] at h
  by_cases hlen : (natText n.natAbs).length ≤ maxStrDigits
  · rw [if_pos hlen] at h
    obtain rfl := Option.some.inj h
    refine ⟨hlen, ?_⟩
    by_cases hn : n < 0
    · simp [hn]
    · simp [hn]
  · rw [if_neg hlen] at h
    cases h

/-- **Integers.** -/
theorem scanNumber_intText {n : ℤ} {w : Text} (h : intText n = some w) (hrest : Stops rest) :
    scanNumber d (w ++ rest) = .ok (.int n, rest) := by
  obtain ⟨hlen, rfl⟩ := intText_eq h
  have hfraction : scanFraction rest = ([], rest) :=
    scanFraction_of_ne fun hpoint => (hrest 46 hpoint).2.1 rfl
  have hexponent : scanExponent rest = (none, rest) :=
    scanExponent_of_ne fun m hm => (hrest m hm).2.2
  have hliteral : ∀ neg w, literalOf neg w [] none = none := by
    intro neg w
    simp [literalOf]
  have hvalue : (if decide (n < 0) = true then -(n.natAbs : ℤ) else n.natAbs) = n := by
    by_cases hn : n < 0
    · simp only [hn, decide_true, if_true]
      omega
    · simp only [hn, decide_false, if_neg Bool.false_ne_true]
      omega
  rw [List.append_assoc, scanNumber_natText _ _ hrest.no_digit, scanNumberTail, hfraction]
  simp only [hexponent, numberOf, hliteral, digitsValue_natText, if_pos hlen, hvalue]
  rfl

/-- **Floats.** -/
theorem scanNumber_literalText (l : FloatLiteral) (hrest : Stops rest) :
    scanNumber d (literalText l ++ rest) = .ok (.float (d.floatOf l), rest) := by
  obtain ⟨neg, whole, frac, exp, hfrac, hexp, hfloat⟩ := l
  have hexponent : ∀ m s t, exp = some (m, s, t) → IsExponent (m, s, t) := hexp
  have hliteral : literalOf neg whole frac exp =
      some ⟨neg, whole, frac, exp, hfrac, hexp, hfloat⟩ := by
    rw [literalOf, dif_pos]
    refine ⟨hfrac, ?_, hfloat⟩
    rintro ⟨m, s, t⟩ he
    exact hexp m s t he
  -- the text after the whole part, and after the fraction
  obtain ⟨tail, htail⟩ : ∃ tail, tail = exponentText exp ++ rest := ⟨_, rfl⟩
  have hscan : scanExponent tail = (exp, rest) := by
    cases exp with
    | none =>
      rw [htail]
      exact scanExponent_of_ne fun m hm => (hrest m hm).2.2
    | some e =>
      obtain ⟨m, s, t⟩ := e
      rw [htail]
      exact scanExponent_digits (hexponent m s t rfl) hrest.no_digit
  have hstart : ∀ c, tail.head? = some c → isDigit c = false ∧ c ≠ 46 := by
    intro c hc
    cases exp with
    | none =>
      rw [htail] at hc
      exact ⟨(hrest c hc).1, (hrest c hc).2.1⟩
    | some e =>
      obtain ⟨m, s, t⟩ := e
      rw [htail] at hc
      obtain rfl : m = c := by simpa [exponentText] using hc
      rcases (hexponent m s t rfl).1 with h | h
      · have hm : m = 101 := h
        subst hm
        decide
      · have hm : m = 69 := h
        subst hm
        decide
  have htext : literalText ⟨neg, whole, frac, exp, hfrac, hexp, hfloat⟩ ++ rest =
      (if neg then [45] else []) ++
        (natText whole ++ ((if frac = [] then [] else 46 :: frac) ++ tail)) := by
    simp [literalText, htail]
  by_cases hnil : frac = []
  · subst hnil
    have hfraction : scanFraction tail = ([], tail) :=
      scanFraction_of_ne fun h => (hstart 46 h).2 rfl
    rw [htext, if_pos rfl, List.nil_append, scanNumber_natText neg whole fun c hc => (hstart c hc).1,
      scanNumberTail, hfraction]
    simp only [hscan, numberOf, digitsValue_natText, hliteral]
    rfl
  · have hfraction : scanFraction (46 :: (frac ++ tail)) = (frac, tail) :=
      scanFraction_point hnil hfrac fun c hc => (hstart c hc).1
    have hpoint : ∀ c, (46 :: (frac ++ tail)).head? = some c → isDigit c = false := by
      rintro c ⟨⟩
      rfl
    rw [htext, if_neg hnil, List.cons_append, scanNumber_natText neg whole hpoint, scanNumberTail,
      hfraction]
    simp only [hscan, numberOf, digitsValue_natText, hliteral]
    rfl

end

/-! ## Values -/

mutual

/-- What the text of a value, as it is ordered, is read back as. -/
def readBack (o : DumpOptions) : Json → Json
  | str t => str (joined o.ensureAscii t)
  | arr vs => arr (readBackItems o vs)
  | obj kvs => obj ((readBackMembers o kvs).foldl (fun d p => setKey p.1 p.2 d) [])
  | v => v

/-- The elements of an array, each read back. -/
def readBackItems (o : DumpOptions) : List Json → List Json
  | [] => []
  | v :: vs => readBack o v :: readBackItems o vs

/-- The members of an object, each read back. -/
def readBackMembers (o : DumpOptions) : List (Text × Json) → List (Text × Json)
  | [] => []
  | (k, v) :: kvs => (joined o.ensureAscii k, readBack o v) :: readBackMembers o kvs

end

mutual

/-- A value of Python's, as that decoder makes them: floats that `float` reads back,
strings of code points, and objects whose pairs are a dict to the hook. -/
def Loadable (d : Decoder) (o : DumpOptions) : Json → Prop
  | float (.literal l) => d.floatOf l = .literal l
  | str t => IsUnicode t
  | arr vs => LoadableItems d o vs
  | obj kvs =>
    LoadableMembers d o kvs ∧ d.pairs (readBackMembers o kvs) = lastWins (readBackMembers o kvs)
  | _ => True

/-- All elements are loadable. -/
def LoadableItems (d : Decoder) (o : DumpOptions) : List Json → Prop
  | [] => True
  | v :: vs => Loadable d o v ∧ LoadableItems d o vs

/-- All members are loadable. -/
def LoadableMembers (d : Decoder) (o : DumpOptions) : List (Text × Json) → Prop
  | [] => True
  | (k, v) :: kvs => IsUnicode k ∧ Loadable d o v ∧ LoadableMembers d o kvs

end

section

variable {d : Decoder} {o : DumpOptions} {rest w : Text} {n : ℕ}

/-- The constants, spelled out. -/
theorem constants_eq : constants =
    [([110, 117, 108, 108], .null), ([116, 114, 117, 101], .bool true),
      ([102, 97, 108, 115, 101], .bool false), ([78, 97, 78], .float .nan),
      ([73, 110, 102, 105, 110, 105, 116, 121], .float (.infinity false)),
      ([45, 73, 110, 102, 105, 110, 105, 116, 121], .float (.infinity true))] := rfl

/-- A constant at the front is found. -/
theorem scanConstant_of_mem {name : Text} {v : Json} (h : (name, v) ∈ constants) :
    scanConstant (name ++ rest) = some (v, rest) := by
  simp only [constants_eq, List.mem_cons, Prod.mk.injEq, List.not_mem_nil, or_false] at h
  rcases h with ⟨rfl, rfl⟩ | ⟨rfl, rfl⟩ | ⟨rfl, rfl⟩ | ⟨rfl, rfl⟩ | ⟨rfl, rfl⟩ | ⟨rfl, rfl⟩ <;>
    simp [scanConstant, constants_eq, List.isPrefixOf]

/-- A digit begins no constant. -/
theorem scanConstant_digit {c : ℕ} (h : isDigit c = true) : scanConstant (c :: rest) = none := by
  have hrange : 48 ≤ c ∧ c ≤ 57 := by simpa [isDigit] using h
  have hne : ∀ e, e ∈ [110, 116, 102, 78, 73, 45] → (e == c) = false := by
    intro e he
    simp only [List.mem_cons, List.not_mem_nil, or_false] at he
    rw [beq_eq_false_iff_ne]
    omega
  simp [scanConstant, constants_eq, List.isPrefixOf, hne]

/-- A minus before a digit begins no constant: `-Infinity` goes on with a letter. -/
theorem scanConstant_minus {c : ℕ} (h : isDigit c = true) :
    scanConstant (45 :: c :: rest) = none := by
  have hne : (73 == c) = false := by
    have hrange : 48 ≤ c ∧ c ≤ 57 := by simpa [isDigit] using h
    rw [beq_eq_false_iff_ne]
    omega
  simp [scanConstant, constants_eq, List.isPrefixOf, hne]

/-- A value that is no string, array or object. -/
theorem scanOnce_other {c : ℕ} {t : Text} (hquote : c ≠ 34) (hbrace : c ≠ 123)
    (hbracket : c ≠ 91) :
    scanOnce d (n + 1) (c :: t) = (scanConstant (c :: t)).elim (scanNumber d (c :: t)) .ok := by
  simp only [scanOnce, if_neg hquote, if_neg hbrace, if_neg hbracket]
  cases scanConstant (c :: t) <;> rfl

/-- A constant is read as its value. -/
theorem scanOnce_constant {name : Text} {v : Json} (h : (name, v) ∈ constants) :
    scanOnce d (n + 1) (name ++ rest) = .ok (v, rest) := by
  have hscan := @scanConstant_of_mem rest name v h
  have hstart : ∃ c t, name = c :: t ∧ c ≠ 34 ∧ c ≠ 123 ∧ c ≠ 91 := by
    simp only [constants_eq, List.mem_cons, Prod.mk.injEq, List.not_mem_nil, or_false] at h
    rcases h with ⟨rfl, rfl⟩ | ⟨rfl, rfl⟩ | ⟨rfl, rfl⟩ | ⟨rfl, rfl⟩ | ⟨rfl, rfl⟩ | ⟨rfl, rfl⟩ <;>
      exact ⟨_, _, rfl, by decide⟩
  obtain ⟨c, t, rfl, hquote, hbrace, hbracket⟩ := hstart
  rw [List.cons_append] at hscan ⊢
  rw [scanOnce_other hquote hbrace hbracket, hscan, Option.elim_some]

/-- The text of a number. -/
def IsNumberText (w : Text) : Prop :=
  ∃ c t, isDigit c = true ∧ (w = c :: t ∨ w = 45 :: c :: t)

/-- The digits of a natural number begin a number. -/
theorem isNumberText_natText (neg : Bool) (m : ℕ) (t : Text) :
    IsNumberText ((if neg then [45] else []) ++ (natText m ++ t)) := by
  obtain ⟨c, u, hu⟩ := List.exists_cons_of_ne_nil (natText_ne_nil m)
  have hc : isDigit c = true := natText_digits m c (by simp [hu])
  refine ⟨c, u ++ t, hc, ?_⟩
  cases neg with
  | false =>
    left
    simp [hu]
  | true =>
    right
    simp [hu]

/-- The text of an integer begins a number. -/
theorem isNumberText_intText {i : ℤ} (h : intText i = some w) : IsNumberText w := by
  obtain ⟨-, rfl⟩ := intText_eq h
  simpa using isNumberText_natText (decide (i < 0)) i.natAbs []

/-- The text of a float begins a number. -/
theorem isNumberText_literalText (l : FloatLiteral) : IsNumberText (literalText l) := by
  have htext := isNumberText_natText l.neg l.whole
    ((if l.frac = [] then [] else 46 :: l.frac) ++ exponentText l.exp)
  simpa [literalText] using htext

/-- What begins like a number is scanned as one. -/
theorem scanOnce_number (h : IsNumberText w) :
    scanOnce d (n + 1) (w ++ rest) = scanNumber d (w ++ rest) := by
  obtain ⟨c, t, hc, rfl | rfl⟩ := h
  · have hrange : 48 ≤ c ∧ c ≤ 57 := by simpa [isDigit] using hc
    rw [List.cons_append, scanOnce_other (by omega) (by omega) (by omega), scanConstant_digit hc,
      Option.elim_none]
  · rw [List.cons_append, List.cons_append, scanOnce_other (by decide) (by decide) (by decide),
      scanConstant_minus hc, Option.elim_none]

/-- The first characters of values. -/
def IsStart (c : ℕ) : Prop :=
  c = 34 ∨ c = 123 ∨ c = 91 ∨ c = 45 ∨ isDigit c = true ∨ c ∈ [110, 116, 102, 78, 73]

/-- A number begins as a value may. -/
theorem IsNumberText.start (h : IsNumberText w) : ∃ c t, w = c :: t ∧ IsStart c := by
  obtain ⟨c, t, hc, rfl | rfl⟩ := h
  · exact ⟨c, t, rfl, by simp [IsStart, hc]⟩
  · exact ⟨45, c :: t, rfl, by simp [IsStart]⟩

/-- A constant begins as a value may. -/
theorem start_of_constant {name : Text} {v : Json} (h : (name, v) ∈ constants) :
    ∃ c t, name = c :: t ∧ IsStart c := by
  simp only [constants_eq, List.mem_cons, Prod.mk.injEq, List.not_mem_nil, or_false] at h
  rcases h with ⟨rfl, rfl⟩ | ⟨rfl, rfl⟩ | ⟨rfl, rfl⟩ | ⟨rfl, rfl⟩ | ⟨rfl, rfl⟩ | ⟨rfl, rfl⟩ <;>
    exact ⟨_, _, rfl, by simp [IsStart]⟩

/-- A constant, a number or a bracketed text: the forms of floats. -/
theorem floatText_cases {f : JsonFloat} (h : floatText o f = some w) :
    (∃ l, f = .literal l ∧ w = literalText l) ∨ (w, .float f) ∈ constants := by
  cases f with
  | literal l =>
    obtain rfl := Option.some.inj h
    exact .inl ⟨l, rfl, rfl⟩
  | nan =>
    rw [floatText] at h
    split at h
    · obtain rfl := Option.some.inj h
      exact .inr (by simp [constants])
    · cases h
  | infinity neg =>
    rw [floatText] at h
    split at h
    · obtain rfl := Option.some.inj h
      cases neg <;> exact .inr (by simp [constants])
    · cases h

/-- What is written of a value begins as a value may. -/
theorem write_start {v : Json} (h : write o v = some w) : ∃ c t, w = c :: t ∧ IsStart c := by
  cases v with
  | null =>
    obtain rfl := Option.some.inj h
    exact @start_of_constant _ .null (by simp [constants])
  | bool b =>
    obtain rfl := Option.some.inj h
    cases b <;> exact @start_of_constant _ (.bool _) (by simp [constants]; rfl)
  | int i => exact (isNumberText_intText h).start
  | float f =>
    rcases floatText_cases h with ⟨l, -, rfl⟩ | hmem
    · exact (isNumberText_literalText l).start
    · exact start_of_constant hmem
  | decimal _ => cases h
  | str t =>
    obtain rfl := Option.some.inj h
    exact ⟨34, _, rfl, by simp [IsStart]⟩
  | arr vs =>
    obtain ⟨t, -, rfl⟩ := Option.map_eq_some_iff.mp h
    exact ⟨91, t, rfl, by simp [IsStart]⟩
  | obj kvs =>
    obtain ⟨t, -, rfl⟩ := Option.map_eq_some_iff.mp h
    exact ⟨123, t, rfl, by simp [IsStart]⟩

/-- No value begins with white space. -/
theorem IsStart.not_space {c : ℕ} (h : IsStart c) : isJsonSpace c = false := by
  have hdigit : isDigit c = true → 48 ≤ c ∧ c ≤ 57 := by simp [isDigit]
  simp only [IsStart, List.mem_cons, List.not_mem_nil, or_false] at h
  simp only [isJsonSpace, Bool.or_eq_false_iff, beq_eq_false_iff_ne]
  rcases h with rfl | rfl | rfl | rfl | h | rfl | rfl | rfl | rfl | rfl
  pick_goal 5
  · have := hdigit h
    omega
  all_goals decide

/-- Nothing is skipped where no space is. -/
theorem skipSpace_of_not_space {c : ℕ} {t : Text} (h : isJsonSpace c = false) :
    skipSpace (c :: t) = c :: t := by
  simp [skipSpace, h]

/-- Nothing is skipped before the text of a value. -/
theorem skipSpace_write {v : Json} (h : write o v = some w) : skipSpace (w ++ rest) = w ++ rest := by
  obtain ⟨c, t, rfl, hc⟩ := write_start h
  exact skipSpace_of_not_space hc.not_space

/-- A number stops at a character that is no part of one. -/
theorem stops_cons {c : ℕ} (hdigit : isDigit c = false) (hpoint : c ≠ 46) (he : c ≠ 101 ∧ c ≠ 69) :
    Stops (c :: rest) := by
  rintro e ⟨⟩
  exact ⟨hdigit, hpoint, he⟩

/-- The text of an element and of those after it, with the comma between them. -/
theorem writeItems_cons {v : Json} {vs : List Json} (h : writeItems o (v :: vs) = some w) :
    ∃ t u, write o v = some t ∧ writeItems o vs = some u ∧
      w = t ++ (if vs.isEmpty then u else 44 :: u) := by
  rw [writeItems] at h
  split at h
  · next t u ht hu => exact ⟨t, u, ht, hu, (Option.some.inj h).symm⟩
  · cases h

/-- The text of a member and of those after it. -/
theorem writeMembers_cons {k : Text} {v : Json} {kvs : List (Text × Json)}
    (h : writeMembers o ((k, v) :: kvs) = some w) :
    ∃ t u, write o v = some t ∧ writeMembers o kvs = some u ∧
      w = stringText o.ensureAscii k ++ 58 :: t ++ (if kvs.isEmpty then u else 44 :: u) := by
  rw [writeMembers] at h
  split at h
  · next t u ht hu => exact ⟨t, u, ht, hu, (Option.some.inj h).symm⟩
  · cases h

/-- An array with elements starts with its first. -/
theorem writeItems_start {v : Json} {vs : List Json} (h : writeItems o (v :: vs) = some w) :
    ∃ c t, w = c :: t ∧ IsStart c := by
  obtain ⟨t, u, ht, -, rfl⟩ := writeItems_cons h
  obtain ⟨c, t, rfl, hc⟩ := write_start ht
  exact ⟨c, _, rfl, hc⟩

/-- Members begin with the quote of a key. -/
theorem writeMembers_start {p : Text × Json} {kvs : List (Text × Json)}
    (h : writeMembers o (p :: kvs) = some w) : ∃ t, w = 34 :: t := by
  obtain ⟨t, u, -, -, rfl⟩ := writeMembers_cons h
  exact ⟨_, rfl⟩

mutual

/-- **Values.** What is written is read back, whatever follows it. -/
theorem scanOnce_write : ∀ (v : Json) {w rest : Text} {n : ℕ}, write o v = some w →
    Loadable d o v → Stops rest → 2 * w.length ≤ n →
    scanOnce d n (w ++ rest) = .ok (readBack o v, rest)
  -- no value is written as nothing, so there is fuel
  | v, w, rest, 0, hw, _, _, hn => by
    obtain ⟨c, t, rfl, -⟩ := write_start hw
    simp at hn
  | null, w, rest, n + 1, hw, _, _, _ => by
    obtain rfl := Option.some.inj hw
    exact scanOnce_constant (by simp [constants, readBack])
  | bool b, w, rest, n + 1, hw, _, _, _ => by
    obtain rfl := Option.some.inj hw
    cases b <;> exact scanOnce_constant (by simp [constants, readBack])
  | int i, w, rest, n + 1, hw, _, hrest, _ => by
    rw [scanOnce_number (isNumberText_intText hw), scanNumber_intText hw hrest]
    rfl
  | float f, w, rest, n + 1, hw, hv, hrest, _ => by
    rcases floatText_cases hw with ⟨l, rfl, rfl⟩ | hmem
    · have hfloat : d.floatOf l = .literal l := hv
      rw [scanOnce_number (isNumberText_literalText l), scanNumber_literalText l hrest, hfloat]
      rfl
    · rw [scanOnce_constant hmem]
      rfl
  | decimal _, w, rest, n + 1, hw, _, _, _ => by cases hw
  | str t, w, rest, n + 1, hw, hv, _, _ => by
    obtain rfl := Option.some.inj hw
    have hscan := @scanString_stringTail o.ensureAscii (34 :: (stringTail o.ensureAscii t ++ rest))
      rest t hv
    simp only [stringText, List.cons_append, scanOnce, if_true, hscan]
    rfl
  | arr vs, w, rest, n + 1, hw, hv, hrest, hn => by
    obtain ⟨t, ht, rfl⟩ := Option.map_eq_some_iff.mp hw
    cases vs with
    | nil =>
      obtain rfl := Option.some.inj ht
      rfl
    | cons v vs =>
      obtain ⟨c, u, rfl, hc⟩ := writeItems_start ht
      -- no element begins with the closing bracket
      have hclose : c ≠ 93 := by
        rintro rfl
        simp [IsStart, isDigit] at hc
      have hitems := @scanItems_write (v :: vs) (c :: u) rest n (by simp) ht hv
        (by simp only [List.length_cons] at hn ⊢; omega)
      have hskip : skipSpace (c :: u ++ rest) = c :: (u ++ rest) :=
        skipSpace_of_not_space hc.not_space
      rw [List.cons_append] at hitems
      rw [List.cons_append, scanOnce, if_neg (by decide), if_neg (by decide), if_pos rfl, hskip]
      split
      · next heq => exact absurd (List.cons.inj heq).1 hclose
      · rw [hitems]
        rfl
  | obj kvs, w, rest, n + 1, hw, hv, hrest, hn => by
    obtain ⟨t, ht, rfl⟩ := Option.map_eq_some_iff.mp hw
    obtain ⟨hmembers, hpairs⟩ : LoadableMembers d o kvs ∧ _ := hv
    -- the hook keeps the members, as no key is there twice
    have hdict : dictOf d (readBackMembers o kvs) = .ok (readBack o (obj kvs)) := by
      rw [dictOf, hpairs]
      rfl
    cases kvs with
    | nil =>
      obtain rfl := Option.some.inj ht
      have hempty : dictOf d [] = .ok (obj []) := hdict
      rw [List.cons_append, scanOnce, if_neg (by decide), if_pos rfl]
      simp only [List.cons_append, List.nil_append, skipSpace, List.dropWhile_cons, hempty]
      rfl
    | cons p kvs =>
      obtain ⟨u, rfl⟩ := writeMembers_start ht
      have hscan := @scanMembers_write (p :: kvs) (34 :: u) rest n (by simp) ht hmembers
        (by simp only [List.length_cons] at hn ⊢; omega)
      have hskip : skipSpace (34 :: u ++ rest) = 34 :: (u ++ rest) :=
        skipSpace_of_not_space (by decide)
      rw [List.cons_append] at hscan
      rw [List.cons_append, scanOnce, if_neg (by decide), if_pos rfl, hskip]
      simp only [hscan, hdict]
      rfl

/-- The elements of an array and its closing bracket. -/
theorem scanItems_write : ∀ (vs : List Json) {w rest : Text} {n : ℕ}, vs ≠ [] →
    writeItems o vs = some w → LoadableItems d o vs → 2 * w.length + 1 ≤ n →
    scanItems d n (w ++ rest) = .ok (readBackItems o vs, rest)
  | [], _, _, _, hne, _, _, _ => absurd rfl hne
  | v :: vs, w, rest, 0, _, _, _, hn => by omega
  | v :: vs, w, rest, n + 1, _, hw, hv, hn => by
    obtain ⟨t, u, ht, hu, rfl⟩ := writeItems_cons hw
    obtain ⟨hv, hvs⟩ : Loadable d o v ∧ LoadableItems d o vs := hv
    simp only [List.length_append] at hn
    cases vs with
    | nil =>
      obtain rfl := Option.some.inj hu
      have hscan := @scanOnce_write v t (93 :: rest) n ht hv
        (stops_cons rfl (by decide) (by decide)) (by omega)
      have hskip : skipSpace (93 :: rest) = 93 :: rest := skipSpace_of_not_space rfl
      rw [List.append_assoc, scanItems]
      simp only [List.isEmpty_nil, if_true, List.cons_append, List.nil_append, hscan, hskip]
      rfl
    | cons v' vs =>
      have hscan := @scanOnce_write v t (44 :: (u ++ rest)) n ht hv
        (stops_cons rfl (by decide) (by decide)) (by omega)
      have hitems := @scanItems_write (v' :: vs) u rest n (by simp) hu hvs
        (by simp only [List.isEmpty_cons, Bool.false_eq_true, if_false, List.length_cons] at hn
            omega)
      have hcomma : skipSpace (44 :: (u ++ rest)) = 44 :: (u ++ rest) := skipSpace_of_not_space rfl
      have hskip : skipSpace (u ++ rest) = u ++ rest := by
        obtain ⟨c, u, rfl, hc⟩ := writeItems_start hu
        exact skipSpace_of_not_space hc.not_space
      rw [List.append_assoc, scanItems]
      simp only [List.isEmpty_cons, Bool.false_eq_true, if_false, List.cons_append, hscan, hcomma,
        hskip, hitems]
      rfl

/-- The members of an object and its closing brace. -/
theorem scanMembers_write : ∀ (kvs : List (Text × Json)) {w rest : Text} {n : ℕ}, kvs ≠ [] →
    writeMembers o kvs = some w → LoadableMembers d o kvs → 2 * w.length + 1 ≤ n →
    scanMembers d n (w ++ rest) = .ok (readBackMembers o kvs, rest)
  | [], _, _, _, hne, _, _, _ => absurd rfl hne
  | (k, v) :: kvs, w, rest, 0, _, _, _, hn => by omega
  | (k, v) :: kvs, w, rest, n + 1, _, hw, hv, hn => by
    obtain ⟨t, u, ht, hu, rfl⟩ := writeMembers_cons hw
    obtain ⟨hk, hv, hvs⟩ : IsUnicode k ∧ Loadable d o v ∧ LoadableMembers d o kvs := hv
    simp only [List.length_append, List.length_cons] at hn
    have hkey : ∀ start more, scanString start (stringTail o.ensureAscii k ++ more) =
        .ok (joined o.ensureAscii k, more) := fun _ _ => scanString_stringTail hk
    have hcolon : ∀ more, skipSpace (58 :: more) = 58 :: more := fun _ => skipSpace_of_not_space rfl
    have hvalue : ∀ more, skipSpace (t ++ more) = t ++ more := fun _ => skipSpace_write ht
    cases kvs with
    | nil =>
      obtain rfl := Option.some.inj hu
      have hscan := @scanOnce_write v t (125 :: rest) n ht hv
        (stops_cons rfl (by decide) (by decide)) (by omega)
      have hskip : skipSpace (125 :: rest) = 125 :: rest := skipSpace_of_not_space rfl
      simp only [stringText, List.isEmpty_nil, if_true, List.cons_append, List.append_assoc,
        List.nil_append, scanMembers, hkey, hcolon, hvalue, hscan, hskip]
      rfl
    | cons p kvs =>
      have hscan := @scanOnce_write v t (44 :: (u ++ rest)) n ht hv
        (stops_cons rfl (by decide) (by decide)) (by omega)
      have hmembers := @scanMembers_write (p :: kvs) u rest n (by simp) hu hvs
        (by simp only [List.isEmpty_cons, Bool.false_eq_true, if_false, List.length_cons] at hn
            omega)
      have hcomma : skipSpace (44 :: (u ++ rest)) = 44 :: (u ++ rest) := skipSpace_of_not_space rfl
      have hskip : skipSpace (u ++ rest) = u ++ rest := by
        obtain ⟨u, rfl⟩ := writeMembers_start hu
        exact skipSpace_of_not_space rfl
      simp only [stringText, List.isEmpty_cons, Bool.false_eq_true, if_false, List.cons_append,
        List.append_assoc, scanMembers, hkey, hcolon, hvalue, hscan, hcomma, hskip, hmembers]
      rfl

end

/-- **Round trip.** A written value is loaded as what it is read back as. -/
theorem loads_write {v : Json} (hw : write o v = some w) (hv : Loadable d o v) :
    loads d w = .ok (readBack o v) := by
  have hscan := @scanOnce_write d o v w [] (2 * w.length) hw hv nofun le_rfl
  have hskip := @skipSpace_write o [] w v hw
  rw [List.append_nil] at hscan hskip
  obtain ⟨c, t, rfl, hc⟩ := write_start hw
  have hbom : c ≠ 0xFEFF := by
    rintro rfl
    simp [IsStart, isDigit] at hc
  have hhead : (c :: t).head? ≠ some 0xFEFF := by simpa using hbom
  rw [loads, if_neg hhead, hskip, hscan]
  rfl

/-- A newline after it changes nothing. -/
theorem loads_write_line {v : Json} (hw : write o v = some w) (hv : Loadable d o v) :
    loads d (w ++ [10]) = .ok (readBack o v) := by
  have hstops : Stops [10] := stops_cons rfl (by decide) (by decide)
  have hscan := @scanOnce_write d o v w [10] (2 * (w ++ [10]).length) hw hv hstops
    (by rw [List.length_append]; omega)
  have hskip := @skipSpace_write o [10] w v hw
  obtain ⟨c, t, rfl, hc⟩ := write_start hw
  have hhead : (c :: t ++ [10]).head? ≠ some 0xFEFF := by
    rintro hbom
    obtain rfl := Option.some.inj hbom
    simp [IsStart, isDigit] at hc
  rw [loads, if_neg hhead, hskip, hscan]
  rfl

end

/-! ## Dicts -/

mutual

/-- A value the program can hold: floats are as `float.__repr__` writes them, strings
are of code points, and no dict has a key twice. -/
def Storable (d : Decoder) : Json → Prop
  | float (.literal l) => d.floatOf l = .literal l ∧ (natText l.whole).length ≤ maxStrDigits
  | str t => IsUnicode t
  | arr vs => StorableItems d vs
  | obj kvs => (kvs.map Prod.fst).Nodup ∧ StorableMembers d kvs
  | _ => True

/-- Every element is storable. -/
def StorableItems (d : Decoder) : List Json → Prop
  | [] => True
  | v :: vs => Storable d v ∧ StorableItems d vs

/-- Every key and value is storable. -/
def StorableMembers (d : Decoder) : List (Text × Json) → Prop
  | [] => True
  | (k, v) :: kvs => IsUnicode k ∧ Storable d v ∧ StorableMembers d kvs

end

section

variable {d : Decoder}

/-- An array can be stored where its elements can. -/
theorem storableItems_iff {vs : List Json} : StorableItems d vs ↔ ∀ v ∈ vs, Storable d v := by
  induction vs with
  | nil => simp [StorableItems]
  | cons v vs ih => simp [StorableItems, ih]

/-- Members can be stored where their keys and values can. -/
theorem storableMembers_iff {kvs : List (Text × Json)} :
    StorableMembers d kvs ↔ ∀ p ∈ kvs, IsUnicode p.1 ∧ Storable d p.2 := by
  induction kvs with
  | nil => simp [StorableMembers]
  | cons p kvs ih => simp [StorableMembers, ih, and_assoc]

/-- Sorting goes into every element of an array. -/
theorem sortKeysList_eq (vs : List Json) : sortKeysList vs = vs.map sortKeys := by
  induction vs with
  | nil => rfl
  | cons v vs ih => rw [sortKeysList, ih, List.map_cons]

/-- Sorting goes into every value of a member. -/
theorem sortKeysMembers_eq (kvs : List (Text × Json)) :
    sortKeysMembers kvs = kvs.map fun p => (p.1, sortKeys p.2) := by
  induction kvs with
  | nil => rfl
  | cons p kvs ih => rw [sortKeysMembers, ih, List.map_cons]

/-- Members in order are the same members. -/
theorem sortMembers_perm (kvs : List (Text × Json)) : (sortMembers kvs).Perm kvs :=
  List.perm_insertionSort _ kvs

/-- Sorting the values leaves the keys. -/
theorem keys_sortKeysMembers (kvs : List (Text × Json)) :
    (sortKeysMembers kvs).map Prod.fst = kvs.map Prod.fst := by
  rw [sortKeysMembers_eq, List.map_map]
  rfl

/-- Ordering the members changes neither the keys nor how often they occur. -/
theorem keys_sortMembers_perm (kvs : List (Text × Json)) :
    ((sortMembers (sortKeysMembers kvs)).map Prod.fst).Perm (kvs.map Prod.fst) := by
  have hperm := (sortMembers_perm (sortKeysMembers kvs)).map Prod.fst
  rwa [keys_sortKeysMembers] at hperm

mutual

/-- With its keys in order, a value is as storable. -/
theorem Storable.sortKeys : ∀ v : Json, Storable d v → Storable d v.sortKeys
  | null, h | bool _, h | int _, h | float _, h | decimal _, h | str _, h => h
  | arr vs, h => StorableItems.sortKeys vs h
  | obj kvs, h => by
    obtain ⟨hnodup, hmembers⟩ : _ ∧ StorableMembers d kvs := h
    refine ⟨(keys_sortMembers_perm kvs).nodup_iff.mpr hnodup, ?_⟩
    have hsorted := StorableMembers.sortKeys kvs hmembers
    rw [storableMembers_iff] at hsorted ⊢
    exact fun p hp => hsorted p ((sortMembers_perm _).mem_iff.mp hp)

/-- `Storable.sortKeys`, of the elements of an array. -/
theorem StorableItems.sortKeys : ∀ vs : List Json, StorableItems d vs →
    StorableItems d (sortKeysList vs)
  | [], _ => trivial
  | v :: vs, h => ⟨Storable.sortKeys v h.1, StorableItems.sortKeys vs h.2⟩

/-- `Storable.sortKeys`, of the members of an object. -/
theorem StorableMembers.sortKeys : ∀ kvs : List (Text × Json), StorableMembers d kvs →
    StorableMembers d (sortKeysMembers kvs)
  | [], _ => trivial
  | (_, v) :: kvs, h => ⟨h.1, Storable.sortKeys v h.2.1, StorableMembers.sortKeys kvs h.2.2⟩

end

/-- Members with distinct keys are a dict. -/
theorem foldl_setKey {kvs : List (Text × Json)} (hnodup : (kvs.map Prod.fst).Nodup) :
    kvs.foldl (fun d p => setKey p.1 p.2 d) [] = kvs := by
  induction kvs using List.reverseRecOn with
  | nil => rfl
  | append_singleton kvs p ih =>
    rw [List.map_append, List.nodup_append] at hnodup
    have hnew : p.1 ∉ kvs.map Prod.fst := fun hmem =>
      hnodup.2.2 p.1 hmem p.1 (by simp) rfl
    rw [List.foldl_append, ih hnodup.1, List.foldl_cons, List.foldl_nil, setKey_of_not_mem hnew]

variable {nan : Bool}

mutual

/-- Where no character is escaped for being wide, a value is read back as it is. -/
theorem readBack_storable : ∀ v : Json, Storable d v → readBack ⟨false, nan⟩ v = v
  | null, _ | bool _, _ | int _, _ | float _, _ | decimal _, _ | str _, _ => rfl
  | arr vs, h => by rw [readBack, readBackItems_storable vs h]
  | obj kvs, h => by rw [readBack, readBackMembers_storable kvs h.2, foldl_setKey h.1]

/-- `readBack_storable`, of the elements of an array. -/
theorem readBackItems_storable : ∀ vs : List Json, StorableItems d vs →
    readBackItems ⟨false, nan⟩ vs = vs
  | [], _ => rfl
  | v :: vs, h => by rw [readBackItems, readBack_storable v h.1, readBackItems_storable vs h.2]

/-- `readBack_storable`, of the members of an object. -/
theorem readBackMembers_storable : ∀ kvs : List (Text × Json), StorableMembers d kvs →
    readBackMembers ⟨false, nan⟩ kvs = kvs
  | [], _ => rfl
  | (k, v) :: kvs, h => by
    rw [readBackMembers, readBack_storable v h.2.1, readBackMembers_storable kvs h.2.2]
    rfl

end

/-- Distinct keys are a dict as they are. -/
def Decoder.KeepsDicts (d : Decoder) : Prop :=
  ∀ kvs : List (Text × Json), (kvs.map Prod.fst).Nodup → d.pairs kvs = some kvs

/-- `dict` keeps members that have each key once as they are. -/
theorem lastWins_nodup {kvs : List (Text × Json)} (h : (kvs.map Prod.fst).Nodup) :
    lastWins kvs = some kvs := by
  rw [lastWins, foldl_setKey h]

/-- The hook that refuses a repeated key keeps such members too. -/
theorem noRepeats_nodup {kvs : List (Text × Json)} (h : (kvs.map Prod.fst).Nodup) :
    noRepeats kvs = some kvs := if_pos h

mutual

/-- A decoder that makes dicts loads every storable value. -/
theorem Storable.loadable (hd : d.KeepsDicts) :
    ∀ v : Json, Storable d v → Loadable d ⟨false, nan⟩ v
  | null, _ | bool _, _ | int _, _ | decimal _, _ => trivial
  | float (.literal _), h => h.1
  | float .nan, _ | float (.infinity _), _ => trivial
  | str _, h => h
  | arr vs, h => StorableItems.loadable hd vs h
  | obj kvs, h => by
    refine ⟨StorableMembers.loadable hd kvs h.2, ?_⟩
    rw [readBackMembers_storable kvs h.2, hd kvs h.1, lastWins_nodup h.1]

/-- `Storable.loadable`, of the elements of an array. -/
theorem StorableItems.loadable (hd : d.KeepsDicts) :
    ∀ vs : List Json, StorableItems d vs → LoadableItems d ⟨false, nan⟩ vs
  | [], _ => trivial
  | v :: vs, h => ⟨Storable.loadable hd v h.1, StorableItems.loadable hd vs h.2⟩

/-- `Storable.loadable`, of the members of an object. -/
theorem StorableMembers.loadable (hd : d.KeepsDicts) :
    ∀ kvs : List (Text × Json), StorableMembers d kvs → LoadableMembers d ⟨false, nan⟩ kvs
  | [], _ => trivial
  | (_, v) :: kvs, h =>
    ⟨h.1, Storable.loadable hd v h.2.1, StorableMembers.loadable hd kvs h.2.2⟩

end

/-- **`json.loads(json.dumps(value, sort_keys=True, ensure_ascii=False))`** is the value
with its keys in order. -/
theorem loads_dumps {v : Json} {w : Text} (hd : d.KeepsDicts) (hv : Storable d v)
    (hw : dumps ⟨false, nan⟩ v = some w) : loads d w = .ok v.sortKeys := by
  have hsorted := Storable.sortKeys v hv
  rw [loads_write hw (Storable.loadable hd _ hsorted), readBack_storable _ hsorted]

end

end Json

end RunpodJobrunner
