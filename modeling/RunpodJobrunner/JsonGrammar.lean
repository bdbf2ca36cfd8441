import Mathlib.Data.List.TakeWhile
import RunpodJobrunner.JsonReadBack
import RunpodJobrunner.JsonRest

/-!
# The grammar of JSON

The texts of values, of keys with values, and of what stands between brackets. The scanner
reads exactly these: what it takes from the front of a text is one of them (`derives_of_rest`),
and it takes any of them where the rest does not go on with a number (`rest_of_derives`).
-/

namespace RunpodJobrunner

namespace Json

/-! ## Texts -/

/-- White space. -/
def IsBlank (t : Text) : Prop := ∀ c ∈ t, isJsonSpace c = true

theorem isBlank_nil : IsBlank [] := List.forall_mem_nil _

/-- The characters of a string after its opening quote, with the closing one. -/
inductive IsTail : Text → Prop where
  | close : IsTail [34]
  | plain {c : ℕ} {t : Text} : c ≠ 34 → c ≠ 92 → 32 ≤ c → IsTail t → IsTail (c :: t)
  | escape {e x : ℕ} {t : Text} : e ≠ 117 → simpleEscape e = some x → IsTail t → IsTail (92 :: e :: t)
  | unicode {a b c e x : ℕ} {t : Text} : hexValue4 a b c e = some x → IsTail t →
      IsTail (92 :: 117 :: a :: b :: c :: e :: t)

/-- One digit or more. -/
def IsDigits (t : Text) : Prop := t ≠ [] ∧ ∀ c ∈ t, isDigit c = true

/-- The whole part of a number: no zero leads other digits. -/
def IsWhole (t : Text) : Prop := t = [48] ∨ IsDigits t ∧ t.head? ≠ some 48

/-- The fraction of a number, if it has one. -/
inductive IsFraction : Text → Prop where
  | none : IsFraction []
  | point {t : Text} : IsDigits t → IsFraction (46 :: t)

/-- The exponent of a number, if it has one. -/
inductive IsPower : Text → Prop where
  | none : IsPower []
  | digits {m : ℕ} {sign t : Text} : (m = 101 ∨ m = 69) → (sign = [] ∨ sign = [43] ∨ sign = [45]) →
      IsDigits t → IsPower (m :: (sign ++ t))

/-- A number. An integer has no more digits than Python converts. -/
inductive IsNumber : Text → Prop where
  | mk {sign whole frac power : Text} : (sign = [] ∨ sign = [45]) → IsWhole whole → IsFraction frac →
      IsPower power → (frac = [] → power = [] → whole.length ≤ maxStrDigits) →
      IsNumber (sign ++ (whole ++ (frac ++ power)))

/-- The texts of the parts. -/
inductive Derives : Part → Text → Prop where
  | string {t : Text} : IsTail t → Derives .value (34 :: t)
  | constant {name : Text} {v : Json} : (name, v) ∈ constants → Derives .value name
  | number {t : Text} : IsNumber t → Derives .value t
  | empty {b : Bracket} {s : Text} : IsBlank s → Derives .value (b.opening :: (s ++ [b.closing]))
  | bracketed {b : Bracket} {s t : Text} : IsBlank s → Derives (.inside b) t →
      Derives .value (b.opening :: (s ++ t))
  | entry {k s s' v : Text} : IsTail k → IsBlank s → IsBlank s' → Derives .value v →
      Derives .entry (34 :: (k ++ (s ++ 58 :: (s' ++ v))))
  | last {b : Bracket} {e s : Text} : Derives b.element e → IsBlank s →
      Derives (.inside b) (e ++ (s ++ [b.closing]))
  | next {b : Bracket} {e s s' t : Text} : Derives b.element e → IsBlank s → IsBlank s' →
      Derives (.inside b) t → Derives (.inside b) (e ++ (s ++ 44 :: (s' ++ t)))

variable {d : Decoder} {start t u s : Text}

/-! ## White space -/

/-- White space at the front is skipped. -/
theorem skipSpace_blank (h : IsBlank s) (t : Text) : skipSpace (s ++ t) = skipSpace t := by
  rw [skipSpace, List.dropWhile_append_of_pos h]
  rfl

theorem skipSpace_blank_nil (h : IsBlank s) : skipSpace s = [] := by
  have hskip := skipSpace_blank h []
  rwa [List.append_nil] at hskip

/-- What is skipped is blank. -/
theorem skipSpace_spec (t : Text) : ∃ s, IsBlank s ∧ t = s ++ skipSpace t :=
  ⟨t.takeWhile isJsonSpace, fun _ hc => List.mem_takeWhile_imp hc,
    List.takeWhile_append_dropWhile.symm⟩

/-- Where nothing is left after the white space, there was nothing else. -/
theorem blank_of_skipSpace (h : skipSpace t = []) : IsBlank t := by
  obtain ⟨s, hs, ht⟩ := skipSpace_spec t
  rw [h, List.append_nil] at ht
  exact ht ▸ hs

/-- What is left after the white space begins with no white space. -/
theorem not_space_of_skipSpace {c : ℕ} (h : skipSpace t = c :: u) : isJsonSpace c = false := by
  have hne : t.dropWhile isJsonSpace ≠ [] := by
    rw [skipSpace] at h
    rw [h]
    exact List.cons_ne_nil c u
  have hhead := List.head_dropWhile_not isJsonSpace hne
  have hc : (t.dropWhile isJsonSpace).head hne = c := by
    have h' : t.dropWhile isJsonSpace = c :: u := h
    simp only [h', List.head_cons]
  rw [← hc]
  exact hhead

/-- White space is skipped up to the first other character. -/
theorem skipSpace_cons {c : ℕ} (hs : IsBlank s) (hc : isJsonSpace c = false) (t : Text) :
    skipSpace (s ++ c :: t) = c :: t := by
  rw [skipSpace_blank hs, skipSpace_of_not_space hc]

/-! ## Strings -/

/-- The scanner passes the tail of a string. -/
theorem stringRest_of_tail (h : IsTail t) (u : Text) : stringRest start (t ++ u) = .ok u := by
  induction h with
  | close => exact stringRest_quote
  | plain hquote hslash hlow _ ih =>
    rw [List.cons_append, stringRest_plain hquote hslash, if_neg (by omega), ih]
  | escape hu he _ ih =>
    rw [List.cons_append, List.cons_append, stringRest_escape hu, he]
    exact ih
  | @unicode a b c e x t hx htail ih =>
    have hne : t ++ u ≠ [] := by
      cases htail <;> exact List.cons_ne_nil _ _
    have hunicode := @stringRest_unicode start (t ++ u) a b c e hne
    rw [hx] at hunicode
    exact hunicode.trans ih

/-- The ways to scan a string: it is at its end, or takes a character. -/
theorem string_cases (t : Text) :
    t = [] ∨ (∃ u, t = 34 :: u) ∨ t = [92] ∨
      (∃ c u, t = c :: u ∧ c ≠ 34 ∧ c ≠ 92) ∨ (∃ e u, t = 92 :: e :: u ∧ e ≠ 117) ∨
      (∃ u, t = 92 :: 117 :: u ∧ u.length ≤ 4) ∨
      ∃ a b c e u, t = 92 :: 117 :: a :: b :: c :: e :: u ∧ u ≠ [] := by
  match t with
  | [] => exact .inl rfl
  | c :: t =>
    by_cases hquote : c = 34
    · exact .inr (.inl ⟨t, by rw [hquote]⟩)
    by_cases hslash : c = 92
    · subst hslash
      match t with
      | [] => exact .inr (.inr (.inl rfl))
      | e :: u =>
        by_cases he : e = 117
        · subst he
          match u with
          | a :: b :: c :: e :: v :: w =>
            exact .inr
              (.inr (.inr (.inr (.inr (.inr ⟨a, b, c, e, v :: w, rfl, List.cons_ne_nil v w⟩)))))
          | [] | [_] | [_, _] | [_, _, _] | [_, _, _, _] =>
            exact .inr (.inr (.inr (.inr (.inr (.inl ⟨_, rfl, by simp⟩)))))
        · exact .inr (.inr (.inr (.inr (.inl ⟨e, u, rfl, he⟩))))
    · exact .inr (.inr (.inr (.inl ⟨c, t, rfl, hquote, hslash⟩)))

/-- What the scanner passes is the tail of a string. -/
theorem tail_of_stringRest (h : stringRest start t = .ok u) : ∃ p, t = p ++ u ∧ IsTail p := by
  induction hn : t.length using Nat.strong_induction_on generalizing t with
  | _ n ih =>
    rcases string_cases t with rfl | ⟨v, rfl⟩ | rfl | ⟨c, v, rfl, hquote, hslash⟩ | ⟨e, v, rfl, he⟩ |
      ⟨v, rfl, hv⟩ | ⟨a, b, c, e, v, rfl, hv⟩
    · rw [stringRest_nil] at h
      cases h
    · rw [stringRest_quote] at h
      obtain rfl := Except.ok.inj h
      exact ⟨[34], rfl, .close⟩
    · rw [stringRest_slash] at h
      cases h
    · rw [stringRest_plain hquote hslash] at h
      split at h
      · cases h
      · next hlow =>
        obtain ⟨p, rfl, hp⟩ := ih v.length (by rw [← hn]; simp) h rfl
        exact ⟨c :: p, rfl, .plain hquote hslash (by omega) hp⟩
    · rw [stringRest_escape he] at h
      split at h
      · next x hx =>
        obtain ⟨p, rfl, hp⟩ := ih v.length (by simp only [← hn, List.length_cons]; omega) h rfl
        exact ⟨92 :: e :: p, rfl, .escape he hx hp⟩
      · cases h
    · rw [stringRest_short hv] at h
      cases h
    · rw [stringRest_unicode hv] at h
      split at h
      · next x hx =>
        obtain ⟨p, rfl, hp⟩ := ih v.length (by simp only [← hn, List.length_cons]; omega) h rfl
        exact ⟨92 :: 117 :: a :: b :: c :: e :: p, rfl, .unicode hx hp⟩
      · cases h

/-! ## Numbers -/

/-- What is left after the whole part, which has that many digits. -/
def tailRest (digits : ℕ) (t : Text) : Except LoadsError Text :=
  let fraction := scanFraction t
  let exponent := scanExponent fraction.2
  if fraction.1 = [] ∧ exponent.1 = none ∧ maxStrDigits < digits then .error .digits
  else .ok exponent.2

/-- What is read of a fraction is its digits. -/
theorem scanFraction_digits (t : Text) : ∀ c ∈ (scanFraction t).1, isDigit c = true := by
  unfold scanFraction
  split
  · split
    · next hdigit => exact List.forall_mem_cons.mpr ⟨hdigit.2, fun c hc => List.mem_takeWhile_imp hc⟩
    · exact nofun
  · exact nofun

/-- A sign is a plus, a minus or nothing. -/
theorem scanSign_cases (t : Text) :
    (scanSign t).1 = [] ∨ (scanSign t).1 = [43] ∨ (scanSign t).1 = [45] := by
  unfold scanSign
  split
  · split
    · next h =>
      rcases h with rfl | rfl
      · exact .inr (.inl rfl)
      · exact .inr (.inr rfl)
    · exact .inl rfl
  · exact .inl rfl

/-- What is read of an exponent is one. -/
theorem scanExponent_isExponent (t : Text) : ∀ e ∈ (scanExponent t).1, IsExponent e := by
  unfold scanExponent
  split
  · split
    · next hm =>
      dsimp only
      split
      · exact nofun
      · next hdigits =>
        rintro e he
        obtain rfl := Option.some.inj he
        exact ⟨hm, scanSign_cases _, hdigits, fun c hc => List.mem_takeWhile_imp hc⟩
    · exact nofun
  · exact nofun

/-- The rest does not depend on the digits of the whole part, only on how many they are. -/
theorem scanNumberTail_rest (neg : Bool) (whole t : Text) :
    (scanNumberTail d neg whole t).map Prod.snd = tailRest whole.length t := by
  have hfraction := scanFraction_digits t
  have hexponent := scanExponent_isExponent (scanFraction t).2
  simp only [scanNumberTail, tailRest]
  generalize (scanFraction t).1 = frac at hfraction ⊢
  generalize scanExponent (scanFraction t).2 = exponent at hexponent ⊢
  rw [numberOf, literalOf]
  by_cases hfloat : frac ≠ [] ∨ exponent.1.isSome = true
  · have hdif : ¬(frac = [] ∧ exponent.1 = none ∧ maxStrDigits < whole.length) := by
      rintro ⟨hfrac, hnone, -⟩
      rw [hfrac, hnone] at hfloat
      simp at hfloat
    rw [dif_pos ⟨hfraction, hexponent, hfloat⟩, if_neg hdif]
    rfl
  · have hparts : frac = [] ∧ exponent.1 = none := by
      simpa using hfloat
    rw [dif_neg fun h => hfloat h.2.2]
    simp only [hparts.1, hparts.2, true_and]
    by_cases hlong : whole.length ≤ maxStrDigits
    · rw [if_pos hlong, if_neg (Nat.not_lt.mpr hlong)]
      rfl
    · rw [if_neg hlong, if_pos (Nat.lt_of_not_le hlong)]
      rfl

/-- The rest after the whole part is not one more digit of it. -/
def Follows (whole t : Text) : Prop := whole = [48] ∨ ∀ c, t.head? = some c → isDigit c = false

/-- The digits of a whole part are passed, and the end of the number follows. -/
theorem scanDigits_whole {whole : Text} (neg : Bool) (hwhole : IsWhole whole) (ht : Follows whole t) :
    (scanDigits d start neg (whole ++ t)).map Prod.snd = tailRest whole.length t := by
  rcases hwhole with rfl | ⟨⟨hne, hdigits⟩, hzero⟩
  · exact scanNumberTail_rest neg [48] t
  · obtain ⟨c, w, rfl⟩ := List.exists_cons_of_ne_nil hne
    have hc : c ≠ 48 := by simpa using hzero
    have hnodigit : ∀ e, t.head? = some e → isDigit e = false := by
      rcases ht with hw | ht
      · exact absurd (List.cons.inj hw).1 hc
      · exact ht
    obtain ⟨htake, hdrop⟩ :=
      Decimal.takeWhile_digits (fun e he => hdigits e (List.mem_cons_of_mem _ he)) hnodigit
    rw [List.cons_append, scanDigits, if_neg hc, if_pos (hdigits c List.mem_cons_self), htake, hdrop]
    exact scanNumberTail_rest neg (c :: w) t

/-- What the digits pass is a whole part and the end of the number. -/
theorem scanDigits_cases {neg : Bool} (h : (scanDigits d start neg t).map Prod.snd = .ok u) :
    ∃ whole x, t = whole ++ x ∧ IsWhole whole ∧ tailRest whole.length x = .ok u := by
  cases t with
  | nil => cases h
  | cons c t =>
    rw [scanDigits] at h
    split at h
    · next hc =>
      subst hc
      rw [scanNumberTail_rest] at h
      exact ⟨[48], t, rfl, .inl rfl, h⟩
    · next hc =>
      split at h
      · next hdigit =>
        rw [scanNumberTail_rest] at h
        refine ⟨c :: t.takeWhile isDigit, t.dropWhile isDigit, ?_,
          .inr ⟨⟨List.cons_ne_nil _ _, ?_⟩, ?_⟩, h⟩
        · rw [List.cons_append, List.takeWhile_append_dropWhile]
        · exact List.forall_mem_cons.mpr ⟨hdigit, fun e he => List.mem_takeWhile_imp he⟩
        · simpa using hc
      · cases h

/-- A whole part begins with a digit. -/
theorem whole_head {whole : Text} (h : IsWhole whole) (t : Text) :
    ∃ c w, whole ++ t = c :: w ∧ isDigit c = true := by
  rcases h with rfl | ⟨⟨hne, hdigits⟩, -⟩
  · exact ⟨48, t, rfl, rfl⟩
  · obtain ⟨c, w, rfl⟩ := List.exists_cons_of_ne_nil hne
    exact ⟨c, w ++ t, rfl, hdigits c List.mem_cons_self⟩

/-- A number is its sign, its whole part and its end. -/
theorem numberRest_whole {sign whole : Text} (hsign : sign = [] ∨ sign = [45])
    (hwhole : IsWhole whole) (ht : Follows whole t) :
    numberRest d (sign ++ (whole ++ t)) = tailRest whole.length t := by
  rw [numberRest]
  rcases hsign with rfl | rfl
  · obtain ⟨c, w, hcw, hdigit⟩ := whole_head hwhole t
    have hdigits := @scanDigits_whole d (whole ++ t) t whole false hwhole ht
    rw [List.nil_append, ← hdigits]
    unfold scanNumber
    split
    · next heq =>
      rw [hcw] at heq
      rw [(List.cons.inj heq).1] at hdigit
      cases hdigit
    · rfl
  · exact scanDigits_whole true hwhole ht

/-- What is taken as a fraction is one, or nothing. -/
theorem scanFraction_ok (t : Text) :
    ∃ frac, t = frac ++ (scanFraction t).2 ∧ IsFraction frac ∧
      (frac = [] ↔ (scanFraction t).1 = []) := by
  unfold scanFraction
  split
  · next p c t =>
    split
    · next h =>
      obtain ⟨rfl, hdigit⟩ := h
      refine ⟨46 :: c :: t.takeWhile isDigit, ?_, .point ⟨List.cons_ne_nil _ _, ?_⟩, by simp⟩
      · simp [List.takeWhile_append_dropWhile]
      · exact List.forall_mem_cons.mpr ⟨hdigit, fun e he => List.mem_takeWhile_imp he⟩
    · exact ⟨[], rfl, .none, by simp⟩
  · exact ⟨[], rfl, .none, by simp⟩

/-- A sign and what follows it are the text. -/
theorem scanSign_eq (t : Text) : t = (scanSign t).1 ++ (scanSign t).2 := by
  unfold scanSign
  split
  · split <;> rfl
  · rfl

/-- What is taken as an exponent is one, or nothing. -/
theorem scanExponent_ok (t : Text) :
    ∃ power, t = power ++ (scanExponent t).2 ∧ IsPower power ∧
      (power = [] ↔ (scanExponent t).1 = none) := by
  unfold scanExponent
  split
  · next m c t =>
    split
    · next hm =>
      dsimp only
      split
      · exact ⟨[], rfl, .none, by simp⟩
      · next hdigits =>
        refine ⟨m :: ((scanSign (c :: t)).1 ++ (scanSign (c :: t)).2.takeWhile isDigit), ?_,
          .digits hm (scanSign_cases _) ⟨hdigits, fun e he => List.mem_takeWhile_imp he⟩, by simp⟩
        rw [List.cons_append, List.append_assoc, List.takeWhile_append_dropWhile, ← scanSign_eq]
    · exact ⟨[], rfl, .none, by simp⟩
  · exact ⟨[], rfl, .none, by simp⟩

/-- What the scanner passes as a number is one. -/
theorem number_of_rest (h : numberRest d t = .ok u) : ∃ p, t = p ++ u ∧ IsNumber p := by
  have hsign : ∃ sign v neg, t = sign ++ v ∧ (sign = [] ∨ sign = [45]) ∧
      (scanDigits d t neg v).map Prod.snd = .ok u := by
    unfold numberRest scanNumber at h
    split at h
    · next v => exact ⟨[45], v, true, rfl, .inr rfl, h⟩
    · exact ⟨[], t, false, rfl, .inl rfl, h⟩
  obtain ⟨sign, v, neg, rfl, hsign, hv⟩ := hsign
  obtain ⟨whole, x, rfl, hwhole, hx⟩ := scanDigits_cases hv
  obtain ⟨frac, hfrac, hisfrac, hfracnil⟩ := scanFraction_ok x
  obtain ⟨power, hpower, hispower, hpowernil⟩ := scanExponent_ok (scanFraction x).2
  simp only [tailRest] at hx
  split at hx
  · cases hx
  · next hlong =>
    obtain rfl := Except.ok.inj hx
    refine ⟨sign ++ (whole ++ (frac ++ power)), ?_, .mk hsign hwhole hisfrac hispower ?_⟩
    · rw [List.append_assoc, List.append_assoc, List.append_assoc, ← hpower, ← hfrac]
    · intro hf hp
      rw [hfracnil.mp hf, hpowernil.mp hp] at hlong
      simpa using hlong

/-- A fraction is taken up to what can be no part of it. -/
theorem fraction_follows {frac y : Text} (hfrac : IsFraction frac)
    (hy : ∀ c, y.head? = some c → isDigit c = false) (hpoint : frac = [] → y.head? ≠ some 46) :
    (scanFraction (frac ++ y)).2 = y ∧ ((scanFraction (frac ++ y)).1 = [] ↔ frac = []) := by
  cases hfrac with
  | none =>
    rw [List.nil_append, scanFraction_of_ne (hpoint rfl)]
    exact ⟨rfl, iff_of_true rfl rfl⟩
  | @point t h =>
    rw [List.cons_append, scanFraction_point h.1 h.2 hy]
    exact ⟨rfl, iff_of_false h.1 (List.cons_ne_nil _ _)⟩

/-- An exponent is taken up to what can be no part of it. -/
theorem power_follows {power y : Text} (hpower : IsPower power)
    (hy : ∀ c, y.head? = some c → isDigit c = false)
    (hmarker : power = [] → ∀ m, y.head? = some m → m ≠ 101 ∧ m ≠ 69) :
    (scanExponent (power ++ y)).2 = y ∧ ((scanExponent (power ++ y)).1 = none ↔ power = []) := by
  cases hpower with
  | none =>
    rw [List.nil_append, scanExponent_of_ne (hmarker rfl)]
    exact ⟨rfl, iff_of_true rfl rfl⟩
  | @digits m sign t hm hsign h =>
    have hexponent : IsExponent (m, sign, t) := ⟨hm, hsign, h.1, h.2⟩
    rw [List.cons_append, scanExponent_digits hexponent hy]
    exact ⟨rfl, iff_of_false nofun (List.cons_ne_nil _ _)⟩

/-- No digit and no point follow a fraction. -/
theorem power_head {power y : Text} (hpower : IsPower power) (hy : Stops y) :
    ∀ c, (power ++ y).head? = some c → isDigit c = false ∧ c ≠ 46 := by
  intro c hc
  cases hpower with
  | none => exact ⟨(hy c hc).1, (hy c hc).2.1⟩
  | digits hm _ _ =>
    obtain rfl := Option.some.inj hc
    rcases hm with rfl | rfl
    · exact ⟨rfl, by decide⟩
    · exact ⟨rfl, by decide⟩

/-- No digit follows a whole part. -/
theorem fraction_head {frac y : Text} (hfrac : IsFraction frac)
    (hy : ∀ c, y.head? = some c → isDigit c = false) :
    ∀ c, (frac ++ y).head? = some c → isDigit c = false := by
  intro c hc
  cases hfrac with
  | none => exact hy c hc
  | point _ =>
    obtain rfl := Option.some.inj hc
    rfl

/-- After the whole part come the fraction and the exponent; a plain integer may be too long. -/
theorem tailRest_of {digits : ℕ} {frac power : Text} (hfrac : IsFraction frac)
    (hpower : IsPower power) (hu : Stops u) : tailRest digits (frac ++ (power ++ u)) =
      if frac = [] ∧ power = [] ∧ maxStrDigits < digits then .error .digits else .ok u := by
  have hhead := power_head hpower hu
  obtain ⟨hrest, hnil⟩ := fraction_follows hfrac (fun c hc => (hhead c hc).1)
    fun _ h46 => (hhead 46 h46).2 rfl
  obtain ⟨hrest', hnone⟩ := power_follows hpower hu.no_digit fun _ m hm => (hu m hm).2.2
  simp only [tailRest, hrest, hrest', hnil, hnone]

/-- A number is read where the rest does not go on with it. -/
theorem numberRest_of_number {p : Text} (h : IsNumber p) (hu : Stops u) :
    numberRest d (p ++ u) = .ok u := by
  obtain ⟨hsign, hwhole, hfrac, hpower, hshort⟩ := h
  rename_i sign whole frac power
  have hhead := power_head hpower hu
  have hfollows : Follows whole (frac ++ (power ++ u)) :=
    .inr (fraction_head hfrac fun c hc => (hhead c hc).1)
  rw [List.append_assoc, List.append_assoc, List.append_assoc, numberRest_whole hsign hwhole hfollows,
    tailRest_of hfrac hpower hu, if_neg]
  rintro ⟨hf, hp, hlong⟩
  exact absurd (hshort hf hp) (by omega)

/-- A sign and a whole part begin a number. -/
theorem numberText_of_whole {sign whole : Text} (hsign : sign = [] ∨ sign = [45])
    (hwhole : IsWhole whole) (t : Text) : IsNumberText (sign ++ (whole ++ t)) := by
  obtain ⟨c, w, hcw, hdigit⟩ := whole_head hwhole t
  rcases hsign with rfl | rfl
  · exact ⟨c, w, hdigit, .inl hcw⟩
  · exact ⟨c, w, hdigit, .inr (congrArg (45 :: ·) hcw)⟩

/-- A number begins as a number does. -/
theorem numberText_of_number {p : Text} (h : IsNumber p) : IsNumberText p := by
  obtain ⟨hsign, hwhole, hfrac, hpower, hshort⟩ := h
  exact numberText_of_whole hsign hwhole _

/-- A value that begins with a digit is a number. -/
theorem valueRest_number {w : Text} (h : IsNumberText w) : valueRest d w = numberRest d w := by
  obtain ⟨c, t, hc, rfl | rfl⟩ := h
  · have hrange : 48 ≤ c ∧ c ≤ 57 := by simpa [isDigit] using hc
    rw [valueRest_other (by omega) (by omega) (by omega), scanConstant_digit hc]
  · rw [valueRest_other (by decide) (by decide) (by decide), scanConstant_minus hc]

/-! ## What the scanner reads -/

/-- The first character of a part is ASCII, is not white space and closes nothing. -/
theorem Derives.head {k : Part} {p : Text} (h : Derives k p) :
    ∃ c w, p = c :: w ∧ isJsonSpace c = false ∧ (c ≠ 93 ∧ c ≠ 125) ∧ c < 128 := by
  induction h with
  | string _ => exact ⟨34, _, rfl, by decide⟩
  | @constant name v hmem =>
    simp only [constants_eq, List.mem_cons, Prod.mk.injEq, List.not_mem_nil, or_false] at hmem
    rcases hmem with ⟨rfl, -⟩ | ⟨rfl, -⟩ | ⟨rfl, -⟩ | ⟨rfl, -⟩ | ⟨rfl, -⟩ | ⟨rfl, -⟩ <;>
      exact ⟨_, _, rfl, by decide⟩
  | number hnumber =>
    obtain ⟨c, t, hc, rfl | rfl⟩ := numberText_of_number hnumber
    · have hrange : 48 ≤ c ∧ c ≤ 57 := by simpa [isDigit] using hc
      refine ⟨c, t, rfl, ?_, by omega, by omega⟩
      simp only [isJsonSpace, Bool.or_eq_false_iff, beq_eq_false_iff_ne]
      omega
    · exact ⟨45, _, rfl, by decide⟩
  | @empty b s _ => cases b <;> exact ⟨_, _, rfl, by decide⟩
  | @bracketed b s t _ _ _ => cases b <;> exact ⟨_, _, rfl, by decide⟩
  | entry _ _ _ _ _ => exact ⟨34, _, rfl, by decide⟩
  | last _ _ ih =>
    obtain ⟨c, w, rfl, hc⟩ := ih
    exact ⟨c, _, rfl, hc⟩
  | next _ _ _ _ ih _ =>
    obtain ⟨c, w, rfl, hc⟩ := ih
    exact ⟨c, _, rfl, hc⟩

/-- A number stops before white space and punctuation. -/
theorem stops_blank_cons {c : ℕ} (hs : IsBlank s)
    (hc : isDigit c = false ∧ c ≠ 46 ∧ c ≠ 101 ∧ c ≠ 69) : Stops (s ++ c :: t) := by
  intro e he
  cases s with
  | nil =>
    obtain rfl := Option.some.inj he
    exact hc
  | cons b s =>
    obtain rfl := Option.some.inj he
    have hb := hs b List.mem_cons_self
    simp only [isJsonSpace, Bool.or_eq_true, beq_iff_eq] at hb
    rcases hb with ((rfl | rfl) | rfl) | rfl <;> exact ⟨rfl, by decide⟩

/-- What is neither of the two closing brackets is not the one of this kind. -/
theorem not_closing {b : Bracket} {c : ℕ} (h : c ≠ 93 ∧ c ≠ 125) : c ≠ b.closing := by
  cases b
  · exact h.1
  · exact h.2

/-- A closing bracket is no white space and no part of a number. -/
theorem closing_spec (b : Bracket) :
    isJsonSpace b.closing = false ∧ isDigit b.closing = false ∧ b.closing ≠ 46 ∧ b.closing ≠ 101 ∧
      b.closing ≠ 69 := by
  cases b <;> decide

/-- **Complete.** A part is read where the rest does not go on with a number. -/
theorem rest_of_derives (hd : d.IsTotal) {k : Part} {p : Text} (h : Derives k p) :
    ∀ u, Stops u → partRest d k (p ++ u) = .ok u := by
  induction h with
  | string htail =>
    intro u _
    exact valueRest_string.trans (stringRest_of_tail htail u)
  -- a constant is read with any fuel for its length
  | @constant name v hmem =>
    intro u _
    have hscan := @scanOnce_constant d u (2 * (name ++ u).length) name v hmem
    show valueRest d (name ++ u) = .ok u
    rw [← @valueRest_fuel d (name ++ u) (2 * (name ++ u).length + 1) (by omega), hscan]
    rfl
  | @number p hnumber =>
    intro u hu
    have htext : IsNumberText (p ++ u) := by
      obtain ⟨c, w, hc, rfl | rfl⟩ := numberText_of_number hnumber
      · exact ⟨c, w ++ u, hc, .inl rfl⟩
      · exact ⟨c, w ++ u, hc, .inr rfl⟩
    exact (valueRest_number htext).trans (numberRest_of_number hnumber hu)
  -- what is in the brackets begins with neither white space nor the closing bracket
  | @empty b s hs =>
    intro u _
    obtain ⟨hspace, -⟩ := closing_spec b
    have hskip : skipSpace (s ++ [b.closing] ++ u) = b.closing :: u := by
      rw [List.append_assoc]
      exact skipSpace_cons hs hspace u
    exact valueRest_empty hd hskip
  | @bracketed b s t hs ht ih =>
    intro u hu
    obtain ⟨c, w, rfl, hspace, hclosing, -⟩ := ht.head
    have hskip : skipSpace (s ++ (c :: w) ++ u) = c :: w ++ u := by
      rw [List.append_assoc]
      exact skipSpace_cons hs hspace _
    have hopen : ∀ v, skipSpace (s ++ (c :: w) ++ u) ≠ b.closing :: v := by
      intro v hv
      rw [hskip] at hv
      exact not_closing hclosing (List.cons.inj hv).1
    have hrest := valueRest_opening hd hopen
    rw [hskip] at hrest
    exact hrest.trans (ih u hu)
  | @entry k s s' v hk hs hs' hv ih =>
    intro u hu
    obtain ⟨c, w, rfl, hspace, -⟩ := hv.head
    have hkey : stringRest (34 :: (k ++ (s ++ 58 :: (s' ++ (c :: w))) ++ u))
        (k ++ (s ++ 58 :: (s' ++ (c :: w))) ++ u) = .ok (s ++ 58 :: (s' ++ (c :: w)) ++ u) := by
      rw [List.append_assoc]
      exact stringRest_of_tail hk _
    have hcolon : skipSpace (s ++ 58 :: (s' ++ (c :: w)) ++ u) = 58 :: (s' ++ (c :: w) ++ u) := by
      rw [List.append_assoc]
      exact skipSpace_cons hs rfl _
    have hskip : skipSpace (s' ++ (c :: w) ++ u) = c :: w ++ u := by
      rw [List.append_assoc]
      exact skipSpace_cons hs' hspace _
    have hentry := @entryRest_value d _ _ _ hkey hcolon
    rw [hskip] at hentry
    exact hentry.trans (ih u hu)
  | @last b e s he hs ih =>
    intro u _
    obtain ⟨hspace, hstop⟩ := closing_spec b
    have helement := ih (s ++ b.closing :: u) (stops_blank_cons hs hstop)
    rw [List.append_assoc, List.append_assoc]
    exact partRest_last helement (skipSpace_cons hs hspace u)
  | @next b e s s' t he hs hs' ht ih ih' =>
    intro u hu
    obtain ⟨c, w, rfl, hspace, -⟩ := ht.head
    have helement := ih (s ++ 44 :: (s' ++ (c :: w) ++ u)) (stops_blank_cons hs (by decide))
    have hskip : skipSpace (s' ++ (c :: w) ++ u) = c :: w ++ u := by
      rw [List.append_assoc]
      exact skipSpace_cons hs' hspace _
    have hnext := partRest_next helement (skipSpace_cons hs rfl _)
    rw [hskip, ih' u hu] at hnext
    rw [List.append_assoc, List.append_assoc]
    exact hnext

/-- What the scanner passes as a constant is a value. -/
theorem derives_of_constant {p : Json × Text} (h : scanConstant t = some p) :
    ∃ name, t = name ++ p.2 ∧ Derives .value name := by
  obtain ⟨q, hq, rfl⟩ := Option.map_eq_some_iff.mp h
  have hfound := List.find?_some (p := fun p : Text × Json => p.1.isPrefixOf t) hq
  obtain ⟨r, rfl⟩ := List.isPrefixOf_iff_prefix.mp hfound
  have hmem : (q.1, q.2) ∈ constants := List.mem_of_find?_eq_some hq
  refine ⟨q.1, ?_, .constant hmem⟩
  dsimp only
  rw [List.drop_left]

/-- What a scan of a value and of an entry leaves, from shorter texts. -/
theorem derives_step (hd : d.IsTotal) {N : ℕ}
    (ih : ∀ k t u, t.length < N → partRest d k t = .ok u → ∃ p, t = p ++ u ∧ Derives k p) :
    ∀ t u, t.length ≤ N → valueRest d t = .ok u → ∃ p, t = p ++ u ∧ Derives .value p := by
  intro t u ht h
  cases t with
  | nil => cases h
  | cons c t =>
    have hlt : t.length < N := ht
    have hbracket : ∀ b : Bracket, c = b.opening → ∃ p, c :: t = p ++ u ∧ Derives .value p := by
      rintro b rfl
      obtain ⟨s, hs, hskip⟩ := skipSpace_spec t
      by_cases hclose : ∃ v, skipSpace t = b.closing :: v
      · obtain ⟨v, hv⟩ := hclose
        rw [valueRest_empty hd hv] at h
        obtain rfl := Except.ok.inj h
        refine ⟨b.opening :: (s ++ [b.closing]), ?_, .empty hs⟩
        rw [List.cons_append, List.append_assoc, List.cons_append, List.nil_append, ← hv, ← hskip]
      · rw [valueRest_opening hd fun v hv => hclose ⟨v, hv⟩] at h
        have hlength := skipSpace_length t
        obtain ⟨p, hp, hderives⟩ := ih _ _ _ (by omega) h
        refine ⟨b.opening :: (s ++ p), ?_, .bracketed hs hderives⟩
        rw [List.cons_append, List.append_assoc, ← hp, ← hskip]
    by_cases hquote : c = 34
    · subst hquote
      rw [valueRest_string] at h
      obtain ⟨p, rfl, hp⟩ := tail_of_stringRest h
      exact ⟨34 :: p, rfl, .string hp⟩
    by_cases hbrace : c = 123
    · exact hbracket .curly hbrace
    by_cases hsquare : c = 91
    · exact hbracket .square hsquare
    rw [valueRest_other hquote hbrace hsquare] at h
    split at h
    · next p hp =>
      obtain rfl := Except.ok.inj h
      exact derives_of_constant hp
    · obtain ⟨p, hp, hnumber⟩ := number_of_rest h
      exact ⟨p, hp, .number hnumber⟩

/-- **Sound.** What the scanner takes is the text of a part. -/
theorem derives_of_rest (hd : d.IsTotal) {k : Part} (h : partRest d k t = .ok u) :
    ∃ p, t = p ++ u ∧ Derives k p := by
  induction hn : t.length using Nat.strong_induction_on generalizing k t u with
  | _ n ih =>
    have hshort : ∀ k t u, t.length < n → partRest d k t = .ok u → ∃ p, t = p ++ u ∧ Derives k p :=
      fun k t u ht h => ih t.length ht h rfl
    have hvalue := derives_step hd hshort
    have hentry :
        ∀ t u, t.length ≤ n → entryRest d t = .ok u → ∃ p, t = p ++ u ∧ Derives .entry p := by
      intro t u ht h
      obtain ⟨t', v, w, rfl, hk, hv, hw⟩ := entryRest_ok h
      obtain ⟨p, rfl, hp⟩ := tail_of_stringRest hk
      obtain ⟨s, hs, hskip⟩ := skipSpace_spec v
      obtain ⟨s', hs', hskip'⟩ := skipSpace_spec w
      have hlength := length_of_skipSpace hv
      have hlength' := skipSpace_length w
      simp only [List.length_cons, List.length_append] at ht
      obtain ⟨q, hq, hderives⟩ := hvalue _ _ (by omega) hw
      refine ⟨34 :: (p ++ (s ++ 58 :: (s' ++ q))), ?_, .entry hp hs hs' hderives⟩
      conv_lhs => rw [hskip, hv, hskip', hq]
      simp
    cases k with
    | value => exact hvalue t u hn.le h
    | entry => exact hentry t u hn.le h
    | inside b =>
      have helement :
          ∀ u, partRest d b.element t = .ok u → ∃ p, t = p ++ u ∧ Derives b.element p := by
        intro u hu
        cases b with
        | square => exact hvalue t u hn.le hu
        | curly => exact hentry t u hn.le hu
      cases he : partRest d b.element t with
      | error e =>
        rw [partRest_error he] at h
        cases h
      | ok v =>
        obtain ⟨p, rfl, hp⟩ := helement v he
        obtain ⟨s, hs, hskip⟩ := skipSpace_spec v
        by_cases hlast : ∃ w, skipSpace v = b.closing :: w
        · obtain ⟨w, hw⟩ := hlast
          rw [partRest_last he hw] at h
          obtain rfl := Except.ok.inj h
          refine ⟨p ++ (s ++ [b.closing]), ?_, .last hp hs⟩
          conv_lhs => rw [hskip, hw]
          simp
        by_cases hnext : ∃ w, skipSpace v = 44 :: w
        · obtain ⟨w, hw⟩ := hnext
          obtain ⟨s', hs', hskip'⟩ := skipSpace_spec w
          rw [partRest_next he hw] at h
          have hlength := length_of_skipSpace hw
          have hlength' := skipSpace_length w
          rw [List.length_append] at hn
          obtain ⟨q, hq, hderives⟩ := ih _ (by omega) h rfl
          refine ⟨p ++ (s ++ 44 :: (s' ++ q)), ?_, .next hp hs hs' hderives⟩
          conv_lhs => rw [hskip, hw, hskip', hq]
          simp
        · rw [partRest_comma he (fun w hw => hlast ⟨w, hw⟩) fun w hw => hnext ⟨w, hw⟩] at h
          cases h

end Json

end RunpodJobrunner
