import RunpodJobrunner.JsonReadBack

/-!
# Cut JSON

What the scanner makes of a part of a written value: the end of the text, a string
or a literal that is not closed, or a number with something after it. Its error
says that the text was cut, in the eyes of a reader that goes by message and
position, unless the cut stands right after the digits of a `\uXXXX` escape.
-/

namespace RunpodJobrunner

namespace Json

/-! ## The reader's rule -/

/-- What is left of a number after the longest number in a part of it. -/
def partials : List Text :=
  [[46], [101], [69], [101, 43], [101, 45], [69, 43], [69, 45]]

/-- Whether a decode error says that the text was cut. -/
def DecodeError.torn (e : DecodeError) : Bool :=
  if e.rest = [] ∨ e.message = .unterminatedString then true
  else if e.message = .expectingValue ∧
      (e.rest = [45] ∨ ∃ l ∈ [txt "true", txt "false", txt "null"], e.rest.isPrefixOf l = true) then
    true
  else if e.message = .invalidUnicodeEscape ∧ e.rest.head? = some 117 then e.rest.length < 5
  else e.message = .expectingComma ∧ e.rest ∈ partials

/-- An error at the end of the text is taken as torn. -/
theorem torn_of_end {m : DecodeMessage} : (DecodeError.mk m []).torn = true := by
  simp [DecodeError.torn]

/-- A string without an end is taken as torn. -/
theorem torn_of_unterminated {rest : Text} :
    (DecodeError.mk .unterminatedString rest).torn = true := by
  simp [DecodeError.torn]

/-- A `\u` escape is taken as torn where less than four characters follow. -/
theorem torn_of_escape {rest : Text} :
    (DecodeError.mk .invalidUnicodeEscape (117 :: rest)).torn = decide (rest.length < 4) := by
  simp [DecodeError.torn]
  omega

/-- A constant that is cut is taken as torn. -/
theorem torn_of_cut_literal {rest : Text} (h : rest = [] ∨ rest ∈ partials) :
    (DecodeError.mk .expectingComma rest).torn = true := by
  rcases h with rfl | h
  · exact torn_of_end
  · simp [DecodeError.torn, h]

/-! ## Where a cut stands -/

/-- A place in a JSON text. -/
inductive Place : Type where
  | outside
  | inside
  | slash
  /-- after so many digits of an escape -/
  | digits (n : ℕ)
  deriving DecidableEq

/-- The place after one more character. -/
def Place.next : Place → ℕ → Place
  | .outside, c => if c = 34 then .inside else .outside
  | .inside, c => if c = 34 then .outside else if c = 92 then .slash else .inside
  | .slash, c => if c = 117 then .digits 0 else .inside
  | .digits n, c =>
    if n < 4 then .digits (n + 1)
    else if c = 34 then .outside else if c = 92 then .slash else .inside

/-- The place after a text. -/
def Place.after (p : Place) (t : Text) : Place := t.foldl Place.next p

/-- The text ends right after the last digit of an escape. -/
def endsInEscape (t : Text) : Bool := Place.outside.after t = .digits 4

section

variable {p q t u w rest start : Text} {c : ℕ}

@[simp] theorem Place.after_nil (x : Place) : x.after [] = x := rfl

@[simp] theorem Place.after_cons (x : Place) : x.after (c :: t) = (x.next c).after t := rfl

/-- The place after two texts is reached through the first. -/
theorem Place.after_append (x : Place) : x.after (t ++ u) = (x.after t).after u :=
  List.foldl_append

/-- A text without quotes stays outside. -/
theorem after_outside (h : ∀ c ∈ t, c ≠ 34) : Place.outside.after t = .outside := by
  induction t with
  | nil => rfl
  | cons c t ih =>
    have hc : Place.outside.next c = .outside := if_neg (h c List.mem_cons_self)
    rw [Place.after_cons, hc, ih fun d hd => h d (List.mem_cons_of_mem _ hd)]

/-- After the digits of an escape, more of the string follows as from anywhere in it. -/
theorem after_digits (h : t ≠ []) : (Place.digits 4).after t = Place.inside.after t := by
  obtain ⟨c, t, rfl⟩ := List.exists_cons_of_ne_nil h
  rfl

/-- A `\u` escape is within its digits to the end. -/
theorem after_escape : Place.inside.after (unicodeEscape c) = .digits 4 := rfl

/-! ## Strings -/

/-- What is written of a character without wide escapes. -/
theorem escapeChar_false (c : ℕ) : Written false c (escapeChar false c) :=
  written_escapeChar nofun

/-- The closing quote of a string leads out of it. -/
theorem after_stringTail (t : Text) : Place.inside.after (stringTail false t) = .outside := by
  induction t with
  | nil => rfl
  | cons c t ih =>
    rw [stringTail, Place.after_append]
    have hwritten := escapeChar_false c
    generalize escapeChar false c = w at hwritten
    cases hwritten with
    | raw hquote hslash _ _ => simpa [Place.next, hquote, hslash] using ih
    | simple hu _ _ => simpa [Place.next, hu] using ih
    | unicode _ _ => rw [after_escape, after_digits (stringTail_ne_nil false t), ih]

/-- After a whole string the place is outside. -/
theorem after_stringText (t : Text) : Place.outside.after (stringText false t) = .outside :=
  after_stringTail t

/-- An error of the scanner, which says that the text was cut unless it ends in an
escape. -/
def CutError {α : Type} (x : Place) (r : Except LoadsError α) : Prop :=
  ∃ e, r = .error (.decode e) ∧ e.torn = !decide (x = .digits 4)

/-- What is made of a result leaves its error. -/
theorem CutError.map {α β : Type} {x : Place} {r : Except LoadsError α} (f : α → β)
    (h : CutError x r) : CutError x (r.map f) := by
  obtain ⟨e, rfl, he⟩ := h
  exact ⟨e, rfl, he⟩

/-- An error at the end is one of a cut, outside the digits of an escape. -/
theorem cutError_end {α : Type} {x : Place} {m : DecodeMessage} (h : x ≠ .digits 4) :
    CutError x (failAt m [] : Except LoadsError α) :=
  ⟨_, rfl, by rw [torn_of_end, decide_eq_false h]; rfl⟩

/-- The digits of an escape, as far as they go. -/
theorem cases_of_length {ds : Text} (h : ds.length ≤ 4) :
    ds = [] ∨ (∃ a, ds = [a]) ∨ (∃ a b, ds = [a, b]) ∨ (∃ a b c, ds = [a, b, c]) ∨
      ∃ a b c e, ds = [a, b, c, e] := by
  rcases ds with _ | ⟨a, _ | ⟨b, _ | ⟨c, _ | ⟨e, _ | ⟨x, ds⟩⟩⟩⟩⟩
  · exact .inl rfl
  · exact .inr (.inl ⟨a, rfl⟩)
  · exact .inr (.inr (.inl ⟨a, b, rfl⟩))
  · exact .inr (.inr (.inr (.inl ⟨a, b, c, rfl⟩)))
  · exact .inr (.inr (.inr (.inr ⟨a, b, c, e, rfl⟩)))
  · simp only [List.length_cons] at h
    omega

/-- A part of a `\uXXXX` escape. -/
theorem scanString_escape (h : p ++ q = unicodeEscape c) (hne : p ≠ []) :
    CutError (Place.inside.after p) (scanString start p) := by
  have hlen := congrArg List.length h
  obtain ⟨a, p, rfl⟩ := List.exists_cons_of_ne_nil hne
  cases p with
  | nil =>
    obtain ⟨rfl, -⟩ := List.cons.inj h
    exact ⟨_, rfl, torn_of_unterminated⟩
  | cons b ds =>
    simp only [unicodeEscape, List.cons_append, List.cons.injEq] at h
    obtain ⟨rfl, rfl, hdigits⟩ := h
    have hfour : ds.length ≤ 4 := by
      simp only [List.length_append, List.length_cons, unicodeEscape, List.length_nil] at hlen
      omega
    refine ⟨⟨.invalidUnicodeEscape, 117 :: ds⟩, ?_⟩
    rw [torn_of_escape]
    -- the text ends before any of the digits, or after the last
    rcases cases_of_length hfour with rfl | ⟨a, rfl⟩ | ⟨a, b, rfl⟩ | ⟨a, b, c, rfl⟩ |
      ⟨a, b, c, e, rfl⟩
    all_goals exact ⟨by simp [scanString, failAt], rfl⟩

/-- **Strings.** A part of the text of a string. -/
theorem scanString_cut (h : p ++ q = stringTail false t) (hq : q ≠ []) :
    CutError (Place.inside.after p) (scanString start p) := by
  induction t generalizing p with
  | nil =>
    have hp : p = [] := by
      have hlen := congrArg List.length h
      have hpos := List.length_pos_of_ne_nil hq
      simp only [List.length_append, stringTail, List.length_cons, List.length_nil] at hlen
      exact List.eq_nil_of_length_eq_zero (by omega)
    subst hp
    exact ⟨_, rfl, torn_of_unterminated⟩
  | cons c t ih =>
    rw [stringTail] at h
    have hwritten := escapeChar_false c
    generalize escapeChar false c = w at hwritten h
    by_cases hp : p = []
    · subst hp
      exact ⟨_, rfl, torn_of_unterminated⟩
    cases hwritten with
    | raw hquote hslash hlow _ =>
      obtain ⟨d, p, rfl⟩ := List.exists_cons_of_ne_nil hp
      simp only [List.cons_append, List.nil_append, List.cons.injEq] at h
      obtain ⟨rfl, h⟩ := h
      have hnext : Place.inside.next d = .inside := by simp [Place.next, hquote, hslash]
      rw [scanString_raw hquote hslash hlow, Place.after_cons, hnext]
      exact (ih h).map _
    | @simple e hu he hlt =>
      obtain ⟨a, p, rfl⟩ := List.exists_cons_of_ne_nil hp
      cases p with
      | nil =>
        obtain ⟨rfl, -⟩ := List.cons.inj h
        exact ⟨_, rfl, torn_of_unterminated⟩
      | cons b p =>
        simp only [List.cons_append, List.nil_append, List.cons.injEq] at h
        obtain ⟨rfl, rfl, h⟩ := h
        have hnext : Place.slash.next b = .inside := if_neg hu
        rw [scanString_simple hu he, Place.after_cons, Place.after_cons]
        have hslash : Place.inside.next 92 = .slash := rfl
        rw [hslash, hnext]
        exact (ih h).map _
    | unicode hlt hascii =>
      rcases List.append_eq_append_iff.mp h with ⟨a, ha, -⟩ | ⟨p', rfl, hp'⟩
      · exact scanString_escape ha.symm hp
      · by_cases hnil : p' = []
        · subst hnil
          rw [List.append_nil]
          exact scanString_escape (List.append_nil _) (List.cons_ne_nil _ _)
        · have hlow : ¬IsHigh c := by
            have hc := hascii rfl
            rintro ⟨hhigh, -⟩
            omega
          rw [scanString_unicode hlt hnil fun h => absurd h hlow, Place.after_append, after_escape,
            after_digits hnil]
          exact (ih hp'.symm).map _

/-! ## Numbers -/

/-- Nothing, or what is left of a number after the longest number in a part of it. -/
def IsPartial (t : Text) : Prop := t = [] ∨ t ∈ partials

/-- Digits are taken whole. -/
theorem digits_drop (h : ∀ c ∈ t, isDigit c = true) :
    t.takeWhile isDigit = t ∧ t.dropWhile isDigit = [] := by
  simpa using Decimal.takeWhile_digits (r := []) h (by simp)

/-- A part of an exponent. -/
theorem scanExponent_cut {e : ℕ × Text × Text} (he : IsExponent e)
    (h : p ++ q = exponentText (some e)) : IsPartial (scanExponent p).2 := by
  obtain ⟨m, sign, digits⟩ := e
  obtain ⟨hm, hsign, -, hdigits⟩ := he
  have hm : m = 101 ∨ m = 69 := hm
  match p with
  | [] => exact .inl rfl
  | [a] =>
    obtain ⟨rfl, -⟩ := List.cons.inj h
    right
    rcases hm with rfl | rfl <;> simp [scanExponent, partials]
  | a :: b :: p =>
    obtain ⟨rfl, hrest⟩ := List.cons.inj h
    have hrest : b :: p ++ q = sign ++ digits := hrest
    have hmark : a = 101 ∨ a = 69 := hm
    have hunsigned : ∀ ds : Text, ds ≠ [] → (∀ c ∈ ds, isDigit c = true) →
        scanSign ds = ([], ds) := by
      intro ds hne hds
      obtain ⟨c, ds, rfl⟩ := List.exists_cons_of_ne_nil hne
      have hc := hds c List.mem_cons_self
      simp only [isDigit, Bool.and_eq_true, decide_eq_true_eq] at hc
      have hplus : c ≠ 43 := by omega
      have hminus : c ≠ 45 := by omega
      cases ds with
      | nil => rfl
      | cons d ds => simp [scanSign, hplus, hminus]
    -- what follows the sign is digits
    have hall : ∀ sign' ds, scanSign (b :: p) = (sign', ds) → ds ≠ [] →
        (∀ c ∈ ds, isDigit c = true) → IsPartial (scanExponent (a :: b :: p)).2 := by
      intro sign' ds hscan hne hds
      obtain ⟨htake, hdrop⟩ := digits_drop hds
      left
      simp [scanExponent, hmark, hscan, htake, hdrop, hne]
    rcases hsign with rfl | hsign
    · have hds : ∀ c ∈ b :: p, isDigit c = true := by
        intro c hc
        have hmem : c ∈ [] ++ digits := by
          rw [← hrest]
          exact List.mem_append_left _ hc
        exact hdigits c hmem
      exact hall _ _ (hunsigned _ (by simp) hds) (by simp) hds
    · obtain ⟨s, rfl, hs⟩ : ∃ s, sign = [s] ∧ (s = 43 ∨ s = 45) := by
        rcases hsign with rfl | rfl
        · exact ⟨43, rfl, .inl rfl⟩
        · exact ⟨45, rfl, .inr rfl⟩
      obtain ⟨rfl, hmore⟩ := List.cons.inj hrest
      cases p with
      | nil =>
        right
        rcases hmark with rfl | rfl <;> rcases hs with rfl | rfl <;>
          simp [scanExponent, scanSign, partials, isDigit]
      | cons c p =>
        have hds : ∀ d ∈ c :: p, isDigit d = true := by
          intro d hd
          have hmore : c :: p ++ q = digits := hmore
          exact hdigits d (by rw [← hmore]; exact List.mem_append_left _ hd)
        exact hall [b] (c :: p) (by simp [scanSign, hs]) (by simp) hds

/-- A fraction and an exponent as they are written. -/
def tailText (frac : Text) (exp : Option (ℕ × Text × Text)) : Text :=
  (if frac = [] then [] else 46 :: frac) ++ exponentText exp

section

variable {d : Decoder} {frac : Text} {exp : Option (ℕ × Text × Text)}

/-- The exponent starts with its marker. -/
theorem head_exponent (hexp : ∀ e, exp = some e → IsExponent e) (h : p ++ q = exponentText exp) :
    ∀ c, p.head? = some c → c = 101 ∨ c = 69 := by
  intro c hc
  obtain ⟨p, rfl⟩ := List.head?_eq_some_iff.mp hc
  cases exp with
  | none => cases h
  | some e =>
    obtain ⟨rfl, -⟩ := List.cons.inj h
    exact (hexp e rfl).1

/-- A part of a number's exponent, where it may have none. -/
theorem scanExponent_part (hexp : ∀ e, exp = some e → IsExponent e)
    (h : p ++ q = exponentText exp) : IsPartial (scanExponent p).2 := by
  cases exp with
  | none =>
    obtain ⟨rfl, -⟩ := List.append_eq_nil_iff.mp h
    exact .inl rfl
  | some e => exact scanExponent_cut (hexp e rfl) h

/-- A part of what follows the whole part. -/
theorem scanTail_cut (hfrac : ∀ c ∈ frac, isDigit c = true)
    (hexp : ∀ e, exp = some e → IsExponent e) (h : p ++ q = tailText frac exp) :
    IsPartial (scanExponent (scanFraction p).2).2 := by
  have hmark : ∀ {a b : Text}, a ++ b = exponentText exp → ∀ c, a.head? = some c →
      isDigit c = false ∧ c ≠ 46 := by
    intro a b hab c hc
    rcases head_exponent hexp hab c hc with rfl | rfl <;> decide
  rw [tailText] at h
  split at h
  · rw [scanFraction_of_ne fun hpoint => (hmark h 46 hpoint).2 rfl]
    exact scanExponent_part hexp h
  · next hne =>
    rcases List.append_eq_append_iff.mp h with ⟨a, ha, -⟩ | ⟨p', rfl, hp'⟩
    · cases p with
      | nil => exact .inl rfl
      | cons x p =>
        obtain ⟨rfl, hpart⟩ := List.cons.inj ha
        cases p with
        | nil => exact .inr (by simp [scanFraction, scanExponent, partials])
        | cons c p =>
          have hpart : frac = c :: p ++ a := hpart
          have hdigits : ∀ e ∈ c :: p, isDigit e = true := by
            intro e he
            exact hfrac e (by rw [hpart]; exact List.mem_append_left _ he)
          have hscan := @scanFraction_point [] (c :: p) (by simp) hdigits (by rintro _ ⟨⟩)
          rw [List.append_nil] at hscan
          rw [hscan]
          exact .inl rfl
    · rw [List.cons_append, scanFraction_point hne hfrac fun c hc => (hmark hp'.symm c hc).1]
      exact scanExponent_part hexp hp'.symm

/-- A number with few digits is read. -/
theorem numberOf_short (neg : Bool) {whole : Text} (hlen : whole.length ≤ maxStrDigits) :
    ∃ v, numberOf d neg whole frac exp = .ok v := by
  rw [numberOf]
  split
  · exact ⟨_, rfl⟩
  · rw [if_pos hlen]
    exact ⟨_, rfl⟩

/-- The number in a part of a number, and what is left of that part. -/
def ReadsNumber (r : Scan Json) : Prop := ∃ v rest, r = .ok (v, rest) ∧ IsPartial rest

/-- **A number that is cut** is read as another number, or fails at its end. -/
theorem scanNumberTail_cut (neg : Bool) {whole : Text} (hlen : whole.length ≤ maxStrDigits)
    (hfrac : ∀ c ∈ frac, isDigit c = true) (hexp : ∀ e, exp = some e → IsExponent e)
    (h : p ++ q = tailText frac exp) : ReadsNumber (scanNumberTail d neg whole p) := by
  obtain ⟨v, hv⟩ := @numberOf_short d (scanFraction p).1 (scanExponent (scanFraction p).2).1 neg
    whole hlen
  refine ⟨v, (scanExponent (scanFraction p).2).2, ?_, scanTail_cut hfrac hexp h⟩
  rw [scanNumberTail]
  simp only [hv]
  rfl

/-- A part of the digits of a whole number. -/
theorem scanDigits_cut (neg : Bool) {n : ℕ} (h : p ++ q = natText n) (hp : p ≠ []) :
    scanDigits d start neg p = scanNumberTail d neg p [] := by
  obtain ⟨c, p, rfl⟩ := List.exists_cons_of_ne_nil hp
  rw [List.cons_append] at h
  have hdigits : ∀ e ∈ c :: p, isDigit e = true := by
    intro e he
    exact natText_digits n e (by rw [← h]; exact List.mem_append_left q he)
  obtain ⟨htake, hdrop⟩ := digits_drop fun e he => hdigits e (List.mem_cons_of_mem _ he)
  by_cases hc : c = 48
  · -- only zero itself starts with a zero
    have hn : n = 0 := by
      by_contra hn
      exact natText_head_ne_zero (Nat.pos_of_ne_zero hn) (by rw [← h, hc]; rfl)
    rw [hn, natText_zero] at h
    obtain ⟨rfl, htail⟩ := List.cons.inj h
    obtain ⟨rfl, -⟩ := List.append_eq_nil_iff.mp htail
    simp [scanDigits]
  · simp [scanDigits, hc, hdigits c List.mem_cons_self, htake, hdrop]

/-- **Numbers.** A part of a number is a number with something left, or a sign. -/
theorem scanNumber_cut {neg : Bool} {n : ℕ} (hlen : (natText n).length ≤ maxStrDigits)
    (hfrac : ∀ c ∈ frac, isDigit c = true) (hexp : ∀ e, exp = some e → IsExponent e)
    (h : p ++ q = (if neg then [45] else []) ++ (natText n ++ tailText frac exp)) (hp : p ≠ []) :
    ReadsNumber (scanNumber d p) ∨ (p = [45] ∧ scanNumber d p = failAt .expectingValue p) := by
  -- the digits and what follows them
  have hbody : ∀ {p start : Text}, p ++ q = natText n ++ tailText frac exp → p ≠ [] →
      ReadsNumber (scanDigits d start neg p) := by
    intro p start h hp
    rcases List.append_eq_append_iff.mp h with ⟨a, ha, -⟩ | ⟨p', rfl, hp'⟩
    · have hshort : p.length ≤ maxStrDigits := by
        have := congrArg List.length ha
        rw [List.length_append] at this
        omega
      rw [scanDigits_cut neg ha.symm hp]
      exact @scanNumberTail_cut [] [] d [] none neg p hshort nofun nofun rfl
    · have hstop : ∀ c, p'.head? = some c → isDigit c = false := by
        intro c hc
        obtain ⟨p', rfl⟩ := List.head?_eq_some_iff.mp hc
        rw [tailText] at hp'
        split at hp'
        · rcases head_exponent hexp hp'.symm c hc with rfl | rfl <;> rfl
        · obtain ⟨rfl, -⟩ := List.cons.inj hp'
          rfl
      rw [scanDigits_natText _ neg n hstop]
      exact scanNumberTail_cut neg hlen hfrac hexp hp'.symm
  cases neg with
  | false =>
    left
    obtain ⟨c, p, rfl⟩ := List.exists_cons_of_ne_nil hp
    have hminus : c ≠ 45 := by
      obtain ⟨e, u, hu⟩ := List.exists_cons_of_ne_nil (natText_ne_nil n)
      have he := natText_digits n e (by simp [hu])
      rw [hu] at h
      obtain ⟨rfl, -⟩ := List.cons.inj h
      rintro rfl
      cases he
    have hscan : scanNumber d (c :: p) = scanDigits d (c :: p) false (c :: p) := by
      rw [scanNumber.eq_def]
      split
      · next heq => exact absurd (List.cons.inj heq).1 hminus
      · rfl
    rw [hscan]
    exact hbody h hp
  | true =>
    obtain ⟨c, p, rfl⟩ := List.exists_cons_of_ne_nil hp
    obtain ⟨rfl, hrest⟩ := List.cons.inj h
    by_cases hnil : p = []
    · subst hnil
      exact .inr ⟨rfl, rfl⟩
    · exact .inl (hbody hrest hnil)

end

end

/-! ## Values -/

/-- The options of the journals: wide characters as they are, and no NaN. -/
def rawText : DumpOptions := ⟨false, false⟩

section

variable {d : Decoder} {p q t w : Text} {n : ℕ}

/-- An error says that the text was cut unless it ends in an escape, and a value is a
number, which leaves only what may be left of one. -/
def CutScan (p : Text) (r : Scan Json) : Prop :=
  CutError (Place.outside.after p) r ∨
    p.head? ≠ some 123 ∧ Place.outside.after p = .outside ∧ ReadsNumber r

/-- The end of a number has no quote. -/
theorem tailText_no_quote {frac : Text} {exp : Option (ℕ × Text × Text)}
    (hfrac : ∀ c ∈ frac, isDigit c = true) (hexp : ∀ e, exp = some e → IsExponent e) :
    ∀ c ∈ tailText frac exp, c ≠ 34 := by
  rintro c hc rfl
  rw [tailText, List.mem_append] at hc
  rcases hc with hc | hc
  · split at hc
    · cases hc
    · rcases List.mem_cons.mp hc with hpoint | hc
      · cases hpoint
      · cases hfrac _ hc
  · cases exp with
    | none => cases hc
    | some e =>
      obtain ⟨hm, hsign, -, hdigits⟩ := hexp e rfl
      rcases List.mem_cons.mp hc with hmark | hc
      · rcases hm with hm | hm <;> omega
      · rcases List.mem_append.mp hc with hc | hc
        · rcases hsign with hs | hs | hs <;> rw [hs] at hc <;> simp at hc
        · cases hdigits _ hc

/-- The parts of a number's text. -/
structure NumberParts where
  neg : Bool
  whole : ℕ
  frac : Text
  exp : Option (ℕ × Text × Text)
  short : (natText whole).length ≤ maxStrDigits
  frac_digits : ∀ c ∈ frac, isDigit c = true
  exp_wf : ∀ e, exp = some e → IsExponent e

/-- The text of a number with those parts. -/
def NumberParts.text (l : NumberParts) : Text :=
  (if l.neg then [45] else []) ++ (natText l.whole ++ tailText l.frac l.exp)

/-- A number has no quote. -/
theorem NumberParts.no_quote (l : NumberParts) : ∀ c ∈ l.text, c ≠ 34 := by
  intro c hc
  rcases List.mem_append.mp hc with hc | hc
  · split at hc
    · obtain rfl := List.mem_singleton.mp hc
      decide
    · cases hc
  rcases List.mem_append.mp hc with hc | hc
  · rintro rfl
    cases natText_digits _ _ hc
  · exact tailText_no_quote l.frac_digits l.exp_wf c hc

/-- The parts of a number begin one. -/
theorem NumberParts.isNumberText (l : NumberParts) : IsNumberText l.text :=
  isNumberText_natText l.neg l.whole _

/-- A part of a number, where a value is expected. -/
theorem NumberParts.scanOnce_cut (l : NumberParts) (h : p ++ q = l.text) (hp : p ≠ []) :
    CutScan p (scanOnce d (n + 1) p) := by
  have hplace : Place.outside.after p = .outside :=
    after_outside fun c hc => l.no_quote c (by rw [← h]; exact List.mem_append_left q hc)
  have hscan : scanOnce d (n + 1) p = scanNumber d p := by
    obtain ⟨c, u, hc, htext | htext⟩ := l.isNumberText
    · obtain ⟨e, p, rfl⟩ := List.exists_cons_of_ne_nil hp
      rw [htext] at h
      obtain ⟨rfl, -⟩ := List.cons.inj h
      simpa using @scanOnce_number d [] (e :: p) n ⟨e, p, hc, .inl rfl⟩
    · match p, hp with
      | [e], _ =>
        rw [htext] at h
        obtain ⟨rfl, -⟩ := List.cons.inj h
        rfl
      | e :: f :: p, _ =>
        rw [htext] at h
        obtain ⟨rfl, hrest⟩ := List.cons.inj h
        obtain ⟨rfl, -⟩ := List.cons.inj hrest
        simpa using @scanOnce_number d [] (45 :: f :: p) n ⟨f, p, hc, .inr rfl⟩
  have hhead : p.head? ≠ some 123 := by
    intro hbrace
    obtain ⟨p, rfl⟩ := List.head?_eq_some_iff.mp hbrace
    obtain ⟨c, u, hc, htext | htext⟩ := l.isNumberText
    · obtain ⟨rfl, -⟩ := List.cons.inj (h.trans htext)
      cases hc
    · obtain ⟨habsurd, -⟩ := List.cons.inj (h.trans htext)
      cases habsurd
  rw [hscan]
  rcases @scanNumber_cut p q d l.frac l.exp l.neg l.whole l.short l.frac_digits l.exp_wf h hp with
    hread | ⟨rfl, herror⟩
  · exact .inr ⟨hhead, hplace, hread⟩
  · left
    rw [herror]
    exact ⟨_, rfl, rfl⟩

/-- An integer that is written has the parts of a number. -/
theorem numberParts_int {i : ℤ} (h : intText i = some w) : ∃ l : NumberParts, l.text = w := by
  obtain ⟨hlen, rfl⟩ := intText_eq h
  refine ⟨⟨decide (i < 0), i.natAbs, [], none, hlen, nofun, nofun⟩, ?_⟩
  simp [NumberParts.text, tailText, exponentText]

/-- A float that is written has the parts of a number. -/
theorem numberParts_literal {l : FloatLiteral} (h : (natText l.whole).length ≤ maxStrDigits) :
    ∃ parts : NumberParts, parts.text = literalText l := by
  have hexp : ∀ e, l.exp = some e → IsExponent e := by
    rintro ⟨m, s, t⟩ he
    exact l.exp_wf m s t he
  refine ⟨⟨l.neg, l.whole, l.frac, l.exp, h, l.frac_digits, hexp⟩, ?_⟩
  simp [NumberParts.text, tailText, literalText]

/-- A part of a literal, where a value is expected. -/
theorem scanOnce_literal_cut {l : Text} (hl : l ∈ [txt "true", txt "false", txt "null"])
    (h : p ++ q = l) (hp : p ≠ []) (hq : q ≠ []) : CutScan p (scanOnce d (n + 1) p) := by
  have hconstant : ∀ l ∈ [txt "true", txt "false", txt "null"], ∀ i < l.length, 0 < i →
      scanConstant (l.take i) = none := by decide
  have hstart : ∀ l ∈ [txt "true", txt "false", txt "null"], ∀ c ∈ l,
      c ≠ 34 ∧ c ≠ 123 ∧ c ≠ 91 ∧ c ≠ 45 ∧ c ≠ 48 ∧ isDigit c = false := by decide
  have htake : l.take p.length = p := by simp [← h]
  have hlt : p.length < l.length := by
    have hpos := List.length_pos_of_ne_nil hq
    simp only [← h, List.length_append]
    omega
  have hnone := hconstant l hl p.length hlt (List.length_pos_of_ne_nil hp)
  rw [htake] at hnone
  have hplace : Place.outside.after p = .outside :=
    after_outside fun c hc => (hstart l hl c (by rw [← h]; exact List.mem_append_left q hc)).1
  obtain ⟨c, p, rfl⟩ := List.exists_cons_of_ne_nil hp
  obtain ⟨hquote, hbrace, hbracket, hminus, hzero, hdigit⟩ :=
    hstart l hl c (by rw [← h]; exact List.mem_append_left q List.mem_cons_self)
  have hnumber : scanNumber d (c :: p) = failAt .expectingValue (c :: p) := by
    rw [scanNumber.eq_def]
    split
    · next heq => exact absurd (List.cons.inj heq).1 hminus
    · simp [scanDigits, hzero, hdigit]
  have htorn : (DecodeError.mk .expectingValue (c :: p)).torn = true := by
    have hprefix : (c :: p).isPrefixOf l = true := by
      rw [List.isPrefixOf_iff_prefix]
      exact ⟨q, h⟩
    simp only [DecodeError.torn, reduceCtorEq, or_self, if_false, true_and]
    rw [if_pos (.inr ⟨l, hl, hprefix⟩)]
  left
  rw [scanOnce_other hquote hbrace hbracket, hnone, Option.elim_none, hplace]
  exact ⟨_, hnumber, by rw [htorn]; rfl⟩

/-- Where nothing is left of the text, no scanner finds a value. -/
theorem scanOnce_nil (n : ℕ) : scanOnce d n [] = failAt .expectingValue [] := by
  cases n <;> rfl

theorem scanItems_nil (n : ℕ) : scanItems d n [] = failAt .expectingValue [] := by
  cases n with
  | zero => rfl
  | succ n =>
    rw [scanItems, scanOnce_nil]
    rfl

theorem scanMembers_nil (n : ℕ) : scanMembers d n [] = failAt .expectingPropertyName [] := by
  cases n <;> rfl

/-- No constant begins with white space. -/
theorem skipSpace_part_alone (h : IsPartial t) : skipSpace t = t := by
  rcases h with rfl | h
  · rfl
  · have hall : ∀ t ∈ partials, skipSpace t = t := by decide
    exact hall t h

/-- What may be left of a number continues neither an array nor an object. -/
theorem partial_head (h : IsPartial t) : ∀ c, t.head? = some c → c ≠ 93 ∧ c ≠ 44 ∧ c ≠ 125 := by
  have hall : ∀ t ∈ partials, ∀ c ∈ t, c ≠ 93 ∧ c ≠ 44 ∧ c ≠ 125 := by decide
  intro c hc
  rcases h with rfl | h
  · cases hc
  · exact hall t h c (List.mem_of_mem_head? hc)

mutual

/-- The text of a value ends outside of strings. -/
theorem after_write : ∀ (v : Json) {w : Text}, write rawText v = some w → Storable d v →
    Place.outside.after w = .outside
  | null, w, h, _ => by
    obtain rfl := Option.some.inj h
    rfl
  | bool b, w, h, _ => by
    obtain rfl := Option.some.inj h
    cases b <;> rfl
  | int i, w, h, _ => by
    obtain ⟨l, rfl⟩ := numberParts_int h
    exact after_outside l.no_quote
  | float (.literal l), w, h, hv => by
    obtain rfl := Option.some.inj h
    obtain ⟨parts, hparts⟩ := numberParts_literal hv.2
    rw [← hparts]
    exact after_outside parts.no_quote
  | float .nan, w, h, _ | float (.infinity _), w, h, _ | decimal _, w, h, _ => by cases h
  | str t, w, h, _ => by
    obtain rfl := Option.some.inj h
    exact after_stringText t
  | arr vs, w, h, hv => by
    obtain ⟨t, ht, rfl⟩ := Option.map_eq_some_iff.mp h
    have hitems := after_writeItems vs ht hv
    exact hitems
  | obj kvs, w, h, hv => by
    obtain ⟨t, ht, rfl⟩ := Option.map_eq_some_iff.mp h
    have hmembers := after_writeMembers kvs ht hv.2
    exact hmembers

/-- `after_write`, of the elements of an array. -/
theorem after_writeItems : ∀ (vs : List Json) {w : Text}, writeItems rawText vs = some w →
    StorableItems d vs → Place.outside.after w = .outside
  | [], w, h, _ => by
    obtain rfl := Option.some.inj h
    rfl
  | v :: vs, w, h, hv => by
    obtain ⟨t, u, ht, hu, rfl⟩ := writeItems_cons h
    have hitems := after_writeItems vs hu hv.2
    rw [Place.after_append, after_write v ht hv.1]
    split
    · exact hitems
    · exact hitems

/-- `after_write`, of the members of an object. -/
theorem after_writeMembers : ∀ (kvs : List (Text × Json)) {w : Text},
    writeMembers rawText kvs = some w → StorableMembers d kvs → Place.outside.after w = .outside
  | [], w, h, _ => by
    obtain rfl := Option.some.inj h
    rfl
  | (k, v) :: kvs, w, h, hv => by
    obtain ⟨t, u, ht, hu, rfl⟩ := writeMembers_cons h
    have hvalue := after_write v ht hv.2.1
    have hcolon : Place.outside.after (58 :: t) = .outside := hvalue
    have hmembers := after_writeMembers kvs hu hv.2.2
    rw [Place.after_append, Place.after_append]
    simp only [rawText, after_stringText, hcolon]
    split
    · exact hmembers
    · exact hmembers

end

/-- Nothing is skipped before a part of what starts with no space. -/
theorem skipSpace_part {c : ℕ} {u : Text} (h : p ++ q = c :: u) (hc : isJsonSpace c = false) :
    skipSpace p = p := by
  cases p with
  | nil => rfl
  | cons e p =>
    obtain ⟨rfl, -⟩ := List.cons.inj h
    exact skipSpace_of_not_space hc

/-- A cut of a text in two: in the first, or in the second. -/
theorem cut_append {a b : Text} (h : p ++ q = a ++ b) :
    (∃ r, r ≠ [] ∧ p ++ r = a) ∨ ∃ p', p = a ++ p' ∧ p' ++ q = b := by
  rcases List.append_eq_append_iff.mp h with ⟨r, hr, hq⟩ | ⟨p', rfl, hp'⟩
  · by_cases hnil : r = []
    · subst hnil
      exact .inr ⟨[], by simpa using hr.symm, by simpa using hq⟩
    · exact .inl ⟨r, hnil, hr.symm⟩
  · exact .inr ⟨p', rfl, hp'.symm⟩

/-- A cut after an element: right after it, or after the comma. -/
theorem cut_tail {b : Bool} {close : ℕ} {u : Text} (hb : b = true → u = [close]) (hq : q ≠ [])
    (h : p ++ q = if b then u else 44 :: u) :
    p = [] ∨ b = false ∧ ∃ p', p = 44 :: p' ∧ p' ++ q = u := by
  cases p with
  | nil => exact .inl rfl
  | cons c p =>
    right
    cases b with
    | true =>
      rw [if_pos rfl, hb rfl] at h
      obtain ⟨-, hnil⟩ := List.cons.inj h
      exact absurd (List.append_eq_nil_iff.mp hnil).2 hq
    | false =>
      obtain ⟨rfl, htail⟩ := List.cons.inj h
      exact ⟨rfl, p, rfl, htail⟩

/-- After a whole value, the scanner goes on with the rest. -/
theorem scanOnce_whole (hd : d.KeepsDicts) {v : Json} {rest : Text} (hw : write rawText v = some t)
    (hv : Storable d v) (hrest : rest = [] ∨ rest.head? = some 44) (hn : 2 * t.length ≤ n) :
    ∃ x, scanOnce d n (t ++ rest) = .ok (x, rest) := by
  refine ⟨_, scanOnce_write v hw (Storable.loadable hd v hv) ?_ hn⟩
  intro c hc
  rcases hrest with rfl | hhead
  · cases hc
  · obtain rfl := Option.some.inj (hhead.symm.trans hc)
    decide

mutual

/-- **Values.** A part of a written value. -/
theorem scanOnce_cut (hd : d.KeepsDicts) : ∀ (v : Json) {w p q : Text} {n : ℕ},
    write rawText v = some w → Storable d v → p ++ q = w → q ≠ [] → 2 * p.length ≤ n →
    CutScan p (scanOnce d n p)
  | v, w, [], q, n, _, _, _, _, _ => by
    rw [scanOnce_nil]
    exact .inl (cutError_end nofun)
  | v, w, c :: p, q, 0, _, _, _, _, hn => by simp at hn
  | null, w, c :: p, q, n + 1, hw, _, h, hq, _ => by
    obtain rfl := Option.some.inj hw
    exact scanOnce_literal_cut (by simp) h nofun hq
  | bool b, w, c :: p, q, n + 1, hw, _, h, hq, _ => by
    obtain rfl := Option.some.inj hw
    cases b
    · exact scanOnce_literal_cut (l := txt "false") (by simp) h nofun hq
    · exact scanOnce_literal_cut (l := txt "true") (by simp) h nofun hq
  -- a number may be cut to a shorter number, which then is read
  | int i, w, c :: p, q, n + 1, hw, _, h, _, _ => by
    obtain ⟨l, rfl⟩ := numberParts_int hw
    exact l.scanOnce_cut h nofun
  | float (.literal l), w, c :: p, q, n + 1, hw, hv, h, _, _ => by
    obtain rfl := Option.some.inj hw
    obtain ⟨parts, hparts⟩ := numberParts_literal hv.2
    exact parts.scanOnce_cut (h.trans hparts.symm) nofun
  | float .nan, w, c :: p, q, n + 1, hw, _, _, _, _
  | float (.infinity _), w, c :: p, q, n + 1, hw, _, _, _, _
  | decimal _, w, c :: p, q, n + 1, hw, _, _, _, _ => by cases hw
  | str t, w, c :: p, q, n + 1, hw, _, h, hq, _ => by
    obtain rfl := Option.some.inj hw
    obtain ⟨rfl, htail⟩ := List.cons.inj h
    have hscan : scanOnce d (n + 1) (34 :: p) =
        (scanString (34 :: p) p).map fun r => (str r.1, r.2) := rfl
    rw [hscan]
    exact .inl ((scanString_cut htail hq).map _)
  | arr vs, w, c :: p, q, n + 1, hw, hv, h, hq, hn => by
    obtain ⟨t, ht, rfl⟩ := Option.map_eq_some_iff.mp hw
    obtain ⟨rfl, htail⟩ := List.cons.inj h
    have htail : p ++ q = t := htail
    -- what is left of the elements fails; an array of none is cut right after its bracket
    have hitems : CutError (Place.outside.after p) (scanItems d n p) ∧ skipSpace p = p ∧
        p.head? ≠ some 93 := by
      cases vs with
      | nil =>
        obtain rfl := Option.some.inj ht
        obtain ⟨r, hr⟩ | rfl : (∃ r, p = 93 :: r) ∨ p = [] := by
          cases p with
          | nil => exact .inr rfl
          | cons e p =>
            obtain ⟨rfl, -⟩ := List.cons.inj htail
            exact .inl ⟨p, rfl⟩
        · subst hr
          obtain ⟨-, hnil⟩ := List.cons.inj htail
          exact absurd (List.append_eq_nil_iff.mp hnil).2 hq
        · rw [scanItems_nil]
          exact ⟨cutError_end nofun, rfl, nofun⟩
      | cons v vs =>
        obtain ⟨e, u, he, hstart⟩ := writeItems_start ht
        refine ⟨@scanItems_cut hd (v :: vs) t p q n (by simp) ht hv htail hq
          (by simp only [List.length_cons] at hn; omega), ?_, ?_⟩
        · exact skipSpace_part (htail.trans he) hstart.not_space
        · rintro hhead
          obtain ⟨p, rfl⟩ := List.head?_eq_some_iff.mp hhead
          obtain ⟨rfl, -⟩ := List.cons.inj (htail.trans he)
          simp [IsStart, isDigit] at hstart
    obtain ⟨hcut, hskip, hclose⟩ := hitems
    left
    rw [scanOnce, if_neg (by decide), if_neg (by decide), if_pos rfl, hskip]
    split
    · exact absurd rfl hclose
    · exact hcut.map _
  | obj kvs, w, c :: p, q, n + 1, hw, hv, h, hq, hn => by
    obtain ⟨t, ht, rfl⟩ := Option.map_eq_some_iff.mp hw
    obtain ⟨rfl, htail⟩ := List.cons.inj h
    have htail : p ++ q = t := htail
    -- the same of the members
    have hmembers : CutError (Place.outside.after p) (scanMembers d n p) ∧ skipSpace p = p ∧
        p.head? ≠ some 125 := by
      cases kvs with
      | nil =>
        obtain rfl := Option.some.inj ht
        obtain ⟨r, hr⟩ | rfl : (∃ r, p = 125 :: r) ∨ p = [] := by
          cases p with
          | nil => exact .inr rfl
          | cons e p =>
            obtain ⟨rfl, -⟩ := List.cons.inj htail
            exact .inl ⟨p, rfl⟩
        · subst hr
          obtain ⟨-, hnil⟩ := List.cons.inj htail
          exact absurd (List.append_eq_nil_iff.mp hnil).2 hq
        · rw [scanMembers_nil]
          exact ⟨cutError_end nofun, rfl, nofun⟩
      | cons m kvs =>
        obtain ⟨u, he⟩ := writeMembers_start ht
        refine ⟨@scanMembers_cut hd (m :: kvs) t p q n (by simp) ht hv.2 htail hq
          (by simp only [List.length_cons] at hn; omega), ?_, ?_⟩
        · exact skipSpace_part (htail.trans he) rfl
        · rintro hhead
          obtain ⟨p, rfl⟩ := List.head?_eq_some_iff.mp hhead
          obtain ⟨habsurd, -⟩ := List.cons.inj (htail.trans he)
          cases habsurd
    obtain ⟨⟨e, herror, htorn⟩, hskip, hclose⟩ := hmembers
    left
    rw [scanOnce, if_neg (by decide), if_pos rfl, hskip]
    split
    · exact absurd rfl hclose
    · rw [herror]
      exact ⟨e, rfl, htorn⟩

/-- A part of the elements of an array. -/
theorem scanItems_cut (hd : d.KeepsDicts) : ∀ (vs : List Json) {w p q : Text} {n : ℕ}, vs ≠ [] →
    writeItems rawText vs = some w → StorableItems d vs → p ++ q = w → q ≠ [] →
    2 * p.length + 1 ≤ n → CutError (Place.outside.after p) (scanItems d n p)
  | [], _, _, _, _, hne, _, _, _, _, _ => absurd rfl hne
  | v :: vs, w, p, q, 0, _, _, _, _, _, hn => by omega
  | v :: vs, w, p, q, n + 1, _, hw, hv, h, hq, hn => by
    obtain ⟨t, u, ht, hu, rfl⟩ := writeItems_cons hw
    rw [scanItems]
    rcases cut_append h with ⟨r, hr, hpart⟩ | ⟨p', rfl, hp'⟩
    · -- the cut is in the first element
      rcases scanOnce_cut hd v ht hv.1 hpart hr (by omega : 2 * p.length ≤ n) with
        ⟨e, herror, htorn⟩ | ⟨-, hplace, x, rest, hok, hrest⟩
      · rw [herror]
        exact ⟨e, rfl, htorn⟩
      · rw [hok, hplace]
        simp only [skipSpace_part_alone hrest]
        split
        · exact absurd rfl (partial_head hrest 93 rfl).1
        · exact absurd rfl (partial_head hrest 44 rfl).2.1
        · exact ⟨_, rfl, by rw [torn_of_cut_literal hrest]; rfl⟩
    · simp only [List.length_append] at hn
      have hvalue := after_write v ht hv.1
      have hlast : vs.isEmpty = true → u = [93] := by
        intro hempty
        rw [List.isEmpty_iff.mp hempty] at hu
        exact (Option.some.inj hu).symm
      rcases cut_tail hlast hq hp' with rfl | ⟨hmore, p', rfl, htail⟩
      · obtain ⟨x, hx⟩ := @scanOnce_whole d t n hd v [] ht hv.1 (.inl rfl) (by omega)
        rw [hx, List.append_nil, hvalue]
        exact cutError_end nofun
      · obtain ⟨x, hx⟩ := @scanOnce_whole d t n hd v (44 :: p') ht hv.1 (.inr rfl) (by omega)
        have hcomma : skipSpace (44 :: p') = 44 :: p' := skipSpace_of_not_space rfl
        obtain ⟨v', vs', rfl⟩ : ∃ v' vs', vs = v' :: vs' :=
          List.exists_cons_of_ne_nil fun hnil => by simp [hnil] at hmore
        obtain ⟨c, y, hy, hstart⟩ := writeItems_start hu
        have hskip := skipSpace_part (htail.trans hy) hstart.not_space
        have hitems := @scanItems_cut hd (v' :: vs') u p' q n (by simp) hu hv.2 htail hq
          (by simp only [List.length_cons] at hn; omega)
        have hplace : Place.outside.after (t ++ 44 :: p') = Place.outside.after p' := by
          rw [Place.after_append, hvalue]
          rfl
        rw [hx, hplace]
        simp only [hcomma, hskip]
        exact hitems.map _

/-- A part of the members of an object. -/
theorem scanMembers_cut (hd : d.KeepsDicts) : ∀ (kvs : List (Text × Json)) {w p q : Text} {n : ℕ},
    kvs ≠ [] → writeMembers rawText kvs = some w → StorableMembers d kvs → p ++ q = w → q ≠ [] →
    2 * p.length + 1 ≤ n → CutError (Place.outside.after p) (scanMembers d n p)
  | [], _, _, _, _, hne, _, _, _, _, _ => absurd rfl hne
  | (k, v) :: kvs, w, p, q, 0, _, _, _, _, _, hn => by omega
  | (k, v) :: kvs, w, p, q, n + 1, _, hw, hv, h, hq, hn => by
    obtain ⟨t, u, ht, hu, htext⟩ := writeMembers_cons hw
    have htext : w = stringText false k ++ 58 :: t ++ (if kvs.isEmpty then u else 44 :: u) := htext
    subst htext
    obtain ⟨hk, hv, hkvs⟩ : IsUnicode k ∧ Storable d v ∧ StorableMembers d kvs := hv
    have hkey : ∀ start more, scanString start (stringTail false k ++ more) = .ok (k, more) :=
      fun _ _ => scanString_stringTail hk
    have hcolon : ∀ more, skipSpace (58 :: more) = 58 :: more := fun _ => skipSpace_of_not_space rfl
    have hafter : ∀ more, Place.outside.after (stringText false k ++ 58 :: more) =
        Place.outside.after more := by
      intro more
      rw [Place.after_append, after_stringText]
      rfl
    rcases cut_append h with ⟨r, hr, hpart⟩ | ⟨p', rfl, hp'⟩
    · rcases cut_append hpart with ⟨r', hr', hname⟩ | ⟨p', rfl, hp'⟩
      · -- the cut is in the key
        cases p with
        | nil =>
          rw [scanMembers_nil]
          exact cutError_end nofun
        | cons c p =>
          obtain ⟨rfl, htail⟩ := List.cons.inj hname
          obtain ⟨e, herror, htorn⟩ := @scanString_cut p r' k (34 :: p) htail hr'
          rw [scanMembers]
          simp only [herror]
          exact ⟨e, rfl, htorn⟩
      · cases p' with
        | nil =>
          rw [List.append_nil, after_stringText, stringText]
          have hend := hkey (34 :: stringTail false k) []
          rw [List.append_nil] at hend
          simp only [scanMembers, hend]
          exact cutError_end nofun
        | cons c p' =>
          -- the cut is in the value
          obtain ⟨rfl, htail⟩ := List.cons.inj hp'
          obtain ⟨c, y, hy, hstart⟩ := write_start ht
          have hskip := skipSpace_part (htail.trans hy) hstart.not_space
          simp only [List.length_append, List.length_cons] at hn
          rw [hafter, stringText, List.cons_append, scanMembers]
          simp only [hkey, hcolon, hskip]
          rcases scanOnce_cut hd v ht hv htail hr (by omega : 2 * p'.length ≤ n) with
            ⟨e, herror, htorn⟩ | ⟨-, hplace, x, rest, hok, hrest⟩
          · rw [herror]
            exact ⟨e, rfl, htorn⟩
          · rw [hok, hplace]
            simp only [skipSpace_part_alone hrest]
            split
            · exact absurd rfl (partial_head hrest 125 rfl).2.2
            · exact absurd rfl (partial_head hrest 44 rfl).2.1
            · exact ⟨_, rfl, by rw [torn_of_cut_literal hrest]; rfl⟩
    · simp only [List.length_append, List.length_cons] at hn
      have hvalue := after_write v ht hv
      have hlast : kvs.isEmpty = true → u = [125] := by
        intro hempty
        rw [List.isEmpty_iff.mp hempty] at hu
        exact (Option.some.inj hu).symm
      have hstart : ∀ more, skipSpace (t ++ more) = t ++ more := fun _ => skipSpace_write ht
      rcases cut_tail hlast hq hp' with rfl | ⟨hmore, p', rfl, htail⟩
      · obtain ⟨x, hx⟩ := @scanOnce_whole d t n hd v [] ht hv (.inl rfl) (by omega)
        rw [List.append_nil, hafter, hvalue]
        rw [List.append_nil] at hx
        have hskip := hstart []
        rw [List.append_nil] at hskip
        rw [stringText, List.cons_append, scanMembers]
        simp only [hkey, hcolon, hskip, hx]
        exact cutError_end nofun
      · obtain ⟨x, hx⟩ := @scanOnce_whole d t n hd v (44 :: p') ht hv (.inr rfl) (by omega)
        have hcomma : skipSpace (44 :: p') = 44 :: p' := skipSpace_of_not_space rfl
        obtain ⟨m, kvs', rfl⟩ : ∃ m kvs', kvs = m :: kvs' :=
          List.exists_cons_of_ne_nil fun hnil => by simp [hnil] at hmore
        obtain ⟨y, hy⟩ := writeMembers_start hu
        have hskip := skipSpace_part (htail.trans hy) rfl
        have hmembers := @scanMembers_cut hd (m :: kvs') u p' q n (by simp) hu hkvs htail hq
          (by simp only [List.length_cons] at hn; omega)
        have hplace : Place.outside.after (stringText false k ++ 58 :: t ++ 44 :: p') =
            Place.outside.after p' := by
          rw [Place.after_append, hafter, hvalue]
          rfl
        rw [hplace, stringText, List.append_assoc, List.cons_append, scanMembers]
        simp only [hkey, List.cons_append, hcolon, hstart, hx, hcomma, hskip]
        exact hmembers.map _

end

/-- **Cuts.** A part of a written dict does not load, and the error says that it was cut
unless it ends in an escape. -/
theorem loads_cut (hd : d.KeepsDicts) {kvs : List (Text × Json)}
    (hw : write rawText (obj kvs) = some w) (hv : Storable d (obj kvs)) (h : p ++ q = w)
    (hq : q ≠ []) : ∃ e, loads d p = .error (.decode e) ∧ e.torn = !endsInEscape p := by
  obtain ⟨t, ht, rfl⟩ := Option.map_eq_some_iff.mp hw
  have hskip := skipSpace_part h rfl
  have hbom : p.head? ≠ some 0xFEFF := by
    intro hhead
    obtain ⟨p, rfl⟩ := List.head?_eq_some_iff.mp hhead
    obtain ⟨habsurd, -⟩ := List.cons.inj h
    cases habsurd
  have hcut := @scanOnce_cut d hd (obj kvs) _ p q (2 * p.length) hw hv h hq le_rfl
  have herror : CutError (Place.outside.after p) (scanOnce d (2 * p.length) p) := by
    rcases hcut with herror | ⟨hhead, -, x, rest, hok, -⟩
    · exact herror
    · cases p with
      | nil => cases hok
      | cons c p =>
        obtain ⟨rfl, -⟩ := List.cons.inj h
        exact absurd rfl hhead
  obtain ⟨e, he, htorn⟩ := herror
  refine ⟨e, ?_, htorn⟩
  rw [loads, if_neg hbom, hskip, he]

end

end Json

end RunpodJobrunner
