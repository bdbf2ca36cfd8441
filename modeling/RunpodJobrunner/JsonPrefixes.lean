import Mathlib.Data.List.Infix
import RunpodJobrunner.JsonCuts
import RunpodJobrunner.JsonGrammar

/-!
# The prefixes of JSON texts

What the scanner makes of a part of a text that is not all of it (`torn_of_proper`): an error
at its end, a string that is open or ends in a part of an escape, or the beginning of a number.
-/

namespace RunpodJobrunner

namespace Json

variable {d : Decoder} {start p q s t u w : Text} {k : Part}

/-! ## Proper prefixes -/

/-- Some of the text is missing at its end. -/
def Proper (t p : Text) : Prop := ∃ r, r ≠ [] ∧ p = t ++ r

theorem not_proper_nil : ¬Proper t [] := by
  rintro ⟨r, hr, h⟩
  exact hr (List.append_eq_nil_iff.mp h.symm).2

/-- A proper beginning is empty, or has the first character. -/
theorem proper_cons {c : ℕ} (h : Proper t (c :: p)) : t = [] ∨ ∃ t', t = c :: t' ∧ Proper t' p := by
  obtain ⟨r, hr, h⟩ := h
  cases t with
  | nil => exact .inl rfl
  | cons e t =>
    obtain ⟨rfl, rfl⟩ := List.cons.inj h
    exact .inr ⟨t, rfl, r, hr, rfl⟩

/-- A proper beginning of two texts ends within the first or within the second. -/
theorem proper_append (h : Proper t (p ++ q)) : Proper t p ∨ ∃ t', t = p ++ t' ∧ Proper t' q := by
  induction p generalizing t with
  | nil => exact .inr ⟨t, rfl, h⟩
  | cons c p ih =>
    rcases proper_cons h with rfl | ⟨t', rfl, h'⟩
    · exact .inl ⟨c :: p, List.cons_ne_nil c p, rfl⟩
    · rcases ih h' with ⟨r, hr, rfl⟩ | ⟨v, rfl, hv⟩
      · exact .inl ⟨r, hr, rfl⟩
      · exact .inr ⟨v, rfl, hv⟩

/-- Of a blank text and one character, only a blank text is a proper prefix. -/
theorem blank_of_proper {c : ℕ} (hs : IsBlank s) (h : Proper t (s ++ [c])) : IsBlank t := by
  rcases proper_append h with ⟨r, -, rfl⟩ | ⟨t', rfl, h'⟩
  · exact fun e he => hs e (List.mem_append_left r he)
  · rcases proper_cons h' with rfl | ⟨v, -, hv⟩
    · rwa [List.append_nil]
    · exact absurd hv not_proper_nil

/-- A blank text, or one that goes on with a proper prefix of what follows. -/
theorem blank_or_proper (hs : IsBlank s) (h : Proper t (s ++ p)) :
    IsBlank t ∨ ∃ t', t = s ++ t' ∧ t' ≠ [] ∧ Proper t' p := by
  rcases proper_append h with ⟨r, -, rfl⟩ | ⟨t', rfl, h'⟩
  · exact .inl fun e he => hs e (List.mem_append_left r he)
  · by_cases hne : t' = []
    · subst hne
      exact .inl (by rwa [List.append_nil])
    · exact .inr ⟨t', rfl, hne, h'⟩

/-! ## The last character -/

/-- The text does not end with a character beyond ASCII. -/
def EndsNarrow (t : Text) : Prop := ∀ c, t.getLast? = some c → c < 128

theorem endsNarrow_nil : EndsNarrow [] := nofun

/-- Two texts end narrow where both do. -/
theorem endsNarrow_append (hp : EndsNarrow p) (hq : EndsNarrow q) : EndsNarrow (p ++ q) := by
  intro c hc
  rw [List.getLast?_append] at hc
  cases hlast : q.getLast? with
  | none =>
    rw [hlast] at hc
    exact hp c hc
  | some e =>
    rw [hlast] at hc
    exact hq c (hlast.trans hc)

/-- A text that is not empty decides how the whole ends. -/
theorem endsNarrow_last (hq : EndsNarrow q) (hne : q ≠ []) : EndsNarrow (p ++ q) := by
  intro c hc
  rw [List.getLast?_append_of_ne_nil p hne] at hc
  exact hq c hc

/-- ASCII ends narrow. -/
theorem endsNarrow_ascii (h : ∀ c ∈ t, c < 128) : EndsNarrow t :=
  fun c hc => h c (List.mem_of_getLast? hc)

theorem endsNarrow_cons {c : ℕ} (hc : c < 128) (ht : EndsNarrow t) : EndsNarrow (c :: t) :=
  @endsNarrow_append [c] t (endsNarrow_ascii fun _ he => List.mem_singleton.mp he ▸ hc) ht

theorem endsNarrow_blank (hs : IsBlank s) : EndsNarrow s := by
  refine endsNarrow_ascii fun c hc => ?_
  have hspace := hs c hc
  simp only [isJsonSpace, Bool.or_eq_true, beq_iff_eq] at hspace
  omega

/-- The tail of a string ends with its quote. -/
theorem endsNarrow_tail (h : IsTail t) : EndsNarrow t := by
  induction h with
  | close => exact endsNarrow_ascii (by decide)
  | @plain c t _ _ _ htail ih =>
    intro e he
    cases htail <;> exact ih e he
  | @escape e x t _ _ htail ih =>
    intro e he
    cases htail <;> exact ih e he
  | @unicode a b c e x t _ htail ih =>
    intro e he
    cases htail <;> exact ih e he

theorem ascii_of_digits (h : ∀ c ∈ t, isDigit c = true) : ∀ c ∈ t, c < 128 := by
  intro c hc
  have hdigit := h c hc
  simp only [isDigit, Bool.and_eq_true, decide_eq_true_eq] at hdigit
  omega

/-- A number is ASCII. -/
theorem ascii_of_number (h : IsNumber p) : ∀ c ∈ p, c < 128 := by
  obtain ⟨hsign, hwhole, hfrac, hpower, -⟩ := h
  intro c hc
  simp only [List.mem_append] at hc
  rcases hc with hc | hc | hc | hc
  · rcases hsign with rfl | rfl
    · cases hc
    · rw [List.mem_singleton.mp hc]
      decide
  · rcases hwhole with rfl | ⟨hdigits, -⟩
    · rw [List.mem_singleton.mp hc]
      decide
    · exact ascii_of_digits hdigits.2 c hc
  · cases hfrac with
    | none => cases hc
    | point hdigits =>
      rcases List.mem_cons.mp hc with rfl | hc
      · decide
      · exact ascii_of_digits hdigits.2 c hc
  · cases hpower with
    | none => cases hc
    | digits hm hsign hdigits =>
      rcases List.mem_cons.mp hc with rfl | hc
      · omega
      · rcases List.mem_append.mp hc with hc | hc
        · rcases hsign with rfl | rfl | rfl
          · cases hc
          · rw [List.mem_singleton.mp hc]
            decide
          · rw [List.mem_singleton.mp hc]
            decide
        · exact ascii_of_digits hdigits.2 c hc

/-- The name of a constant is ASCII. -/
theorem ascii_of_constant {v : Json} (h : (p, v) ∈ constants) : ∀ c ∈ p, c < 128 := by
  have hall : ∀ r ∈ constants, ∀ c ∈ r.1, c < 128 := by decide
  exact hall _ h

theorem closing_lt (b : Bracket) : b.closing < 128 ∧ b.opening < 128 := by
  cases b <;> decide

/-- A part ends with an ASCII character. -/
theorem endsNarrow_of_derives (h : Derives k p) : EndsNarrow p := by
  induction h with
  | string htail => exact endsNarrow_cons (by decide) (endsNarrow_tail htail)
  | constant hmem => exact endsNarrow_ascii (ascii_of_constant hmem)
  | number hnumber => exact endsNarrow_ascii (ascii_of_number hnumber)
  | @empty b s hs =>
    obtain ⟨hclosing, hopening⟩ := closing_lt b
    exact endsNarrow_cons hopening (endsNarrow_append (endsNarrow_blank hs)
      (endsNarrow_cons hclosing endsNarrow_nil))
  | @bracketed b s t hs _ ih =>
    exact endsNarrow_cons (closing_lt b).2 (endsNarrow_append (endsNarrow_blank hs) ih)
  | entry hk hs hs' _ ih =>
    exact endsNarrow_cons (by decide) (endsNarrow_append (endsNarrow_tail hk)
      (endsNarrow_append (endsNarrow_blank hs) (endsNarrow_cons (by decide)
        (endsNarrow_append (endsNarrow_blank hs') ih))))
  | @last b e s _ hs ih =>
    exact endsNarrow_append ih
      (endsNarrow_append (endsNarrow_blank hs) (endsNarrow_cons (closing_lt b).1 endsNarrow_nil))
  | next _ hs hs' _ ih ih' =>
    exact endsNarrow_append ih (endsNarrow_append (endsNarrow_blank hs)
      (endsNarrow_cons (by decide) (endsNarrow_append (endsNarrow_blank hs') ih')))

/-! ## Parts of strings -/

/-- A hexadecimal digit. -/
def IsHex (c : ℕ) : Prop := (hexValue c).isSome = true

instance : DecidablePred IsHex := fun _ => inferInstanceAs (Decidable (_ = _))

/-- What is read as four hexadecimal digits is four of them. -/
theorem isHex_of_hexValue4 {a b c e x : ℕ} (h : hexValue4 a b c e = some x) :
    ∀ y ∈ [a, b, c, e], IsHex y := by
  unfold hexValue4 at h
  split at h
  · next ha hb hc he =>
    intro y hy
    simp only [List.mem_cons, List.not_mem_nil, or_false] at hy
    rcases hy with rfl | rfl | rfl | rfl <;> simp [IsHex, *]
  · cases h

theorem ascii_of_isHex {c : ℕ} (h : IsHex c) : c < 128 := by
  unfold IsHex hexValue at h
  split at h
  · next hdigit =>
    simp only [isDigit, Bool.and_eq_true, decide_eq_true_eq] at hdigit
    omega
  split at h
  · omega
  split at h
  · omega
  · cases h

/-- A part of a string is open, or ends in a part of a `\uXXXX` escape. -/
theorem stringRest_cut (h : IsTail p) : ∀ t, Proper t p →
    stringRest start t = failAt .unterminatedString start ∨
      ∃ w hs, t = w ++ 92 :: 117 :: hs ∧ (∀ c ∈ hs, IsHex c) ∧
        stringRest start t = failAt .invalidUnicodeEscape (117 :: hs) := by
  induction h with
  | close =>
    intro t ht
    rcases proper_cons ht with rfl | ⟨v, -, hv⟩
    · exact .inl stringRest_nil
    · exact absurd hv not_proper_nil
  | @plain c p hquote hslash hlow _ ih =>
    intro t ht
    rcases proper_cons ht with rfl | ⟨v, rfl, hv⟩
    · exact .inl stringRest_nil
    · rw [stringRest_plain hquote hslash, if_neg (by omega)]
      rcases ih v hv with hopen | ⟨w, hs, rfl, hhex, hrest⟩
      · exact .inl hopen
      · exact .inr ⟨c :: w, hs, rfl, hhex, hrest⟩
  | @escape e x p he hx _ ih =>
    intro t ht
    rcases proper_cons ht with rfl | ⟨v, rfl, hv⟩
    · exact .inl stringRest_nil
    rcases proper_cons hv with rfl | ⟨v, rfl, hv'⟩
    · exact .inl stringRest_slash
    rw [stringRest_escape he, hx]
    rcases ih v hv' with hopen | ⟨w, hs, rfl, hhex, hrest⟩
    · exact .inl hopen
    · exact .inr ⟨92 :: e :: w, hs, rfl, hhex, hrest⟩
  | @unicode a b c e x p hx _ ih =>
    intro t ht
    have hdigits := isHex_of_hexValue4 hx
    have hshort : ∀ hs r, [a, b, c, e] = hs ++ r → hs.length ≤ 4 ∧ ∀ y ∈ hs, IsHex y := by
      intro hs r h
      have hlength := congrArg List.length h
      simp only [List.length_append, List.length_cons, List.length_nil] at hlength
      exact ⟨by omega, fun y hy => hdigits y (by rw [h]; exact List.mem_append_left r hy)⟩
    rcases proper_cons ht with rfl | ⟨v, rfl, hv⟩
    · exact .inl stringRest_nil
    rcases proper_cons hv with rfl | ⟨v, rfl, hv'⟩
    · exact .inl stringRest_slash
    rcases @proper_append [a, b, c, e] p v hv' with ⟨r, -, hr⟩ | ⟨w, rfl, hw⟩
    · -- the cut is among the digits
      obtain ⟨hlength, hhex⟩ := hshort v r hr
      exact .inr ⟨[], v, rfl, hhex, stringRest_short hlength⟩
    by_cases hnil : w = []
    · subst hnil
      obtain ⟨hlength, hhex⟩ := hshort [a, b, c, e] [] rfl
      exact .inr ⟨[], [a, b, c, e], rfl, hhex, stringRest_short hlength⟩
    · have hunicode := @stringRest_unicode start w a b c e hnil
      rw [hx] at hunicode
      simp only [List.cons_append, List.nil_append, hunicode]
      rcases ih w hw with hopen | ⟨w', hs, rfl, hhex, hrest⟩
      · exact .inl hopen
      · exact .inr ⟨92 :: 117 :: a :: b :: c :: e :: w', hs, rfl, hhex, hrest⟩

/-! ## Parts of numbers -/

/-- A beginning of digits is digits, unless it is empty. -/
theorem isDigits_of_proper (h : IsDigits p) (ht : Proper t p) (hne : t ≠ []) : IsDigits t := by
  obtain ⟨r, -, rfl⟩ := ht
  exact ⟨hne, fun c hc => h.2 c (List.mem_append_left r hc)⟩

/-- A part of the whole part of a number. -/
theorem isWhole_of_proper (h : IsWhole p) (ht : Proper t p) (hne : t ≠ []) : IsWhole t := by
  rcases h with rfl | ⟨hdigits, hzero⟩
  · rcases proper_cons ht with rfl | ⟨v, -, hv⟩
    · exact absurd rfl hne
    · exact absurd hv not_proper_nil
  · refine .inr ⟨isDigits_of_proper hdigits ht hne, ?_⟩
    obtain ⟨r, -, rfl⟩ := ht
    obtain ⟨c, w, rfl⟩ := List.exists_cons_of_ne_nil hne
    exact hzero

/-- What a reader makes of a part of what follows the whole part: it is too long, it is read,
or it leaves a part that one more digit completes. -/
def CutsTail (n : ℕ) (t : Text) : Prop :=
  tailRest n t = .error .digits ∨ tailRest n t = .ok [] ∨
    ∃ u ∈ partials, tailRest n t = .ok u ∧ tailRest n (t ++ [48]) = .ok []

theorem stops_nil : Stops [] := nofun

/-- A fraction and an exponent, both whole. -/
theorem cutsTail_whole {n : ℕ} {frac power : Text} (hfrac : IsFraction frac)
    (hpower : IsPower power) : CutsTail n (frac ++ power) := by
  have htail := @tailRest_of [] n frac power hfrac hpower stops_nil
  rw [List.append_nil] at htail
  split at htail
  · exact .inl htail
  · exact .inr (.inl htail)

/-- A part that is no number's: what is left is there, and one more digit makes it one. -/
theorem cutsTail_beginning {n : ℕ} {frac power u : Text} (hu : u ∈ partials)
    (hread : (scanExponent (scanFraction t).2).2 = u) (hfrac : IsFraction frac)
    (hpower : IsPower power) (hne : frac ≠ [] ∨ power ≠ []) (heq : t ++ [48] = frac ++ power) :
    CutsTail n t := by
  have htail := @tailRest_of [] n frac power hfrac hpower stops_nil
  rw [List.append_nil, ← heq, if_neg (by tauto)] at htail
  by_cases hlong :
    (scanFraction t).1 = [] ∧ (scanExponent (scanFraction t).2).1 = none ∧ maxStrDigits < n
  · exact .inl (if_pos hlong)
  · refine .inr (.inr ⟨u, hu, ?_, htail⟩)
    rw [← hread]
    exact if_neg hlong

/-- A number may be cut within its fraction. -/
theorem cutsTail_fraction {n : ℕ} {frac : Text} (hfrac : IsFraction frac) (ht : Proper t frac) :
    CutsTail n t := by
  cases hfrac with
  | none => exact absurd ht not_proper_nil
  | point hdigits =>
    rcases proper_cons ht with rfl | ⟨v, rfl, hv⟩
    · exact cutsTail_whole .none .none
    by_cases hnil : v = []
    · subst hnil
      exact @cutsTail_beginning [46] n [46, 48] [] [46] (by decide) rfl
        (.point ⟨by decide, by decide⟩) .none
        (.inl (by decide)) rfl
    · have hwhole := @cutsTail_whole n _ [] (.point (isDigits_of_proper hdigits hv hnil)) .none
      rwa [List.append_nil] at hwhole

/-- A number may be cut within its exponent. -/
theorem cutsTail_power {n : ℕ} {frac power : Text} (hfrac : IsFraction frac) (hpower : IsPower power)
    (ht : Proper t power) : CutsTail n (frac ++ t) := by
  cases hpower with
  | none => exact absurd ht not_proper_nil
  | @digits m sign ds hm hsign hdigits =>
    rcases proper_cons ht with rfl | ⟨v, rfl, hv⟩
    · exact cutsTail_whole hfrac .none
    have hpoint : ∀ v : Text, (scanFraction (frac ++ m :: v)).2 = m :: v := by
      intro v
      refine (fraction_follows hfrac ?_ ?_).1
      · rintro c ⟨⟩
        rcases hm with rfl | rfl <;> rfl
      · rintro - ⟨⟩
        rcases hm with h | h <;> cases h
    have hzero : IsDigits [48] := ⟨by decide, by decide⟩
    rcases proper_append hv with ⟨r, hr, hsigned⟩ | ⟨w, rfl, hw⟩
    · -- the marker alone, with a sign to come
      obtain rfl : v = [] := by
        have hlength := congrArg List.length hsigned
        have hpos := List.length_pos_of_ne_nil hr
        rcases hsign with rfl | rfl | rfl <;> simp only
          [List.length_append, List.length_cons, List.length_nil] at hlength
        · exact List.eq_nil_of_length_eq_zero (by omega)
        · exact List.eq_nil_of_length_eq_zero (by omega)
        · exact List.eq_nil_of_length_eq_zero (by omega)
      refine @cutsTail_beginning (frac ++ [m]) n frac [m, 48] [m] ?_ ?_ hfrac
        (.digits hm (.inl rfl) hzero)
        (.inr (List.cons_ne_nil _ _)) ?_
      · rcases hm with rfl | rfl <;> decide
      · rw [hpoint]
        rfl
      · rw [List.append_assoc]
        rfl
    by_cases hnil : w = []
    · subst hnil
      rw [List.append_nil]
      refine @cutsTail_beginning (frac ++ m :: sign) n frac (m :: (sign ++ [48]))
        (m :: sign) ?_ ?_ hfrac
        (.digits hm hsign hzero) (.inr (List.cons_ne_nil _ _)) ?_
      · rcases hm with rfl | rfl <;> rcases hsign with rfl | rfl | rfl <;> decide
      · rw [hpoint]
        rcases hm with rfl | rfl <;> rcases hsign with rfl | rfl | rfl <;> rfl
      · rw [List.append_assoc]
        rfl
    · exact cutsTail_whole hfrac (.digits hm hsign (isDigits_of_proper hdigits hw hnil))

/-- A part of what follows the whole part of a number. -/
theorem cutsTail_of_proper {n : ℕ} {frac power : Text} (hfrac : IsFraction frac)
    (hpower : IsPower power) (ht : Proper t (frac ++ power)) : CutsTail n t := by
  rcases proper_append ht with ht | ⟨v, rfl, hv⟩
  · exact cutsTail_fraction hfrac ht
  · exact cutsTail_power hfrac hpower hv

/-! ## Parts of parts -/

/-- A decode error of a text that is the beginning of a longer one. -/
structure Severs (d : Decoder) (k : Part) (t : Text) (e : DecodeError) : Prop where
  escape : e.message = .invalidUnicodeEscape → ∃ hs, e.rest = 117 :: hs ∧ ∀ c ∈ hs, IsHex c
  number : e.message = .expectingComma → e.rest ≠ [] →
    partRest d k (t ++ [48]) = failAt .expectingComma []
  narrow : e.message ≠ .unterminatedString → EndsNarrow t

/-- What a reader makes of a part of a part: an error, or the beginning of a number. -/
inductive Torn (d : Decoder) (k : Part) (t : Text) : Prop where
  | error {e : DecodeError} : partRest d k t = .error (.decode e) → Severs d k t e → Torn d k t
  | digits : partRest d k t = .error .digits → EndsNarrow t → Torn d k t
  | number {u : Text} : partRest d k t = .ok u →
      (u = [] ∨ u ∈ partials ∧ partRest d k (t ++ [48]) = .ok []) → EndsNarrow t → Torn d k t

/-- The text ends where something else has to stand. -/
theorem Torn.ends {m : DecodeMessage} (h : partRest d k t = failAt m [])
    (hm : m ≠ .invalidUnicodeEscape) (ht : EndsNarrow t) : Torn d k t :=
  .error h ⟨fun he => absurd he hm, fun _ hne => absurd rfl hne, fun _ => ht⟩

/-- A reader of one part in front of another. -/
theorem Torn.map {k' : Part} (hpart : ∀ r, partRest d k' (w ++ (t ++ r)) = partRest d k (t ++ r))
    (hw : EndsNarrow w) (h : Torn d k t) : Torn d k' (w ++ t) := by
  have hself := hpart []
  have hzero := hpart [48]
  rw [List.append_nil] at hself
  rw [← List.append_assoc] at hzero
  cases h with
  | error herror hsevers =>
    refine .error (hself.trans herror) ⟨hsevers.escape, fun hm hne => ?_, fun hm => ?_⟩
    · rw [hzero]
      exact hsevers.number hm hne
    · exact endsNarrow_append hw (hsevers.narrow hm)
  | digits herror ht => exact .digits (hself.trans herror) (endsNarrow_append hw ht)
  | number hread hu ht =>
    refine .number (hself.trans hread) ?_ (endsNarrow_append hw ht)
    rwa [hzero]

/-- A part of an element is a part of what stands between the brackets. -/
theorem Torn.inside {b : Bracket} (h : Torn d b.element t) : Torn d (.inside b) t := by
  cases h with
  | error herror hsevers =>
    refine .error (partRest_error herror) ⟨hsevers.escape, fun hm hne => ?_, hsevers.narrow⟩
    exact partRest_error (hsevers.number hm hne)
  | digits herror ht => exact .digits (partRest_error herror) ht
  | @number u hread hu ht =>
    have hcomma :
        ∀ v, partRest d b.element v = .ok [] → partRest d (.inside b) v = failAt .expectingComma [] :=
      fun v hv => partRest_comma hv nofun nofun
    rcases hu with rfl | ⟨hu, hzero⟩
    · exact .ends (hcomma t hread) nofun ht
    · have hpartial : IsPartial u := .inr hu
      have hskip := skipSpace_part_alone hpartial
      have herror : partRest d (.inside b) t = failAt .expectingComma u := by
        have hcomma := @partRest_comma d t u b hread
        rw [hskip] at hcomma
        refine hcomma (fun w hw => ?_) (fun w hw => ?_)
        · have hhead := partial_head hpartial b.closing (by rw [hw]; rfl)
          cases b
          · exact hhead.1 rfl
          · exact hhead.2.2 rfl
        · exact (partial_head hpartial 44 (by rw [hw]; rfl)).2.1 rfl
      exact .error herror ⟨nofun, fun _ _ => hcomma _ hzero, fun _ => ht⟩

theorem stops_blank (hs : IsBlank s) : Stops s := by
  intro c hc
  have hspace := hs c (List.mem_of_head? hc)
  simp only [isJsonSpace, Bool.or_eq_true, beq_iff_eq] at hspace
  rcases hspace with ((rfl | rfl) | rfl) | rfl <;> exact ⟨rfl, by decide⟩

/-- Nothing stands after an opening bracket or a comma. -/
theorem inside_nil (b : Bracket) :
    ∃ m, partRest d (.inside b) [] = failAt m [] ∧ m ≠ .invalidUnicodeEscape := by
  cases b with
  | square => exact ⟨.expectingValue, partRest_error valueRest_nil, nofun⟩
  | curly => exact ⟨.expectingPropertyName, membersRest_other nofun, nofun⟩

/-- A part of a string. -/
theorem torn_string (h : IsTail p) (ht : Proper t p)
    (hk : partRest d k (34 :: t) = stringRest (34 :: t) t) : Torn d k (34 :: t) := by
  rcases @stringRest_cut (34 :: t) p h t ht with hopen | ⟨w, hs, rfl, hhex, hrest⟩
  · exact .error (hk.trans hopen) ⟨nofun, nofun, fun hne => absurd rfl hne⟩
  · refine .error (hk.trans hrest) ⟨fun _ => ⟨hs, rfl, hhex⟩, nofun, fun _ => ?_⟩
    have hnarrow : EndsNarrow (92 :: 117 :: hs) :=
      endsNarrow_cons (by decide) (endsNarrow_cons (by decide)
        (endsNarrow_ascii fun c hc => ascii_of_isHex (hhex c hc)))
    exact @endsNarrow_last (34 :: w) _ hnarrow (List.cons_ne_nil _ _)

/-! ### Constants and numbers -/

/-- The text without a sign. -/
def unsigned : Text → Text
  | 45 :: t => t
  | t => t

/-- No digits, no number. -/
theorem scanDigits_error {neg : Bool} (h : ∀ c, t.head? = some c → isDigit c = false) :
    scanDigits d start neg t = failAt .expectingValue start := by
  cases t with
  | nil => rfl
  | cons c t =>
    have hdigit := h c rfl
    have hzero : c ≠ 48 := by
      rintro rfl
      cases hdigit
    rw [scanDigits, if_neg hzero, if_neg (by simp [hdigit])]

/-- No digits after the sign, no number. -/
theorem numberRest_error (h : ∀ c, (unsigned t).head? = some c → isDigit c = false) :
    numberRest d t = failAt .expectingValue t := by
  unfold numberRest scanNumber
  split
  · next u =>
    have hu : ∀ c, u.head? = some c → isDigit c = false := h
    rw [scanDigits_error hu]
    rfl
  · next hsign =>
    have hunsigned : unsigned t = t := by
      unfold unsigned
      split
      · exact absurd rfl (hsign _)
      · rfl
    rw [hunsigned] at h
    rw [scanDigits_error h]
    rfl

/-- A part of a constant is no constant and begins nothing else. -/
theorem valueRest_part_constant {v : Json} (h : (p, v) ∈ constants) (ht : Proper t p) :
    valueRest d t = failAt .expectingValue t := by
  have hall : ∀ q ∈ constants, ∀ t ∈ q.1.inits, t ≠ q.1 → (scanConstant t).isNone = true ∧
      (∀ c ∈ t.head?, c ≠ 34 ∧ c ≠ 123 ∧ c ≠ 91) ∧ ∀ c ∈ (unsigned t).head?, isDigit c = false := by
    decide
  have hproper : t ∈ p.inits ∧ t ≠ p := by
    obtain ⟨r, hr, rfl⟩ := ht
    exact ⟨(List.mem_inits _ _).mpr (List.prefix_append t r),
      fun h => hr (List.self_eq_append_right.mp h)⟩
  obtain ⟨hnone, hother, hdigit⟩ := hall _ h t hproper.1 hproper.2
  cases t with
  | nil => rfl
  | cons c u =>
    obtain ⟨hquote, hbrace, hbracket⟩ := hother c rfl
    rw [valueRest_other hquote hbrace hbracket, Option.isNone_iff_eq_none.mp hnone]
    exact numberRest_error hdigit

/-- A part of a constant. -/
theorem torn_constant {v : Json} (h : (p, v) ∈ constants) (ht : Proper t p) : Torn d .value t := by
  refine .error (valueRest_part_constant h ht) ⟨nofun, nofun, fun _ => ?_⟩
  obtain ⟨r, -, rfl⟩ := ht
  exact endsNarrow_ascii fun c hc => ascii_of_constant h c (List.mem_append_left r hc)

/-- A part of a number, from what follows its whole part. -/
theorem torn_tail {n : ℕ} {x : Text} (hread : valueRest d t = tailRest n x)
    (hmore : x ≠ [] → valueRest d (t ++ [48]) = tailRest n (x ++ [48])) (ht : EndsNarrow t)
    (hx : CutsTail n x) : Torn d .value t := by
  rcases hx with hx | hx | ⟨u, hu, hx, hzero⟩
  · exact .digits (hread.trans hx) ht
  · exact .number (hread.trans hx) (.inl rfl) ht
  · have hne : x ≠ [] := by
      rintro rfl
      simp only [tailRest, scanFraction, scanExponent] at hx
      split at hx
      · cases hx
      · obtain rfl := Except.ok.inj hx
        revert hu
        decide
    exact .number (hread.trans hx) (.inr ⟨hu, (hmore hne).trans hzero⟩) ht

/-- A part of a number. -/
theorem torn_number (h : IsNumber p) (ht : Proper t p) : Torn d .value t := by
  have hnarrow : EndsNarrow t := by
    obtain ⟨r, -, rfl⟩ := ht
    exact endsNarrow_ascii fun c hc => ascii_of_number h c (List.mem_append_left r hc)
  obtain ⟨hsign, hwhole, hfrac, hpower, -⟩ := h
  rename_i sign whole frac power
  have hread :
      ∀ {w x : Text}, IsWhole w → Follows w x →
        valueRest d (sign ++ (w ++ x)) = tailRest w.length x :=
    fun hw hx => (valueRest_number (numberText_of_whole hsign hw _)).trans
      (numberRest_whole hsign hw hx)
  have hfirst : ∀ {t : Text}, t = [] ∨ t = [45] → EndsNarrow t → Torn d .value t := by
    rintro t (rfl | rfl) ht
    · exact .ends valueRest_nil nofun ht
    · exact @Torn.error d .value [45] ⟨.expectingValue, [45]⟩ rfl ⟨nofun, nofun, fun _ => ht⟩
  rcases proper_append ht with ⟨r, hr, rfl⟩ | ⟨v, rfl, hv⟩
  · refine hfirst (.inl ?_) hnarrow
    rcases hsign with hnil | hsign
    · exact absurd (List.append_eq_nil_iff.mp hnil).2 hr
    · rcases List.append_eq_singleton_iff.mp hsign with ⟨ht, -⟩ | ⟨-, hr'⟩
      · exact ht
      · exact absurd hr' hr
  by_cases hnil : v = []
  · subst hnil
    rw [List.append_nil] at hnarrow ⊢
    exact hfirst hsign hnarrow
  rcases proper_append hv with hv | ⟨x, rfl, hx⟩
  · have hcut := @hread v [] (isWhole_of_proper hwhole hv hnil) (.inr fun _ hc => nomatch hc)
    rw [List.append_nil] at hcut
    exact torn_tail hcut (fun hne => absurd rfl hne) hnarrow (cutsTail_whole .none .none)
  · have hfollows : ∀ y, x ≠ [] ∨ y = [] → Follows whole (x ++ y) := by
      obtain ⟨r, -, hr⟩ := hx
      have hhead := fraction_head hfrac fun c hc => (power_head hpower stops_nil c hc).1
      rw [List.append_nil, hr] at hhead
      rintro y hy
      refine .inr fun c hc => hhead c ?_
      cases x with
      | nil =>
        rcases hy with hy | rfl
        · exact absurd rfl hy
        · cases hc
      | cons e x => exact hc
    have hcut := hread hwhole (hfollows [] (.inr rfl))
    rw [List.append_nil] at hcut
    refine torn_tail hcut (fun hne => ?_) hnarrow (cutsTail_of_proper hfrac hpower hx)
    rw [List.append_assoc, List.append_assoc]
    exact hread hwhole (hfollows [48] (.inl hne))

/-! ### Brackets and entries -/

/-- What stands between brackets may be cut before it begins. -/
theorem torn_inside_blank {b : Bracket} (hs : IsBlank s) (hnarrow : EndsNarrow w)
    (hpart : ∀ v, partRest d k (w ++ v) = partRest d (.inside b) (skipSpace v)) :
    Torn d k (w ++ s) := by
  obtain ⟨m, hm, hne⟩ := inside_nil b
  refine .ends (m := m) ?_ hne (endsNarrow_append hnarrow (endsNarrow_blank hs))
  rw [hpart, skipSpace_blank_nil hs, hm]

/-- A bracket with nothing but white space after it is torn. -/
theorem valueRest_bracket_blank (hd : d.IsTotal) {b : Bracket} (hs : IsBlank s) :
    Torn d .value (b.opening :: s) := by
  obtain ⟨m, hm, hne⟩ := inside_nil b
  have hskip := skipSpace_blank_nil hs
  have hopen := @valueRest_opening d s b hd (by simp [hskip])
  rw [hskip] at hopen
  exact .ends (hopen.trans hm) hne (endsNarrow_cons (closing_lt b).2 (endsNarrow_blank hs))

/-- The first character of a part that is cut later is that of the part. -/
theorem head_of_proper (h : Derives k p) (ht : Proper t p) (hne : t ≠ []) :
    ∃ c v, t = c :: v ∧ isJsonSpace c = false ∧ c ≠ 93 ∧ c ≠ 125 := by
  obtain ⟨c, w, rfl, hspace, hclosing, -⟩ := h.head
  rcases proper_cons ht with rfl | ⟨v, rfl, -⟩
  · exact absurd rfl hne
  · exact ⟨c, v, rfl, hspace, hclosing⟩

/-- **Parts.** What a reader makes of a part of a part. -/
theorem torn_of_proper (hd : d.IsTotal) (h : Derives k p) : ∀ t, Proper t p → Torn d k t := by
  induction h with
  | string htail =>
    intro t ht
    rcases proper_cons ht with rfl | ⟨v, rfl, hv⟩
    · exact .ends valueRest_nil (by decide) endsNarrow_nil
    · exact torn_string htail hv valueRest_string
  | constant hmem => exact fun t ht => torn_constant hmem ht
  | number hnumber => exact fun t ht => torn_number hnumber ht
  | @empty b s hs =>
    intro t ht
    rcases proper_cons ht with rfl | ⟨v, rfl, hv⟩
    · exact .ends valueRest_nil (by decide) endsNarrow_nil
    · exact valueRest_bracket_blank hd (blank_of_proper hs hv)
  | @bracketed b s p hs hp ih =>
    intro t ht
    rcases proper_cons ht with rfl | ⟨v, rfl, hv⟩
    · exact .ends valueRest_nil (by decide) endsNarrow_nil
    rcases blank_or_proper hs hv with hv | ⟨u, rfl, hne, hu⟩
    · exact valueRest_bracket_blank hd hv
    obtain ⟨c, u, rfl, hspace, hclosing⟩ := head_of_proper hp hu hne
    have hpart :
        ∀ r, partRest d .value ((b.opening :: s) ++ (c :: u ++ r)) =
          partRest d (.inside b) (c :: u ++ r) := by
      intro r
      have hskip : skipSpace (s ++ (c :: u ++ r)) = c :: u ++ r := skipSpace_cons hs hspace _
      have hopen := @valueRest_opening d (s ++ (c :: u ++ r)) b hd (by
        rintro w hw
        rw [hskip] at hw
        exact not_closing hclosing (List.cons.inj hw).1)
      rw [hskip] at hopen
      exact hopen
    exact (ih _ hu).map hpart (endsNarrow_cons (closing_lt b).2 (endsNarrow_blank hs))
  | @entry key s s' p hkey hs hs' hp ih =>
    intro t ht
    rcases proper_cons ht with rfl | ⟨v, rfl, hv⟩
    · have hname : partRest d .entry [] = failAt .expectingPropertyName [] := rfl
      exact .ends hname (by decide) endsNarrow_nil
    have hread : ∀ v, stringRest (34 :: (key ++ v)) (key ++ v) = .ok v :=
      fun v => stringRest_of_tail hkey v
    have hquoted : EndsNarrow (34 :: key) := endsNarrow_cons (by decide) (endsNarrow_tail hkey)
    -- the cut is in the key, before the colon, before the value, or in it
    rcases proper_append hv with hv | ⟨u, rfl, hu⟩
    · refine torn_string hkey hv ?_
      cases hcut : stringRest (34 :: v) v with
      | error e => exact entryRest_key_error hcut
      | ok x =>
        rcases @stringRest_cut (34 :: v) key hkey v hv with hopen | ⟨w, hs, -, -, hrest⟩
        · rw [hopen] at hcut
          cases hcut
        · rw [hrest] at hcut
          cases hcut
    rcases blank_or_proper hs hu with hu | ⟨w, rfl, hne, hw⟩
    · -- no colon yet
      have hskip := skipSpace_blank_nil hu
      have hcolon := @entryRest_colon d _ u (hread u) (by simp [hskip])
      rw [hskip] at hcolon
      exact .ends hcolon (by decide) (endsNarrow_append hquoted (endsNarrow_blank hu))
    rcases proper_cons hw with rfl | ⟨x, rfl, hx⟩
    · exact absurd rfl hne
    have hvalue : ∀ x, entryRest d (34 :: (key ++ (s ++ 58 :: x))) = valueRest d (skipSpace x) :=
      fun x => entryRest_value (hread _) (skipSpace_cons hs rfl x)
    have hnarrow : EndsNarrow (34 :: key ++ (s ++ [58])) :=
      endsNarrow_append hquoted (endsNarrow_append (endsNarrow_blank hs)
        (endsNarrow_cons (by decide) endsNarrow_nil))
    rcases blank_or_proper hs' hx with hx | ⟨y, rfl, hne', hy⟩
    · -- no value yet
      have hvalue' := hvalue x
      rw [skipSpace_blank_nil hx, valueRest_nil] at hvalue'
      refine .ends hvalue' (by decide) ?_
      have happend := endsNarrow_append hnarrow (endsNarrow_blank hx)
      simpa using happend
    -- what is left of the value is torn by the induction, with the key before it
    obtain ⟨c, y, rfl, hspace, -⟩ := head_of_proper hp hy hne'
    have hpart : ∀ r, partRest d .entry (34 :: key ++ (s ++ [58]) ++ s' ++ (c :: y ++ r)) =
        partRest d .value (c :: y ++ r) := by
      intro r
      have hvalue' := hvalue (s' ++ (c :: y ++ r))
      rw [List.cons_append, skipSpace_cons hs' hspace] at hvalue'
      simpa [partRest] using hvalue'
    have htorn := (ih _ hy).map hpart (endsNarrow_append hnarrow (endsNarrow_blank hs'))
    simpa using htorn
  | @last b e s he hs ih =>
    intro t ht
    -- the cut is in the last element, or in the white space before the bracket
    -- the cut is in the element, before the comma, or in what follows the comma
    rcases proper_append ht with ht | ⟨v, rfl, hv⟩
    · exact (ih t ht).inside
    · have hblank := blank_of_proper hs hv
      have hread := rest_of_derives hd he v (stops_blank hblank)
      have hskip := skipSpace_blank_nil hblank
      have hcomma := @partRest_comma d _ v b hread (by simp [hskip]) (by simp [hskip])
      rw [hskip] at hcomma
      exact .ends hcomma (by decide) (endsNarrow_append (endsNarrow_of_derives he)
        (endsNarrow_blank hblank))
  | @next b e s s' p he hs hs' hp ih ih' =>
    intro t ht
    have hnarrow := endsNarrow_of_derives he
    rcases proper_append ht with ht | ⟨v, rfl, hv⟩
    · exact (ih t ht).inside
    rcases blank_or_proper hs hv with hblank | ⟨w, rfl, hne, hw⟩
    · have hread := rest_of_derives hd he v (stops_blank hblank)
      have hskip := skipSpace_blank_nil hblank
      have hcomma := @partRest_comma d _ v b hread (by simp [hskip]) (by simp [hskip])
      rw [hskip] at hcomma
      exact .ends hcomma (by decide) (endsNarrow_append hnarrow (endsNarrow_blank hblank))
    rcases proper_cons hw with rfl | ⟨x, rfl, hx⟩
    · exact absurd rfl hne
    have hnext :
        ∀ x, partRest d (.inside b) (e ++ (s ++ [44]) ++ x) =
          partRest d (.inside b) (skipSpace x) := by
      intro x
      have hread := rest_of_derives hd he (s ++ 44 :: x) (stops_blank_cons hs (by decide))
      have hnext := partRest_next hread (skipSpace_cons hs rfl x)
      simpa using hnext
    have hnarrow' : EndsNarrow (e ++ (s ++ [44])) :=
      endsNarrow_append hnarrow (endsNarrow_append (endsNarrow_blank hs)
        (endsNarrow_cons (by decide) endsNarrow_nil))
    have htorn : Torn d (.inside b) (e ++ (s ++ [44]) ++ x) := by
      rcases blank_or_proper hs' hx with hx | ⟨y, rfl, hne', hy⟩
      · exact torn_inside_blank hx hnarrow' hnext
      · obtain ⟨c, y, rfl, hspace, -⟩ := head_of_proper hp hy hne'
        have hpart : ∀ r, partRest d (.inside b) (e ++ (s ++ [44]) ++ s' ++ (c :: y ++ r)) =
            partRest d (.inside b) (c :: y ++ r) := by
          intro r
          have hnext' := hnext (s' ++ (c :: y ++ r))
          rw [List.cons_append, skipSpace_cons hs' hspace] at hnext'
          rw [List.append_assoc _ s', List.cons_append, hnext']
        have htorn := (ih' _ hy).map hpart (endsNarrow_append hnarrow' (endsNarrow_blank hs'))
        rwa [List.append_assoc] at htorn
    simpa using htorn

end Json

end RunpodJobrunner
