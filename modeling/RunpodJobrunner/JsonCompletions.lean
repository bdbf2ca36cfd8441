import RunpodJobrunner.JsonPrefixes

/-!
# Completions of JSON texts

The errors from which a text can be completed (`completes_of_rest`), the texts that
`json.loads` reads (`loads_ok_iff`), and the error of a text that is the beginning of one of
them (`loads_of_proper`). A text begins a JSON text exactly where its error is one of a few.
-/

namespace RunpodJobrunner

namespace Json

variable {d : Decoder} {start p q s t u w : Text} {k : Part}

/-! ## Completions -/

/-- The errors after which more of the text may make it a value. -/
inductive IsOpen : DecodeError → Prop where
  | ends {m : DecodeMessage} : IsOpen ⟨m, []⟩
  | string {rest : Text} : IsOpen ⟨.unterminatedString, rest⟩
  | sign : IsOpen ⟨.expectingValue, [45]⟩
  | literal {l rest : Text} : l ∈ [txt "true", txt "false", txt "null"] → rest.isPrefixOf l = true →
      IsOpen ⟨.expectingValue, rest⟩
  | escape {hs : Text} :
    hs.length < 4 → (∀ c ∈ hs, IsHex c) → IsOpen ⟨.invalidUnicodeEscape, 117 :: hs⟩

theorem hexValue4_of_isHex {a b c e : ℕ} (h : ∀ y ∈ [a, b, c, e], IsHex y) :
    ∃ x, hexValue4 a b c e = some x := by
  simp only [List.mem_cons, List.not_mem_nil, or_false, forall_eq_or_imp, forall_eq, IsHex,
    Option.isSome_iff_exists] at h
  obtain ⟨⟨w, hw⟩, ⟨x, hx⟩, ⟨y, hy⟩, ⟨z, hz⟩⟩ := h
  exact ⟨_, by rw [hexValue4, hw, hx, hy, hz]⟩

/-- Only ASCII. -/
def IsAscii (t : Text) : Prop := ∀ c ∈ t, c < 128

instance : DecidablePred IsAscii := fun t => inferInstanceAs (Decidable (∀ c ∈ t, c < 128))

theorem isAscii_append (hp : IsAscii p) (hq : IsAscii q) : IsAscii (p ++ q) := by
  intro c hc
  rcases List.mem_append.mp hc with hc | hc
  · exact hp c hc
  · exact hq c hc

theorem isTail_of_escape {hs : Text} (hlength : hs.length < 4) (hhex : ∀ c ∈ hs, IsHex c) :
    ∃ r, IsAscii r ∧ IsTail (92 :: 117 :: (hs ++ r)) := by
  have hzero : IsHex 48 := rfl
  have hfour :
      ∀ {a b c e : ℕ}, (∀ y ∈ [a, b, c, e], IsHex y) → IsTail (92 :: 117 :: [a, b, c, e, 34]) := by
    intro a b c e h
    obtain ⟨x, hx⟩ := hexValue4_of_isHex h
    exact .unicode hx .close
  match hs, hlength with
  | [], _ => exact ⟨[48, 48, 48, 48, 34], by decide, hfour (by decide)⟩
  | [a], _ => exact ⟨[48, 48, 48, 34], by decide, hfour (by simpa [hzero] using hhex)⟩
  | [a, b], _ => exact ⟨[48, 48, 34], by decide, hfour (by simpa [hzero] using hhex)⟩
  | [a, b, c], _ => exact ⟨[48, 34], by decide, hfour (by simpa [hzero] using hhex)⟩

/-- A string that is open can be closed. -/
theorem tail_completes {e : DecodeError} (h : stringRest start t = .error (.decode e))
    (he : IsOpen e) : ∃ r, IsAscii r ∧ IsTail (t ++ r) := by
  induction hn : t.length using Nat.strong_induction_on generalizing t with
  | _ n ih =>
    rcases string_cases t with rfl | ⟨v, rfl⟩ | rfl | ⟨c, v, rfl, hquote, hslash⟩ | ⟨x, v, rfl, hx⟩ |
      ⟨v, rfl, hv⟩ | ⟨a, b, c, x, v, rfl, hv⟩
    · exact ⟨[34], by decide, .close⟩
    · rw [stringRest_quote] at h
      cases h
    · exact ⟨[92, 34], by decide, .escape (x := 92) (by decide) rfl .close⟩
    · rw [stringRest_plain hquote hslash] at h
      split at h
      · cases h
        cases he
      · obtain ⟨r, hascii, hr⟩ := ih v.length (by rw [← hn]; simp) h rfl
        exact ⟨r, hascii, .plain hquote hslash (by omega) hr⟩
    · rw [stringRest_escape hx] at h
      split at h
      · next y hy =>
        obtain ⟨r, hascii, hr⟩ := ih v.length (by simp only [← hn, List.length_cons]; omega) h rfl
        exact ⟨r, hascii, .escape hx hy hr⟩
      · cases h
        cases he
    · rw [stringRest_short hv] at h
      cases h
      cases he with
      | escape hlength hhex => exact isTail_of_escape hlength hhex
    · rw [stringRest_unicode hv] at h
      split at h
      · next y hy =>
        obtain ⟨r, hascii, hr⟩ := ih v.length (by simp only [← hn, List.length_cons]; omega) h rfl
        exact ⟨r, hascii, .unicode hy hr⟩
      · cases h
        cases he with
        | escape hlength _ =>
          simp only [List.length_cons] at hlength
          omega

/-- Zero. -/
theorem number_zero {sign : Text} (h : sign = [] ∨ sign = [45]) : IsNumber (sign ++ [48]) :=
  .mk h (.inl rfl) .none .none fun _ _ => by decide

/-- What a number fails with, where it does. -/
theorem numberRest_decode {e : DecodeError} (h : numberRest d t = .error (.decode e)) :
    e = ⟨.expectingValue, t⟩ := by
  have hdigits :
      ∀ neg u, (scanDigits d t neg u).map Prod.snd = .error (.decode e) →
        e = ⟨.expectingValue, t⟩ := by
    intro neg u h
    have htail : ∀ n x, tailRest n x ≠ .error (.decode e) := by
      intro n x
      simp only [tailRest]
      split <;> rintro ⟨⟩
    cases u with
    | nil =>
      cases h
      rfl
    | cons c u =>
      rw [scanDigits] at h
      split at h
      · rw [scanNumberTail_rest] at h
        exact absurd h (htail _ _)
      split at h
      · rw [scanNumberTail_rest] at h
        exact absurd h (htail _ _)
      · cases h
        rfl
  unfold numberRest scanNumber at h
  split at h
  · exact hdigits _ _ h
  · exact hdigits _ _ h

/-- What begins no constant and no number and is open. -/
theorem literal_completes (h : IsOpen ⟨.expectingValue, t⟩) :
    ∃ r, IsAscii r ∧ Derives .value (t ++ r) := by
  cases h with
  | ends => exact ⟨[48], by decide, .number (number_zero (.inl rfl))⟩
  | sign => exact ⟨[48], by decide, .number (number_zero (.inr rfl))⟩
  | @literal l _ hl hprefix =>
    obtain ⟨r, rfl⟩ := List.isPrefixOf_iff_prefix.mp hprefix
    have hconstant : ∀ l ∈ [txt "true", txt "false", txt "null"], ∃ v, (l, v) ∈ constants := by
      intro l hl
      simp only [List.mem_cons, List.not_mem_nil, or_false] at hl
      rcases hl with rfl | rfl | rfl
      · exact ⟨.bool true, .tail _ (.head _)⟩
      · exact ⟨.bool false, .tail _ (.tail _ (.head _))⟩
      · exact ⟨.null, .head _⟩
    obtain ⟨v, hv⟩ := hconstant _ hl
    exact ⟨r, fun c hc => ascii_of_constant hv c (List.mem_append_right _ hc), .constant hv⟩

/-- A text that something must follow is blank at its end. -/
theorem blank_of_isOpen {m : DecodeMessage} (h : IsOpen ⟨m, skipSpace t⟩)
    (hm : m = .expectingComma ∨ m = .expectingColon) : IsBlank t := by
  refine blank_of_skipSpace ?_
  generalize skipSpace t = u at h
  cases h with
  | ends => rfl
  | string | sign | literal | escape => rcases hm with hm | hm <;> cases hm

/-- **Completions.** A part whose error is open begins a whole part. -/
theorem completes_of_rest (hd : d.IsTotal) {e : DecodeError} (h : partRest d k t = .error (.decode e))
    (he : IsOpen e) : ∃ r, IsAscii r ∧ Derives k (t ++ r) := by
  induction hn : t.length using Nat.strong_induction_on generalizing k t with
  | _ n ih =>
    -- the error is inside of what begins here, or here, and then the least value completes it
    have hvalue :
        ∀ t, t.length ≤ n → valueRest d t = .error (.decode e) →
          ∃ r, IsAscii r ∧ Derives .value (t ++ r) := by
      intro t ht h
      cases t with
      | nil => exact ⟨[48], by decide, .number (number_zero (.inl rfl))⟩
      | cons c t =>
        have hbracket :
            ∀ b : Bracket, c = b.opening → ∃ r, IsAscii r ∧ Derives .value (c :: t ++ r) := by
          rintro b rfl
          obtain ⟨s, hs, hskip⟩ := skipSpace_spec t
          by_cases hclose : ∃ v, skipSpace t = b.closing :: v
          · obtain ⟨v, hv⟩ := hclose
            rw [valueRest_empty hd hv] at h
            cases h
          · rw [valueRest_opening hd fun v hv => hclose ⟨v, hv⟩] at h
            have hlength := skipSpace_length t
            simp only [List.length_cons] at ht
            obtain ⟨r, hascii, hr⟩ := ih _ (by omega) h rfl
            refine ⟨r, hascii, ?_⟩
            rw [hskip, List.cons_append, List.append_assoc]
            exact .bracketed hs hr
        by_cases hquote : c = 34
        · subst hquote
          rw [valueRest_string] at h
          obtain ⟨r, hascii, hr⟩ := tail_completes h he
          exact ⟨r, hascii, .string hr⟩
        by_cases hbrace : c = 123
        · exact hbracket .curly hbrace
        by_cases hsquare : c = 91
        · exact hbracket .square hsquare
        rw [valueRest_other hquote hbrace hsquare] at h
        split at h
        · cases h
        · obtain rfl := numberRest_decode h
          exact literal_completes he
    -- a member is completed from its key, its colon or its value on
    have hentry :
        ∀ t, t.length ≤ n → entryRest d t = .error (.decode e) →
          ∃ r, IsAscii r ∧ Derives .entry (t ++ r) := by
      have hzero : Derives .value [48] := .number (number_zero (.inl rfl))
      intro t ht h
      rcases entry_cases t with hother | ⟨u, e', rfl, hk⟩ | ⟨u, v, rfl, hk, hv⟩ |
        ⟨u, v, w, rfl, hk, hv⟩
      · rw [entryRest_other hother] at h
        cases h
        cases he with
        | ends => exact ⟨[34, 34, 58, 48], by decide, .entry .close isBlank_nil isBlank_nil hzero⟩
      · rw [entryRest_key_error hk] at h
        obtain rfl := Except.error.inj h
        obtain ⟨r, hascii, hr⟩ := tail_completes hk he
        refine ⟨r ++ [58, 48], isAscii_append hascii (by decide), ?_⟩
        have hentry := Derives.entry hr isBlank_nil isBlank_nil hzero
        simpa using hentry
      · rw [entryRest_colon hk hv] at h
        cases h
        obtain ⟨p, rfl, hp⟩ := tail_of_stringRest hk
        refine ⟨[58, 48], by decide, ?_⟩
        have hentry := Derives.entry hp (blank_of_isOpen he (.inr rfl)) isBlank_nil hzero
        simpa using hentry
      · rw [entryRest_value hk hv] at h
        obtain ⟨p, rfl, hp⟩ := tail_of_stringRest hk
        obtain ⟨s, hs, hskip⟩ := skipSpace_spec v
        obtain ⟨s', hs', hskip'⟩ := skipSpace_spec w
        have hlength := length_of_skipSpace hv
        have hlength' := skipSpace_length w
        simp only [List.length_cons, List.length_append] at ht
        obtain ⟨r, hascii, hr⟩ := hvalue _ (by omega) h
        refine ⟨r, hascii, ?_⟩
        rw [hskip, hv, hskip']
        have hentry := Derives.entry hp hs hs' hr
        simpa using hentry
    -- elements and members are completed and closed, a comma asks for one more
    cases k with
    | value => exact hvalue t hn.le h
    | entry => exact hentry t hn.le h
    | inside b =>
      have helement :
          partRest d b.element t = .error (.decode e) →
            ∃ r, IsAscii r ∧ Derives b.element (t ++ r) := by
        intro h
        cases b with
        | square => exact hvalue t hn.le h
        | curly => exact hentry t hn.le h
      have hclosing : IsAscii [b.closing] := by
        cases b <;> decide
      cases hread : partRest d b.element t with
      | error e' =>
        rw [partRest_error hread] at h
        obtain rfl := Except.error.inj h
        obtain ⟨r, hascii, hr⟩ := helement hread
        refine ⟨r ++ [b.closing], isAscii_append hascii hclosing, ?_⟩
        have hlast := Derives.last hr isBlank_nil
        simpa using hlast
      | ok v =>
        obtain ⟨p, rfl, hp⟩ := derives_of_rest hd hread
        by_cases hlast : ∃ w, skipSpace v = b.closing :: w
        · obtain ⟨w, hw⟩ := hlast
          rw [partRest_last hread hw] at h
          cases h
        by_cases hnext : ∃ w, skipSpace v = 44 :: w
        · obtain ⟨w, hw⟩ := hnext
          obtain ⟨s, hs, hskip⟩ := skipSpace_spec v
          obtain ⟨s', hs', hskip'⟩ := skipSpace_spec w
          rw [partRest_next hread hw] at h
          have hlength := length_of_skipSpace hw
          have hlength' := skipSpace_length w
          rw [List.length_append] at hn
          obtain ⟨r, hascii, hr⟩ := ih _ (by omega) h rfl
          refine ⟨r, hascii, ?_⟩
          rw [hskip, hw, hskip']
          have hnext := Derives.next hp hs hs' hr
          simpa using hnext
        · rw [partRest_comma hread (fun w hw => hlast ⟨w, hw⟩) fun w hw => hnext ⟨w, hw⟩] at h
          cases h
          refine ⟨[b.closing], hclosing, ?_⟩
          have hlast := Derives.last hp (blank_of_isOpen he (.inl rfl))
          simpa using hlast

/-! ## Texts -/

/-- A value, with white space around it. -/
def IsJsonText (t : Text) : Prop :=
  ∃ s p s', IsBlank s ∧ Derives .value p ∧ IsBlank s' ∧ t = s ++ (p ++ s')

/-- No text that begins with white space or ASCII begins with a byte order mark. -/
theorem no_mark {c : ℕ} (hs : IsBlank s) (hc : c < 128) : (s ++ c :: t).head? ≠ some 0xFEFF := by
  cases s with
  | nil =>
    intro h
    obtain rfl := Option.some.inj h
    omega
  | cons b s =>
    intro h
    obtain rfl := Option.some.inj h
    have hspace := hs _ List.mem_cons_self
    cases hspace

theorem no_mark_blank (hs : IsBlank s) : s.head? ≠ some 0xFEFF := by
  intro h
  have hspace := hs _ (List.mem_of_head? h)
  cases hspace

theorem error_of_map {ε α β : Type} {f : α → β} {x : Except ε α} {e : ε} (h : x.map f = .error e) :
    x = .error e := by
  cases x with
  | error e' => exact congrArg Except.error (Except.error.inj h)
  | ok v => cases h

theorem loads_error {e : LoadsError} (ht : t.head? ≠ some 0xFEFF)
    (h : valueRest d (skipSpace t) = .error e) : loads d t = .error e := by
  have hloads := @loads_rest d t ht
  rw [h] at hloads
  exact error_of_map hloads

theorem loads_extra (ht : t.head? ≠ some 0xFEFF) (h : valueRest d (skipSpace t) = .ok u) :
    (skipSpace u = [] ∧ ∃ v, loads d t = .ok v) ∨ skipSpace u ≠ [] ∧
    loads d t = failAt .extraData (skipSpace u) := by
  have hloads := @loads_rest d t ht
  rw [h] at hloads
  by_cases hu : skipSpace u = []
  · simp only [hu, if_true] at hloads
    obtain ⟨v, hv, -⟩ := map_ok_iff.mp hloads
    exact .inl ⟨hu, v, hv⟩
  · simp only [hu, if_false] at hloads
    exact .inr ⟨hu, error_of_map hloads⟩

/-- **Grammar.** `json.loads` reads the texts of the grammar. -/
theorem loads_ok_iff (hd : d.IsTotal) : (∃ v, loads d t = .ok v) ↔ IsJsonText t := by
  constructor
  · rintro ⟨v, hv⟩
    have hmark : t.head? ≠ some 0xFEFF := by
      intro hmark
      rw [loads, if_pos hmark] at hv
      cases hv
    cases hread : valueRest d (skipSpace t) with
    | error e =>
      rw [loads_error hmark hread] at hv
      cases hv
    | ok u =>
      rcases loads_extra hmark hread with ⟨hu, -⟩ | ⟨-, hextra⟩
      · obtain ⟨p, hp, hderives⟩ := derives_of_rest (k := .value) hd hread
        obtain ⟨s, hs, hskip⟩ := skipSpace_spec t
        exact ⟨s, p, u, hs, hderives, blank_of_skipSpace hu, by rw [← hp, ← hskip]⟩
      · rw [hextra] at hv
        cases hv
  · rintro ⟨s, p, s', hs, hp, hs', rfl⟩
    obtain ⟨c, w, rfl, hspace, -, hascii⟩ := hp.head
    have hskip : skipSpace (s ++ (c :: w ++ s')) = c :: w ++ s' := skipSpace_cons hs hspace _
    have hread := rest_of_derives hd hp s' (stops_blank hs')
    rw [← hskip] at hread
    rcases @loads_extra d _ s' (no_mark hs hascii) hread with ⟨-, hv⟩ | ⟨hne, -⟩
    · exact hv
    · exact absurd (skipSpace_blank_nil hs') hne

theorem endsNarrow_of_isJsonText (h : IsJsonText t) : EndsNarrow t := by
  obtain ⟨s, p, s', hs, hp, hs', rfl⟩ := h
  exact endsNarrow_append (endsNarrow_blank hs)
    (endsNarrow_append (endsNarrow_of_derives hp) (endsNarrow_blank hs'))

/-- What `json.loads` makes of the beginning of a text that it reads. -/
inductive TornText (d : Decoder) (t : Text) : Prop where
  | error {e : DecodeError} : loads d t = .error (.decode e) →
      (e.message = .invalidUnicodeEscape → ∃ hs, e.rest = 117 :: hs ∧ ∀ c ∈ hs, IsHex c) →
      (e.message = .expectingComma → e.rest ≠ [] → loads d (t ++ [48]) = failAt .expectingComma []) →
      (e.message ≠ .unterminatedString → EndsNarrow t) → TornText d t
  | narrow : (∀ e, loads d t ≠ .error (.decode e)) → EndsNarrow t → TornText d t

/-- **Parts of texts.** -/
theorem loads_of_proper (hd : d.IsTotal) (h : IsJsonText p) (ht : Proper t p) : TornText d t := by
  obtain ⟨s, p, s', hs, hp, hs', rfl⟩ := h
  rcases blank_or_proper hs ht with hblank | ⟨t, rfl, hne, ht'⟩
  · -- nothing but white space
    have hloads :=
      @loads_error d t _ (no_mark_blank hblank)
        (by rw [skipSpace_blank_nil hblank]; exact valueRest_nil)
    exact .error hloads nofun nofun fun _ => endsNarrow_blank hblank
  obtain ⟨c, w, rfl, hspace, -, hascii⟩ := hp.head
  rcases proper_append ht' with ht' | ⟨x, rfl, r, -, rfl⟩
  · rcases proper_cons ht' with rfl | ⟨t, rfl, -⟩
    · exact absurd rfl hne
    have hskip : ∀ r, skipSpace (s ++ (c :: t ++ r)) = c :: t ++ r :=
      fun r => skipSpace_cons hs hspace _
    have hmark : ∀ r, (s ++ (c :: t ++ r)).head? ≠ some 0xFEFF := fun r => no_mark hs hascii
    have hself : skipSpace (s ++ c :: t) = c :: t := skipSpace_cons hs hspace _
    have hmark' : (s ++ c :: t).head? ≠ some 0xFEFF := no_mark hs hascii
    have hnarrow : EndsNarrow (c :: t) → EndsNarrow (s ++ c :: t) :=
      endsNarrow_append (endsNarrow_blank hs)
    cases torn_of_proper hd hp _ ht' with
    | @error e herror hsevers =>
      rw [← hself] at herror
      refine .error (loads_error hmark' herror) hsevers.escape (fun hm hrest => ?_) fun hm =>
        hnarrow (hsevers.narrow hm)
      have hzero := hsevers.number hm hrest
      rw [← hskip] at hzero
      rw [List.append_assoc]
      exact loads_error (hmark _) hzero
    | digits herror hends =>
      rw [← hself] at herror
      refine .narrow (fun e he => ?_) (hnarrow hends)
      rw [loads_error hmark' herror] at he
      cases he
    | number hread _ hends =>
      rw [← hself] at hread
      rcases loads_extra hmark' hread with ⟨-, v, hv⟩ | ⟨-, hextra⟩
      · exact .narrow (fun e he => by rw [hv] at he; cases he) (hnarrow hends)
      · exact .error hextra nofun nofun fun _ => hnarrow hends
  · -- all of the value, and white space
    have hblank : IsBlank x := fun c hc => hs' c (List.mem_append_left r hc)
    have htext : IsJsonText (s ++ (c :: w ++ x)) := ⟨s, c :: w, x, hs, hp, hblank, rfl⟩
    obtain ⟨v, hv⟩ := (@loads_ok_iff d _ hd).mpr htext
    exact .narrow (fun e he => by rw [hv] at he; cases he) (endsNarrow_of_isJsonText htext)

/-- **Completions of texts.** A text whose error is open begins a JSON text. -/
theorem completes_of_loads (hd : d.IsTotal) {e : DecodeError} (h : loads d t = .error (.decode e))
    (he : IsOpen e) : ∃ r, r ≠ [] ∧ IsAscii r ∧ IsJsonText (t ++ r) := by
  have hcompletes : ∃ r, IsAscii r ∧ IsJsonText (t ++ r) := by
    by_cases hmark : t.head? = some 0xFEFF
    · rw [loads, if_pos hmark] at h
      cases h
      cases he
      cases hmark
    · cases hread : valueRest d (skipSpace t) with
      | error e' =>
        rw [loads_error hmark hread] at h
        obtain rfl := Except.error.inj h
        obtain ⟨r, hascii, hr⟩ := completes_of_rest (k := .value) hd hread he
        obtain ⟨s, hs, hskip⟩ := skipSpace_spec t
        refine ⟨r, hascii, s, skipSpace t ++ r, [], hs, hr, isBlank_nil, ?_⟩
        rw [List.append_nil, ← List.append_assoc, ← hskip]
      | ok u =>
        rcases loads_extra hmark hread with ⟨-, v, hv⟩ | ⟨hne, hextra⟩
        · rw [hv] at h
          cases h
        · rw [hextra] at h
          cases h
          generalize skipSpace u = x at he hne
          cases he
          exact absurd rfl hne
  obtain ⟨r, hascii, hr⟩ := hcompletes
  refine ⟨r, ?_, hascii, hr⟩
  rintro rfl
  rw [List.append_nil] at hr
  obtain ⟨v, hv⟩ := (@loads_ok_iff d t hd).mpr hr
  rw [hv] at h
  cases h

end Json

end RunpodJobrunner
