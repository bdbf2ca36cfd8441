import RunpodJobrunner.Journal
import RunpodJobrunner.JsonCompletions

/-!
# Torn fragments

What the two copies of `_is_torn_json_fragment` take for a record that a dying process left:
they should be the beginnings of the texts that `json.loads` reads (`IsCut`). They are, but for
four kinds of fragments (`Misread`), which no text begins with.
-/

namespace RunpodJobrunner

namespace Runner

/-- `_is_torn_json_fragment` of the runner, which raises where an integer is too long. -/
def isTornJsonFragment (floatOf : FloatLiteral → JsonFloat) (fragment : Bytes) :
    Except JournalError Bool :=
  match decodeUtf8 fragment with
  | .error e => .ok (e.rest = [] ∧ e.reason = .unexpectedEndOfData)
  | .ok text =>
    match Json.loads (Journal.decoder floatOf) text with
    | .ok _ => .ok false
    | .error (.decode e) => .ok e.torn
    | .error _ => .error .value

end Runner

namespace Journal

open Json

variable {floatOf : FloatLiteral → JsonFloat} {b : Bytes} {t : Text}

/-- Some bytes of a text that `json.loads` reads, but not all. -/
def IsCut (floatOf : FloatLiteral → JsonFloat) (b : Bytes) : Prop :=
  b ≠ [] ∧ ∃ r t v, r ≠ [] ∧ encodeUtf8 t = some (b ++ r) ∧ loads (decoder floatOf) t = .ok v

/-- Fragments that are taken for torn. -/
inductive Misread (floatOf : FloatLiteral → JsonFloat) : Bytes → Prop where
  | empty : Misread floatOf []
  /-- a short `\uXXXX` escape, with a character in it that is no hexadecimal digit -/
  | escape {b : Bytes} {t hs : Text} : decodeUtf8 b = .ok t →
      loads (decoder floatOf) t = failAt .invalidUnicodeEscape (117 :: hs) → hs.length < 4 →
      (∃ c ∈ hs, ¬IsHex c) → Misread floatOf b
  /-- the beginning of a fraction or an exponent, but no digit more makes it one: it follows no
  number, or one that has it already -/
  | number {b : Bytes} {t rest : Text} : decodeUtf8 b = .ok t →
      loads (decoder floatOf) t = failAt .expectingComma rest → rest ∈ partials →
      loads (decoder floatOf) (t ++ [48]) ≠ failAt .expectingComma [] → Misread floatOf b
  /-- a part of a character, which does not stand in a string -/
  | character {s p : Bytes} {t : Text} : encodeUtf8 t = some s → IsCutChar p →
      (∀ c q, utf8Char c = some (p ++ q) → ∀ rest,
        loads (decoder floatOf) (t ++ [c]) ≠ failAt .unterminatedString rest) →
          Misread floatOf (s ++ p)

theorem isTotal_decoder : (decoder floatOf).IsTotal := fun _ => ⟨_, rfl⟩

/-! ## Misread fragments -/

/-- A cut text that decodes is the beginning of one that is read. -/
theorem IsCut.proper (h : IsCut floatOf b) (ht : decodeUtf8 b = .ok t) :
    ∃ p, IsJsonText p ∧ Proper t p := by
  obtain ⟨-, r, p, v, hr, hp, hv⟩ := h
  have hread := (@loads_ok_iff (decoder floatOf) p isTotal_decoder).mp ⟨v, hv⟩
  have hb := encode_decode ht
  have hdecode := decode_append hb r
  rw [decode_encode hp] at hdecode
  cases hrest : decodeUtf8 r with
  | error e =>
    rw [hrest] at hdecode
    cases hdecode
  | ok u =>
    rw [hrest] at hdecode
    obtain rfl := Except.ok.inj hdecode
    refine ⟨t ++ u, hread, u, ?_, rfl⟩
    rintro rfl
    exact hr (Option.some.inj (encode_decode hrest)).symm

/-- A misread fragment is taken for torn. -/
theorem Misread.torn (h : Misread floatOf b) : isTornJsonFragment floatOf b = .ok true := by
  cases h with
  | empty => rfl
  | escape ht hloads hlength _ =>
    simp only [isTornJsonFragment, ht, hloads, failAt]
    rw [torn_of_escape, decide_eq_true hlength]
  | number ht hloads hrest _ =>
    simp only [isTornJsonFragment, ht, hloads, failAt]
    rw [torn_of_cut_literal (.inr hrest)]
  | character ht hp _ =>
    simp only [isTornJsonFragment, decode_append ht, hp.decode]
    rfl

/-- No text that is read begins with a misread fragment. -/
theorem Misread.not_cut (h : Misread floatOf b) : ¬IsCut floatOf b := by
  intro hcut
  cases h with
  | empty => exact hcut.1 rfl
  | escape ht hloads _ hhex =>
    obtain ⟨p, hp, hproper⟩ := hcut.proper ht
    cases @loads_of_proper (decoder floatOf) _ _ isTotal_decoder hp hproper with
    | error herror hescape _ _ =>
      rw [hloads] at herror
      cases herror
      obtain ⟨hs, heq, hall⟩ := hescape rfl
      obtain ⟨-, rfl⟩ := List.cons.inj heq
      obtain ⟨c, hc, hnot⟩ := hhex
      exact hnot (hall c hc)
    | narrow herror _ => exact herror _ hloads
  | number ht hloads hrest hzero =>
    obtain ⟨p, hp, hproper⟩ := hcut.proper ht
    cases @loads_of_proper (decoder floatOf) _ _ isTotal_decoder hp hproper with
    | error herror _ hnumber _ =>
      rw [hloads] at herror
      cases herror
      refine hzero (hnumber rfl ?_)
      rintro rfl
      revert hrest
      decide
    | narrow herror _ => exact herror _ hloads
  | @character s p t ht hp hall =>
    obtain ⟨-, r, u, v, -, hu, hv⟩ := hcut
    have hread := (@loads_ok_iff (decoder floatOf) u isTotal_decoder).mp ⟨v, hv⟩
    have hdecode := decode_append ht (p ++ r)
    rw [← List.append_assoc, decode_encode hu] at hdecode
    cases hrest : decodeUtf8 (p ++ r) with
    | error e =>
      rw [hrest] at hdecode
      cases hdecode
    | ok w =>
      rw [hrest] at hdecode
      obtain rfl := Except.ok.inj hdecode
      obtain ⟨c, q, w, hc, hwide, rfl⟩ := hp.goes_on hrest
      -- the text with the whole character in it is cut too, and ends with that character
      have hends : ¬EndsNarrow (t ++ [c]) := by
        intro hnarrow
        have hlt := hnarrow c (by simp)
        omega
      have hwhole : w ≠ [] := by
        rintro rfl
        exact hends (endsNarrow_of_isJsonText hread)
      have hproper : Proper (t ++ [c]) (t ++ c :: w) := ⟨w, hwhole, by simp⟩
      cases @loads_of_proper (decoder floatOf) _ _ isTotal_decoder hread hproper with
      | @error e herror _ _ hnarrow =>
        by_cases hm : e.message = .unterminatedString
        · refine hall c q hc e.rest ?_
          rw [herror, ← hm]
          rfl
        · exact hends (hnarrow hm)
      | narrow _ hnarrow => exact hends hnarrow

/-! ## Cut fragments -/

theorem encodeUtf8_ascii {r : Text} (h : IsAscii r) : encodeUtf8 r = some r := by
  induction r with
  | nil => rfl
  | cons c r ih =>
    have hc : utf8Char c = some [c] := if_pos (h c List.mem_cons_self)
    rw [encodeUtf8, hc, ih fun e he => h e (List.mem_cons_of_mem _ he)]
    rfl

/-- A fragment whose text can be completed after some more bytes is cut. -/
theorem isCut_of_isOpen {e : DecodeError} {x : Bytes} (hb : b ≠ [])
    (ht : encodeUtf8 t = some (b ++ x)) (hloads : loads (decoder floatOf) t = .error (.decode e))
    (he : IsOpen e) : IsCut floatOf b := by
  obtain ⟨r, hr, hascii, htext⟩ := completes_of_loads isTotal_decoder hloads he
  obtain ⟨v, hv⟩ := (@loads_ok_iff (decoder floatOf) _ isTotal_decoder).mpr htext
  refine ⟨hb, x ++ r, t ++ r, v, ?_, ?_, hv⟩
  · intro hnil
    exact hr (List.append_eq_nil_iff.mp hnil).2
  · rw [← List.append_assoc]
    exact encodeUtf8_append ht (encodeUtf8_ascii hascii)

/-- The rule for what is torn, by the kinds of errors. -/
theorem torn_cases {e : DecodeError} (h : e.torn = true) :
    IsOpen e ∨ (∃ hs, e = ⟨.invalidUnicodeEscape, 117 :: hs⟩ ∧ hs.length < 4) ∨
      ∃ rest ∈ partials, e = ⟨.expectingComma, rest⟩ := by
  obtain ⟨m, rest⟩ := e
  simp only [DecodeError.torn] at h
  split at h
  · next hopen =>
    rcases hopen with rfl | rfl
    · exact .inl .ends
    · exact .inl .string
  split at h
  · next hvalue =>
    obtain ⟨rfl, rfl | ⟨l, hl, hprefix⟩⟩ := hvalue
    · exact .inl .sign
    · exact .inl (.literal hl hprefix)
  split at h
  · next hescape =>
    obtain ⟨rfl, hhead⟩ := hescape
    obtain ⟨hs, rfl⟩ := List.head?_eq_some_iff.mp hhead
    simp only [List.length_cons, decide_eq_true_eq] at h
    exact .inr (.inl ⟨hs, rfl, by omega⟩)
  · simp only [decide_eq_true_eq] at h
    obtain ⟨rfl, hmem⟩ := h
    exact .inr (.inr ⟨rest, hmem, rfl⟩)

/-- What is taken for torn is cut or misread. -/
theorem cut_or_misread (h : isTornJsonFragment floatOf b = .ok true) :
    IsCut floatOf b ∨ Misread floatOf b := by
  by_cases hb : b = []
  · exact .inr (hb ▸ .empty)
  cases ht : decodeUtf8 b with
  | error e =>
    simp only [isTornJsonFragment, ht, Except.ok.injEq, decide_eq_true_eq] at h
    obtain ⟨s, t, p, rfl, hs, hp⟩ := decode_unexpectedEnd ht h.2
    by_cases hstring : ∃ c q rest, utf8Char c = some (p ++ q) ∧
        loads (decoder floatOf) (t ++ [c]) = failAt .unterminatedString rest
    · obtain ⟨c, q, rest, hc, hloads⟩ := hstring
      have hone : encodeUtf8 [c] = some (p ++ q) := by simp [encodeUtf8, hc]
      have hwhole := encodeUtf8_append hs hone
      rw [← List.append_assoc] at hwhole
      exact .inl (isCut_of_isOpen hb hwhole hloads .string)
    · exact .inr (.character hs hp fun c q hc rest hloads => hstring ⟨c, q, rest, hc, hloads⟩)
  | ok t =>
    have hencode := encode_decode ht
    cases hloads : loads (decoder floatOf) t with
    | ok v => simp [isTornJsonFragment, ht, hloads] at h
    | error error =>
      cases error with
      | digits => simp [isTornJsonFragment, ht, hloads] at h
      | hook => simp [isTornJsonFragment, ht, hloads] at h
      | decode e =>
        simp only [isTornJsonFragment, ht, hloads, Except.ok.injEq] at h
        have hopen : IsOpen e → IsCut floatOf b :=
          fun he => isCut_of_isOpen hb (x := []) (by rwa [List.append_nil]) hloads he
        rcases torn_cases h with he | ⟨hs, rfl, hlength⟩ | ⟨rest, hrest, rfl⟩
        · exact .inl (hopen he)
        · by_cases hhex : ∀ c ∈ hs, IsHex c
          · exact .inl (hopen (.escape hlength hhex))
          · exact .inr (.escape ht hloads hlength (by simpa using hhex))
        · by_cases hzero : loads (decoder floatOf) (t ++ [48]) = failAt .expectingComma []
          · have hmore : encodeUtf8 (t ++ [48]) = some (b ++ [48]) := encodeUtf8_append hencode rfl
            exact .inl (isCut_of_isOpen hb hmore hzero .ends)
          · exact .inr (.number ht hloads hrest hzero)

/-- **Only cut records are discarded.** The copies agree, and what they take for torn is the
beginning of a text that `json.loads` reads exactly where it is not misread. -/
theorem torn_is_cut_iff (floatOf : FloatLiteral → JsonFloat) (b : Bytes) :
    Runner.isTornJsonFragment floatOf b = isTornJsonFragment floatOf b ∧
      ((isTornJsonFragment floatOf b = .ok true → IsCut floatOf b) ↔ ¬Misread floatOf b) := by
  refine ⟨rfl, fun h hmisread => hmisread.not_cut (h hmisread.torn), fun h htorn => ?_⟩
  exact (cut_or_misread htorn).resolve_right h

/-- A record with a letter where a delimiter belongs is taken for torn, but no JSON text
begins so. -/
theorem letter_read_as_exponent :
    ¬∀ (floatOf : FloatLiteral → JsonFloat) (b : Bytes),
      isTornJsonFragment floatOf b = .ok true → IsCut floatOf b := by
  intro h
  have hloads : loads (decoder .literal) [91, 34, 97, 34, 101] = failAt .expectingComma [101] := by
    decide
  have hzero :
      loads (decoder .literal) ([91, 34, 97, 34, 101] ++ [48]) ≠ failAt .expectingComma [] := by
        decide
  have hmisread : Misread .literal [91, 34, 97, 34, 101] :=
    .number (by decide) hloads (by decide) hzero
  exact hmisread.not_cut (h _ _ hmisread.torn)

end Journal

end RunpodJobrunner
