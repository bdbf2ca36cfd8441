import Mathlib.Data.List.Basic
import RunpodJobrunner.Text

/-!
# UTF-8

`str.encode` and `bytes.decode`, the latter with the reason and the end of its
error, as CPython reports them. A byte is a number, and an error keeps the bytes
after the position it ends at. What `decode` makes of a part of an encoded text
is `decode_cut`: a part of the text, or an unexpected end of data.
-/

namespace RunpodJobrunner

/-- Bytes, each less than 256. -/
abbrev Bytes := List ℕ

/-- `UnicodeDecodeError.reason`. -/
inductive Utf8Reason : Type where
  | invalidStartByte | invalidContinuationByte | unexpectedEndOfData
  deriving DecidableEq

/-- A `UnicodeDecodeError`: its reason, and the bytes from `end` on. -/
structure Utf8Error where
  reason : Utf8Reason
  rest : Bytes
  deriving DecidableEq

/-! ## Encoding -/

/-- The bytes of a code point. A surrogate has none. -/
def utf8Char (c : ℕ) : Option Bytes :=
  if c < 0x80 then some [c]
  else if c < 0x800 then some [0xC0 + c / 64, 0x80 + c % 64]
  else if c < 0xD800 ∨ 0xE000 ≤ c ∧ c < 0x10000 then
    some [0xE0 + c / 4096, 0x80 + c / 64 % 64, 0x80 + c % 64]
  else if 0x10000 ≤ c ∧ c < 0x110000 then
    some [0xF0 + c / 262144, 0x80 + c / 4096 % 64, 0x80 + c / 64 % 64, 0x80 + c % 64]
  else none

/-- `text.encode()`; `none` where it raises `UnicodeEncodeError`. -/
def encodeUtf8 : Text → Option Bytes
  | [] => some []
  | c :: t =>
    match utf8Char c, encodeUtf8 t with
    | some b, some bs => some (b ++ bs)
    | _, _ => none

/-! ## Decoding -/

/-- A continuation byte. -/
def isTail (b : ℕ) : Bool := 0x80 ≤ b && b < 0xC0

/-- A second byte after that first one of three or four: neither a code point that
has a shorter form, nor a surrogate, nor one beyond the last. -/
def isSecond (b c : ℕ) : Bool :=
  isTail c && !(b == 0xE0 && c < 0xA0) && !(b == 0xED && 0xA0 ≤ c) && !(b == 0xF0 && c < 0x90) &&
    !(b == 0xF4 && 0x90 ≤ c)

/-- `data.decode()`. -/
def decodeUtf8 : Bytes → Except Utf8Error Text
  | [] => .ok []
  | b :: bs =>
    if b < 0x80 then (decodeUtf8 bs).map fun t => b :: t
    else if b < 0xC2 then .error ⟨.invalidStartByte, bs⟩
    else
      match bs with
      | [] => if b < 0xF5 then .error ⟨.unexpectedEndOfData, []⟩ else .error ⟨.invalidStartByte, []⟩
      | c :: cs =>
        if b < 0xE0 then
          if isTail c then (decodeUtf8 cs).map fun t => ((b - 0xC0) * 64 + (c - 0x80)) :: t
          else .error ⟨.invalidContinuationByte, c :: cs⟩
        else if 0xF5 ≤ b then .error ⟨.invalidStartByte, c :: cs⟩
        else if !isSecond b c then .error ⟨.invalidContinuationByte, c :: cs⟩
        else
          match cs with
          | [] => .error ⟨.unexpectedEndOfData, []⟩
          | d :: ds =>
            if !isTail d then .error ⟨.invalidContinuationByte, d :: ds⟩
            else if b < 0xF0 then
              (decodeUtf8 ds).map fun t =>
                ((b - 0xE0) * 4096 + (c - 0x80) * 64 + (d - 0x80)) :: t
            else
              match ds with
              | [] => .error ⟨.unexpectedEndOfData, []⟩
              | e :: es =>
                if isTail e then
                  (decodeUtf8 es).map fun t =>
                    ((b - 0xF0) * 262144 + (c - 0x80) * 4096 + (d - 0x80) * 64 + (e - 0x80)) :: t
                else .error ⟨.invalidContinuationByte, e :: es⟩

/-! ## Round trip -/

@[simp] theorem isTail_low (n : ℕ) : isTail (128 + n % 64) = true := by
  simp only [isTail, Bool.and_eq_true, decide_eq_true_eq]
  omega

/-- The forms a code point can have. -/
inductive IsUtf8Char (c : ℕ) : Bytes → Prop where
  | one : c < 0x80 → IsUtf8Char c [c]
  | two {x y : ℕ} : 0xC2 ≤ x → x < 0xE0 → isTail y = true → (x - 0xC0) * 64 + (y - 0x80) = c →
      IsUtf8Char c [x, y]
  | three {x y z : ℕ} : 0xE0 ≤ x → x < 0xF0 → isSecond x y = true → isTail z = true →
      (x - 0xE0) * 4096 + (y - 0x80) * 64 + (z - 0x80) = c → IsUtf8Char c [x, y, z]
  | four {x y z u : ℕ} : 0xF0 ≤ x → x < 0xF5 → isSecond x y = true → isTail z = true →
      isTail u = true →
      (x - 0xF0) * 262144 + (y - 0x80) * 4096 + (z - 0x80) * 64 + (u - 0x80) = c →
      IsUtf8Char c [x, y, z, u]

theorem isUtf8Char_of_utf8Char {c : ℕ} {b : Bytes} (h : utf8Char c = some b) : IsUtf8Char c b := by
  unfold utf8Char at h
  split at h
  · next h1 =>
    obtain rfl := Option.some.inj h
    exact .one h1
  split at h
  · obtain rfl := Option.some.inj h
    refine .two ?_ ?_ (isTail_low c) ?_ <;> omega
  split at h
  · next hrange =>
    obtain rfl := Option.some.inj h
    refine .three ?_ ?_ ?_ (isTail_low c) ?_
    · omega
    · omega
    · simp only [isSecond, isTail, Bool.and_eq_true, Bool.not_eq_true', decide_eq_true_eq,
        Bool.and_eq_false_imp, beq_iff_eq, decide_eq_false_iff_not]
      omega
    · omega
  split at h
  · next hrange =>
    obtain rfl := Option.some.inj h
    refine .four ?_ ?_ ?_ (isTail_low (c / 64)) (isTail_low c) ?_
    · omega
    · omega
    · simp only [isSecond, isTail, Bool.and_eq_true, Bool.not_eq_true', decide_eq_true_eq,
        Bool.and_eq_false_imp, beq_iff_eq, decide_eq_false_iff_not]
      omega
    · omega
  · cases h

/-- A whole code point is decoded. -/
theorem IsUtf8Char.decode {c : ℕ} {b : Bytes} (h : IsUtf8Char c b) (rest : Bytes) :
    decodeUtf8 (b ++ rest) = (decodeUtf8 rest).map fun t => c :: t := by
  cases h with
  | one hc => simp [decodeUtf8.eq_def (c :: rest), hc]
  | @two x y hlo hhi htail hval =>
    have h80 : ¬x < 0x80 := by omega
    have hC2 : ¬x < 0xC2 := by omega
    simp [decodeUtf8.eq_def (x :: y :: rest), h80, hC2, hhi, htail, hval]
  | @three x y z hlo hhi hsecond htail hval =>
    have h80 : ¬x < 0x80 := by omega
    have hC2 : ¬x < 0xC2 := by omega
    have hE0 : ¬x < 0xE0 := by omega
    have hF5 : ¬0xF5 ≤ x := by omega
    simp [decodeUtf8.eq_def (x :: y :: z :: rest), h80, hC2, hE0, hF5, hhi, hsecond, htail, hval]
  | @four x y z u hlo hhi hsecond htail htail' hval =>
    have h80 : ¬x < 0x80 := by omega
    have hC2 : ¬x < 0xC2 := by omega
    have hE0 : ¬x < 0xE0 := by omega
    have hF0 : ¬x < 0xF0 := by omega
    have hF5 : ¬0xF5 ≤ x := by omega
    simp [decodeUtf8.eq_def (x :: y :: z :: u :: rest), h80, hC2, hE0, hF0, hF5, hsecond, htail,
      htail', hval]

/-- A part of a code point is an unexpected end. -/
theorem IsUtf8Char.decode_part {c : ℕ} {b p q : Bytes} (h : IsUtf8Char c b) (hb : b = p ++ q)
    (hp : p ≠ []) (hq : q ≠ []) : decodeUtf8 p = .error ⟨.unexpectedEndOfData, []⟩ := by
  obtain ⟨y, q, rfl⟩ := List.exists_cons_of_ne_nil hq
  have hlen := congrArg List.length hb
  have hfirst : ∀ x, 0xC2 ≤ x → x < 0xF5 →
      decodeUtf8 [x] = .error ⟨.unexpectedEndOfData, []⟩ := by
    intro x hlo hhi
    have h80 : ¬x < 0x80 := by omega
    have hC2 : ¬x < 0xC2 := by omega
    simp [decodeUtf8.eq_def [x], h80, hC2, hhi]
  have hsecond : ∀ x y, 0xE0 ≤ x → x < 0xF5 → isSecond x y = true →
      decodeUtf8 [x, y] = .error ⟨.unexpectedEndOfData, []⟩ := by
    intro x y hlo hhi hs
    have h80 : ¬x < 0x80 := by omega
    have hC2 : ¬x < 0xC2 := by omega
    have hE0 : ¬x < 0xE0 := by omega
    have hF5 : ¬0xF5 ≤ x := by omega
    simp [decodeUtf8.eq_def [x, y], h80, hC2, hE0, hF5, hs]
  have hthird : ∀ x y z, 0xF0 ≤ x → x < 0xF5 → isSecond x y = true → isTail z = true →
      decodeUtf8 [x, y, z] = .error ⟨.unexpectedEndOfData, []⟩ := by
    intro x y z hlo hhi hs ht
    have h80 : ¬x < 0x80 := by omega
    have hC2 : ¬x < 0xC2 := by omega
    have hE0 : ¬x < 0xE0 := by omega
    have hF0 : ¬x < 0xF0 := by omega
    have hF5 : ¬0xF5 ≤ x := by omega
    simp [decodeUtf8.eq_def [x, y, z], h80, hC2, hE0, hF0, hF5, hs, ht]
  cases h with
  | one hc =>
    match p, hp with
    | [_], _ | _ :: _ :: _, _ => simp at hlen
  | two hlo hhi htail hval =>
    match p, hp with
    | [x], _ =>
      obtain ⟨rfl, -⟩ := List.cons.inj hb
      exact hfirst _ hlo (by omega)
    | _ :: _ :: _, _ => simp at hlen
  | three hlo hhi hs htail hval =>
    match p, hp with
    | [x], _ =>
      obtain ⟨rfl, -⟩ := List.cons.inj hb
      exact hfirst _ (by omega) (by omega)
    | [x, z], _ =>
      simp only [List.cons_append, List.cons.injEq] at hb
      obtain ⟨rfl, rfl, -⟩ := hb
      exact hsecond _ _ hlo (by omega) hs
    | _ :: _ :: _ :: _, _ => simp at hlen
  | four hlo hhi hs htail htail' hval =>
    match p, hp with
    | [x], _ =>
      obtain ⟨rfl, -⟩ := List.cons.inj hb
      exact hfirst _ (by omega) hhi
    | [x, z], _ =>
      simp only [List.cons_append, List.cons.injEq] at hb
      obtain ⟨rfl, rfl, -⟩ := hb
      exact hsecond _ _ (by omega) hhi hs
    | [x, z, u], _ =>
      simp only [List.cons_append, List.cons.injEq] at hb
      obtain ⟨rfl, rfl, rfl, -⟩ := hb
      exact hthird _ _ _ hlo hhi hs htail
    | _ :: _ :: _ :: _ :: _, _ => simp at hlen

/-- The bytes of a text are those of its first code point and of the rest. -/
theorem encodeUtf8_cons {c : ℕ} {t : Text} {bs : Bytes} (h : encodeUtf8 (c :: t) = some bs) :
    ∃ b rest, utf8Char c = some b ∧ encodeUtf8 t = some rest ∧ bs = b ++ rest := by
  rw [encodeUtf8] at h
  split at h
  · next b rest hb hrest => exact ⟨b, rest, hb, hrest, (Option.some.inj h).symm⟩
  · cases h

theorem encodeUtf8_append {s t : Text} {bs cs : Bytes} (hs : encodeUtf8 s = some bs)
    (ht : encodeUtf8 t = some cs) : encodeUtf8 (s ++ t) = some (bs ++ cs) := by
  induction s generalizing bs with
  | nil =>
    obtain rfl := Option.some.inj hs
    exact ht
  | cons c s ih =>
    obtain ⟨b, rest, hb, hrest, rfl⟩ := encodeUtf8_cons hs
    rw [List.cons_append, encodeUtf8, hb, ih hrest, List.append_assoc]

/-- **Round trip.** -/
theorem decode_encode {t : Text} {bs : Bytes} (h : encodeUtf8 t = some bs) :
    decodeUtf8 bs = .ok t := by
  induction t generalizing bs with
  | nil =>
    obtain rfl := Option.some.inj h
    rfl
  | cons c t ih =>
    obtain ⟨b, rest, hb, hrest, rfl⟩ := encodeUtf8_cons h
    rw [(isUtf8Char_of_utf8Char hb).decode, ih hrest]
    rfl

/-- **Cuts.** A part of an encoded text is an encoded part of the text, or ends
unexpectedly. -/
theorem decode_cut {t : Text} {p r : Bytes} (h : encodeUtf8 t = some (p ++ r)) :
    (∃ s u, t = s ++ u ∧ encodeUtf8 s = some p ∧ encodeUtf8 u = some r) ∨
      decodeUtf8 p = .error ⟨.unexpectedEndOfData, []⟩ := by
  induction t generalizing p with
  | nil =>
    obtain ⟨rfl, rfl⟩ := List.append_eq_nil_iff.mp (Option.some.inj h).symm
    exact .inl ⟨[], [], rfl, rfl, rfl⟩
  | cons c t ih =>
    obtain ⟨b, rest, hb, hrest, hbs⟩ := encodeUtf8_cons h
    have hchar := isUtf8Char_of_utf8Char hb
    rcases List.append_eq_append_iff.mp hbs with ⟨q, hq, hr⟩ | ⟨p', rfl, hrest'⟩
    · -- the cut is inside the first code point, or at one of its ends
      by_cases hp : p = []
      · subst hp
        exact .inl ⟨[], c :: t, rfl, rfl, h⟩
      by_cases hq' : q = []
      · subst hq'
        refine .inl ⟨[c], t, rfl, ?_, ?_⟩
        · rw [encodeUtf8, hb, hq]
          simp [encodeUtf8]
        · rw [hrest, hr]
          rfl
      · exact .inr (hchar.decode_part hq hp hq')
    · rw [hrest'] at hrest
      rcases ih hrest with ⟨s, u, rfl, hs, hu⟩ | herror
      · refine .inl ⟨c :: s, u, rfl, ?_, hu⟩
        rw [encodeUtf8, hb, hs]
      · right
        rw [hchar.decode, herror]
        rfl

/-! ## Parts of a text -/

theorem encodeUtf8_split {s t : Text} {b : Bytes} (h : encodeUtf8 (s ++ t) = some b) :
    ∃ x y, encodeUtf8 s = some x ∧ encodeUtf8 t = some y ∧ b = x ++ y := by
  induction s generalizing b with
  | nil => exact ⟨[], b, rfl, h, rfl⟩
  | cons c s ih =>
    obtain ⟨x, rest, hx, hrest, rfl⟩ := encodeUtf8_cons h
    obtain ⟨y, z, hy, hz, rfl⟩ := ih hrest
    exact ⟨x ++ y, z, by rw [encodeUtf8, hx, hy], hz, (List.append_assoc _ _ _).symm⟩

/-- A newline byte is a newline. -/
theorem newline_of_encodeUtf8 {t : Text} {b : Bytes} (h : encodeUtf8 t = some b) (hb : 10 ∈ b) :
    10 ∈ t := by
  induction t generalizing b with
  | nil =>
    obtain rfl := Option.some.inj h
    cases hb
  | cons c t ih =>
    obtain ⟨x, rest, hx, hrest, rfl⟩ := encodeUtf8_cons h
    rcases List.mem_append.mp hb with hmem | hmem
    · have hchar := isUtf8Char_of_utf8Char hx
      have htail : ∀ y, isTail y = true → 10 ≠ y := by
        rintro y hy rfl
        cases hy
      have hsecond : ∀ x y, isSecond x y = true → 10 ≠ y := by
        rintro x y hy rfl
        simp [isSecond, isTail] at hy
      have hc : c = 10 := by
        cases hchar with
        | one _ => exact (List.mem_singleton.mp hmem).symm
        | two hx _ hy _ =>
          have hne := htail _ hy
          simp only [List.mem_cons, List.not_mem_nil, or_false] at hmem
          omega
        | three hx _ hy hz _ =>
          have hne := hsecond _ _ hy
          have hne' := htail _ hz
          simp only [List.mem_cons, List.not_mem_nil, or_false] at hmem
          omega
        | four hx _ hy hz hu _ =>
          have hne := hsecond _ _ hy
          have hne' := htail _ hz
          have hne'' := htail _ hu
          simp only [List.mem_cons, List.not_mem_nil, or_false] at hmem
          omega
      exact hc ▸ List.mem_cons_self
    · exact List.mem_cons_of_mem _ (ih hrest hmem)

/-- The lines of the bytes are the bytes of the lines. -/
theorem encodeUtf8_splitOn {t : Text} {b : Bytes} (h : encodeUtf8 t = some b) :
    List.Forall₂ (fun line bytes => encodeUtf8 line = some bytes) (t.splitOn 10) (b.splitOn 10) := by
  induction t generalizing b with
  | nil =>
    obtain rfl := Option.some.inj h
    exact .cons rfl .nil
  | cons c t ih =>
    obtain ⟨x, bs, hx, hbs, rfl⟩ := encodeUtf8_cons h
    by_cases hc : c = 10
    · subst hc
      obtain rfl : [10] = x := Option.some.inj hx
      simp only [List.splitOn_cons_eq_if_modifyHead, beq_self_eq_true, if_true, List.cons_append,
        List.nil_append]
      exact .cons rfl (ih hbs)
    · have hone : encodeUtf8 [c] = some x := by simp [encodeUtf8, hx]
      have hnone : 10 ∉ x := fun hmem =>
        hc (List.mem_singleton.mp (newline_of_encodeUtf8 hone hmem)).symm
      rw [List.splitOn_cons_eq_if_modifyHead, if_neg (by simpa using hc), splitOn_append hnone]
      have hrest := ih hbs
      generalize t.splitOn 10 = lines, bs.splitOn 10 = parts at hrest
      cases hrest with
      | nil => exact .nil
      | cons hfirst hrest => exact .cons (by simp [encodeUtf8, hx, hfirst]) hrest

/-! ## What is decoded -/

theorem isTail_iff {y : ℕ} : isTail y = true ↔ 0x80 ≤ y ∧ y < 0xC0 := by
  simp only [isTail, Bool.and_eq_true, decide_eq_true_eq]

theorem isSecond_iff {x y : ℕ} : isSecond x y = true ↔
    (0x80 ≤ y ∧ y < 0xC0) ∧ (x = 0xE0 → 0xA0 ≤ y) ∧ (x = 0xED → y < 0xA0) ∧ (x = 0xF0 → 0x90 ≤ y) ∧
      (x = 0xF4 → y < 0x90) := by
  simp only [isSecond, isTail, Bool.and_eq_true, Bool.not_eq_true', decide_eq_true_eq,
    Bool.and_eq_false_imp, beq_iff_eq, decide_eq_false_iff_not]
  omega

/-- The bytes of a code point are those that it is written with. -/
theorem IsUtf8Char.encode {c : ℕ} {b : Bytes} (h : IsUtf8Char c b) : utf8Char c = some b := by
  cases h with
  | one hc => exact if_pos hc
  | @two x y hlo hhi htail hval =>
    obtain ⟨hy, hy'⟩ := isTail_iff.mp htail
    rw [utf8Char, if_neg (by omega), if_pos (by omega)]
    have hx : 0xC0 + c / 64 = x := by omega
    have hy : 0x80 + c % 64 = y := by omega
    rw [hx, hy]
  | @three x y z hlo hhi hsecond htail hval =>
    obtain ⟨hz, hz'⟩ := isTail_iff.mp htail
    obtain ⟨hy, h1, h2, -⟩ := isSecond_iff.mp hsecond
    rw [utf8Char, if_neg (by omega), if_neg (by omega), if_pos (by omega)]
    have hx : 0xE0 + c / 4096 = x := by omega
    have hy : 0x80 + c / 64 % 64 = y := by omega
    have hz : 0x80 + c % 64 = z := by omega
    rw [hx, hy, hz]
  | @four x y z u hlo hhi hsecond htail htail' hval =>
    obtain ⟨hz, hz'⟩ := isTail_iff.mp htail
    obtain ⟨hu, hu'⟩ := isTail_iff.mp htail'
    obtain ⟨hy, -, -, h3, h4⟩ := isSecond_iff.mp hsecond
    rw [utf8Char, if_neg (by omega), if_neg (by omega), if_neg (by omega), if_pos (by omega)]
    have hx : 0xF0 + c / 262144 = x := by omega
    have hy : 0x80 + c / 4096 % 64 = y := by omega
    have hz : 0x80 + c / 64 % 64 = z := by omega
    have hu : 0x80 + c % 64 = u := by omega
    rw [hx, hy, hz, hu]

/-- Some of the bytes of a code point, but not all. -/
def IsCutChar (p : Bytes) : Prop := p ≠ [] ∧ ∃ c q, q ≠ [] ∧ utf8Char c = some (p ++ q)

theorem isCutChar_two {x : ℕ} (hlo : 0xC2 ≤ x) (hhi : x < 0xE0) : IsCutChar [x] :=
  ⟨nofun, _, [0x80], nofun, (IsUtf8Char.two hlo hhi rfl rfl).encode⟩

theorem isCutChar_three {x y : ℕ} (hlo : 0xE0 ≤ x) (hhi : x < 0xF0) (hy : isSecond x y = true) :
    IsCutChar [x] ∧ IsCutChar [x, y] := by
  have hchar := (IsUtf8Char.three (z := 0x80) hlo hhi hy rfl rfl).encode
  exact ⟨⟨nofun, _, [y, 0x80], nofun, hchar⟩, nofun, _, [0x80], nofun, hchar⟩

theorem isCutChar_four {x y z : ℕ} (hlo : 0xF0 ≤ x) (hhi : x < 0xF5) (hy : isSecond x y = true)
    (hz : isTail z = true) : IsCutChar [x] ∧ IsCutChar [x, y] ∧ IsCutChar [x, y, z] := by
  have hchar := (IsUtf8Char.four (u := 0x80) hlo hhi hy hz rfl rfl).encode
  exact ⟨⟨nofun, _, [y, z, 0x80], nofun, hchar⟩, ⟨nofun, _, [z, 0x80], nofun, hchar⟩, nofun, _,
    [0x80], nofun, hchar⟩

/-- Every first byte of three or four has a second. -/
theorem exists_isSecond (x : ℕ) : ∃ y, isSecond x y = true := by
  by_cases hlow : x = 0xED ∨ x = 0xF4
  · refine ⟨0x80, isSecond_iff.mpr ?_⟩
    omega
  · refine ⟨0xB0, isSecond_iff.mpr ?_⟩
    omega

theorem isCutChar_first {x : ℕ} (hlo : 0xC2 ≤ x) (hhi : x < 0xF5) : IsCutChar [x] := by
  obtain ⟨y, hy⟩ := exists_isSecond x
  by_cases htwo : x < 0xE0
  · exact isCutChar_two hlo htwo
  by_cases hthree : x < 0xF0
  · exact (isCutChar_three (by omega) hthree hy).1
  · exact (isCutChar_four (z := 0x80) (by omega) hhi hy rfl).1

/-- Bytes begin with a code point, are a part of one, or are refused. -/
theorem utf8_cases (b : Bytes) :
    b = [] ∨ (∃ c w r, IsUtf8Char c w ∧ b = w ++ r ∧ w ≠ []) ∨ IsCutChar b ∨
      ∃ e, decodeUtf8 b = .error e ∧ e.reason ≠ .unexpectedEndOfData := by
  cases b with
  | nil => exact .inl rfl
  | cons x bs =>
    right
    by_cases h80 : x < 0x80
    · exact .inl ⟨x, [x], bs, .one h80, rfl, nofun⟩
    by_cases hC2 : x < 0xC2
    · have hstart : decodeUtf8 (x :: bs) = .error ⟨.invalidStartByte, bs⟩ := by
        simp [decodeUtf8.eq_def (x :: bs), h80, hC2]
      exact .inr (.inr ⟨_, hstart, nofun⟩)
    by_cases hF5 : 0xF5 ≤ x
    · have hstart : decodeUtf8 (x :: bs) = .error ⟨.invalidStartByte, bs⟩ := by
        have hE0 : ¬x < 0xE0 := by omega
        have hF5' : ¬x < 0xF5 := by omega
        cases bs <;> simp [decodeUtf8.eq_def (x :: _), h80, hC2, hE0, hF5, hF5']
      exact .inr (.inr ⟨_, hstart, nofun⟩)
    cases bs with
    | nil => exact .inr (.inl (isCutChar_first (by omega) (by omega)))
    | cons y cs =>
      by_cases hE0 : x < 0xE0
      · by_cases hy : isTail y = true
        · exact .inl ⟨_, [x, y], cs, .two (by omega) hE0 hy rfl, rfl, nofun⟩
        · refine .inr (.inr ⟨⟨.invalidContinuationByte, y :: cs⟩, ?_, nofun⟩)
          simp [decodeUtf8.eq_def (x :: y :: cs), h80, hC2, hE0, hy]
      by_cases hy : isSecond x y = true
      · cases cs with
        | nil =>
          by_cases hF0 : x < 0xF0
          · exact .inr (.inl (isCutChar_three (by omega) hF0 hy).2)
          · exact .inr (.inl (isCutChar_four (z := 0x80) (by omega) (by omega) hy rfl).2.1)
        | cons z ds =>
          by_cases hz : isTail z = true
          · by_cases hF0 : x < 0xF0
            · exact .inl ⟨_, [x, y, z], ds, .three (by omega) hF0 hy hz rfl, rfl, nofun⟩
            cases ds with
            | nil => exact .inr (.inl (isCutChar_four (by omega) (by omega) hy hz).2.2)
            | cons u es =>
              by_cases hu : isTail u = true
              · exact .inl ⟨_, [x, y, z, u], es, .four (by omega) (by omega) hy hz hu rfl, rfl, nofun⟩
              · refine .inr (.inr ⟨⟨.invalidContinuationByte, u :: es⟩, ?_, nofun⟩)
                simp [decodeUtf8.eq_def (x :: y :: z :: u :: es), h80, hC2, hE0, hF5, hF0, hy, hz, hu]
          · refine .inr (.inr ⟨⟨.invalidContinuationByte, z :: ds⟩, ?_, nofun⟩)
            simp [decodeUtf8.eq_def (x :: y :: z :: ds), h80, hC2, hE0, hF5, hy, hz]
      · refine .inr (.inr ⟨⟨.invalidContinuationByte, y :: cs⟩, ?_, nofun⟩)
        simp [decodeUtf8.eq_def (x :: y :: cs), h80, hC2, hE0, hF5, hy]

/-- **Round trip.** What is decoded is what was encoded. -/
theorem encode_decode {b : Bytes} {t : Text} (h : decodeUtf8 b = .ok t) : encodeUtf8 t = some b := by
  induction hn : b.length using Nat.strongRecOn generalizing b t with
  | ind n ih =>
    rcases utf8_cases b with rfl | ⟨c, w, r, hchar, rfl, hne⟩ | ⟨hne, c, q, hq, hchar⟩ | ⟨e, he, -⟩
    · obtain rfl := Except.ok.inj h
      rfl
    · rw [hchar.decode] at h
      cases hr : decodeUtf8 r with
      | error e =>
        rw [hr] at h
        cases h
      | ok u =>
        rw [hr] at h
        obtain rfl := Except.ok.inj h
        have hpos := List.length_pos_of_ne_nil hne
        rw [List.length_append] at hn
        rw [encodeUtf8, hchar.encode, ih r.length (by omega) hr rfl]
    · rw [(isUtf8Char_of_utf8Char hchar).decode_part rfl hne hq] at h
      cases h
    · rw [he] at h
      cases h

/-- Bytes that end unexpectedly end in a part of a code point. -/
theorem decode_unexpectedEnd {b : Bytes} {e : Utf8Error} (h : decodeUtf8 b = .error e)
    (he : e.reason = .unexpectedEndOfData) :
    ∃ s t p, b = s ++ p ∧ encodeUtf8 t = some s ∧ IsCutChar p := by
  induction hn : b.length using Nat.strongRecOn generalizing b with
  | ind n ih =>
    rcases utf8_cases b with rfl | ⟨c, w, r, hchar, rfl, hne⟩ | hcut | ⟨e', he', hreason⟩
    · cases h
    · rw [hchar.decode] at h
      cases hr : decodeUtf8 r with
      | ok u =>
        rw [hr] at h
        cases h
      | error e' =>
        rw [hr] at h
        obtain rfl := Except.error.inj h
        have hpos := List.length_pos_of_ne_nil hne
        rw [List.length_append] at hn
        obtain ⟨s, t, p, rfl, ht, hp⟩ := ih r.length (by omega) hr rfl
        exact ⟨w ++ s, c :: t, p, by rw [List.append_assoc], by rw [encodeUtf8, hchar.encode, ht], hp⟩
    · exact ⟨[], [], b, rfl, rfl, hcut⟩
    · rw [he'] at h
      obtain rfl := Except.error.inj h
      exact absurd he hreason

/-- What follows encoded text is decoded on its own. -/
theorem decode_append {t : Text} {s : Bytes} (h : encodeUtf8 t = some s) (b : Bytes) :
    decodeUtf8 (s ++ b) = (decodeUtf8 b).map fun u => t ++ u := by
  induction t generalizing s with
  | nil =>
    obtain rfl := Option.some.inj h
    show decodeUtf8 b = (decodeUtf8 b).map fun u => u
    cases decodeUtf8 b <;> rfl
  | cons c t ih =>
    obtain ⟨w, r, hw, hr, rfl⟩ := encodeUtf8_cons h
    rw [List.append_assoc, (isUtf8Char_of_utf8Char hw).decode, ih hr]
    cases decodeUtf8 b <;> rfl

theorem IsCutChar.decode {p : Bytes} (h : IsCutChar p) :
    decodeUtf8 p = .error ⟨.unexpectedEndOfData, []⟩ := by
  obtain ⟨hne, c, q, hq, hchar⟩ := h
  exact (isUtf8Char_of_utf8Char hchar).decode_part rfl hne hq

/-- The code point that goes on with a part of one. It is not ASCII. -/
theorem IsCutChar.goes_on {p r : Bytes} {u : Text} (h : IsCutChar p)
    (hu : decodeUtf8 (p ++ r) = .ok u) :
    ∃ c q v, utf8Char c = some (p ++ q) ∧ 128 ≤ c ∧ u = c :: v := by
  have herror := h.decode
  obtain ⟨hne, c', q', hq', hchar'⟩ := h
  rcases utf8_cases (p ++ r) with hnil | ⟨c, w, r', hchar, heq, -⟩ | hcut | ⟨e, he, -⟩
  · exact absurd (List.append_eq_nil_iff.mp hnil).1 hne
  · have hhead : ∃ v, u = c :: v := by
      rw [heq, hchar.decode] at hu
      cases hr : decodeUtf8 r' with
      | error e =>
        rw [hr] at hu
        cases hu
      | ok v =>
        rw [hr] at hu
        exact ⟨v, (Except.ok.inj hu).symm⟩
    obtain ⟨v, rfl⟩ := hhead
    rcases List.append_eq_append_iff.mp heq with ⟨q, rfl, -⟩ | ⟨x, rfl, -⟩
    · refine ⟨c, q, v, hchar.encode, Nat.le_of_not_lt fun hascii => ?_, rfl⟩
      -- an ASCII character has one byte, and a part of one is all of it
      have hone : [c] = p ++ q := Option.some.inj ((if_pos hascii).symm.trans hchar.encode)
      obtain ⟨rfl, -⟩ | ⟨rfl, -⟩ := List.append_eq_singleton_iff.mp hone.symm
      · exact hne rfl
      · have hwhole := (IsUtf8Char.one hascii).decode []
        rw [List.append_nil, herror] at hwhole
        cases hwhole
    · -- a whole code point at the front of a part of another
      have hdecode := @decode_encode [c'] (w ++ x ++ q') (by simp [encodeUtf8, hchar'])
      rw [List.append_assoc, hchar.decode] at hdecode
      cases hrest : decodeUtf8 (x ++ q') with
      | error e =>
        rw [hrest] at hdecode
        cases hdecode
      | ok t =>
        rw [hrest] at hdecode
        obtain ⟨-, rfl⟩ := List.cons.inj (Except.ok.inj hdecode)
        have hencode := encode_decode hrest
        have hnil := Option.some.inj hencode
        exact absurd (List.append_eq_nil_iff.mp hnil.symm).2 hq'
  · rw [hcut.decode] at hu
    cases hu
  · rw [he] at hu
    cases hu

end RunpodJobrunner
