import RunpodJobrunner.Journal
import RunpodJobrunner.KeyOrder

/-!
# The lines of a journal

The text of a record holds no control character, and a wide character only where a
string of the record does. So a record is one line, unless one of its strings holds
one of the line boundaries that JSON does not escape.
-/

namespace RunpodJobrunner

open Json Journal

/-! ## The characters of a record -/

namespace Json

mutual

/-- A key or a string holds a character of that kind. -/
def anyChar (p : ℕ → Bool) : Json → Bool
  | str t => t.any p
  | arr vs => anyCharItems p vs
  | obj kvs => anyCharMembers p kvs
  | _ => false

/-- In some element. -/
def anyCharItems (p : ℕ → Bool) : List Json → Bool
  | [] => false
  | v :: vs => anyChar p v || anyCharItems p vs

/-- In some member. -/
def anyCharMembers (p : ℕ → Bool) : List (Text × Json) → Bool
  | [] => false
  | (k, v) :: kvs => k.any p || anyChar p v || anyCharMembers p kvs

end

section

variable {p : ℕ → Bool} {w : Text}

/-- A character of some element. -/
theorem anyCharItems_eq (vs : List Json) : anyCharItems p vs = vs.any (anyChar p) := by
  induction vs with
  | nil => rfl
  | cons v vs ih => rw [anyCharItems, ih, List.any_cons]

/-- A character of some key or value. -/
theorem anyCharMembers_eq (kvs : List (Text × Json)) :
    anyCharMembers p kvs = kvs.any fun q => q.1.any p || anyChar p q.2 := by
  induction kvs with
  | nil => rfl
  | cons q kvs ih => rw [anyCharMembers, ih, List.any_cons]

mutual

/-- The order of keys does not matter. -/
theorem anyChar_sortKeys : ∀ v : Json, anyChar p v.sortKeys = anyChar p v
  | null | bool _ | int _ | float _ | decimal _ | str _ => rfl
  | arr vs => anyCharItems_sortKeys vs
  | obj kvs => by
    have hmembers := anyCharMembers_sortKeys kvs
    rw [sortKeys, anyChar, anyChar, ← hmembers, anyCharMembers_eq, anyCharMembers_eq,
      (sortMembers_perm _).any_eq]

/-- `anyChar_sortKeys`, of the elements of an array. -/
theorem anyCharItems_sortKeys : ∀ vs : List Json, anyCharItems p (sortKeysList vs) = anyCharItems p vs
  | [] => rfl
  | v :: vs => by
    rw [sortKeysList, anyCharItems, anyCharItems, anyChar_sortKeys v, anyCharItems_sortKeys vs]

/-- `anyChar_sortKeys`, of the members of an object. -/
theorem anyCharMembers_sortKeys : ∀ kvs : List (Text × Json),
    anyCharMembers p (sortKeysMembers kvs) = anyCharMembers p kvs
  | [] => rfl
  | (k, v) :: kvs => by
    rw [sortKeysMembers, anyCharMembers, anyCharMembers, anyChar_sortKeys v,
      anyCharMembers_sortKeys kvs]

end

/-- What JSON adds to the characters of strings: none of that kind. -/
def IsWide (p : ℕ → Bool) : Prop := ∀ c < 128, p c = false

/-- ASCII has no wide character. -/
theorem any_of_ascii (hp : IsWide p) (hw : ∀ c ∈ w, c < 128) : w.any p = false := by
  rw [List.any_eq_false]
  intro c hc
  simp [hp c (hw c hc)]

/-- A hexadecimal digit is printable. -/
theorem hexDigit_lt (n : ℕ) (hn : n < 16) : 32 ≤ hexDigit n ∧ hexDigit n < 128 := by
  unfold hexDigit
  split <;> omega

/-- A `\u` escape is printable ASCII. -/
theorem unicodeEscape_ascii (c : ℕ) : ∀ e ∈ unicodeEscape c, 32 ≤ e ∧ e < 128 := by
  intro e he
  have hdigit : ∀ n, 32 ≤ hexDigit (n % 16) ∧ hexDigit (n % 16) < 128 := fun n =>
    hexDigit_lt _ (Nat.mod_lt _ (by decide))
  simp only [unicodeEscape, List.mem_cons, List.not_mem_nil, or_false] at he
  rcases he with rfl | rfl | rfl | rfl | rfl | rfl
  · decide
  · decide
  all_goals exact hdigit _

/-- A character is written as itself, or in ASCII. -/
theorem escapeChar_cases (c : ℕ) :
    (escapeChar false c = [c] ∧ 32 ≤ c) ∨ (c < 128 ∧ ∀ e ∈ escapeChar false c, 32 ≤ e ∧ e < 128) := by
  unfold escapeChar
  split
  · exact .inr ⟨by omega, by decide⟩
  split
  · exact .inr ⟨by omega, by decide⟩
  split
  · exact .inr ⟨by omega, by decide⟩
  split
  · exact .inr ⟨by omega, by decide⟩
  split
  · exact .inr ⟨by omega, by decide⟩
  split
  · exact .inr ⟨by omega, by decide⟩
  split
  · exact .inr ⟨by omega, by decide⟩
  split
  · exact .inr ⟨by omega, unicodeEscape_ascii c⟩
  · exact .inl ⟨by simp, by omega⟩

/-- What is written of a string is printable. -/
theorem stringTail_printable (t : Text) : ∀ c ∈ stringTail false t, 32 ≤ c := by
  induction t with
  | nil => decide
  | cons c t ih =>
    intro e he
    rcases List.mem_append.mp he with he | he
    · rcases escapeChar_cases c with ⟨heq, hc⟩ | ⟨-, hall⟩
      · rw [heq] at he
        exact List.mem_singleton.mp he ▸ hc
      · exact (hall e he).1
    · exact ih e he

/-- Writing the inside of a string keeps its wide characters. -/
theorem stringTail_any (hp : IsWide p) (t : Text) : (stringTail false t).any p = t.any p := by
  induction t with
  | nil => simp [stringTail, hp 34]
  | cons c t ih =>
    rw [stringTail, List.any_append, ih, List.any_cons]
    rcases escapeChar_cases c with ⟨heq, -⟩ | ⟨hc, hall⟩
    · rw [heq]
      simp
    · rw [any_of_ascii hp fun e he => (hall e he).2, hp c hc]

/-- Writing a string keeps its wide characters. -/
theorem stringText_any (hp : IsWide p) (t : Text) : (stringText false t).any p = t.any p := by
  rw [stringText, List.any_cons, stringTail_any hp, hp 34 (by decide), Bool.false_or]

theorem digit_ascii {c : ℕ} (h : isDigit c = true) : 32 ≤ c ∧ c < 128 := by
  have hrange : 48 ≤ c ∧ c ≤ 57 := by simpa [isDigit] using h
  omega

/-- Numbers are in ASCII. -/
theorem NumberParts.ascii (l : NumberParts) : ∀ c ∈ l.text, 32 ≤ c ∧ c < 128 := by
  intro c hc
  rcases List.mem_append.mp hc with hc | hc
  · split at hc
    · obtain rfl := List.mem_singleton.mp hc
      decide
    · cases hc
  rcases List.mem_append.mp hc with hc | hc
  · exact digit_ascii (natText_digits _ _ hc)
  rcases List.mem_append.mp hc with hc | hc
  · split at hc
    · cases hc
    · rcases List.mem_cons.mp hc with rfl | hc
      · decide
      · exact digit_ascii (l.frac_digits c hc)
  · cases hexp : l.exp with
    | none =>
      rw [hexp] at hc
      cases hc
    | some e =>
      obtain ⟨hm, hsign, -, hdigits⟩ := l.exp_wf e hexp
      rw [hexp] at hc
      rcases List.mem_cons.mp hc with hmark | hc
      · omega
      rcases List.mem_append.mp hc with hc | hc
      · rcases hsign with hs | hs | hs <;> rw [hs] at hc <;> simp at hc <;> omega
      · exact digit_ascii (hdigits c hc)

end

variable {d : Decoder} {p : ℕ → Bool}

/-- The text of a value: printable, and wide where the value is. -/
structure TextOf (p : ℕ → Bool) (wide : Bool) (w : Text) : Prop where
  printable : ∀ c ∈ w, 32 ≤ c
  any : w.any p = wide

/-- Printable ASCII is a text without wide characters. -/
theorem textOf_ascii (hp : IsWide p) {w : Text} (hw : ∀ c ∈ w, 32 ≤ c ∧ c < 128) :
    TextOf p false w :=
  ⟨fun c hc => (hw c hc).1, any_of_ascii hp fun c hc => (hw c hc).2⟩

/-- The wide characters of two texts are those of one after the other. -/
theorem TextOf.append {a b : Bool} {u v : Text} (hu : TextOf p a u) (hv : TextOf p b v) :
    TextOf p (a || b) (u ++ v) := by
  refine ⟨fun c hc => ?_, by rw [List.any_append, hu.any, hv.any]⟩
  rcases List.mem_append.mp hc with hc | hc
  · exact hu.printable c hc
  · exact hv.printable c hc

theorem TextOf.cons {a : Bool} {c : ℕ} {u : Text} (hp : IsWide p) (hc : 32 ≤ c ∧ c < 128)
    (hu : TextOf p a u) : TextOf p a (c :: u) := by
  have hone : TextOf p false [c] := textOf_ascii hp fun e he => List.mem_singleton.mp he ▸ hc
  simpa using hone.append hu

/-- A string is written with its own wide characters. -/
theorem textOf_string (hp : IsWide p) (t : Text) : TextOf p (t.any p) (stringText false t) := by
  refine ⟨fun c hc => ?_, stringText_any hp t⟩
  rcases List.mem_cons.mp hc with rfl | hc
  · decide
  · exact stringTail_printable t c hc

mutual

/-- **What is written of a value** has its wide characters and is printable. -/
theorem textOf_write (hp : IsWide p) : ∀ (v : Json) {w : Text}, write rawText v = some w →
    Storable d v → TextOf p (anyChar p v) w
  | null, w, h, _ => by
    obtain rfl := Option.some.inj h
    exact textOf_ascii hp (by decide)
  | bool b, w, h, _ => by
    obtain rfl := Option.some.inj h
    cases b <;> exact textOf_ascii hp (by decide)
  | int i, w, h, _ => by
    obtain ⟨l, rfl⟩ := numberParts_int h
    exact textOf_ascii hp l.ascii
  | float (.literal l), w, h, hv => by
    obtain rfl := Option.some.inj h
    obtain ⟨parts, hparts⟩ := numberParts_literal hv.2
    rw [← hparts]
    exact textOf_ascii hp parts.ascii
  | float .nan, w, h, _ | float (.infinity _), w, h, _ | decimal _, w, h, _ => by cases h
  | str t, w, h, _ => by
    obtain rfl := Option.some.inj h
    exact textOf_string hp t
  | arr vs, w, h, hv => by
    obtain ⟨t, ht, rfl⟩ := Option.map_eq_some_iff.mp h
    have hitems := textOf_writeItems hp vs ht hv
    exact hitems.cons hp (by decide)
  | obj kvs, w, h, hv => by
    obtain ⟨t, ht, rfl⟩ := Option.map_eq_some_iff.mp h
    have hmembers := textOf_writeMembers hp kvs ht hv.2
    exact hmembers.cons hp (by decide)

/-- `textOf_write`, of the elements of an array. -/
theorem textOf_writeItems (hp : IsWide p) : ∀ (vs : List Json) {w : Text},
    writeItems rawText vs = some w → StorableItems d vs → TextOf p (anyCharItems p vs) w
  | [], w, h, _ => by
    obtain rfl := Option.some.inj h
    exact textOf_ascii hp (by decide)
  | v :: vs, w, h, hv => by
    obtain ⟨t, u, ht, hu, rfl⟩ := writeItems_cons h
    have hvalue := textOf_write hp v ht hv.1
    have hitems := textOf_writeItems hp vs hu hv.2
    split
    · exact hvalue.append hitems
    · exact hvalue.append (hitems.cons hp (by decide))

/-- `textOf_write`, of the members of an object. -/
theorem textOf_writeMembers (hp : IsWide p) : ∀ (kvs : List (Text × Json)) {w : Text},
    writeMembers rawText kvs = some w → StorableMembers d kvs → TextOf p (anyCharMembers p kvs) w
  | [], w, h, _ => by
    obtain rfl := Option.some.inj h
    exact textOf_ascii hp (by decide)
  | (k, v) :: kvs, w, h, hv => by
    obtain ⟨t, u, ht, hu, rfl⟩ := writeMembers_cons h
    have hvalue := textOf_write hp v ht hv.2.1
    have hmembers := textOf_writeMembers hp kvs hu hv.2.2
    have hmember := (textOf_string hp k).append (hvalue.cons hp (by decide : 32 ≤ 58 ∧ 58 < 128))
    split
    · exact hmember.append hmembers
    · exact hmember.append (hmembers.cons hp (by decide))

end

end Json

/-! ## Lines -/

/-- The line boundaries that JSON does not escape. -/
def isWideBreak (c : ℕ) : Bool := c == 0x85 || c == 0x2028 || c == 0x2029

/-- The line breaks beyond ASCII are wide characters. -/
theorem isWide_isWideBreak : IsWide isWideBreak := by
  intro c hc
  simp only [isWideBreak, Bool.or_eq_false_iff, beq_eq_false_iff_ne]
  omega

/-- Among printable characters only wide ones break lines. -/
theorem isLineBreak_printable {c : ℕ} (h : 32 ≤ c) : isLineBreak c = isWideBreak c := by
  have hcontrol : (10 ≤ c && c ≤ 13) = false ∧ (28 ≤ c && c ≤ 30) = false := by
    simp only [Bool.and_eq_false_imp, decide_eq_true_eq, decide_eq_false_iff_not]
    omega
  rw [isLineBreak, hcontrol.1, hcontrol.2]
  rfl

section

variable {line w t : Text} {c : ℕ}

/-- A line goes on up to the next line break. -/
theorem splitLinesFrom_cons (h : c ≠ 13) : splitLinesFrom line (c :: t) =
    if isLineBreak c then line :: splitLines t else splitLinesFrom (line ++ [c]) t := by
  rw [splitLinesFrom.eq_def]
  split
  · next heq => cases heq
  · next heq => exact absurd (List.cons.inj heq).1 h
  · next heq =>
    obtain ⟨rfl, rfl⟩ := List.cons.inj heq
    rfl

/-- Printable text up to a newline is one line, if no boundary is in it. -/
theorem splitLinesFrom_clean (hw : TextOf isWideBreak false w) :
    splitLinesFrom line (w ++ 10 :: t) = (line ++ w) :: splitLines t := by
  obtain ⟨hprintable, hany⟩ := hw
  induction w generalizing line with
  | nil =>
    rw [List.nil_append, splitLinesFrom_cons (by decide), List.append_nil]
    rfl
  | cons c w ih =>
    have hc := hprintable c List.mem_cons_self
    rw [List.any_cons, Bool.or_eq_false_iff] at hany
    have htail := @ih (line ++ [c]) (fun e he => hprintable e (List.mem_cons_of_mem _ he)) hany.2
    rw [List.cons_append, splitLinesFrom_cons (by omega), isLineBreak_printable hc, hany.1,
      if_neg Bool.false_ne_true, htail, List.append_assoc]
    rfl

/-- A boundary in it makes more than one line. -/
theorem splitLinesFrom_length (hprintable : ∀ c ∈ w, 32 ≤ c) :
    (splitLinesFrom line (w ++ 10 :: t)).length =
      w.countP isWideBreak + 1 + (splitLines t).length := by
  induction w generalizing line with
  | nil =>
    rw [List.nil_append, splitLinesFrom_cons (by decide)]
    have hnewline : isLineBreak 10 = true := by decide
    rw [hnewline, if_pos rfl, List.length_cons, List.countP_nil]
    omega
  | cons c w ih =>
    have hc := hprintable c List.mem_cons_self
    have htail := fun line => @ih line fun e he => hprintable e (List.mem_cons_of_mem _ he)
    rw [List.cons_append, splitLinesFrom_cons (by omega), isLineBreak_printable hc, List.countP_cons]
    by_cases hbreak : isWideBreak c = true
    · have hrest := htail []
      rw [hbreak, if_pos rfl, if_pos rfl, List.length_cons]
      rw [splitLines, hrest]
      omega
    · rw [if_neg hbreak, if_neg hbreak, htail]

end

/-- Lines with a newline after each. -/
def joinLines (ws : List Text) : Text := ws.flatMap fun w => w ++ [10]

theorem joinLines_cons (w : Text) (ws : List Text) :
    joinLines (w :: ws) = w ++ 10 :: joinLines ws := by
  simp [joinLines]

theorem joinLines_append (us ws : List Text) :
    joinLines (us ++ ws) = joinLines us ++ joinLines ws := List.flatMap_append

/-- Lines without a wide break are split where they were joined. -/
theorem splitLines_joinLines {ws : List Text} (h : ∀ w ∈ ws, TextOf isWideBreak false w) :
    splitLines (joinLines ws) = ws := by
  induction ws with
  | nil => rfl
  | cons w ws ih =>
    rw [joinLines_cons, splitLines, splitLinesFrom_clean (h w List.mem_cons_self), List.nil_append,
      ih fun u hu => h u (List.mem_cons_of_mem _ hu)]

/-- Every wide break makes one line more. -/
theorem length_splitLines {ws : List Text} (h : ∀ w ∈ ws, ∀ c ∈ w, 32 ≤ c) :
    (splitLines (joinLines ws)).length =
      ws.length + (ws.map fun w => w.countP isWideBreak).sum := by
  induction ws with
  | nil => rfl
  | cons w ws ih =>
    rw [joinLines_cons, splitLines, splitLinesFrom_length (h w List.mem_cons_self),
      ih fun u hu => h u (List.mem_cons_of_mem _ hu), List.length_cons, List.map_cons, List.sum_cons]
    omega

/-! ## Bytes -/

namespace Journal

/-- Complete lines, and bytes without a newline after them. -/
theorem lastRecord_append {data fragment : Bytes} (hdata : data = [] ∨ data.getLast? = some 10)
    (hfragment : 10 ∉ fragment) : lastRecord (data ++ fragment) = (data, fragment) := by
  have hall : ∀ b ∈ fragment.reverse, (b != 10) = true := by
    intro b hb
    rw [bne_iff_ne]
    rintro rfl
    exact hfragment (List.mem_reverse.mp hb)
  have hstop :
      data.reverse.takeWhile (· != 10) = [] ∧ data.reverse.dropWhile (· != 10) = data.reverse := by
    rcases hdata with rfl | hlast
    · exact ⟨rfl, rfl⟩
    · rw [← List.head?_reverse] at hlast
      obtain ⟨more, hmore⟩ := List.head?_eq_some_iff.mp hlast
      rw [hmore]
      exact ⟨rfl, rfl⟩
  rw [lastRecord, List.reverse_append, List.takeWhile_append_of_pos hall,
    List.dropWhile_append_of_pos hall, hstop.1, hstop.2]
  simp

end Journal

end RunpodJobrunner
