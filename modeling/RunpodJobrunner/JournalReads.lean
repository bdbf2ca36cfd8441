import RunpodJobrunner.JournalLines

/-!
# What a journal reads back as

A file the store wrote is read back as the value with its keys in order, and a
journal as its records, whatever a torn record at its end is.
-/

namespace RunpodJobrunner

open Json

namespace Journal

section

variable {floatOf : FloatLiteral → JsonFloat} {kvs e : List (Text × Json)} {b data : Bytes} {w : Text}

theorem keepsDicts : (decoder floatOf).KeepsDicts := fun _ h => lastWins_nodup h

/-! ## One value -/

/-- The text of a dict and its bytes. -/
theorem jsonBytes_obj (h : jsonBytes (.obj kvs) = some b) :
    ∃ w x, write rawText (obj (ordered kvs)) = some w ∧ encodeUtf8 w = some x ∧ b = x ++ [10] := by
  obtain ⟨w, hw, henc⟩ := Option.bind_eq_some_iff.mp h
  obtain ⟨x, y, hx, hy, rfl⟩ := encodeUtf8_split henc
  obtain rfl := Option.some.inj hy
  exact ⟨w, x, hw, hx, rfl⟩

/-- A line of JSON loads, its newline included. -/
theorem loads_line (hv : Storable (decoder floatOf) (obj kvs))
    (hw : write rawText (obj kvs) = some w) :
    loads (decoder floatOf) (w ++ [10]) = .ok (obj kvs) := by
  have hread : readBack rawText (obj kvs) = obj kvs := readBack_storable _ hv
  have hload : Loadable (decoder floatOf) rawText (obj kvs) := Storable.loadable keepsDicts _ hv
  rw [loads_write_line hw hload, hread]

/-- A record that is written is read back. -/
theorem loads_record (hv : Storable (decoder floatOf) (obj kvs))
    (hw : write rawText (obj kvs) = some w) : loads (decoder floatOf) w = .ok (obj kvs) := by
  have hread : readBack rawText (obj kvs) = obj kvs := readBack_storable _ hv
  have hload : Loadable (decoder floatOf) rawText (obj kvs) := Storable.loadable keepsDicts _ hv
  rw [loads_write hw hload, hread]

/-- Without carriage returns nothing is translated. -/
theorem universalNewlines_eq (h : ∀ c ∈ w, c ≠ 13) : universalNewlines w = w := by
  induction w with
  | nil => rfl
  | cons c w ih =>
    have hc := h c List.mem_cons_self
    have htail := ih fun e he => h e (List.mem_cons_of_mem _ he)
    rw [universalNewlines.eq_def]
    split
    · next heq => cases heq
    · next heq => exact absurd (List.cons.inj heq).1 hc
    · next heq => exact absurd (List.cons.inj heq).1 hc
    · next heq =>
      obtain ⟨rfl, rfl⟩ := List.cons.inj heq
      rw [htail]

/-- **A file that was written is read back** with its keys in order. -/
theorem readJsonObject_jsonBytes (hv : Storable (decoder floatOf) (obj kvs))
    (h : jsonBytes (.obj kvs) = some b) : readJsonObject floatOf b = .ok (ordered kvs) := by
  obtain ⟨w, x, hw, hx, rfl⟩ := jsonBytes_obj h
  have hprintable := (textOf_write isWide_isWideBreak _ hw (storable_ordered hv)).printable
  have hdecode : decodeUtf8 (x ++ [10]) = .ok (w ++ [10]) :=
    decode_encode (encodeUtf8_append hx rfl)
  have hnewlines : universalNewlines (w ++ [10]) = w ++ [10] := by
    refine universalNewlines_eq fun c hc => ?_
    rcases List.mem_append.mp hc with hc | hc
    · have := hprintable c hc
      omega
    · obtain rfl := List.mem_singleton.mp hc
      decide
  rw [readJsonObject, hdecode]
  simp only [hnewlines, loads_line (storable_ordered hv) hw]

/-! ## Records -/

/-- A record with that sequence. -/
structure IsRecord (n : ℕ) (e : List (Text × Json)) : Prop where
  sequence : lookup (txt "sequence") e = some (.int n)
  projection : ∃ p, lookup (txt "projection") e = some (.obj p) ∧ (p.map Prod.fst).Nodup ∧
    lookup (txt "event_sequence") p = some (.int n)

/-- The records of a journal, the first of which has that sequence. -/
inductive Records (floatOf : FloatLiteral → JsonFloat) : ℕ → List (List (Text × Json)) → Prop where
  | nil {n : ℕ} : Records floatOf n []
  | cons {n : ℕ} {e : List (Text × Json)} {es : List (List (Text × Json))} :
    IsRecord n e → Storable (decoder floatOf) (obj e) → Records floatOf (n + 1) es →
    Records floatOf n (e :: es)

theorem isNumber_int (n : ℕ) : isNumber (some (.int n)) n = true := by
  simp [isNumber, same, sameScalar, number, unboxed]

/-- A record that was written is read back. -/
theorem readRecords_cons {n : ℕ} {ws : List Text} (hrecord : IsRecord n e)
    (hv : Storable (decoder floatOf) (obj e)) (hw : write rawText (obj (ordered e)) = some w) :
    readRecords floatOf n (w :: ws) =
      (readRecords floatOf (n + 1) ws).map fun events => ordered e :: events := by
  obtain ⟨hsequence, p, hprojection, hnodup, heventSequence⟩ := hrecord
  have hsequence' : lookup (txt "sequence") (ordered e) = some (.int n) := by
    rw [ordered, lookup_sorted hv.1, hsequence]
    rfl
  have hprojection' : lookup (txt "projection") (ordered e) = some (.obj (ordered p)) := by
    rw [ordered, lookup_sorted hv.1, hprojection]
    rfl
  have heventSequence' : lookup (txt "event_sequence") (ordered p) = some (.int n) := by
    rw [ordered, lookup_sorted hnodup, heventSequence]
    rfl
  rw [readRecords, loads_record (storable_ordered hv) hw]
  simp only [hsequence', hprojection', heventSequence', isNumber_int, if_true]

/-- The texts of records. -/
def TextsOf (es : List (List (Text × Json))) (ws : List Text) : Prop :=
  List.Forall₂ (fun e w => write rawText (obj (ordered e)) = some w) es ws

/-- The lines of a journal are read as its records. -/
theorem readRecords_texts {n : ℕ} {es : List (List (Text × Json))} {ws : List Text}
    (hes : Records floatOf n es) (hws : TextsOf es ws) :
    readRecords floatOf n ws = .ok (es.map ordered) := by
  induction hws generalizing n with
  | nil => rfl
  | cons hw _ ih =>
    cases hes with
    | cons hrecord hv hrest =>
      rw [readRecords_cons hrecord hv hw, ih hrest]
      rfl

/-- Every line is a record, or the journal does not read. -/
theorem length_readRecords {n : ℕ} {ws : List Text} {events : List (List (Text × Json))}
    (h : readRecords floatOf n ws = .ok events) : events.length = ws.length := by
  induction ws generalizing n events with
  | nil =>
    obtain rfl := Except.ok.inj h
    rfl
  | cons w ws ih =>
    rw [readRecords] at h
    split at h
    · split at h
      · split at h
        · split at h
          · cases hrest : readRecords floatOf (n + 1) ws with
            | error e =>
              rw [hrest] at h
              cases h
            | ok rest =>
              rw [hrest] at h
              obtain rfl := Except.ok.inj h
              rw [List.length_cons, List.length_cons, ih hrest]
          · cases h
        · cases h
      · cases h
    · cases h

/-! ## The journal -/

/-- The bytes of records. -/
inductive LinesOf : List (List (Text × Json)) → Bytes → Prop where
  | nil : LinesOf [] []
  | snoc {es : List (List (Text × Json))} {data : Bytes} {e : List (Text × Json)} {b : Bytes} :
    LinesOf es data → jsonBytes (.obj e) = some b → LinesOf (es ++ [e]) (data ++ b)

variable {es : List (List (Text × Json))}

/-- The lines of a journal are the texts of its records. -/
theorem LinesOf.texts (h : LinesOf es data) :
    ∃ ws, TextsOf es ws ∧ encodeUtf8 (joinLines ws) = some data := by
  induction h with
  | nil => exact ⟨[], .nil, rfl⟩
  | @snoc es data e b _ hb ih =>
    obtain ⟨ws, hws, henc⟩ := ih
    obtain ⟨w, x, hw, hx, rfl⟩ := jsonBytes_obj hb
    refine ⟨ws ++ [w], ?_, ?_⟩
    · exact List.rel_append hws (.cons hw .nil)
    · have hlast : encodeUtf8 (joinLines [w]) = some (x ++ [10]) := by
        rw [joinLines_cons]
        exact encodeUtf8_append hx rfl
      rw [joinLines_append]
      exact encodeUtf8_append henc hlast

/-- A journal is empty or ends with a newline. -/
theorem LinesOf.ends (h : LinesOf es data) : data = [] ∨ data.getLast? = some 10 := by
  cases h with
  | nil => exact .inl rfl
  | snoc _ hb =>
    obtain ⟨w, x, -, -, rfl⟩ := jsonBytes_obj hb
    right
    rw [← List.append_assoc, List.getLast?_concat]

/-- A record without line boundaries. -/
def Clean (e : List (Text × Json)) : Prop := anyChar isWideBreak (.obj e) = false

instance : DecidablePred Clean := fun _ => inferInstanceAs (Decidable (_ = _))

/-- The line of a record breaks where the record has a wide break. -/
theorem textOf_record (hv : Storable (decoder floatOf) (obj e))
    (hw : write rawText (obj (ordered e)) = some w) :
    TextOf isWideBreak (anyChar isWideBreak (obj e)) w := by
  have htext := textOf_write isWide_isWideBreak _ hw (storable_ordered hv)
  rwa [← sortKeys_obj, anyChar_sortKeys] at htext

/-- Every element on the right has one on the left. -/
theorem forall₂_mem_right {α β : Type} {r : α → β → Prop} {as : List α} {bs : List β}
    (h : List.Forall₂ r as bs) : ∀ b ∈ bs, ∃ a ∈ as, r a b := by
  induction h with
  | nil => nofun
  | cons hr _ ih =>
    intro b hb
    rcases List.mem_cons.mp hb with rfl | hb
    · exact ⟨_, List.mem_cons_self, hr⟩
    · obtain ⟨a, ha, hab⟩ := ih b hb
      exact ⟨a, List.mem_cons_of_mem _ ha, hab⟩

/-- The records of a journal can be stored. -/
theorem Records.storable {n : ℕ} (h : Records floatOf n es) :
    ∀ e ∈ es, Storable (decoder floatOf) (obj e) := by
  induction h with
  | nil => nofun
  | cons _ hv _ ih =>
    intro e he
    rcases List.mem_cons.mp he with rfl | he
    · exact hv
    · exact ih e he

/-- The texts of records are printable, and one line each where the records are clean. -/
theorem TextsOf.textOf {ws : List Text} (hws : TextsOf es ws)
    (hes : ∀ e ∈ es, Storable (decoder floatOf) (obj e)) :
    List.Forall₂ (fun e w => TextOf isWideBreak (anyChar isWideBreak (obj e)) w) es ws := by
  induction hws with
  | nil => exact .nil
  | cons hw _ ih =>
    exact .cons (textOf_record (hes _ List.mem_cons_self) hw)
      (ih fun e he => hes e (List.mem_cons_of_mem _ he))

/-- **Complete lines without line boundaries are read back.** -/
theorem readLines_clean (hes : Records floatOf 1 es) (hclean : ∀ e ∈ es, Clean e)
    (h : LinesOf es data) : readLines floatOf data = .ok (es.map ordered) := by
  obtain ⟨ws, hws, henc⟩ := h.texts
  have hlines : ∀ w ∈ ws, TextOf isWideBreak false w := by
    intro w hw
    obtain ⟨e, he, htext⟩ := forall₂_mem_right (hws.textOf hes.storable) w hw
    rwa [hclean e he] at htext
  rw [readLines, decode_encode henc]
  simp only [splitLines_joinLines hlines, readRecords_texts hes hws]

/-- **A line boundary in a record makes a line too many.** -/
theorem clean_of_length (hes : ∀ e ∈ es, Storable (decoder floatOf) (obj e)) (h : LinesOf es data)
    {events : List (List (Text × Json))} (hread : readLines floatOf data = .ok events)
    (hlength : events.length = es.length) : ∀ e ∈ es, Clean e := by
  obtain ⟨ws, hws, henc⟩ := h.texts
  have htexts := hws.textOf hes
  have hprintable : ∀ w ∈ ws, ∀ c ∈ w, 32 ≤ c := by
    intro w hw
    obtain ⟨e, -, htext⟩ := forall₂_mem_right htexts w hw
    exact htext.printable
  rw [readLines, decode_encode henc] at hread
  have hlines := length_readRecords hread
  rw [length_splitLines hprintable, ← hws.length_eq, hlength] at hlines
  -- no line has a boundary in it
  have hsum : (ws.map fun w => w.countP isWideBreak).sum = 0 := by omega
  have hnone : ∀ w ∈ ws, w.countP isWideBreak = 0 := fun w hw =>
    List.sum_eq_zero_iff_forall_eq_nat.mp hsum _ (List.mem_map_of_mem hw)
  intro e he
  obtain ⟨w, hw, htext⟩ := forall₂_mem_right htexts.flip e he
  rw [Clean, ← htext.any, List.any_eq_false]
  exact fun c hc => by simpa using List.countP_eq_zero.mp (hnone w hw) c hc

/-- Complete lines have no torn record after them. -/
theorem readEvents_complete {files : RunFiles} (hfiles : files.events = some data)
    (h : LinesOf es data) : readEvents floatOf files = (readLines floatOf data, files) := by
  have hlast := lastRecord_append h.ends (List.not_mem_nil (a := 10))
  rw [List.append_nil] at hlast
  rw [readEvents, hfiles]
  simp only [hlast, if_true]

/-- A torn record is cut off. -/
theorem readEvents_torn {files : RunFiles} {fragment : Bytes}
    (hfiles : files.events = some (data ++ fragment)) (h : LinesOf es data)
    (hnewline : 10 ∉ fragment) (hne : fragment ≠ [])
    (htorn : isTornJsonFragment floatOf fragment = .ok true) :
    readEvents floatOf files = (readLines floatOf data, { files with events := some data }) := by
  rw [readEvents, hfiles]
  simp only [lastRecord_append h.ends hnewline, if_neg hne, htorn]

/-- One more record with the next number. -/
theorem Records.append {n : ℕ} (h : Records floatOf n es) (hrecord : IsRecord (n + es.length) e)
    (hv : Storable (decoder floatOf) (obj e)) : Records floatOf n (es ++ [e]) := by
  induction h with
  | nil => exact .cons hrecord hv .nil
  | cons hr hs _ ih =>
    refine .cons hr hs (ih ?_)
    rw [List.length_cons] at hrecord
    have hn : ∀ n m : ℕ, n + (m + 1) = n + 1 + m := by omega
    rwa [hn] at hrecord

end

end Journal

end RunpodJobrunner
