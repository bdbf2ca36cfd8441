import RunpodJobrunner.JournalReads

/-!
# The journal reads back what was committed

Every record of a run is a line of the journal, the snapshot is the last projection
and the receipt of a closed run is the one of its state. So the store reads back what
was committed, as long as no string of a record holds a line boundary that JSON does
not escape.
-/

namespace RunpodJobrunner

open Json

namespace Journal

/-! ## Commits -/

/-- Arguments a program can pass. -/
structure Commit.Storable (floatOf : FloatLiteral → JsonFloat) (c : Commit) : Prop where
  kind : IsUnicode c.kind
  state : Json.Storable (decoder floatOf) (.obj c.state)
  payload : Json.Storable (decoder floatOf) (.obj c.payload)

section

variable {floatOf : FloatLiteral → JsonFloat} {c : Commit} {files files' : RunFiles} {n : ℕ}
  {b : CommitBytes}

theorem padded_ascii (width k : ℕ) : ∀ e ∈ DateTime.padded width k, e < 128 := by
  intro e he
  rcases List.mem_append.mp he with he | he
  · rw [List.eq_of_mem_replicate he]
    decide
  · exact (digit_ascii (natText_digits k e he)).2

theorem offsetText_ascii (offset : ℤ) : ∀ e ∈ DateTime.offsetText offset, e < 128 := by
  intro e he
  simp only [DateTime.offsetText, List.mem_append] at he
  rcases he with (((he | he) | he) | he) | he
  · split at he <;> simp at he <;> omega
  · exact padded_ascii _ _ e he
  · simp at he
    omega
  · exact padded_ascii _ _ e he
  · split at he
    · cases he
    · simp only [List.mem_append] at he
      rcases he with (he | he) | he
      · simp at he
        omega
      · exact padded_ascii _ _ e he
      · split at he
        · cases he
        · rcases List.mem_append.mp he with he | he
          · simp at he
            omega
          · exact padded_ascii _ _ e he

/-- A time is written in ASCII. -/
theorem isoformat_ascii (d : DateTime) : ∀ e ∈ d.isoformat, e < 128 := by
  intro e he
  simp only [DateTime.isoformat, List.mem_append, List.mem_singleton] at he
  rcases he with (((((((((((he | he) | he) | he) | he) | he) | he) | he) | he) | he) | he) | he) | he
  all_goals
    first
      | exact padded_ascii _ _ e he
      | omega
      | skip
  · split at he
    · cases he
    · rcases List.mem_append.mp he with he | he
      · simp at he
        omega
      · exact padded_ascii _ _ e he
  · split at he
    · cases he
    · exact offsetText_ascii _ e he

/-- The projection of a storable commit can be stored. -/
theorem Commit.Storable.projection (h : c.Storable floatOf) (n : ℕ) :
    Json.Storable (decoder floatOf) (.obj (c.projection n)) :=
  storable_setKey (by decide) trivial h.state

/-- A record a program commits is storable. -/
theorem Commit.Storable.event (h : c.Storable floatOf) (n : ℕ) :
    Json.Storable (decoder floatOf) (.obj (c.event n)) := by
  have hnow : IsUnicode c.now.isoformat := fun e he => (isoformat_ascii c.now e he).trans (by decide)
  have hkeys : [txt "protocol", txt "sequence", txt "recorded_at", txt "kind", txt "payload",
      txt "projection"].Nodup := by decide
  refine ⟨hkeys, ?_⟩
  exact ⟨by decide, (by decide : IsUnicode (txt "run-event/1")), by decide, trivial, by decide, hnow,
    by decide, h.kind, by decide, h.payload, by decide, h.projection n, trivial⟩

/-- A storable commit is a record of the journal. -/
theorem Commit.isRecord (h : c.Storable floatOf) (n : ℕ) : IsRecord n (c.event n) :=
  ⟨rfl, c.projection n, rfl, (h.projection n).1, lookup_setKey_self _ _ _⟩

/-- What a commit writes. -/
theorem Commit.bytes_cases (h : c.bytes n = some b) :
    jsonBytes (.obj (c.event n)) = some b.line ∧
    jsonBytes (.obj (c.projection n)) = some b.state ∧
    (isClosed (c.projection n) = false ∧ b.receipt = none ∨
      isClosed (c.projection n) = true ∧
        closeoutReceiptSchema.accepts (.obj (receiptOf (c.projection n))) = true ∧
        ∃ data, jsonBytes (.obj (receiptOf (c.projection n))) = some data ∧
          b.receipt = some data) := by
  rw [Commit.bytes] at h
  split at h
  · next line state hline hstate =>
    split at h
    · next hclosed =>
      split at h
      · cases h
      · next receipt hreceipt =>
        rw [makeCloseoutReceipt] at hreceipt
        split at hreceipt
        · next haccepted =>
          obtain rfl := Except.ok.inj hreceipt
          obtain ⟨data, hdata, rfl⟩ := Option.map_eq_some_iff.mp h
          exact ⟨hline, hstate, .inr ⟨hclosed, haccepted, data, hdata, rfl⟩⟩
        · cases hreceipt
    · next hopen =>
      obtain rfl := Option.some.inj h
      exact ⟨hline, hstate, .inl ⟨by simpa using hopen, rfl⟩⟩
  · cases h

/-- What a commit does that is about to write. -/
theorem prepare_cases {p : Prepared} (h : prepare floatOf c files = (.ok p, files')) :
    ∃ events, readEvents floatOf files = (.ok events, files') ∧ p.sequence = events.length + 1 ∧
      c.bytes p.sequence = some p.bytes := by
  rw [prepare] at h
  split at h
  · cases h
  · next events files'' hread =>
    split at h
    · cases h
    · next b hb =>
      obtain ⟨hp, rfl⟩ := Prod.mk.inj h
      obtain rfl := Except.ok.inj hp
      exact ⟨events, hread, rfl, hb⟩

/-- A commit that returns. -/
theorem commitState_cases {projection : List (Text × Json)}
    (h : commitState floatOf c files = (.ok projection, files')) :
    ∃ p files'', prepare floatOf c files = (.ok p, files'') ∧ projection = c.projection p.sequence ∧
      files' = p.bytes.apply files'' := by
  rw [commitState] at h
  split at h
  · cases h
  · next p files'' hprepare =>
    obtain ⟨hp, rfl⟩ := Prod.mk.inj h
    exact ⟨p, files'', hprepare, (Except.ok.inj hp).symm, rfl⟩

/-- A projection has its own sequence number. -/
theorem projection_inj {m n : ℕ} (h : c.projection m = c.projection n) : m = n := by
  have hm := lookup_setKey_self (txt "event_sequence") (.int m) c.state
  have hn := lookup_setKey_self (txt "event_sequence") (.int n) c.state
  rw [Commit.projection, Commit.projection] at h
  rw [h, hn] at hm
  simpa using hm.symm

/-- A closed state is committed with a receipt. -/
theorem Commit.bytes_receipt (h : c.bytes n = some b) (hclosed : isClosed (c.projection n) = true) :
    b.receipt ≠ none := by
  obtain ⟨-, -, ⟨hopen, -⟩ | ⟨-, -, data, -, hsome⟩⟩ := Commit.bytes_cases h
  · rw [hopen] at hclosed
    cases hclosed
  · rw [hsome]
    nofun

/-- The receipt is the one there was, or the one that is written. -/
theorem CommitBytes.apply_receipt (b : CommitBytes) (files : RunFiles) :
    ((b.apply files).receipt = files.receipt ∨ (b.apply files).receipt = b.receipt) ∧
      (b.receipt ≠ none → (b.apply files).receipt = b.receipt) := by
  rw [CommitBytes.apply]
  cases b.receipt with
  | none => exact ⟨.inl rfl, fun h => absurd rfl h⟩
  | some data => exact ⟨.inr rfl, fun _ => rfl⟩

/-! ## The receipt -/

variable {p : List (Text × Json)}

/-- The receipt of a storable projection can be stored. -/
theorem storable_receiptOf (h : Json.Storable (decoder floatOf) (.obj p)) :
    Json.Storable (decoder floatOf) (.obj (receiptOf p)) :=
  storable_setKey (by decide) (by decide : IsUnicode (txt "closeout-receipt/1")) h

/-- The receipt of a state that was read back is the receipt of the state. -/
theorem ordered_receiptOf (h : Json.Storable (decoder floatOf) (.obj p)) :
    ordered (receiptOf (ordered p)) = ordered (receiptOf p) := by
  have hordered := storable_ordered h
  refine ordered_eq_of_lookup (storable_receiptOf hordered).1 (storable_receiptOf h).1 fun k => ?_
  by_cases hk : k = txt "protocol"
  · rw [hk, receiptOf, receiptOf, lookup_setKey_self, lookup_setKey_self]
  · have hidem : ordered (ordered p) = ordered p := by
      simpa [sortKeys_obj] using sortKeys_sortKeys (.obj p) h
    have hlookup := @lookup_sorted k (ordered p) hordered.1
    rw [receiptOf, receiptOf, lookup_setKey_ne hk, lookup_setKey_ne hk, ← hlookup]
    change lookup k (ordered (ordered p)) = _
    rw [hidem, ordered, lookup_sorted h.1]

/-- The schema accepts a receipt in any order of the keys. -/
theorem accepts_receiptOf (h : Json.Storable (decoder floatOf) (.obj p)) :
    closeoutReceiptSchema.accepts (.obj (receiptOf (ordered p))) =
      closeoutReceiptSchema.accepts (.obj (receiptOf p)) := by
  rw [← Schema.accepts_sortKeys _ _ (storable_receiptOf (storable_ordered h)), sortKeys_obj,
    ordered_receiptOf h, ← sortKeys_obj, Schema.accepts_sortKeys _ _ (storable_receiptOf h)]

/-- A receipt has the same bytes for any order of the keys. -/
theorem jsonBytes_receiptOf (h : Json.Storable (decoder floatOf) (.obj p)) :
    jsonBytes (.obj (receiptOf (ordered p))) = jsonBytes (.obj (receiptOf p)) := by
  rw [jsonBytes, jsonBytes, dumps, dumps, sortKeys_obj, sortKeys_obj, ordered_receiptOf h]

/-- The receipt that was committed is the one that is expected. -/
theorem readCloseoutReceipt_jsonBytes {data : Bytes} (h : Json.Storable (decoder floatOf) (.obj p))
    (haccepted : closeoutReceiptSchema.accepts (.obj (receiptOf p)) = true)
    (hdata : jsonBytes (.obj (receiptOf p)) = some data) :
    readCloseoutReceipt floatOf data = .ok (ordered (receiptOf p)) ∧
      same true (.obj (ordered (receiptOf p))) (.obj (receiptOf (ordered p))) = true := by
  have hreceipt := storable_receiptOf h
  have haccepts : closeoutReceiptSchema.accepts (.obj (ordered (receiptOf p))) = true := by
    rw [← sortKeys_obj, Schema.accepts_sortKeys _ _ hreceipt, haccepted]
  constructor
  · rw [readCloseoutReceipt, readJsonObject_jsonBytes hreceipt hdata]
    simp only [haccepts, if_true]
  · refine same_of_sortKeys_eq (storable_ordered hreceipt)
      (storable_receiptOf (storable_ordered h)) ?_
    rw [← sortKeys_obj, sortKeys_sortKeys _ hreceipt, sortKeys_obj, sortKeys_obj,
      ordered_receiptOf h]

/-! ## What a run keeps -/

/-- The last projection of the records. -/
def IsLast (es : List (List (Text × Json))) (p : List (Text × Json)) : Prop :=
  ∃ e, es.getLast? = some e ∧ lookup (txt "projection") e = some (.obj p)

/-- The receipt of a closed state: the one of that state, if it is there. -/
def ReceiptOf (p : List (Text × Json)) (receipt : Option Bytes) : Prop :=
  closeoutReceiptSchema.accepts (.obj (receiptOf p)) = true ∧
    ∃ data, jsonBytes (.obj (receiptOf p)) = some data ∧ (receipt = none ∨ receipt = some data)

/-- A file made of one of the first so many projections, if it is there. -/
def Earlier (floatOf : FloatLiteral → JsonFloat) (f : List (Text × Json) → List (Text × Json))
    (n : ℕ) (file : Option Bytes) : Prop :=
  ∀ data, file = some data → ∃ p, ∃ k : ℕ, jsonBytes (.obj (f p)) = some data ∧
    Json.Storable (decoder floatOf) (.obj p) ∧
    lookup (txt "event_sequence") p = some (.int k) ∧ 0 < k ∧ k ≤ n

/-- The files of a run with those records, and of another one a fragment. -/
structure Kept (floatOf : FloatLiteral → JsonFloat) (es : List (List (Text × Json)))
    (files : RunFiles) (fragment : Bytes) : Prop where
  records : Records floatOf 1 es
  clean : ∀ e ∈ es, Clean e
  journal : es = [] ∧ fragment = [] ∧ files.events = none ∨
    ∃ data, files.events = some (data ++ fragment) ∧ LinesOf es data
  torn : fragment = [] ∨ 10 ∉ fragment ∧ isTornJsonFragment floatOf fragment = .ok true
  state : Earlier floatOf id es.length files.state
  receipt : Earlier floatOf receiptOf es.length files.receipt

/-- The receipt of a closed run is the one of its state, if it is there. -/
def Receipted (es : List (List (Text × Json))) (receipt : Option Bytes) : Prop :=
  ∀ p, IsLast es p → isClosed p = true → ReceiptOf p receipt

variable {es : List (List (Text × Json))} {e : List (Text × Json)} {fragment : Bytes}

theorem kept_empty : Kept floatOf [] ⟨none, none, none⟩ [] where
  records := .nil
  clean := nofun
  journal := .inl ⟨rfl, rfl, rfl⟩
  torn := .inl rfl
  state := nofun
  receipt := nofun

theorem receipted_empty (receipt : Option Bytes) : Receipted [] receipt := by
  rintro p ⟨e, he, -⟩
  cases he

/-- What is not after one event is not after a later one. -/
theorem Earlier.mono {f : List (Text × Json) → List (Text × Json)} {m n : ℕ} {file : Option Bytes}
    (h : Earlier floatOf f m file) (hmn : m ≤ n) : Earlier floatOf f n file := by
  intro data hdata
  obtain ⟨p, k, hbytes, hp, hk, hpos, hle⟩ := h data hdata
  exact ⟨p, k, hbytes, hp, hk, hpos, hle.trans hmn⟩

/-- **Reading the journal** returns the records and leaves them alone. -/
theorem Kept.readEvents (h : Kept floatOf es files fragment) :
    ∃ files', Journal.readEvents floatOf files = (.ok (es.map ordered), files') ∧
      Kept floatOf es files' [] ∧ files'.state = files.state ∧ files'.receipt = files.receipt ∧
      (fragment = [] → files' = files) := by
  rcases h.journal with ⟨rfl, rfl, hnone⟩ | ⟨data, hsome, hlines⟩
  · refine ⟨files, ?_, h, rfl, rfl, fun _ => rfl⟩
    rw [Journal.readEvents, hnone]
    rfl
  have hread := readLines_clean h.records h.clean hlines
  rcases h.torn with rfl | ⟨hnewline, htorn⟩
  · rw [List.append_nil] at hsome
    exact ⟨files, by rw [readEvents_complete hsome hlines, hread], h, rfl, rfl, fun _ => rfl⟩
  · by_cases hne : fragment = []
    · subst hne
      rw [List.append_nil] at hsome
      exact ⟨files, by rw [readEvents_complete hsome hlines, hread], h, rfl, rfl, fun _ => rfl⟩
    · refine ⟨{ files with events := some data }, ?_, ?_, rfl, rfl, fun hnil => absurd hnil hne⟩
      · rw [readEvents_torn hsome hlines hnewline hne htorn, hread]
      · exact { h with
          journal := .inr ⟨data, by simp, hlines⟩
          torn := .inl rfl }

theorem isLast_snoc {q : List (Text × Json)} (c : Commit) :
    IsLast (es ++ [c.event n]) q ↔ q = c.projection n := by
  constructor
  · rintro ⟨e, he, hq⟩
    rw [List.getLast?_concat] at he
    obtain rfl := Option.some.inj he
    have hevent : lookup (txt "projection") (c.event n) = some (.obj (c.projection n)) := rfl
    rw [hevent] at hq
    simpa using hq.symm
  · rintro rfl
    exact ⟨_, List.getLast?_concat, rfl⟩

/-- **A whole record** is one more, whatever is written after it. -/
theorem Kept.append (h : Kept floatOf es files []) (hc : c.Storable floatOf)
    (hclean : Clean (c.event (es.length + 1))) (hb : c.bytes (es.length + 1) = some b)
    (hevents : files'.events = (appendEvents files b.line).events)
    (hstate : files'.state = files.state ∨ files'.state = some b.state)
    (hreceipt : files'.receipt = files.receipt ∨ files'.receipt = b.receipt) :
    Kept floatOf (es ++ [c.event (es.length + 1)]) files' [] := by
  obtain ⟨hline, hprojection, hclosed⟩ := Commit.bytes_cases hb
  have hrecord := Commit.isRecord hc (es.length + 1)
  have hlength : (es ++ [c.event (es.length + 1)]).length = es.length + 1 := by simp
  have hsequence : lookup (txt "event_sequence") (c.projection (es.length + 1)) =
      some (.int (es.length + 1 : ℕ)) := lookup_setKey_self _ _ _
  refine ⟨?_, ?_, .inr ?_, .inl rfl, ?_, ?_⟩
  · refine h.records.append ?_ (hc.event _)
    rwa [Nat.add_comm]
  · intro e he
    rcases List.mem_append.mp he with he | he
    · exact h.clean e he
    · obtain rfl := List.mem_singleton.mp he
      exact hclean
  · rcases h.journal with ⟨rfl, -, hnone⟩ | ⟨data, hsome, hlines⟩
    · refine ⟨b.line, ?_, LinesOf.snoc .nil hline⟩
      rw [hevents, appendEvents, hnone]
      simp
    · refine ⟨data ++ b.line, ?_, hlines.snoc hline⟩
      rw [hevents, appendEvents, hsome]
      simp
  · rw [hlength]
    rcases hstate with hold | hnew
    · rw [hold]
      exact h.state.mono (Nat.le_succ _)
    · intro data hdata
      obtain rfl := Option.some.inj (hnew.symm.trans hdata)
      exact ⟨_, _, hprojection, hc.projection _, hsequence, Nat.succ_pos _, le_rfl⟩
  · rw [hlength]
    rcases hreceipt with hold | hnew
    · rw [hold]
      exact h.receipt.mono (Nat.le_succ _)
    · intro data hdata
      rw [hnew] at hdata
      rcases hclosed with ⟨-, hnone⟩ | ⟨-, -, data', hbytes, hsome⟩
      · rw [hnone] at hdata
        cases hdata
      · obtain rfl := Option.some.inj (hsome.symm.trans hdata)
        exact ⟨_, _, hbytes, hc.projection _, hsequence, Nat.succ_pos _, le_rfl⟩

/-- The receipt of a closed state is the one that is written with it. -/
theorem receipted_append (hb : c.bytes (es.length + 1) = some b) {receipt : Option Bytes}
    (h : isClosed (c.projection (es.length + 1)) = true → receipt = none ∨ receipt = b.receipt) :
    Receipted (es ++ [c.event (es.length + 1)]) receipt := by
  intro q hq hqclosed
  obtain rfl := (isLast_snoc c).mp hq
  obtain ⟨-, -, ⟨hopen, -⟩ | ⟨-, haccepted, data, hdata, hsome⟩⟩ := Commit.bytes_cases hb
  · rw [hopen] at hqclosed
    cases hqclosed
  · refine ⟨haccepted, data, hdata, ?_⟩
    rw [← hsome]
    exact h hqclosed

/-- The last of a list of records. -/
theorem Records.last {n : ℕ} (h : Records floatOf n (es ++ [e])) :
    IsRecord (n + es.length) e ∧ Json.Storable (decoder floatOf) (.obj e) := by
  induction es generalizing n with
  | nil =>
    cases h with
    | cons hr hs _ => exact ⟨hr, hs⟩
  | cons x es ih =>
    cases h with
    | cons _ _ hrest =>
      obtain ⟨hr, hs⟩ := ih hrest
      rw [Nat.add_right_comm] at hr
      exact ⟨hr, hs⟩

/-- The last projection has the sequence of its record. -/
theorem IsLast.sequence (hlast : IsLast es p) (h : Records floatOf 1 es) :
    lookup (txt "event_sequence") p = some (.int es.length) ∧
      Json.Storable (decoder floatOf) (.obj p) ∧ 0 < es.length := by
  obtain ⟨e, he, hp⟩ := hlast
  obtain ⟨es', rfl⟩ := List.getLast?_eq_some_iff.mp he
  obtain ⟨⟨-, q, hq, -, hsequence⟩, hstorable⟩ := h.last
  obtain rfl : p = q := by simpa using hp.symm.trans hq
  refine ⟨?_, storable_lookup hstorable.2 hp, by simp⟩
  rw [hsequence, List.length_append, List.length_singleton, Nat.add_comm]

theorem IsLast.eq {q : List (Text × Json)} (hp : IsLast es p) (hq : IsLast es q) : p = q := by
  obtain ⟨e, he, hp⟩ := hp
  obtain ⟨e', he', hq⟩ := hq
  obtain rfl := Option.some.inj (he.symm.trans he')
  simpa using hp.symm.trans hq

/-- The newest projection is the effective one. -/
theorem Kept.effectiveState (h : Kept floatOf es files fragment) :
    ∃ files', Kept floatOf es files' [] ∧ files'.receipt = files.receipt ∧
      (fragment = [] → files' = files) ∧
      (es = [] ∧ Journal.effectiveState floatOf files = (.error .runNotFound, files') ∨
        ∃ p, IsLast es p ∧ Journal.effectiveState floatOf files = (.ok (ordered p), files')) := by
  obtain ⟨files', hread, hkept, hstate, hreceipt, hsame⟩ := h.readEvents
  refine ⟨files', hkept, hreceipt, hsame, ?_⟩
  rw [Journal.effectiveState, hread]
  rcases List.eq_nil_or_concat es with rfl | ⟨es', e, rfl⟩
  · left
    refine ⟨rfl, ?_⟩
    cases hsome : files'.state with
    | none => simp only [hsome]; rfl
    | some data =>
      obtain ⟨p, k, -, -, -, hpos, hle⟩ := hkept.state data hsome
      exact absurd (hpos.trans_le hle) (Nat.lt_irrefl 0)
  · right
    rw [List.concat_eq_append] at hkept hread ⊢
    obtain ⟨⟨-, p, hp, -, -⟩, he⟩ := hkept.records.last
    refine ⟨p, ⟨e, by simp, hp⟩, ?_⟩
    have hlast : (((es' ++ [e]).map ordered).getLast?).bind (lookup (txt "projection")) =
        some (.obj (ordered p)) := by
      rw [List.map_append, List.map_singleton, List.getLast?_concat, Option.bind_some, ordered,
        lookup_sorted he.1, hp]
      rfl
    cases hsome : files'.state with
    | none => simp only [hsome, newest, hlast]
    | some data =>
      obtain ⟨q, k, hdata, hq, hk, -, hle⟩ := hkept.state data hsome
      have hsnapshot : lookup (txt "event_sequence") (ordered q) = some (.int k) := by
        rw [ordered, lookup_sorted hq.1, hk]
        rfl
      have hle' : (k : ℤ) ≤ ((es' ++ [e]).map ordered).length := by
        rw [List.length_map]
        exact_mod_cast hle
      simp only [hsome, readJsonObject_jsonBytes hq hdata, newest, hlast, hsnapshot, Option.getD_some,
        pyInt, if_pos hle']

/-- Whether a projection is closed does not depend on the order of its keys. -/
theorem isClosed_ordered (h : Json.Storable (decoder floatOf) (.obj p)) :
    isClosed (ordered p) = isClosed p := by
  have hlookup : lookup (txt "lifecycle") (ordered p) =
      (lookup (txt "lifecycle") p).map sortKeys := lookup_sorted h.1
  rw [isClosed, isClosed, hlookup]
  cases lookup (txt "lifecycle") p with
  | none => rfl
  | some v => cases v <;> rfl

/-- **Reading the state** of a run returns its last projection, and leaves the receipt of
a closed one. -/
theorem Kept.readState (h : Kept floatOf es files fragment) (hreceipted : Receipted es files.receipt)
    (hlast : IsLast es p) :
    ∃ files', Journal.readState floatOf files = (.ok (ordered p), files') ∧
      Kept floatOf es files' [] ∧ Receipted es files'.receipt ∧
      (fragment = [] → (isClosed p = true → files.receipt ≠ none) → files' = files) ∧
      (isClosed p = true → ∃ data, files'.receipt = some data ∧
        readCloseoutReceipt floatOf data = .ok (ordered (receiptOf p)) ∧
        same true (.obj (ordered (receiptOf p))) (.obj (receiptOf (ordered p))) = true) := by
  obtain ⟨files', hkept, hreceipt, hsame, hcases⟩ := h.effectiveState
  obtain ⟨hsequence, hp, hpos⟩ := hlast.sequence h.records
  rcases hcases with ⟨rfl, -⟩ | ⟨q, hq, heffective⟩
  · cases hpos
  obtain rfl := hq.eq hlast
  rw [← hreceipt] at hreceipted
  rw [Journal.readState, heffective]
  simp only [isClosed_ordered hp]
  by_cases hclosed : isClosed q = true
  · obtain ⟨haccepted, data, hdata, hthere⟩ := hreceipted q hlast hclosed
    obtain ⟨hrecorded, hexpected⟩ := readCloseoutReceipt_jsonBytes hp haccepted hdata
    have hmake : makeCloseoutReceipt (ordered q) = .ok (receiptOf (ordered q)) := by
      rw [makeCloseoutReceipt, accepts_receiptOf hp, if_pos haccepted]
    rw [if_pos hclosed, ensureCloseoutReceipt, hmake]
    rcases hthere with hnone | hsome
    · refine ⟨{ files' with receipt := some data }, ?_, ?_, ?_, ?_, fun _ => ?_⟩
      · simp only [hnone, jsonBytes_receiptOf hp, hdata]
      · refine { hkept with
          receipt := fun data' hdata' => ?_ }
        obtain rfl := Option.some.inj hdata'
        exact ⟨q, es.length, hdata, hp, hsequence, hpos, le_rfl⟩
      · intro q' hq' _
        obtain rfl := hq'.eq hlast
        exact ⟨haccepted, data, hdata, .inr rfl⟩
      · intro _ hne
        exact absurd (hreceipt ▸ hnone) (hne hclosed)
      · exact ⟨data, rfl, hrecorded, hexpected⟩
    · refine ⟨files', ?_, hkept, hreceipted, fun hnil _ => hsame hnil, fun _ => ?_⟩
      · simp only [hsome, hrecorded, hexpected, if_true]
      · exact ⟨data, hsome, hrecorded, hexpected⟩
  · rw [if_neg hclosed]
    exact ⟨files', rfl, hkept, hreceipted, fun hnil _ => hsame hnil,
      fun habsurd => absurd habsurd hclosed⟩

/-! ## Every sequence of commits -/

/-- A new run after commits that returned, with the records they wrote. -/
inductive Committed (floatOf : FloatLiteral → JsonFloat) :
    List (List (Text × Json)) → RunFiles → Prop where
  | new : Committed floatOf [] ⟨none, none, none⟩
  | commit {es : List (List (Text × Json))} {files files' : RunFiles} {c : Commit} {n : ℕ} :
    Committed floatOf es files → c.Storable floatOf →
    commitState floatOf c files = (.ok (c.projection n), files') →
    Committed floatOf (es ++ [c.event n]) files'

/-- The run reads back as those records: the journal has their sequences and is equal to
them, and the state is equal to the last projection. -/
def ReadsBack (floatOf : FloatLiteral → JsonFloat) (es : List (List (Text × Json)))
    (files : RunFiles) : Prop :=
  (∃ events, readEvents floatOf files = (.ok events, files) ∧
    List.Forall₂ (fun e event => same true (.obj event) (.obj e) = true) es events ∧
    ∀ i e, es[i]? = some e → lookup (txt "sequence") e = some (.int (i + 1 : ℕ))) ∧
  ∃ p state, IsLast es p ∧ effectiveState floatOf files = (.ok state, files) ∧
    readState floatOf files = (.ok state, files) ∧ same true (.obj state) (.obj p) = true

/-- The journal of commits that returned, whatever is in their records. -/
theorem Committed.journal (h : Committed floatOf es files) :
    (∀ e ∈ es, Json.Storable (decoder floatOf) (.obj e)) ∧
      (es = [] ∧ files.events = none ∨ ∃ data, files.events = some data ∧ LinesOf es data) := by
  induction h with
  | new => exact ⟨nofun, .inl ⟨rfl, rfl⟩⟩
  | @commit es files files' c n _ hc hcommit ih =>
    obtain ⟨p, files'', hprepare, hprojection, rfl⟩ := commitState_cases hcommit
    obtain ⟨events, hread, -, hb⟩ := prepare_cases hprepare
    obtain rfl := projection_inj hprojection
    obtain ⟨hline, -, -⟩ := Commit.bytes_cases hb
    obtain ⟨hes, hjournal⟩ := ih
    refine ⟨?_, .inr ?_⟩
    · intro e he
      rcases List.mem_append.mp he with he | he
      · exact hes e he
      · obtain rfl := List.mem_singleton.mp he
        exact hc.event _
    · rcases hjournal with ⟨rfl, hnone⟩ | ⟨data, hsome, hlines⟩
      · have hsame : files'' = files := by
          rw [readEvents, hnone] at hread
          exact (Prod.mk.inj hread).2.symm
        refine ⟨p.bytes.line, ?_, LinesOf.snoc .nil hline⟩
        rw [CommitBytes.apply, appendEvents, hsame, hnone]
        simp
      · have hsame : files'' = files := by
          rw [readEvents_complete hsome hlines] at hread
          exact (Prod.mk.inj hread).2.symm
        refine ⟨data ++ p.bytes.line, ?_, hlines.snoc hline⟩
        rw [CommitBytes.apply, appendEvents, hsame, hsome]
        simp

/-- Commits of clean records. -/
theorem Committed.kept (h : Committed floatOf es files) (hclean : ∀ e ∈ es, Clean e) :
    Kept floatOf es files [] ∧ Receipted es files.receipt ∧
      ∀ p, IsLast es p → isClosed p = true → files.receipt ≠ none := by
  induction h with
  | new => exact ⟨kept_empty, receipted_empty _, fun p ⟨e, he, _⟩ => by cases he⟩
  | @commit es files files' c n _ hc hcommit ih =>
    obtain ⟨hkept, -⟩ := ih fun e he => hclean e (List.mem_append_left _ he)
    obtain ⟨p, files'', hprepare, hprojection, rfl⟩ := commitState_cases hcommit
    obtain ⟨events, hread, hsequence, hb⟩ := prepare_cases hprepare
    obtain ⟨files', hread', -, -, -, hsame⟩ := hkept.readEvents
    obtain ⟨hevents, rfl⟩ := Prod.mk.inj (hread.symm.trans hread')
    obtain rfl := Except.ok.inj hevents
    obtain rfl := hsame rfl
    rw [List.length_map] at hsequence
    obtain rfl := projection_inj hprojection
    rw [hsequence] at hb hclean ⊢
    obtain ⟨hreceipt, hwritten⟩ := p.bytes.apply_receipt files''
    refine ⟨hkept.append hc (hclean _ (by simp)) hb rfl (.inr rfl) hreceipt,
      receipted_append hb fun hclosed => .inr (hwritten (Commit.bytes_receipt hb hclosed)), ?_⟩
    intro q hq hqclosed
    obtain rfl := (isLast_snoc c).mp hq
    rw [hwritten (Commit.bytes_receipt hb hqclosed)]
    exact Commit.bytes_receipt hb hqclosed

/-- What was read back is equal to what was written. -/
theorem same_ordered {kvs : List (Text × Json)} (h : Json.Storable (decoder floatOf) (.obj kvs)) :
    same true (.obj (ordered kvs)) (.obj kvs) = true := by
  rw [← sortKeys_obj, same_sortKeys_left _ _ h, same_refl _ h]

/-- Records are numbered in turn. -/
theorem Records.sequence {n : ℕ} (h : Records floatOf n es) :
    ∀ i e, es[i]? = some e → lookup (txt "sequence") e = some (.int (i + n : ℕ)) := by
  induction h with
  | nil => nofun
  | @cons n e es hr _ _ ih =>
    intro i x hx
    cases i with
    | zero =>
      obtain rfl := Option.some.inj hx
      rw [hr.sequence, Nat.zero_add]
    | succ i =>
      rw [List.getElem?_cons_succ] at hx
      have hshift : i + 1 + n = i + (n + 1) := by omega
      rw [hshift]
      exact ih i x hx

/-- After every sequence of commits that returned, the run reads back as what was
committed exactly if no key and no string of a record holds U+0085, U+2028 or U+2029. -/
theorem committed_reads_back (h : Committed floatOf es files) (hne : es ≠ []) :
    ReadsBack floatOf es files ↔ ∀ e ∈ es, Clean e := by
  obtain ⟨hstorable, hjournal⟩ := h.journal
  constructor
  · rintro ⟨⟨events, hread, hsame, -⟩, -⟩
    rcases hjournal with ⟨rfl, -⟩ | ⟨data, hsome, hlines⟩
    · exact absurd rfl hne
    rw [readEvents_complete hsome hlines] at hread
    exact clean_of_length hstorable hlines (Prod.mk.inj hread).1 hsame.length_eq.symm
  · intro hclean
    obtain ⟨hkept, hreceipted, hreceipt⟩ := h.kept hclean
    obtain ⟨files', hread, -, -, -, hsame⟩ := hkept.readEvents
    obtain rfl := hsame rfl
    refine ⟨⟨es.map ordered, hread, ?_, fun i e he => hkept.records.sequence i e he⟩, ?_⟩
    · rw [List.forall₂_map_right_iff, List.forall₂_same]
      exact fun e he => same_ordered (hstorable e he)
    · obtain ⟨files', -, -, hsame, hcases⟩ := hkept.effectiveState
      obtain rfl := hsame rfl
      rcases hcases with ⟨rfl, -⟩ | ⟨p, hlast, heffective⟩
      · exact absurd rfl hne
      obtain ⟨files', hstate, -, -, hsame', -⟩ := hkept.readState hreceipted hlast
      obtain rfl := hsame' rfl (hreceipt p hlast)
      have hp := (hlast.sequence hkept.records).2.1
      exact ⟨p, ordered p, hlast, heffective, hstate, same_ordered hp⟩

end

/-- A run without files. -/
def newRun : RunFiles := ⟨none, none, none⟩

/-- A commit of a state with that detail. -/
def detailCommit (detail : Text) : Commit :=
  ⟨txt "execution_observed", [(txt "detail", .str detail)], [], ⟨2026, 7, 4, 9, 30, 0, 0, some 0⟩⟩

/-- A commit with a detail can be stored. -/
theorem detailCommit_storable {detail : Text} (h : IsUnicode detail) :
    (detailCommit detail).Storable JsonFloat.literal where
  kind := (by decide : IsUnicode (txt "execution_observed"))
  state := ⟨List.nodup_singleton _, by decide, h, trivial⟩
  payload := ⟨List.nodup_nil, trivial⟩

/-- One commit to a new run writes its event. -/
theorem committed_once (floatOf : FloatLiteral → JsonFloat) {c : Commit}
    (hc : c.Storable floatOf) (h : (commitState floatOf c newRun).1 = .ok (c.projection 1)) :
    Committed floatOf [c.event 1] (commitState floatOf c newRun).2 := by
  have hcommit : commitState floatOf c newRun =
      (.ok (c.projection 1), (commitState floatOf c newRun).2) := by rw [← h]
  exact .commit .new hc hcommit

theorem committed_reads_back_sample :
    ReadsBack JsonFloat.literal [(detailCommit (txt "é")).event 1]
        (commitState JsonFloat.literal (detailCommit (txt "é")) newRun).2 ↔
      ∀ e ∈ [(detailCommit (txt "é")).event 1], Clean e :=
  committed_reads_back
    (committed_once _ (detailCommit_storable (by decide)) (by decide +kernel)) (by simp)

/-- The line separator U+2028 in a detail is written as it is, and splits the record. -/
theorem separator_unreadable :
    (detailCommit [0x2028]).Storable JsonFloat.literal ∧
      (commitState JsonFloat.literal (detailCommit [0x2028]) newRun).1 =
        .ok ((detailCommit [0x2028]).projection 1) ∧
      ¬ReadsBack JsonFloat.literal [(detailCommit [0x2028]).event 1]
        (commitState JsonFloat.literal (detailCommit [0x2028]) newRun).2 := by
  refine ⟨detailCommit_storable (by decide), by decide +kernel, ?_⟩
  rintro ⟨⟨events, hread, -⟩, -⟩
  have herror : (readEvents JsonFloat.literal
      (commitState JsonFloat.literal (detailCommit [0x2028]) newRun).2).1 = .error .value := by
    decide +kernel
  rw [hread] at herror
  cases herror

end Journal

end RunpodJobrunner
