import RunpodJobrunner.RunTransaction

/-!
# Rules for transactions

One rule for each thing a transaction does, in the form the verification
condition `Keeps` needs it: what the invariant has to hold of when the process
dies there, and what the rest of the transaction may assume.
-/

namespace RunpodJobrunner

section Rules

variable {answers : Answers} {α : Type} {I : World → Prop} {Q : α → World → Prop}
  {E : Failure → World → Prop} {w : World}

/-- Reading the events, and then what is done with them. -/
theorem keeps_readEvents {k : List Event → Transaction α} (hI : I w) (hE : ∀ e, E (.store e) w)
    (hk : w.readable = true → Keeps (machine answers) I Q E (k w.events) w) :
    Keeps (machine answers) I Q E
      (Process.perform Command.readEvents >>= fun a => orRaise a >>= k) w := by
  refine ⟨?_, ?_⟩
  · rintro w' rfl
    exact hI
  · rintro a w' ⟨⟨rfl, ha⟩, hread⟩
    refine ⟨hI, ?_⟩
    rcases ha with rfl | ⟨e, rfl⟩
    · refine hk ?_
      by_contra hr
      obtain ⟨e, he⟩ := hread (by simpa using hr)
      cases he
    · exact hE e

/-- Reading the snapshot, and then what is done with it. -/
theorem keeps_readSnapshot {k : Option Projection → Transaction α} (hI : I w)
    (hE : ∀ e, E (.store e) w) (hk : Keeps (machine answers) I Q E (k w.snapshot) w) :
    Keeps (machine answers) I Q E
      (Process.perform Command.readSnapshot >>= fun a => orRaise a >>= k) w := by
  refine ⟨?_, ?_⟩
  · rintro w' rfl
    exact hI
  · rintro a w' ⟨rfl, rfl | ⟨e, rfl⟩⟩
    · exact ⟨hI, hk⟩
    · exact ⟨hI, hE e⟩

/-- Reading the request's file, and then what is done with it. -/
theorem keeps_readRequestFile {k : Option (List (Text × Json)) → Transaction α} (hI : I w)
    (hE : ∀ e, E (.store e) w) (hk : Keeps (machine answers) I Q E (k w.request) w) :
    Keeps (machine answers) I Q E
      (Process.perform Command.readRequest >>= fun a => orRaise a >>= k) w := by
  refine ⟨?_, ?_⟩
  · rintro w' rfl
    exact hI
  · rintro a w' ⟨rfl, rfl | ⟨e, rfl⟩⟩
    · exact ⟨hI, hk⟩
    · exact ⟨hI, hE e⟩

/-- Reading the receipt, and then what is done with it. -/
theorem keeps_readReceipt {k : Option Projection → Transaction α} (hI : I w)
    (hE : ∀ e, E (.store e) w) (hk : Keeps (machine answers) I Q E (k w.receipt) w) :
    Keeps (machine answers) I Q E
      (Process.perform Command.readReceipt >>= fun a => orRaise a >>= k) w := by
  refine ⟨?_, ?_⟩
  · rintro w' rfl
    exact hI
  · rintro a w' ⟨rfl, rfl | ⟨e, rfl⟩⟩
    · exact ⟨hI, hk⟩
    · exact ⟨hI, hE e⟩

/-- `read_request` returns the request, or finds no run. -/
theorem keeps_readRequest {k : List (Text × Json) → Transaction α} (hI : I w)
    (hE : ∀ e, E (.store e) w) (hnone : w.request = none → E .runNotFound w)
    (hk : ∀ request, w.request = some request → Keeps (machine answers) I Q E (k request) w) :
    Keeps (machine answers) I Q E (readRequest >>= k) w := by
  refine ⟨?_, ?_⟩
  · rintro w' rfl
    exact hI
  · rintro a w' ⟨rfl, rfl | ⟨e, rfl⟩⟩
    · cases hr : w'.request with
      | none =>
        refine ⟨hI, ?_⟩
        exact hnone hr
      | some request => exact ⟨hI, hk request hr⟩
    · exact ⟨hI, hE e⟩

/-- A file replacement: the old or the new file when cut, the new one after. -/
theorem keeps_writeRequest {r : List (Text × Json)} {k : Unit → Transaction α} (hI : I w)
    (hI' : I { w with request := some r })
    (hE : ∀ e w', I w' → E (.store e) w')
    (hk : Keeps (machine answers) I Q E (k ()) { w with request := some r }) :
    Keeps (machine answers) I Q E
      (Process.perform (Command.writeRequest r) >>= fun a => orRaise a >>= k) w := by
  have hcut : ∀ w', CutReplace w { w with request := some r } w' → I w' := by
    rintro w' (rfl | rfl)
    · exact hI
    · exact hI'
  refine ⟨hcut, ?_⟩
  rintro a w' (⟨rfl, rfl⟩ | ⟨⟨e, rfl⟩, hw⟩)
  · exact ⟨hI', hk⟩
  · exact ⟨hcut w' hw, hE e w' (hcut w' hw)⟩

/-- Replacing the receipt, or dying before or after it. -/
theorem keeps_replaceReceipt {p : Projection} {k : Unit → Transaction α} (hI : I w)
    (hI' : I { w with receipt := some p })
    (hE : ∀ e w', I w' → E (.store e) w')
    (hk : Keeps (machine answers) I Q E (k ()) { w with receipt := some p }) :
    Keeps (machine answers) I Q E
      (Process.perform (Command.replaceReceipt p) >>= fun a => orRaise a >>= k) w := by
  have hcut : ∀ w', CutReplace w { w with receipt := some p } w' → I w' := by
    rintro w' (rfl | rfl)
    · exact hI
    · exact hI'
  refine ⟨hcut, ?_⟩
  rintro a w' (⟨rfl, rfl⟩ | ⟨⟨e, rfl⟩, hw⟩)
  · exact ⟨hI', hk⟩
  · exact ⟨hcut w' hw, hE e w' (hcut w' hw)⟩

/-- Replacing the snapshot, or dying before or after it. -/
theorem keeps_replaceState {p : Projection} {k : Unit → Transaction α} (hI : I w)
    (hI' : I { w with snapshot := some p })
    (hE : ∀ e w', I w' → E (.store e) w')
    (hk : Keeps (machine answers) I Q E (k ()) { w with snapshot := some p }) :
    Keeps (machine answers) I Q E
      (Process.perform (Command.replaceState p) >>= fun a => orRaise a >>= k) w := by
  have hcut : ∀ w', CutReplace w { w with snapshot := some p } w' → I w' := by
    rintro w' (rfl | rfl)
    · exact hI
    · exact hI'
  refine ⟨hcut, ?_⟩
  rintro a w' (⟨rfl, rfl⟩ | ⟨⟨e, rfl⟩, hw⟩)
  · exact ⟨hI', hk⟩
  · exact ⟨hcut w' hw, hE e w' (hcut w' hw)⟩

/-! ## The clock and the provider -/

/-- Reading the clock is one entry of the trace. -/
theorem keeps_clock {k : DateTime → Transaction α} (hI : I w)
    (hk : ∀ t, I (w.saw (.clock t)) ∧ Keeps (machine answers) I Q E (k t) (w.saw (.clock t))) :
    Keeps (machine answers) I Q E (clock >>= k) w := by
  refine ⟨?_, ?_⟩
  · rintro w' rfl
    exact hI
  · rintro t w' rfl
    exact hk t

/-- Asking for the resources of an operation is one entry of the trace. -/
theorem keeps_findResources {op : Text}
    {k : Except ProviderFault (List ProviderResource) → Transaction α}
    (hdie : I (w.saw (.find op none)))
    (hk : ∀ a, answers w (.find op (some a)) →
      I (w.saw (.find op (some a))) ∧ Keeps (machine answers) I Q E (k a)
      (w.saw (.find op (some a)))) : Keeps (machine answers) I Q E (findResources op >>= k) w := by
  refine ⟨?_, ?_⟩
  · rintro w' rfl
    exact hdie
  · rintro a w' ⟨ha, rfl⟩
    exact hk a ha

/-- A create is one entry of the trace, also where no answer comes. -/
theorem keeps_createResource {r : ProviderCreateRequest}
    {k : Except ProviderFault ProviderResource → Transaction α}
    (hdie : I (w.saw (.create r none)))
    (hk : ∀ a, answers w (.create r (some a)) →
      I (w.saw (.create r (some a))) ∧
        Keeps (machine answers) I Q E (k a) (w.saw (.create r (some a)))) :
    Keeps (machine answers) I Q E (createResource r >>= k) w := by
  refine ⟨?_, ?_⟩
  · rintro w' rfl
    exact hdie
  · rintro a w' ⟨ha, rfl⟩
    exact hk a ha

/-- Asking for a resource is one entry of the trace. -/
theorem keeps_getResource {id : Text}
    {k : Except ProviderFault (Option ProviderResource) → Transaction α}
    (hdie : I (w.saw (.get id none)))
    (hk : ∀ a, answers w (.get id (some a)) →
      I (w.saw (.get id (some a))) ∧ Keeps (machine answers) I Q E (k a) (w.saw (.get id (some a)))) :
    Keeps (machine answers) I Q E (getResource id >>= k) w := by
  refine ⟨?_, ?_⟩
  · rintro w' rfl
    exact hdie
  · rintro a w' ⟨ha, rfl⟩
    exact hk a ha

/-- A start is one entry of the trace, also where no answer comes. -/
theorem keeps_startResource {id op : Text}
    {k : Except ProviderFault ProviderResource → Transaction α}
    (hdie : I (w.saw (.start id op none)))
    (hk : ∀ a, answers w (.start id op (some a)) →
      I (w.saw (.start id op (some a))) ∧
        Keeps (machine answers) I Q E (k a) (w.saw (.start id op (some a)))) :
    Keeps (machine answers) I Q E (startResource id op >>= k) w := by
  refine ⟨?_, ?_⟩
  · rintro w' rfl
    exact hdie
  · rintro a w' ⟨ha, rfl⟩
    exact hk a ha

/-- A delete is one entry of the trace, also where no answer comes. -/
theorem keeps_deleteResource {id op : Text}
    {k : Except ProviderFault DeleteReceipt → Transaction α}
    (hdie : I (w.saw (.delete id op none)))
    (hk : ∀ a, answers w (.delete id op (some a)) →
      I (w.saw (.delete id op (some a))) ∧
        Keeps (machine answers) I Q E (k a) (w.saw (.delete id op (some a)))) :
    Keeps (machine answers) I Q E (deleteResource id op >>= k) w := by
  refine ⟨?_, ?_⟩
  · rintro w' rfl
    exact hdie
  · rintro a w' ⟨ha, rfl⟩
    exact hk a ha

/-- Asking for the spend is one entry of the trace. -/
theorem keeps_currentSpend {id : Option Text} {k : Except ProviderFault Decimal → Transaction α}
    (hdie : I (w.saw (.spend id none)))
    (hk : ∀ a, answers w (.spend id (some a)) →
      I (w.saw (.spend id (some a))) ∧
        Keeps (machine answers) I Q E (k a) (w.saw (.spend id (some a)))) :
    Keeps (machine answers) I Q E (currentSpendUsdPerHour id >>= k) w := by
  refine ⟨?_, ?_⟩
  · rintro w' rfl
    exact hdie
  · rintro a w' ⟨ha, rfl⟩
    exact hk a ha

/-! ## Commits -/

/-- The worlds a commit of an event can leave: nothing written, a torn journal,
the event alone, with the snapshot, with the receipt. -/
inductive CommitLeaves (w : World) (e : Event) : World → Prop where
  | nothing : CommitLeaves w e w
  | torn : CommitLeaves w e w.corrupt
  | event {w'} : Appended w e w' → CommitLeaves w e w'
  | snapshot {w'} : Appended w e w' →
      CommitLeaves w e { w' with snapshot := some e.projection }
  | receipt {w'} : Appended w e w' → e.projection.state.lifecycle = .closed →
      CommitLeaves w e { w' with snapshot := some e.projection, receipt := some e.projection }

/-- What a completed commit changes. -/
structure Committed (w : World) (e : Event) (w' : World) : Prop where
  request : w'.request = w.request
  events : w'.events = e :: w.events
  trace : w'.trace = .commit e :: w.trace

/-- An event that is appended is committed. -/
theorem Appended.committed {e : Event} {w' : World} (h : Appended w e w') : Committed w e w' := by
  rcases h with rfl | rfl <;> exact ⟨rfl, rfl, rfl⟩

/-- `commit_state` on a world where the event would be `⟨kind, n, s⟩`. -/
theorem keeps_commitState {kind : Text} {s : RunState} {k : Projection → Transaction α}
    (hI : I w) (hE : ∀ e w', I w' → E (.store e) w')
    (hinvalid : s.lifecycle = .closed → receiptAccepted s (nextSequence w.events) = false →
      E .invalidReceipt w)
    (hleaves : w.readable = true →
      (s.lifecycle = .closed → receiptAccepted s (nextSequence w.events) = true) →
      ∀ w', CommitLeaves w ⟨kind, ⟨nextSequence w.events, s⟩⟩ w' → I w')
    (hk : ∀ w', I w' → Committed w ⟨kind, ⟨nextSequence w.events, s⟩⟩ w' →
      (s.lifecycle = .closed → receiptAccepted s (nextSequence w.events) = true) →
      Keeps (machine answers) I Q E (k ⟨nextSequence w.events, s⟩) w') :
    Keeps (machine answers) I Q E (commitState kind s >>= k) w := by
  rw [commitState, Process.bind_assoc]
  simp only [Process.bind_assoc]
  refine keeps_readEvents hI (fun e => hE e w hI) fun hread => ?_
  by_cases hbad : s.lifecycle = .closed ∧ receiptAccepted s (nextSequence w.events) = false
  · rw [if_pos hbad]
    exact hinvalid hbad.1 hbad.2
  rw [if_neg hbad]
  have hok : s.lifecycle = .closed → receiptAccepted s (nextSequence w.events) = true := by
    intro hc
    by_contra h
    exact hbad ⟨hc, by simpa using h⟩
  have hI' := hleaves hread hok
  have hcut : ∀ w', CutAppend w ⟨kind, ⟨nextSequence w.events, s⟩⟩ w' → I w' := by
    rintro w' (rfl | rfl | h)
    · exact hI
    · exact hI' _ .torn
    · exact hI' _ (.event h)
  simp only [Process.bind_assoc]
  refine ⟨hcut, ?_⟩
  rintro a w₁ (⟨rfl, hw₁⟩ | ⟨⟨e, rfl⟩, hw₁⟩)
  · -- the event is in the journal; what follows only replaces files
    refine ⟨hI' _ (.event hw₁), ?_⟩
    refine keeps_replaceState (hI' _ (.event hw₁)) (hI' _ (.snapshot hw₁)) hE ?_
    have hcommitted := hw₁.committed
    by_cases hc : s.lifecycle = .closed
    · have hI₂ := hI' _ (CommitLeaves.receipt hw₁ hc)
      simp only [hc, if_true, Process.bind_assoc]
      refine keeps_replaceReceipt (hI' _ (.snapshot hw₁)) hI₂ hE ?_
      exact hk _ hI₂ ⟨hcommitted.request, hcommitted.events, hcommitted.trace⟩ hok
    · simp only [hc, if_false]
      exact hk _ (hI' _ (.snapshot hw₁))
        ⟨hcommitted.request, hcommitted.events, hcommitted.trace⟩ hok
  · exact ⟨hcut w₁ hw₁, hE e w₁ (hcut w₁ hw₁)⟩

/-- `_ensure_closeout_receipt` writes the receipt of the projection or finds it there. -/
theorem keeps_ensureCloseoutReceipt {p : Projection} {k : Unit → Transaction α} (hI : I w)
    (hI' : I { w with receipt := some p }) (hE : ∀ e w', I w' → E e w')
    (hk : ∀ w', I w' → (w' = w ∨ w' = { w with receipt := some p }) →
      Keeps (machine answers) I Q E (k ()) w') :
    Keeps (machine answers) I Q E (ensureCloseoutReceipt p >>= k) w := by
  rw [ensureCloseoutReceipt]
  split
  · exact hE _ _ hI
  simp only [Process.bind_assoc]
  refine keeps_readReceipt hI (fun e => hE _ _ hI) ?_
  cases w.receipt with
  | none =>
    refine keeps_replaceReceipt hI hI' (fun e => hE _) ?_
    exact hk _ hI' (.inr rfl)
  | some recorded =>
    dsimp only
    split
    · exact hE _ _ hI
    split
    · exact hk _ hI (.inl rfl)
    · exact hE _ _ hI

end Rules

end RunpodJobrunner
