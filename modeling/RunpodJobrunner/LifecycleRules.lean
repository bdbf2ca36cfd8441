import RunpodJobrunner.LifecycleSteps
import RunpodJobrunner.TransactionRules

/-!
# Rules for the controller

The rules of the controller's own helpers, in the form of the transaction rules:
what each reads, what it may assume then, and when it raises.
-/

namespace RunpodJobrunner

/-! ## Consistent worlds -/

/-- The journal is never behind the snapshot, and no event precedes the request. -/
structure Consistent (w : World) : Prop where
  snapshot : ∀ p, w.snapshot = some p →
    ∃ e, w.events.head? = some e ∧ p.eventSequence ≤ e.projection.eventSequence
  request : w.request = none → w.events = []

/-- The empty store is consistent. -/
theorem consistent_empty : Consistent .empty :=
  ⟨fun _ hp => (by cases hp), fun _ => rfl⟩

/-- The effective state of a consistent world is the one of the newest event. -/
theorem Consistent.effective {w : World} (h : Consistent w) :
    effective w.events w.snapshot = w.events.head?.map Event.projection := by
  cases he : w.events with
  | nil =>
    cases hs : w.snapshot with
    | none => rfl
    | some p =>
      obtain ⟨e, hhead, -⟩ := h.snapshot p hs
      simp [he] at hhead
  | cons e es =>
    cases hs : w.snapshot with
    | none => rfl
    | some p =>
      obtain ⟨e', hhead, hle⟩ := h.snapshot p hs
      obtain rfl : e = e' := by simpa [he] using hhead
      simp [RunpodJobrunner.effective, hle]

section Rules

variable {ctl : Controller} {answers : Answers} {α : Type} {I : World → Prop}
  {Q : α → World → Prop} {E : Failure → World → Prop} {w : World}

/-! ## Reading the state -/

/-- `_current_state` returns the projection of the last event. -/
theorem keeps_currentState {k : Projection → Transaction α} (hI : I w)
    (hE : ∀ e, E (.store e) w) (hw : Consistent w) (hnone : w.events = [] → E .runNotFound w)
    (hk : ∀ e, w.events.head? = some e → w.current = some e.projection.state →
      Keeps (machine answers) I Q E (k e.projection) w) :
    Keeps (machine answers) I Q E (currentState >>= k) w := by
  rw [currentState]
  simp only [Process.bind_assoc]
  refine keeps_readEvents hI hE fun _ => ?_
  refine keeps_readSnapshot hI hE ?_
  rw [hw.effective]
  cases he : w.events.head? with
  | none => exact hnone (List.head?_eq_none_iff.mp he)
  | some e =>
    have hcur : w.current = some e.projection.state := by simp [World.current, he]
    exact hk e he hcur

/-- An operation is there, or the state is refused. -/
theorem keeps_needOperation {s : RunState} {kind : OperationKind} {k : Operation → Transaction α}
    (hnone : s.operations.get kind = none →
      E (.conflict (txt "state field '" ++ kind.text ++ txt "' must be an object")) w)
    (hk : ∀ op, s.operations.get kind = some op → Keeps (machine answers) I Q E (k op) w) :
    Keeps (machine answers) I Q E (needOperation s kind >>= k) w := by
  rw [needOperation]
  cases h : s.operations.get kind with
  | none => exact hnone h
  | some op => exact hk op h

/-- An answer nothing handles is passed on. -/
theorem keeps_orRaiseFault {β : Type} {a : Except ProviderFault β} {k : β → Transaction α}
    (hE : ∀ fault, a = .error fault →
      Keeps (machine answers) I Q E (raiseFault fault : Transaction α) w)
    (hk : ∀ x, a = .ok x → Keeps (machine answers) I Q E (k x) w) :
    Keeps (machine answers) I Q E (orRaiseFault a >>= k) w := by
  cases a with
  | ok x => exact hk x rfl
  | error fault =>
    have hfault := hE fault rfl
    cases fault <;> exact hfault

/-! ## The deadline and the resolution -/

/-- The request has no deadline to parse. -/
def Controller.Undated (ctl : Controller) (w : World) (message : Text) : Prop :=
  ∃ request, w.request = some request ∧ ctl.terminationDeadline request = .error message

/-- `_provider_termination_deadline` reads it from the request. -/
theorem keeps_providerTerminationDeadline {k : Text × DateTime → Transaction α} (hI : I w)
    (hE : ∀ e, E (.store e) w) (hnone : w.request = none → E .runNotFound w)
    (hbad : ∀ message, ctl.Undated w message → E (.conflict message) w)
    (hk : ∀ request d, w.request = some request → ctl.terminationDeadline request = .ok d →
      Keeps (machine answers) I Q E (k d) w) :
    Keeps (machine answers) I Q E (ctl.providerTerminationDeadline >>= k) w := by
  rw [Controller.providerTerminationDeadline]
  simp only [Process.bind_assoc]
  refine keeps_readRequest hI hE hnone fun request hr => ?_
  cases hd : ctl.terminationDeadline request with
  | error message => exact hbad message ⟨request, hr, hd⟩
  | ok d => exact hk request d hr hd

/-- `_provision_resolution_is_complete` answers whether the create is resolved. -/
theorem keeps_provisionResolutionIsComplete {s : RunState} {c : Closeout}
    {k : Bool → Transaction α} (hI : I w) (hE : ∀ e, E (.store e) w)
    (hnone : w.request = none → E .runNotFound w)
    (hbad : ∀ message, c.provisionResolution ≠ none → ctl.Undated w message →
      E (.conflict message) w)
    (hk : ∀ b, (b = true ↔ ctl.Resolved w s c) → Keeps (machine answers) I Q E (k b) w) :
    Keeps (machine answers) I Q E (ctl.provisionResolutionIsComplete s c >>= k) w := by
  rw [Controller.provisionResolutionIsComplete]
  cases hres : s.resource with
  | some r => exact hk true (by simp [Controller.Resolved, hres])
  | none =>
    cases hprov : s.operations.provision with
    | none => exact hk true (by simp [Controller.Resolved, hprov])
    | some provision =>
      by_cases hcertain : (provision.attempts = 0 || !provision.status.isUncertain) = true
      · simp only [hcertain]
        refine hk true ⟨fun _ => .inr (.inr ⟨provision, hprov, ?_⟩), fun _ => rfl⟩
        rcases Bool.or_eq_true_iff.mp hcertain with h | h
        · exact .inl (by simpa using h)
        · exact .inr (.inl (by simpa using h))
      · simp only [hcertain]
        have hunc : ¬(provision.attempts = 0 ∨ provision.status.isUncertain = false) := by
          simpa using hcertain
        cases hresolution : c.provisionResolution with
        | none =>
          refine hk false ⟨fun h => (by cases h), fun h => ?_⟩
          simp [Controller.Resolved, hres, hprov, hresolution] at h
          tauto
        | some resolution =>
          simp only [Option.isSome_none, Bool.false_eq_true, if_false, Process.bind_assoc]
          refine keeps_providerTerminationDeadline hI hE hnone
            (fun message => hbad message (by simp [hresolution])) fun request d hr hd => ?_
          refine hk _ ⟨fun h => ?_, fun h => ?_⟩
          · exact .inr (.inr ⟨provision, hprov, .inr (.inr
              ⟨resolution, request, d.1, d.2, hresolution, hr, hd, h⟩)⟩)
          · rcases h with h | h | ⟨p, hp, h⟩
            · exact absurd hres h
            · rw [hprov] at h
              cases h
            · obtain rfl : provision = p := by simpa [hprov] using hp
              rcases h with h | h | ⟨resolution', request', text, deadline, h₁, h₂, h₃, h₄⟩
              · exact absurd (.inl h) hunc
              · exact absurd (.inr h) hunc
              · obtain rfl : resolution = resolution' := by simpa [hresolution] using h₁
                obtain rfl : request = request' := by simpa [hr] using h₂
                obtain rfl : d = (text, deadline) := by simpa [hd] using h₃
                exact h₄

/-! ## The spend -/

/-- Another answer leaves the scope of the spend. -/
theorem Controller.ScopeOf.saw {s : RunState} {c : Closeout} {scope : SpendScope}
    (h : ctl.ScopeOf w s c scope) (e : Entry) : ctl.ScopeOf (w.saw e) s c scope := by
  cases h with
  | resource hid => exact .resource hid
  | noVolume hid hr hv => exact .noVolume hid hr hv
  | run hid hr hv hp => exact .run hid hr hv hp
  | notDispatched hid hr hv hp ha => exact .notDispatched hid hr hv hp ha
  | account hid hr hv hp ha hu => exact .account hid hr hv hp ha hu
  | absence hid hr hv hp ha hu hres => exact .absence hid hr hv hp ha hu hres

/-- `_current_spend_scope` returns the scope of the spend. -/
theorem keeps_currentSpendScope {s : RunState} {c : Closeout} {k : SpendScope → Transaction α}
    (hI : I w) (hE : ∀ e, E (.store e) w) (hnone : w.request = none → E .runNotFound w)
    (hbad : ∀ message, c.provisionResolution ≠ none → ctl.Undated w message →
      E (.conflict message) w)
    (hk : ∀ scope, ctl.ScopeOf w s c scope → Keeps (machine answers) I Q E (k scope) w) :
    Keeps (machine answers) I Q E (ctl.currentSpendScope s c >>= k) w := by
  rw [Controller.currentSpendScope]
  cases hid : s.resourceId with
  | some id => exact hk _ (.resource hid)
  | none =>
    simp only [Process.bind_assoc]
    refine keeps_readRequest hI hE hnone fun request hr => ?_
    match hv : providerField request (txt "network_volume_id") with
    | some (.str (v :: vs)) =>
      have hvolume : Controller.HasVolume request := ⟨v, vs, hv⟩
      cases hp : s.operations.provision with
      | none => exact hk _ (.run hid hr hvolume hp)
      | some provision =>
        by_cases ha : provision.attempts = 0
        · simp only [if_pos ha]
          exact hk _ (.notDispatched hid hr hvolume hp ha)
        · simp only [if_neg ha]
          by_cases hu : provision.status.isUncertain = true
          · simp only [hu, Bool.not_true, Bool.false_eq_true, if_false, Process.bind_assoc]
            refine keeps_provisionResolutionIsComplete hI hE hnone hbad fun b hb => ?_
            cases b with
            | true => exact hk _ (.absence hid hr hvolume hp ha hu (hb.mp rfl))
            | false =>
              refine hk _ (.account hid hr hvolume hp ha (.inr fun h => ?_))
              exact absurd (hb.mpr h) (by simp)
          · have hu' : provision.status.isUncertain = false := by simpa using hu
            simp only [hu', Bool.not_false, if_true]
            exact hk _ (.account hid hr hvolume hp ha (.inl hu'))
    | none | some .null | some (.bool _) | some (.int _) | some (.float _) | some (.decimal _)
    | some (.str []) | some (.arr _) | some (.obj _) =>
      refine hk _ (.noVolume hid hr ?_)
      rintro ⟨c, cs, h⟩
      simp [hv] at h

/-- What `_assert_closeout_ready` asks of the closeout. -/
def CloseoutReady (c : Closeout) (expected : SpendScope) : Prop :=
  c.artifactDisposition.isSome = true ∧ c.deleteAcknowledged = true ∧ c.providerNotFound = true ∧
    c.currentSpendUsdPerHour = some (txt "0") ∧ c.currentSpendScope = some expected

/-- `_assert_closeout_ready` passes only a state whose evidence is complete. -/
theorem keeps_assertCloseoutReady {s : RunState} {k : Unit → Transaction α} (hI : I w)
    (hE : ∀ e, E (.store e) w) (hnone : w.request = none → E .runNotFound w)
    (hbad : ∀ message, s.closeout.provisionResolution ≠ none → ctl.Undated w message →
      E (.conflict message) w)
    (hfail : ∀ expected, ctl.ScopeOf w s s.closeout expected →
      ¬(CloseoutReady s.closeout expected ∧ ctl.Resolved w s s.closeout) →
      E (.invalidTransition (txt "closeout proof is incomplete")) w)
    (hk : ctl.Resolved w s s.closeout → Keeps (machine answers) I Q E (k ()) w) :
    Keeps (machine answers) I Q E (ctl.assertCloseoutReady s >>= k) w := by
  rw [Controller.assertCloseoutReady]
  simp only [Process.bind_assoc]
  refine keeps_currentSpendScope hI hE hnone hbad fun expected hexpected => ?_
  refine keeps_provisionResolutionIsComplete hI hE hnone hbad fun complete hcomplete => ?_
  split
  · next hready =>
    simp only [Bool.and_eq_true] at hready
    exact hk (hcomplete.mp hready.2)
  · next hready =>
    refine hfail expected hexpected fun h => hready ?_
    obtain ⟨⟨h₁, h₂, h₃, h₄, h₅⟩, h₆⟩ := h
    simp [h₁, h₂, h₃, h₄, h₅, hcomplete.mpr h₆]

/-- `_observed_spend` asks for the spend of the resource. -/
theorem keeps_observedSpend {s : RunState} {scope : SpendScope} {k : Decimal → Transaction α}
    (hI : I w) (hdie : I (w.saw (.spend s.resourceId none)))
    (hsaw : ∀ a, answers w (.spend s.resourceId (some a)) →
      I (w.saw (.spend s.resourceId (some a))))
    (hE : ∀ fault, Keeps (machine answers) I Q E (raiseFault fault : Transaction α)
      (w.saw (.spend s.resourceId (some (.error fault)))))
    (hk : ∀ spend w', I w' →
      (w' = w ∧ spend = .finite false 0 0 ∨ w' = w.saw (.spend s.resourceId (some (.ok spend)))) →
      SpendSeen w' s scope spend → Keeps (machine answers) I Q E (k spend) w') :
    Keeps (machine answers) I Q E (Controller.observedSpend s scope >>= k) w := by
  have hcall : Keeps (machine answers) I Q E
      (currentSpendUsdPerHour s.resourceId >>= fun a => orRaiseFault a >>= k) w := by
    refine keeps_currentSpend hdie fun a ha => ⟨hsaw a ha, ?_⟩
    refine keeps_orRaiseFault (fun fault hfault => ?_) fun spend hspend => ?_
    · subst hfault
      exact hE fault
    · subst hspend
      exact hk spend _ (hsaw _ ha) (.inr rfl) (.inr ⟨_, rfl⟩)
  match scope with
  | .provisionOperation id n => exact hk _ w hI (.inl ⟨rfl, rfl⟩) (.inl ⟨.inr ⟨id, n, rfl⟩, rfl⟩)
  | .run => exact hk _ w hI (.inl ⟨rfl, rfl⟩) (.inl ⟨.inl rfl, rfl⟩)
  | .account | .resource _ => exact hcall

end Rules

end RunpodJobrunner
