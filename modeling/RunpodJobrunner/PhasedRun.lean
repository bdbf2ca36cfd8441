import Mathlib.Data.List.Infix
import Mathlib.Data.List.Nodup

/-!
# Runs of phases

What a journal of a run may say, over any type of phases with a fixed order: the run begins, is
resumed, is authorized once, starts the phases one after the other, and ends. `step` is the
automaton that reads one entry, `replay` reads a whole journal. A journal that is read starts each
phase at most once and in the order (`started_sublist`), after the authorization and after all
earlier phases are settled (`started_after`), and nothing follows its end (`nothing_after_ended`).
-/

namespace RunpodJobrunner

namespace PhasedRun

/-- An entry of a journal. -/
inductive Entry (P : Type) : Type where
  | begun : Entry P
  | resumed : Entry P
  | authorized : Entry P
  | started : P → Entry P
  | completed : P → Entry P
  | failed : P → (code : ℤ) → Entry P
  | startFailed : P → Entry P
  | disabled : P → Entry P
  | ended : Entry P
  deriving DecidableEq

/-- How far a run is. -/
structure Progress (P : Type) where
  begun : Bool
  authorized : Bool
  /-- the phases that are completed or disabled, in order -/
  settled : List P
  completed : List P
  active : Option P
  /-- a phase that failed, and with which code if it ran -/
  failure : Option (P × Option ℤ)
  ended : Bool
  deriving DecidableEq

namespace Progress

variable {P : Type}

/-- Nothing has happened. -/
def initial : Progress P := ⟨false, false, [], [], none, none, false⟩

/-- No phase is running, none has failed, and the run has not ended. -/
structure Idle (q : Progress P) : Prop where
  active : q.active = none
  failure : q.failure = none
  ended : q.ended = false

instance [DecidableEq P] (q : Progress P) : Decidable q.Idle :=
  decidable_of_iff (q.active = none ∧ q.failure = none ∧ q.ended = false)
    ⟨fun h => ⟨h.1, h.2.1, h.2.2⟩, fun h => ⟨h.active, h.failure, h.ended⟩⟩

/-- The phase that was started last and is not settled. -/
def current (q : Progress P) : Option P := q.active.or (q.failure.map Prod.fst)

theorem Idle.current {q : Progress P} (h : q.Idle) : q.current = none := by
  rw [Progress.current, h.active, h.failure]
  rfl

end Progress

variable {P : Type} [DecidableEq P] (order : List P)

/-- The next phase can be started or passed over. -/
structure Next (q : Progress P) (p : P) : Prop where
  authorized : q.authorized = true
  idle : q.Idle
  inOrder : q.settled ++ [p] <+: order

instance (q : Progress P) (p : P) : Decidable (Next order q p) :=
  decidable_of_iff (q.authorized = true ∧ q.Idle ∧ q.settled ++ [p] <+: order)
    ⟨fun h => ⟨h.1, h.2.1, h.2.2⟩, fun h => ⟨h.authorized, h.idle, h.inOrder⟩⟩

/-- That phase is running. -/
structure Running (q : Progress P) (p : P) : Prop where
  active : q.active = some p
  ended : q.ended = false

instance (q : Progress P) (p : P) : Decidable (Running q p) :=
  decidable_of_iff (q.active = some p ∧ q.ended = false)
    ⟨fun h => ⟨h.1, h.2⟩, fun h => ⟨h.active, h.ended⟩⟩

/-- Read one entry; `none` where it is not allowed. -/
def step (q : Progress P) : Entry P → Option (Progress P)
  | .begun => if q = .initial then some { q with begun := true } else none
  | .resumed => if q.begun ∧ q.Idle then some q else none
  | .authorized =>
    if q.begun ∧ q.Idle ∧ q.authorized = false then some { q with authorized := true } else none
  | .started p => if Next order q p then some { q with active := some p } else none
  | .disabled p => if Next order q p then some { q with settled := q.settled ++ [p] } else none
  | .completed p =>
    if Running q p then
      some { q with settled := q.settled ++ [p], completed := q.completed ++ [p], active := none }
    else none
  | .failed p code =>
    if Running q p ∧ code ≠ 0 then
      some { q with active := none, failure := some (p, some code) } else none
  | .startFailed p =>
    if Running q p then some { q with active := none, failure := some (p, none) } else none
  | .ended => if q.ended = false then some { q with begun := true, ended := true } else none

/-- Read entries from there. -/
def replayFrom : Progress P → List (Entry P) → Option (Progress P)
  | q, [] => some q
  | q, e :: es => (step order q e).bind fun q' => replayFrom q' es

/-- Read a whole journal. -/
def replay (es : List (Entry P)) : Option (Progress P) := replayFrom order .initial es

/-- The phases that were started, in order. -/
def startedPhases (es : List (Entry P)) : List P :=
  es.filterMap fun e => match e with | .started p => some p | _ => none

variable {order} {q q' : Progress P} {es : List (Entry P)} {e : Entry P}

/-- Entries are replayed one after the other. -/
theorem replayFrom_append (fs : List (Entry P)) :
    replayFrom order q (es ++ fs) = (replayFrom order q es).bind fun q' =>
      replayFrom order q' fs := by
  induction es generalizing q with
  | nil => rfl
  | cons e es ih =>
    rw [List.cons_append, replayFrom, replayFrom, Option.bind_assoc]
    exact congrArg (Option.bind (step order q e)) (funext fun q' => ih)

/-- A journal goes on with what is allowed there. -/
theorem replay_snoc : replay order (es ++ [e]) = some q' ↔
    ∃ q, replay order es = some q ∧ step order q e = some q' := by
  rw [replay, replayFrom_append, Option.bind_eq_some_iff]
  refine exists_congr fun q => and_congr_right fun _ => ?_
  rw [replayFrom]
  cases step order q e <;> simp [replayFrom]

/-- A journal that is read is read up to each of its entries. -/
theorem replay_split {fs : List (Entry P)} (h : replay order (es ++ e :: fs) = some q) :
    ∃ q₁ q₂, replay order es = some q₁ ∧ step order q₁ e = some q₂ ∧
      replayFrom order q₂ fs = some q := by
  rw [replay, replayFrom_append] at h
  obtain ⟨q₁, h₁, h⟩ := Option.bind_eq_some_iff.mp h
  obtain ⟨q₂, h₂, h⟩ := Option.bind_eq_some_iff.mp h
  exact ⟨q₁, q₂, h₁, h₂, h⟩

/-- **What every entry keeps** holds of every journal that is read, with its progress. -/
theorem replay_induction {I : List (Entry P) → Progress P → Prop} (nil : I [] .initial)
    (snoc : ∀ es q e q', replay order es = some q → I es q → step order q e = some q' →
      I (es ++ [e]) q') (h : replay order es = some q) : I es q := by
  induction es using List.reverseRecOn generalizing q with
  | nil =>
    obtain rfl := Option.some.inj h
    exact nil
  | append_singleton es e ih =>
    obtain ⟨q₀, h₀, hstep⟩ := replay_snoc.mp h
    exact snoc es q₀ e q h₀ (ih h₀) hstep

/-! ## What is allowed -/

/-- A run begins once, first of all. -/
theorem step_begun :
    step order q .begun = some q' ↔ q = .initial ∧ q' = { q with begun := true } := by
  simp only [step, Option.ite_none_right_eq_some, Option.some.injEq, eq_comm (b := q')]

/-- A run is resumed while nothing runs. -/
theorem step_resumed : step order q .resumed = some q' ↔ (q.begun = true ∧ q.Idle) ∧ q' = q := by
  simp only [step, Option.ite_none_right_eq_some, Option.some.injEq, eq_comm (b := q')]

/-- A launch is authorized once, while nothing runs. -/
theorem step_authorized : step order q .authorized = some q' ↔
    (q.begun = true ∧ q.Idle ∧ q.authorized = false) ∧ q' = { q with authorized := true } := by
  simp only [step, Option.ite_none_right_eq_some, Option.some.injEq, eq_comm (b := q')]

/-- The next phase in order is started. -/
theorem step_started {p : P} : step order q (.started p) = some q' ↔
    Next order q p ∧ q' = { q with active := some p } := by
  simp only [step, Option.ite_none_right_eq_some, Option.some.injEq, eq_comm (b := q')]

/-- The next phase in order is passed over. -/
theorem step_disabled {p : P} : step order q (.disabled p) = some q' ↔
    Next order q p ∧ q' = { q with settled := q.settled ++ [p] } := by
  simp only [step, Option.ite_none_right_eq_some, Option.some.injEq, eq_comm (b := q')]

/-- The phase that runs is completed. -/
theorem step_completed {p : P} : step order q (.completed p) = some q' ↔
    Running q p ∧
    q' = { q with settled := q.settled ++ [p], completed := q.completed ++ [p], active := none } := by
  simp only [step, Option.ite_none_right_eq_some, Option.some.injEq, eq_comm (b := q')]

/-- The phase that runs fails with an exit code. -/
theorem step_failed {p : P} {code : ℤ} : step order q (.failed p code) = some q' ↔
    (Running q p ∧ code ≠ 0) ∧ q' = { q with active := none, failure := some (p, some code) } := by
  simp only [step, Option.ite_none_right_eq_some, Option.some.injEq, eq_comm (b := q')]

/-- The phase that runs may fail to start. -/
theorem step_startFailed {p : P} : step order q (.startFailed p) = some q' ↔
    Running q p ∧ q' = { q with active := none, failure := some (p, none) } := by
  simp only [step, Option.ite_none_right_eq_some, Option.some.injEq, eq_comm (b := q')]

/-- A run ends once. -/
theorem step_ended : step order q .ended = some q' ↔
    q.ended = false ∧ q' = { q with begun := true, ended := true } := by
  simp only [step, Option.ite_none_right_eq_some, Option.some.injEq, eq_comm (b := q')]

/-! ## What every progress keeps -/

/-- What holds of a progress that a journal leads to. -/
structure WellFormed (order : List P) (q : Progress P) : Prop where
  inOrder : q.settled ++ q.current.toList <+: order
  exclusive : q.active = none ∨ q.failure = none
  completed : q.completed.Sublist q.settled
  unauthorized : q.authorized = false → q.settled = [] ∧ q.active = none ∧ q.failure = none
  unbegun : q.begun = false → q = .initial

omit [DecidableEq P] in
theorem WellFormed.initial : WellFormed order (.initial : Progress P) :=
  ⟨List.nil_prefix, .inl rfl, List.Sublist.slnil, fun _ => ⟨rfl, rfl, rfl⟩, fun _ => rfl⟩

omit [DecidableEq P] in
/-- The phase that is running is the next one. -/
theorem WellFormed.running (h : WellFormed order q) {p : P} (hp : Running q p) :
    q.failure = none ∧ q.settled ++ [p] <+: order := by
  refine ⟨h.exclusive.resolve_left (by rw [hp.active]; nofun), ?_⟩
  have hprefix := h.inOrder
  rwa [Progress.current, hp.active, Option.some_or, Option.toList_some] at hprefix

omit [DecidableEq P] in
/-- A phase runs only in a launch that was authorized. -/
theorem WellFormed.authorized (h : WellFormed order q) {p : P} (hp : q.active = some p) :
    q.authorized = true := by
  by_contra hno
  obtain ⟨-, hactive, -⟩ := h.unauthorized (Bool.not_eq_true _ ▸ hno)
  rw [hactive] at hp
  cases hp

omit [DecidableEq P] in
/-- A launch is authorized only in a run that has begun. -/
theorem WellFormed.begun (h : WellFormed order q) (ha : q.authorized = true) : q.begun = true := by
  by_contra hno
  rw [h.unbegun (Bool.not_eq_true _ ▸ hno)] at ha
  cases ha

/-- One entry. -/
theorem WellFormed.step (h : WellFormed order q) (hstep : PhasedRun.step order q e = some q') :
    WellFormed order q' := by
  cases e with
  | begun =>
    obtain ⟨rfl, rfl⟩ := step_begun.mp hstep
    exact ⟨List.nil_prefix, .inl rfl, List.Sublist.slnil, fun _ => ⟨rfl, rfl, rfl⟩, nofun⟩
  | resumed =>
    obtain ⟨-, rfl⟩ := step_resumed.mp hstep
    exact h
  | authorized =>
    obtain ⟨⟨hbegun, -⟩, rfl⟩ := step_authorized.mp hstep
    exact ⟨h.inOrder, h.exclusive, h.completed, nofun, fun hno => by simp [hbegun] at hno⟩
  | started p =>
    obtain ⟨hnext, rfl⟩ := step_started.mp hstep
    have hbegun := h.begun hnext.authorized
    exact ⟨hnext.inOrder, .inr hnext.idle.failure, h.completed,
      fun hno => by simp [hnext.authorized] at hno, fun hno => by simp [hbegun] at hno⟩
  | disabled p =>
    obtain ⟨hnext, rfl⟩ := step_disabled.mp hstep
    have hbegun := h.begun hnext.authorized
    have hcurrent := hnext.idle.current
    refine ⟨?_, h.exclusive, h.completed.trans (List.sublist_append_left _ _),
      fun hno => by simp [hnext.authorized] at hno, fun hno => by simp [hbegun] at hno⟩
    show q.settled ++ [p] ++ q.current.toList <+: order
    rw [hcurrent, Option.toList_none, List.append_nil]
    exact hnext.inOrder
  | completed p =>
    obtain ⟨hrunning, rfl⟩ := step_completed.mp hstep
    obtain ⟨hfailure, hprefix⟩ := h.running hrunning
    have hauthorized := h.authorized hrunning.active
    have hbegun := h.begun hauthorized
    refine ⟨?_, .inl rfl, h.completed.append (List.Sublist.refl _),
      fun hno => by simp [hauthorized] at hno, fun hno => by simp [hbegun] at hno⟩
    rw [Progress.current, hfailure]
    simpa using hprefix
  | failed p code =>
    obtain ⟨⟨hrunning, -⟩, rfl⟩ := step_failed.mp hstep
    have hauthorized := h.authorized hrunning.active
    have hbegun := h.begun hauthorized
    exact ⟨(h.running hrunning).2, .inl rfl, h.completed, fun hno => by simp [hauthorized] at hno,
      fun hno => by simp [hbegun] at hno⟩
  | startFailed p =>
    obtain ⟨hrunning, rfl⟩ := step_startFailed.mp hstep
    have hauthorized := h.authorized hrunning.active
    have hbegun := h.begun hauthorized
    exact ⟨(h.running hrunning).2, .inl rfl, h.completed, fun hno => by simp [hauthorized] at hno,
      fun hno => by simp [hbegun] at hno⟩
  | ended =>
    obtain ⟨-, rfl⟩ := step_ended.mp hstep
    exact ⟨h.inOrder, h.exclusive, h.completed, h.unauthorized, nofun⟩

/-- Every replayed progress is well formed. -/
theorem wellFormed (h : replay order es = some q) : WellFormed order q :=
  replay_induction (I := fun _ q => WellFormed order q) WellFormed.initial
    (fun _ _ _ _ _ hq => hq.step) h

/-! ## What a journal says -/

/-- The progress says what the journal does. -/
structure Summarizes (es : List (Entry P)) (q : Progress P) : Prop where
  begun : q.begun = true ↔ es ≠ []
  authorized : q.authorized = true ↔ .authorized ∈ es
  ended : q.ended = true ↔ .ended ∈ es
  settled : ∀ p, p ∈ q.settled ↔ .completed p ∈ es ∨ .disabled p ∈ es
  completed : ∀ p, p ∈ q.completed ↔ .completed p ∈ es
  started : (startedPhases es).Sublist (q.settled ++ q.current.toList)

omit [DecidableEq P] in
theorem startedPhases_snoc : startedPhases (es ++ [e]) = startedPhases es ++ startedPhases [e] :=
  List.filterMap_append

omit [DecidableEq P] in
/-- An entry that says nothing of any phase. -/
theorem Summarizes.plain (h : Summarizes es q) (hstarted : startedPhases [e] = [])
    (hcompleted : ∀ p, e ≠ .completed p) (hdisabled : ∀ p, e ≠ .disabled p)
    (hauthorized : q'.authorized = true ↔ q.authorized = true ∨ e = .authorized)
    (hended : q'.ended = true ↔ q.ended = true ∨ e = .ended) (hbegun : q'.begun = true)
    (hsettled : q'.settled = q.settled) (hq : q'.completed = q.completed)
    (hcurrent : q'.current = q.current) : Summarizes (es ++ [e]) q' := by
  refine ⟨?_, ?_, ?_, fun p => ?_, fun p => ?_, ?_⟩
  · simp [hbegun]
  · simp [hauthorized, h.authorized, eq_comm]
  · simp [hended, h.ended, eq_comm]
  · simp [hsettled, h.settled, (hcompleted p).symm, (hdisabled p).symm]
  · simp [hq, h.completed, (hcompleted p).symm]
  · rw [startedPhases_snoc, hstarted, List.append_nil, hsettled, hcurrent]
    exact h.started

/-- One entry. -/
theorem Summarizes.step (hwf : WellFormed order q) (h : Summarizes es q)
    (hstep : PhasedRun.step order q e = some q') : Summarizes (es ++ [e]) q' := by
  cases e with
  | begun =>
    obtain ⟨rfl, rfl⟩ := step_begun.mp hstep
    exact h.plain rfl nofun nofun (by simp) (by simp) rfl rfl rfl rfl
  | resumed =>
    obtain ⟨⟨hbegun, -⟩, rfl⟩ := step_resumed.mp hstep
    exact h.plain rfl nofun nofun (by simp) (by simp) hbegun rfl rfl rfl
  | authorized =>
    obtain ⟨⟨hbegun, -⟩, rfl⟩ := step_authorized.mp hstep
    exact h.plain rfl nofun nofun (by simp) (by simp) hbegun rfl rfl rfl
  -- a phase that starts comes after all that are settled
  | started p =>
    obtain ⟨hnext, rfl⟩ := step_started.mp hstep
    have hcurrent := hnext.idle.current
    refine ⟨by simp [hwf.begun hnext.authorized], by simp [h.authorized], by simp [h.ended],
      fun r => by simp [h.settled], fun r => by simp [h.completed], ?_⟩
    have hbefore := h.started
    rw [hcurrent, Option.toList_none, List.append_nil] at hbefore
    rw [startedPhases_snoc]
    exact hbefore.append (List.Sublist.refl [p])
  | disabled p =>
    obtain ⟨hnext, rfl⟩ := step_disabled.mp hstep
    have hcurrent := hnext.idle.current
    refine ⟨by simp [hwf.begun hnext.authorized], by simp [h.authorized], by simp [h.ended],
      fun r => ?_, fun r => by simp [h.completed], ?_⟩
    · simp only [List.mem_append, List.mem_singleton, h.settled, Entry.disabled.injEq, reduceCtorEq,
        or_false]
      tauto
    · have hbefore := h.started
      rw [hcurrent, Option.toList_none, List.append_nil] at hbefore
      rw [startedPhases_snoc]
      show (startedPhases es ++ []).Sublist (q.settled ++ [p] ++ q.current.toList)
      rw [List.append_nil, hcurrent, Option.toList_none, List.append_nil]
      exact hbefore.trans (List.sublist_append_left _ _)
  -- the phase that ran is settled, and so no longer the current one
  | completed p =>
    obtain ⟨hrunning, rfl⟩ := step_completed.mp hstep
    have hbegun := hwf.begun (hwf.authorized hrunning.active)
    refine ⟨by simp [hbegun], by simp [h.authorized], by simp [h.ended], fun r => ?_, fun r => ?_, ?_⟩
    · simp only [List.mem_append, List.mem_singleton, h.settled, Entry.completed.injEq,
        reduceCtorEq, or_false]
      tauto
    · simp only [List.mem_append, List.mem_singleton, h.completed, Entry.completed.injEq]
    · have hbefore := h.started
      rw [Progress.current, hrunning.active, Option.some_or, Option.toList_some] at hbefore
      rw [startedPhases_snoc]
      show (startedPhases es ++ []).Sublist (q.settled ++ [p] ++ _)
      rw [List.append_nil]
      exact hbefore.trans (List.sublist_append_left _ _)
  | failed p code =>
    obtain ⟨⟨hrunning, -⟩, rfl⟩ := step_failed.mp hstep
    have hbegun := hwf.begun (hwf.authorized hrunning.active)
    refine h.plain rfl nofun nofun (by simp) (by simp) hbegun rfl rfl ?_
    simp [Progress.current, hrunning.active]
  | startFailed p =>
    obtain ⟨hrunning, rfl⟩ := step_startFailed.mp hstep
    have hbegun := hwf.begun (hwf.authorized hrunning.active)
    refine h.plain rfl nofun nofun (by simp) (by simp) hbegun rfl rfl ?_
    simp [Progress.current, hrunning.active]
  | ended =>
    obtain ⟨-, rfl⟩ := step_ended.mp hstep
    exact h.plain rfl nofun nofun (by simp) (by simp) rfl rfl rfl rfl

/-- Every replayed progress summarizes its entries. -/
theorem summarizes (h : replay order es = some q) : Summarizes es q := by
  refine replay_induction (I := Summarizes) ?_ ?_ h
  · exact ⟨by simp [Progress.initial], by simp [Progress.initial], by simp [Progress.initial],
      fun p => by simp [Progress.initial], fun p => by simp [Progress.initial], List.nil_sublist _⟩
  · exact fun es q e q' hq hI hstep => hI.step (wellFormed hq) hstep

/-- **Each phase is started at most once**, in the order. -/
theorem started_sublist (h : replay order es = some q) : (startedPhases es).Sublist order :=
  (summarizes h).started.trans (wellFormed h).inOrder.sublist

/-- **A phase is started** after the authorization, when all phases before it are settled and none
is running or has failed. -/
theorem started_after {p : P} {fs : List (Entry P)}
    (h : replay order (es ++ .started p :: fs) = some q) :
    .authorized ∈ es ∧ ∃ before, before ++ [p] <+: order ∧
      ∀ r ∈ before, .completed r ∈ es ∨ .disabled r ∈ es := by
  obtain ⟨q₁, q₂, hbefore, hstep, -⟩ := replay_split h
  obtain ⟨hnext, -⟩ := step_started.mp hstep
  have hsummary := summarizes hbefore
  exact ⟨hsummary.authorized.mp hnext.authorized, q₁.settled, hnext.inOrder,
    fun r hr => (hsummary.settled r).mp hr⟩

/-- Nothing is allowed after the end. -/
theorem step_open (hstep : step order q e = some q') : q.ended = false := by
  cases e with
  | begun => rw [(step_begun.mp hstep).1]; rfl
  | resumed => exact (step_resumed.mp hstep).1.2.ended
  | authorized => exact (step_authorized.mp hstep).1.2.1.ended
  | started p => exact (step_started.mp hstep).1.idle.ended
  | disabled p => exact (step_disabled.mp hstep).1.idle.ended
  | completed p => exact (step_completed.mp hstep).1.ended
  | failed p code => exact (step_failed.mp hstep).1.1.ended
  | startFailed p => exact (step_startFailed.mp hstep).1.ended
  | ended => exact (step_ended.mp hstep).1

/-- **Nothing follows the end.** -/
theorem nothing_after_ended {fs : List (Entry P)} (h : replay order (es ++ .ended :: fs) = some q) :
    fs = [] := by
  obtain ⟨q₁, q₂, -, hstep, hrest⟩ := replay_split h
  obtain ⟨-, rfl⟩ := step_ended.mp hstep
  cases fs with
  | nil => rfl
  | cons f fs =>
    obtain ⟨q₃, hnext, -⟩ := Option.bind_eq_some_iff.mp hrest
    cases step_open hnext

end PhasedRun

end RunpodJobrunner
