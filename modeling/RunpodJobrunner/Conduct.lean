import RunpodJobrunner.Supervisor

/-!
# Driven runs under a conduct

A `Conduct` restricts what happens around the engine: where calls may end, and
what the executor may observe. Under any conduct the engine issues its calls
within `Environment.driven`: a result is only recorded of a run that is at work or
has one, and a disposition only from an observation that backs it. The loop of
`drive` is treated once, by `handles_driveSteps`.
-/

namespace RunpodJobrunner

/-- What happens around an engine: the worlds a call may go between, and what the
executor may observe in which world. -/
structure Conduct where
  ends : World → World → Prop
  observes : World → ExecutionObservation → Prop

namespace Conduct

/-- Anything may happen. -/
def any : Conduct := ⟨fun _ _ => True, fun _ _ => True⟩

variable (c : Conduct) (ctl : Controller) (answers : Answers)

/-- One call of another process. -/
def OutsideCall (w w' : World) : Prop :=
  ∃ call o, call.IsOutside ∧ Runs (machine answers) (ctl.perform call) w o w' ∧ c.ends w w'

/-- What other processes do between two commands. -/
def Interferes : World → World → Prop := Relation.ReflTransGen (c.OutsideCall ctl answers)

/-- A command of the engine. -/
def engineExecute (w : World) : (cmd : EngineCommand) → EngineAnswer cmd → World → Prop
  | .call call, a, w' => ∃ w₁ o, c.Interferes ctl answers w w₁ ∧
      Runs (machine answers) (ctl.perform call) w₁ o w' ∧ c.ends w₁ w' ∧ Answered o a
  | .readRequest, _, w' => c.Interferes ctl answers w w'
  | .execute, a, w' => c.Interferes ctl answers w w' ∧ ∀ o, a = .ok o → c.observes w' o

/-- The engine dies inside a command. -/
def engineDieIn (w : World) : EngineCommand → World → Prop
  | .call call, w' => ∃ w₁, c.Interferes ctl answers w w₁ ∧
      Runs (machine answers) (ctl.perform call) w₁ .died w' ∧ c.ends w₁ w'
  | _, w' => c.Interferes ctl answers w w'

/-- The engine under the conduct. -/
def engineMachine : Machine World EngineCommand EngineAnswer where
  exec := c.engineExecute ctl answers
  die := c.engineDieIn ctl answers

/-- The worlds of a run driven under the conduct. -/
inductive Driven : World → Prop where
  | empty : Driven .empty
  | outside {w w' : World} : Driven w → c.OutsideCall ctl answers w w' → Driven w'
  | drive {w w' : World} {maxSteps : ℕ} {o : Outcome EngineFailure Projection} :
      Driven w → Runs (c.engineMachine ctl answers) (drive maxSteps) w o w' → Driven w'

end Conduct

variable {c : Conduct} {ctl : Controller} {answers : Answers} {env : Environment} {w w' : World}

/-! ## Any conduct -/

/-- Any interference is one that the conduct without conditions allows. -/
theorem Interferes.any (h : Interferes ctl answers w w') :
    Conduct.any.Interferes ctl answers w w' := by
  refine Relation.ReflTransGen.mono (fun w₁ w₂ hcall => ?_) _ _ h
  obtain ⟨call, o, houtside, hrun⟩ := hcall
  exact ⟨call, o, houtside, hrun, trivial⟩

/-- Any command of a drive is one that the conduct without conditions allows. -/
theorem engineExecute_any {cmd : EngineCommand} {a : EngineAnswer cmd}
    (h : engineExecute ctl answers w cmd a w') :
    Conduct.any.engineExecute ctl answers w cmd a w' := by
  cases cmd with
  | call call =>
    obtain ⟨w₁, o, hi, hrun, ha⟩ := h
    exact ⟨w₁, o, hi.any, hrun, trivial, ha⟩
  | readRequest => exact Interferes.any h
  | execute => exact ⟨Interferes.any h, fun _ _ => trivial⟩

/-- Any drive is one that the conduct without conditions allows. -/
theorem runs_any {p : Engine Projection} {o : Outcome EngineFailure Projection}
    (h : Runs (engineMachine ctl answers) p w o w') :
    Runs (Conduct.any.engineMachine ctl answers) p w o w' := by
  refine Runs.mono (fun w cmd a w' hexec => engineExecute_any hexec) (fun w cmd w' hdie => ?_) h
  cases cmd with
  | call call =>
    obtain ⟨w₁, hi, hrun⟩ := hdie
    exact ⟨w₁, hi.any, hrun, trivial⟩
  | readRequest | execute => exact Interferes.any hdie

/-- A driven run is driven under any conduct. -/
theorem Driven.any (h : Driven ctl answers w) : Conduct.any.Driven ctl answers w := by
  induction h with
  | empty => exact .empty
  | outside _ hcall ih =>
    obtain ⟨call, o, houtside, hrun⟩ := hcall
    exact .outside ih ⟨call, o, houtside, hrun, trivial⟩
  | drive _ hrun ih => exact .drive ih (runs_any hrun)

/-! ## Forgetting the conduct -/

/-- An outside call under a conduct is an outside call. -/
theorem Conduct.OutsideCall.outsideCall (h : c.OutsideCall ctl answers w w') :
    RunpodJobrunner.OutsideCall ctl answers w w' := by
  obtain ⟨call, o, houtside, hrun, -⟩ := h
  exact ⟨call, o, houtside, hrun⟩

/-- Interference under a conduct is interference. -/
theorem Conduct.Interferes.interferes (h : c.Interferes ctl answers w w') :
    RunpodJobrunner.Interferes ctl answers w w' :=
  Relation.ReflTransGen.mono (fun _ _ => Conduct.OutsideCall.outsideCall) _ _ h

/-- A command under a conduct is a command. -/
theorem Conduct.exec {cmd : EngineCommand} {a : EngineAnswer cmd}
    (h : c.engineExecute ctl answers w cmd a w') :
    RunpodJobrunner.engineExecute ctl answers w cmd a w' := by
  cases cmd with
  | call call =>
    obtain ⟨w₁, o, hi, hrun, -, ha⟩ := h
    exact ⟨w₁, o, Conduct.Interferes.interferes hi, hrun, ha⟩
  | readRequest => exact Conduct.Interferes.interferes h
  | execute => exact Conduct.Interferes.interferes h.1

/-- A drive under a conduct is a drive. -/
theorem Conduct.runs {p : Engine Projection} {o : Outcome EngineFailure Projection}
    (h : Runs (c.engineMachine ctl answers) p w o w') :
    Runs (RunpodJobrunner.engineMachine ctl answers) p w o w' := by
  refine Runs.mono (fun _ _ _ _ hexec => c.exec hexec) (fun w cmd w' hdie => ?_) h
  cases cmd with
  | call call =>
    obtain ⟨w₁, hi, hrun, -⟩ := hdie
    exact ⟨w₁, Conduct.Interferes.interferes hi, hrun⟩
  | readRequest | execute => exact Conduct.Interferes.interferes hdie

/-- A run driven under a conduct is a driven run. -/
theorem Conduct.Driven.driven (h : c.Driven ctl answers w) :
    RunpodJobrunner.Driven ctl answers w := by
  induction h with
  | empty => exact .empty
  | outside _ hcall ih => exact .outside ih hcall.outsideCall
  | drive _ hrun ih => exact .drive ih (c.runs hrun)

/-! ## The calls of a driven run -/

/-- The observation backs a disposition of that state: its result is the recorded
one, or it was made again when that result was recorded and no disposition was. -/
def Conduct.Backs (c : Conduct) (s : RunState) (o : ExecutionObservation) : Prop :=
  ∃ w, c.observes w o ∧ (s.workloadResult = some o.result ∨
    ∃ s₁, w.current = some s₁ ∧ s₁.workloadResult = s.workloadResult ∧
      s₁.closeout.artifactDisposition = none)

/-- The run is running its workload, or has the result of it. -/
def AtWork (s : RunState) : Prop := s.lifecycle = .running ∨ s.workloadResult ≠ none

/-- The calls issued around and by the engine. -/
def Environment.driven (answers : Answers) (c : Conduct) : Environment where
  answers := answers
  issues := fun s call =>
    match call with
    | .recordWorkloadResult _ => ∃ state, s = some state ∧ AtWork state
    | .recordArtifactDisposition d detail => ∃ state, s = some state ∧
        state.workloadResult ≠ none ∧
        (state.closeout.artifactDisposition = none →
          ∃ o, c.Backs state o ∧ o.disposition = d ∧ o.detail = detail)
    | _ => True

/-- The worlds of a run whose calls are issued and end as the conduct has it. -/
inductive Conduct.Visits (c : Conduct) (ctl : Controller) (answers : Answers) : World → Prop where
  | empty : Conduct.Visits c ctl answers .empty
  | call {w w' : World} {call : Call} {o : Outcome Failure Projection} :
      Conduct.Visits c ctl answers w → (Environment.driven answers c).issues w.current call →
      Runs (machine answers) (ctl.perform call) w o w' → c.ends w w' →
      Conduct.Visits c ctl answers w'

/-- What a conduct visits is reached under its environment. -/
theorem Conduct.Visits.reachable (h : c.Visits ctl answers w) :
    Reachable ctl (.driven answers c) w := by
  induction h with
  | empty => exact .empty
  | call _ hissue hrun _ ih => exact .call ih hissue hrun

/-- The worlds that are visited are consistent. -/
theorem Conduct.Visits.consistent (h : c.Visits ctl answers w) : Consistent w :=
  consistent_of_reaches h.reachable.reaches consistent_empty

/-- In the worlds that are visited the outcome is written once. -/
theorem Conduct.Visits.writtenOnce (h : c.Visits ctl answers w) : WrittenOnce w :=
  reachable_invariant writtenOnce_empty (fun _ _ hs hw => hs.writtenOnce hw) h.reachable

/-- The calls from outside are issued in every state. -/
theorem Call.IsOutside.driven {call : Call} (h : call.IsOutside) (s : Option RunState) :
    (Environment.driven answers c).issues s call := by
  cases call with
  | recordWorkloadResult result => cases h
  | recordArtifactDisposition disposition detail => cases h
  | _ => trivial

/-- What other processes do is part of the run. -/
theorem Conduct.Interferes.visits (h : c.Interferes ctl answers w w')
    (hw : c.Visits ctl answers w) :
    c.Visits ctl answers w' ∧ Reaches ctl (.driven answers c) w w' := by
  induction h with
  | refl => exact ⟨hw, .refl⟩
  | @tail w₁ w₂ _ hcall ih =>
    obtain ⟨hvisits, hsteps⟩ := ih
    obtain ⟨call, o, houtside, hrun, hends⟩ := hcall
    have hissue := @Call.IsOutside.driven c answers call houtside w₁.current
    refine ⟨.call hvisits hissue hrun hends, ?_⟩
    exact (Keeps.sound hrun (stays_perform hsteps hvisits.consistent hissue) hsteps).1

/-! ## What stays while other processes act -/

/-- The last observation is still good for a disposition. -/
def Conduct.Carries (c : Conduct) (w : World) (o : ExecutionObservation) : Prop :=
  ∃ s, w.current = some s ∧ s.workloadResult ≠ none ∧
    (s.closeout.artifactDisposition = none → c.Backs s o)

/-- Whether a state backs an observation depends on its result. -/
theorem Conduct.Backs.of_eq {s s' : RunState} {o : ExecutionObservation} (h : c.Backs s o)
    (heq : s'.workloadResult = s.workloadResult) : c.Backs s' o := by
  obtain ⟨w, hobs, hback⟩ := h
  refine ⟨w, hobs, hback.imp (fun h => heq.trans h) fun ⟨s₁, hcur, hresult, hnone⟩ => ?_⟩
  exact ⟨s₁, hcur, hresult.trans heq.symm, hnone⟩

/-- A commit leaves what carries an observation, as results are written once. -/
theorem Conduct.Carries.append {kind : Text} {s' : RunState} {n : ℕ} {o : ExecutionObservation}
    (hw : WrittenOnce w) (hc : Commit ctl env w kind s') (h : c.Carries w o) :
    c.Carries (w.append ⟨kind, ⟨n, s'⟩⟩) o := by
  obtain ⟨s, hcur, hresult, hback⟩ := h
  have hsucc := (hc.outcomeChange hcur).succeeds (hw.outcomeOpen s hcur)
  obtain ⟨r, hr⟩ := Option.ne_none_iff_exists'.mp hresult
  have hr' := hsucc.result r hr
  refine ⟨s', rfl, by simp [hr'], fun hnone => (hback ?_).of_eq (hr'.trans hr.symm)⟩
  -- a disposition there was would still be there
  by_contra hsome
  obtain ⟨d, hd⟩ := Option.ne_none_iff_exists'.mp hsome
  rw [hsucc.disposition d hd] at hnone
  cases hnone

/-- A run that is under way, or has a result, is not taken back before its work. -/
theorem Commit.of_running {kind : Text} {s s' : RunState}
    (h : Commit ctl (.driven answers c) w kind s') (hcur : w.current = some s)
    (hlife : s.lifecycle = .running) : s'.workloadResult ≠ none := by
  have hsame : ∀ {t : RunState}, w.current = some t → t = s := World.current_unique hcur
  have hnever : ∀ {t : RunState}, w.current = some t → t.lifecycle ≠ .running → False := by
    intro t ht hne
    obtain rfl := hsame ht
    exact hne hlife
  cases h with
  | planned hempty _ _ _ => simp [World.current, hempty] at hcur
  | workloadTerminal _ _ _ _ | stopRequested _ _ _ => simp
  | dispositionRecorded hc hissue _ _ =>
    obtain ⟨state, hstate, hresult, -⟩ := hissue
    obtain rfl := Option.some.inj hstate
    exact hresult
  | intended hc hl => exact (hnever hc (by simp [hl])).elim
  | duplicates hp | dispatched hp | findRejected hp | createRejected hp | createFailed hp
  | found hp | created hp | visibilityPending hp | visibilityExhausted hp =>
    exact (hnever hp.current (by simp [hp.lifecycle])).elim
  | missing hs | getRejected hs | observedRunning hs | startRejected hs | startFailed hs
  | started hs => exact (hnever hs.current (by simp [hs.lifecycle])).elim
  | adoptRejected hu | adoptDuplicates hu | adopted hu | notDispatched hu | deadlinePending hu
  | absenceObserved hu | absencePending hu | absenceConfirmed hu =>
    exact (hnever hu.current (by simp [hu.lifecycle])).elim
  | nothingPending hd | deleteFailed hd | deleted hd | absent hd | deletionPending hd
  | spendObserved hd | closed hd => exact (hnever hd.current (by simp [hd.lifecycle])).elim

/-- A run that has a result has one after every step. -/
theorem Step.decided (hstep : Step ctl env w w')
    (h : ∃ s, w.current = some s ∧ s.workloadResult ≠ none) :
    ∃ s, w'.current = some s ∧ s.workloadResult ≠ none := by
  cases hstep with
  | commit _ hc _ =>
    obtain ⟨s, hcur, hs⟩ := h
    exact ⟨_, rfl, hc.decided hcur hs⟩
  | request hempty _ =>
    obtain ⟨s, hcur, -⟩ := h
    simp [World.current, hempty] at hcur
  | saw _ _ | corrupt | snapshot _ | receipt _ _ => exact h

/-- A step keeps the run at its work, and the last observation good. -/
theorem Step.atWork (hstep : Step ctl (.driven answers c) w w')
    (h : ∃ s, w.current = some s ∧ AtWork s) : ∃ s, w'.current = some s ∧ AtWork s := by
  cases hstep with
  | commit _ hc _ =>
    obtain ⟨s, hcur, hlife | hresult⟩ := h
    · exact ⟨_, rfl, .inr (hc.of_running hcur hlife)⟩
    · exact ⟨_, rfl, .inr (hc.decided hcur hresult)⟩
  | request hempty _ =>
    obtain ⟨s, hcur, -⟩ := h
    simp [World.current, hempty] at hcur
  | saw _ _ | corrupt | snapshot _ | receipt _ _ => exact h

/-- A world that carries an observation does so after every step. -/
theorem Step.carries {o : ExecutionObservation} (hstep : Step ctl env w w')
    (h : WrittenOnce w ∧ c.Carries w o) : WrittenOnce w' ∧ c.Carries w' o := by
  refine ⟨hstep.writtenOnce h.1, ?_⟩
  cases hstep with
  | commit _ hc _ => exact h.2.append h.1 hc
  | request hempty _ =>
    obtain ⟨s, hcur, -⟩ := h.2
    simp [World.current, hempty] at hcur
  | saw _ _ | corrupt | snapshot _ | receipt _ _ => exact h.2

/-- A run that has a result has one ever after. -/
theorem decided_of_reaches (h : Reaches ctl env w w')
    (hs : ∃ s, w.current = some s ∧ s.workloadResult ≠ none) :
    ∃ s, w'.current = some s ∧ s.workloadResult ≠ none :=
  @invariant_of_steps World (Step ctl env) (fun w => ∃ s, w.current = some s ∧
    s.workloadResult ≠ none)
    (fun _ _ hstep => hstep.decided) w w' h hs

/-- A run that was at work once runs or has its result ever after. -/
theorem atWork_of_reaches (h : Reaches ctl (.driven answers c) w w')
    (hs : ∃ s, w.current = some s ∧ AtWork s) : ∃ s, w'.current = some s ∧ AtWork s :=
  @invariant_of_steps World (Step ctl (.driven answers c))
    (fun w => ∃ s, w.current = some s ∧ AtWork s)
    (fun _ _ hstep => hstep.atWork) w w' h hs

/-- A world that carries an observation does so ever after. -/
theorem carries_of_reaches {o : ExecutionObservation} (h : Reaches ctl env w w')
    (hw : WrittenOnce w) (ho : c.Carries w o) : c.Carries w' o :=
  (@invariant_of_steps World (Step ctl env) (fun w => WrittenOnce w ∧ c.Carries w o)
    (fun _ _ hstep => hstep.carries) w w' h ⟨hw, ho⟩).2

/-! ## What the calls answer -/

/-- `status` returns the state in effect. -/
theorem keeps_readState {E : Failure → World → Prop} (hw : Consistent w)
    (hE : ∀ e w', E e w') :
    Keeps (machine answers) (fun _ => True) (fun p w' => w'.current = some p.state) E
      readState w := by
  rw [readState]
  refine keeps_currentState trivial (fun _ => hE _ _) hw (fun _ => hE _ _) fun e _ hcur => ?_
  split
  · refine keeps_ensureCloseoutReceipt trivial trivial (fun _ _ _ => hE _ _) ?_
    rintro w' - (rfl | rfl)
    · exact hcur
    · exact hcur
  · exact hcur

/-- A recorded result is the one of the state in effect. -/
theorem keeps_recordWorkloadResult {result : WorkloadResult} (hw : Consistent w) :
    Keeps (machine answers) (fun _ => True)
      (fun _ w' => ∃ s, w'.current = some s ∧ s.workloadResult = some result) (fun _ _ => True)
      (Controller.recordWorkloadResult result) w := by
  rw [Controller.recordWorkloadResult]
  refine keeps_currentState trivial (fun _ => trivial) hw (fun _ => trivial) fun e _ hcur => ?_
  cases hexisting : e.projection.state.workloadResult with
  | some existing =>
    by_cases h : existing = result
    · simp only [if_pos h]
      exact ⟨_, hcur, h ▸ hexisting⟩
    · simp only [if_neg h]
      trivial
  | none =>
    by_cases hclosed : e.projection.state.lifecycle = .closed
    · simp only [if_pos hclosed]
      trivial
    · simp only [if_neg hclosed]
      rw [← Process.bind_done (commitState _ _)]
      refine keeps_commitState trivial (fun _ _ _ => trivial) (fun _ _ => trivial)
        (fun _ _ _ _ => trivial) fun w' _ hw' _ => ?_
      exact ⟨_, by rw [World.current, hw'.events]; rfl, rfl⟩

/-! ## The loop -/

/-- The answers an engine has had, newest first. -/
abbrev EngineHistory := List (Σ cmd, EngineAnswer cmd)

/-- The engine leaves only worlds of the run, and executes only where `R` allows it. -/
def Conduct.Handles (c : Conduct) (ctl : Controller) (answers : Answers)
    (R : EngineHistory → World → Prop) (history : EngineHistory) {α : Type} (p : Engine α)
    (w : World) : Prop :=
  Keeps (c.engineMachine ctl answers) (c.Visits ctl answers) (fun _ _ => True) (fun _ _ => True) p w ∧
    Issues (c.engineMachine ctl answers) (fun h cmd w => cmd = .execute → R h w) history p w

/-- A state of which the engine executes the request. -/
def Executes (s : RunState) : Prop :=
  s.lifecycle = .running ∨ s.lifecycle = .recovering ∧ recoveryMustNotDispatchWorkload s = false

section Loop

variable {R : EngineHistory → World → Prop} {history : EngineHistory} {α : Type}

/-- A call of the engine, if it may be issued whatever other processes do before,
and what its answer says. -/
theorem handles_engineCall {call : Call} {k : Projection → Engine α}
    {fact : Projection → World → Prop} (hw : c.Visits ctl answers w)
    (hissue : ∀ w₁, c.Interferes ctl answers w w₁ →
      (Environment.driven answers c).issues w₁.current call)
    (hfact : ∀ w₁, Consistent w₁ →
      Keeps (machine answers) (fun _ => True) fact (fun _ _ => True) (ctl.perform call) w₁)
    (hk : ∀ p w', c.Visits ctl answers w' → Reaches ctl (.driven answers c) w w' → fact p w' →
      c.Handles ctl answers R (⟨.call call, .ok p⟩ :: history) (k p) w') :
    c.Handles ctl answers R history (engineCall call >>= k) w := by
  have hvisits : ∀ {w₁ w' o}, c.Interferes ctl answers w w₁ →
      Runs (machine answers) (ctl.perform call) w₁ o w' → c.ends w₁ w' → c.Visits ctl answers w' :=
    fun hi hrun hends => .call (hi.visits hw).1 (hissue _ hi) hrun hends
  have hreaches : ∀ {w₁ w' o}, c.Interferes ctl answers w w₁ →
      Runs (machine answers) (ctl.perform call) w₁ o w' → Reaches ctl (.driven answers c) w w' := by
    intro w₁ w' o hi hrun
    obtain ⟨hw₁, hsteps⟩ := hi.visits hw
    exact (Keeps.sound hrun (stays_perform hsteps hw₁.consistent (hissue w₁ hi)) hsteps).1
  have hok : ∀ {p w' w₁ o}, c.Interferes ctl answers w w₁ →
      Runs (machine answers) (ctl.perform call) w₁ o w' → Answered o (.ok p) → fact p w' := by
    intro p w' w₁ o hi hrun hanswer
    cases o with
    | returned q =>
      obtain rfl : q = p := hanswer
      exact (Keeps.sound hrun (hfact w₁ (hi.visits hw).1.consistent) trivial).2.1 _ rfl
    | raised e => cases hanswer
    | died => cases hanswer
  refine ⟨⟨?_, ?_⟩, fun h => (by cases h), ?_⟩
  · rintro w' ⟨w₁, hi, hrun, hends⟩
    exact hvisits hi hrun hends
  · rintro a w' ⟨w₁, o, hi, hrun, hends, hanswer⟩
    refine ⟨hvisits hi hrun hends, ?_⟩
    cases a with
    | error e => trivial
    | ok p => exact (hk p w' (hvisits hi hrun hends) (hreaches hi hrun) (hok hi hrun hanswer)).1
  · rintro a w' ⟨w₁, o, hi, hrun, hends, hanswer⟩
    cases a with
    | error e => trivial
    | ok p => exact (hk p w' (hvisits hi hrun hends) (hreaches hi hrun) (hok hi hrun hanswer)).2

/-- The executor, and what it observes. -/
theorem handles_executeRequest {k : ExecutionObservation → Engine α} (hw : c.Visits ctl answers w)
    (hR : ∀ w', c.Interferes ctl answers w w' → R (⟨.readRequest, .ok ()⟩ :: history) w')
    (hk : ∀ o w' h, c.Interferes ctl answers w w' → c.observes w' o →
      c.Handles ctl answers R h (k o) w') :
    c.Handles ctl answers R history (executeRequest >>= k) w := by
  refine ⟨⟨fun w' hi => (Conduct.Interferes.visits hi hw).1, fun a w₁ hi => ?_⟩,
    fun h => (by cases h), fun a w₁ hi => ?_⟩
  · refine ⟨(Conduct.Interferes.visits hi hw).1, ?_⟩
    cases a with
    | error e => trivial
    | ok u =>
      have hw₁ := (Conduct.Interferes.visits hi hw).1
      refine ⟨fun w' hi' => (Conduct.Interferes.visits hi' hw₁).1, fun a w₂ hi' => ?_⟩
      refine ⟨(Conduct.Interferes.visits hi'.1 hw₁).1, ?_⟩
      cases a with
      | error e => trivial
      | ok o => exact (hk o w₂ [] (hi.trans hi'.1) (hi'.2 o rfl)).1
  · cases a with
    | error e => trivial
    | ok u =>
      refine ⟨fun _ => hR w₁ hi, fun a w₂ hi' => ?_⟩
      cases a with
      | error e => trivial
      | ok o => exact (hk o w₂ _ (hi.trans hi'.1) (hi'.2 o rfl)).2

/-- A recovery that may go on has its workload result. -/
theorem recovers_decided {s : RunState} (h : recoveryMustNotDispatchWorkload s = false) :
    s.workloadResult ≠ none := by
  intro hnone
  simp [recoveryMustNotDispatchWorkload, hnone] at h

/-- Every step of `drive` leaves a world of the run, and executes where `R` allows
it: after the state it has just read, and before anything else. -/
theorem handles_driveSteps
    (hR : ∀ h p w w', c.Visits ctl answers w → w.current = some p.state → Executes p.state →
      c.Interferes ctl answers w w' →
      R (⟨.readRequest, .ok ()⟩ :: ⟨.call .status, .ok p⟩ :: h) w')
    (n : ℕ) {observation : Option ExecutionObservation} (hw : c.Visits ctl answers w)
    (hobs : ∀ o, observation = some o → c.Carries w o) :
    c.Handles ctl answers R history (driveSteps n observation) w := by
  induction n generalizing w observation history with
  | zero => exact ⟨trivial, trivial⟩
  | succ n ih =>
    -- a call whose answer the loop drops
    have hcall : ∀ {call : Call} {o w h}, c.Visits ctl answers w →
        (∀ w₁, c.Interferes ctl answers w w₁ →
          (Environment.driven answers c).issues w₁.current call) →
        (∀ ob, o = some ob → c.Carries w ob) →
        c.Handles ctl answers R h (engineCall call >>= fun _ => driveSteps n o) w := by
      intro call o w h hw hissue hobs
      refine handles_engineCall hw hissue (fun w₁ _ => keeps_true _ w₁) fun _ w' hw' hr _ => ih hw' ?_
      exact fun ob hob => carries_of_reaches hr hw.writtenOnce (hobs ob hob)
    rw [driveSteps]
    refine handles_engineCall hw (fun _ _ => trivial)
      (fun w₁ hw₁ => keeps_readState hw₁ fun _ _ => trivial) fun p w' hw' hr hcur => ?_
    have hcarried : ∀ o, observation = some o → c.Carries w' o :=
      fun o ho => carries_of_reaches hr hw.writtenOnce (hobs o ho)
    cases hlife : p.state.lifecycle with
    | closed => exact ⟨trivial, trivial⟩
    | planned | provisioning | starting | deleting =>
      exact hcall hw' (fun _ _ => trivial) hcarried
    | running =>
      refine handles_executeRequest hw' (fun w₁ hi => hR _ p w' w₁ hw' hcur (.inl hlife) hi)
        fun o w₁ h hi hobserved => ?_
      have hwork := atWork_of_reaches (hi.visits hw').2 ⟨p.state, hcur, .inl hlife⟩
      obtain ⟨hw₁, -⟩ := hi.visits hw'
      refine handles_engineCall hw₁ (fun w₂ hi' => ?_) (fun w₂ hw₂ => keeps_recordWorkloadResult hw₂)
        fun _ w₂ hw₂ _ hrecorded => ih hw₂ ?_
      · exact atWork_of_reaches (hi'.visits hw₁).2 hwork
      · -- the result it recorded is its own
        rintro ob hob
        obtain rfl := Option.some.inj hob
        obtain ⟨s, hs, hresult⟩ := hrecorded
        exact ⟨s, hs, by simp [hresult], fun _ => ⟨w₁, hobserved, .inl hresult⟩⟩
    | recovering =>
      dsimp only
      cases hmust : recoveryMustNotDispatchWorkload p.state with
      | true => exact hcall hw' (fun _ _ => trivial) hcarried
      | false =>
        have hrecord : ∀ {o : ExecutionObservation} {w h}, c.Visits ctl answers w → c.Carries w o →
            c.Handles ctl answers R h
              (engineCall (.recordArtifactDisposition o.disposition o.detail) >>= fun _ =>
                driveSteps n (some o)) w := by
          intro o w h hw ho
          refine hcall hw (fun w₁ hi => ?_) fun ob hob => Option.some.inj hob ▸ ho
          obtain ⟨s, hs, hresult, hback⟩ := carries_of_reaches (hi.visits hw).2 hw.writtenOnce ho
          exact ⟨s, hs, hresult, fun hnone => ⟨o, hback hnone, rfl, rfl⟩⟩
        cases observation with
        | some o => exact hrecord hw' (hcarried o rfl)
        | none =>
          refine handles_executeRequest hw'
            (fun w₁ hi => hR _ p w' w₁ hw' hcur (.inr ⟨hlife, hmust⟩) hi)
              fun o w₁ h hi hobserved => ?_
          obtain ⟨hw₁, hsteps⟩ := hi.visits hw'
          refine hrecord hw₁ ?_
          -- the result is recorded, so what is observed now is observed of it
          have hdecided : ∃ s, w₁.current = some s ∧ s.workloadResult ≠ none :=
            decided_of_reaches hsteps ⟨p.state, hcur, recovers_decided hmust⟩
          obtain ⟨s, hs, hresult⟩ := hdecided
          exact ⟨s, hs, hresult, fun hnone => ⟨w₁, hobserved, .inr ⟨s, hs, rfl, hnone⟩⟩⟩

end Loop

/-! ## A driven run is a run -/

/-- A driven run is one of the worlds that its conduct visits. -/
theorem Conduct.Driven.visits (h : c.Driven ctl answers w) : c.Visits ctl answers w := by
  induction h with
  | empty => exact .empty
  | outside _ hcall ih => exact (Conduct.Interferes.visits (.single hcall) ih).1
  | @drive w w' n o _ hrun ih =>
    have hhandles : c.Handles ctl answers (fun _ _ => True) [] (driveSteps n none) w :=
      handles_driveSteps (fun _ _ _ _ _ _ _ _ => trivial) n ih fun _ ho => nomatch ho
    exact (Keeps.sound hrun hhandles.1 ih).1

/-- An environment with the same answers and more calls reaches no less. -/
theorem Reachable.mono {env' : Environment} (h : Reachable ctl env w)
    (hanswers : env'.answers = env.answers)
    (hissues : ∀ s call, env.issues s call → env'.issues s call) : Reachable ctl env' w := by
  induction h with
  | empty => exact .empty
  | call _ hissue hrun ih => exact .call ih (hissues _ _ hissue) (hanswers ▸ hrun)

/-- **A driven run is a run** in which an artifact disposition is only recorded of
a run that has its workload result. -/
theorem Driven.reachable (h : Driven ctl answers w) : Reachable ctl (.supervised answers) w := by
  refine h.any.visits.reachable.mono rfl fun s call hissue => ?_
  cases call with
  | recordArtifactDisposition d detail =>
    obtain ⟨state, hs, hresult, -⟩ := hissue
    exact ⟨state, hs, hresult⟩
  | _ => trivial

/-! ## Playing an engine -/

/-- The answer to a command of an engine that nobody interferes with: the calls
are played, and the executor has one observation. -/
def engineRespond (ctl : Controller) (sc : Script) (check : Check env)
    (observation : ExecutionObservation) (w : World) :
    (c : EngineCommand) → EngineAnswer c × World × Bool
  | .call call =>
    let r := simulate sc check (ctl.perform call) w
    match r.outcome with
    | .returned p => (.ok p, r.world, r.allowed)
    | .raised e => (.error e, r.world, r.allowed)
    | .died => (.error .runNotFound, r.world, false)
  | .readRequest => (.ok (), w, true)
  | .execute => (.ok observation, w, true)

/-- Play an engine from its start. -/
def playDrive (ctl : Controller) (sc : Script) (check : Check env)
    (observation : ExecutionObservation) (maxSteps : ℕ) (w : World) :
    Played World EngineFailure Projection :=
  (drive maxSteps).interpret (engineRespond ctl sc check observation) w

/-- An answer that the script may give under a conduct is one of its commands. -/
theorem Conduct.engineExecute_respond {sc : Script} {check : Check env}
    {observation : ExecutionObservation} {cmd : EngineCommand} (hends : ∀ w w', c.ends w w')
    (hobserves : ∀ w, c.observes w observation)
    (h : (engineRespond ctl sc check observation w cmd).2.2 = true) :
    c.engineExecute ctl env.answers w cmd (engineRespond ctl sc check observation w cmd).1
      (engineRespond ctl sc check observation w cmd).2.1 := by
  cases cmd with
  | readRequest => exact .refl
  | execute => exact ⟨.refl, fun o ho => Except.ok.inj ho ▸ hobserves w⟩
  | call call =>
    have hrun := @runs_simulate _ _ sc check (ctl.perform call) w
    simp only [engineRespond] at h ⊢
    split at h
    · next p hp => exact ⟨w, .returned p, .refl, hp ▸ hrun h, hends _ _, rfl⟩
    · next e he => exact ⟨w, .raised e, .refl, he ▸ hrun h, hends _ _, rfl⟩
    · cases h

/-- An answer that the script may give is one of the drive. -/
theorem engineExecute_respond {sc : Script} {check : Check env}
    {observation : ExecutionObservation} {cmd : EngineCommand}
    (h : (engineRespond ctl sc check observation w cmd).2.2 = true) :
    engineExecute ctl env.answers w cmd (engineRespond ctl sc check observation w cmd).1
      (engineRespond ctl sc check observation w cmd).2.1 :=
  Conduct.any.exec (Conduct.any.engineExecute_respond (fun _ _ => trivial) (fun _ => trivial) h)

/-- **Playing is driving** under a conduct that lets calls end anywhere and allows
the observation. -/
theorem Conduct.driven_playDrive {sc : Script} {check : Check env}
    {observation : ExecutionObservation} {maxSteps : ℕ} (hends : ∀ w w', c.ends w w')
    (hobserves : ∀ w, c.observes w observation) (hw : c.Driven ctl env.answers w)
    (h : (playDrive ctl sc check observation maxSteps w).allowed = true) :
    c.Driven ctl env.answers (playDrive ctl sc check observation maxSteps w).world :=
  .drive hw (Process.runs_interpret (fun _ _ => c.engineExecute_respond hends hobserves) h)

/-- A played drive of a driven run is driven. -/
theorem driven_playDrive {sc : Script} {check : Check env} {observation : ExecutionObservation}
    {maxSteps : ℕ} (hw : Driven ctl env.answers w)
    (h : (playDrive ctl sc check observation maxSteps w).allowed = true) :
    Driven ctl env.answers (playDrive ctl sc check observation maxSteps w).world :=
  (Conduct.driven_playDrive (fun _ _ => trivial) (fun _ => trivial) hw.any h).driven

/-- A played call of another process. -/
theorem Conduct.driven_simulate {sc : Script} {check : Check env} {call : Call}
    (houtside : call.IsOutside) (hw : c.Driven ctl env.answers w)
    (hend : c.ends w (simulate sc check (ctl.perform call) w).world)
    (h : (simulate sc check (ctl.perform call) w).allowed = true) :
    c.Driven ctl env.answers (simulate sc check (ctl.perform call) w).world :=
  .outside hw ⟨call, _, houtside, runs_simulate h, hend⟩

/-! ## A sample drive -/

/-- The workload succeeds, and its artifacts are verified. -/
def sampleObservation : ExecutionObservation := ⟨.succeeded, .verified, none⟩

/-- The sample run planned by another process. -/
def plannedRun {env : Environment} (sc : Script) (check : Check env) :
    Played World Failure Projection :=
  simulate sc check (sampleController.perform (.plan sampleRequest (.inl (txt "5")))) .empty

/-- The planned run is driven, where the conduct lets its plan end. -/
theorem Conduct.driven_plannedRun {env : Environment} {sc : Script} {check : Check env}
    (hend : c.ends .empty (plannedRun sc check).world) (h : (plannedRun sc check).allowed = true) :
    c.Driven sampleController env.answers (plannedRun sc check).world := by
  have houtside : (Call.plan sampleRequest (.inl (txt "5"))).IsOutside := trivial
  exact Conduct.driven_simulate houtside .empty hend h

/-- The planned run is driven. -/
theorem driven_plannedRun {env : Environment} {sc : Script} {check : Check env}
    (h : (plannedRun sc check).allowed = true) :
    Driven sampleController env.answers (plannedRun sc check).world := by
  exact (Conduct.driven_plannedRun trivial h : Conduct.any.Driven _ _ _).driven

end RunpodJobrunner
