import RunpodJobrunner.RunnerConduct

/-!
# Runs of the remote runner

The methods that run the phases, after those of `RunnerConduct`, up to `run`; then the
constructor, which establishes from what earlier processes left what the methods rely on.
`Reached.sound` is what all processes together keep.
-/

namespace RunpodJobrunner

open Json Identity Process

namespace Runner

variable {floatOf : FloatLiteral → JsonFloat} {g : Setting} {self : Session} {w : World} {s : State}

/-! ## What stays tidy -/

theorem IsExitCodes.nil : IsExitCodes [] := ⟨List.nodup_nil, nofun, nofun⟩

/-- The exit code of a phase is one more exit code. -/
theorem IsExitCodes.setKey {codes : Record} {phase : Text} {code : ℤ} (h : IsExitCodes codes)
    (hphase : phase ∈ phaseOrder) : IsExitCodes (setKey phase (.int code) codes) := by
  refine ⟨nodup_setKey h.nodup, fun p hp => ?_, fun p hp => ?_⟩
  · rcases mem_setKey hp with rfl | hp
    · exact hphase
    · exact h.phases p hp
  · rcases mem_setKey hp with rfl | hp
    · exact ⟨code, rfl⟩
    · exact h.ints p hp

/-- An exit code leaves the state tidy. -/
theorem Tidy.withExitCode (h : Tidy s) {phase : Text} (hphase : phase ∈ phaseOrder) (code : ℤ) :
    Tidy (s.withExitCode phase code) :=
  ⟨h.completed, h.exitCodes.setKey hphase, h.phase⟩

theorem isPhase_some {phase : Text} (h : phase ∈ phaseOrder) : IsPhase (some phase) :=
  fun _ hp => Option.some.inj hp ▸ h

theorem isPhase_none : IsPhase none := nofun

/-- What a step of a run returns: a state, and a text or a result where the run ends. -/
def Ended (r : Option Text × State) (_ : World) : Prop :=
  Tidy r.2 ∧ ∀ reason, r.1 = some reason → reason ∈ StatusServer.reasons

/-- See `Ended`. -/
def Closed (r : Option Record × State) (_ : World) : Prop :=
  Tidy r.2 ∧ ∀ t, r.1 = some t → IsResult t

/-- The reason of a stop is one that the status server knows. -/
theorem StopReason.text_mem (reason : StopReason) : reason.text ∈ StatusServer.reasons := by
  cases reason <;> decide

theorem ended_some {reason : Text} (hs : Tidy s) (h : reason ∈ StatusServer.reasons) :
    Ended (some reason, s) w :=
  ⟨hs, fun _ hr => Option.some.inj hr ▸ h⟩

theorem ended_none (hs : Tidy s) : Ended (none, s) w := ⟨hs, nofun⟩

theorem closed_some {t : Record} (hs : Tidy s) (h : IsResult t) : Closed (some t, s) w :=
  ⟨hs, fun _ hr => Option.some.inj hr ▸ h⟩

theorem closed_none (hs : Tidy s) : Closed (none, s) w := ⟨hs, nofun⟩

/-! ## The launch authorization -/

/-- Waiting for the token ends with the token or a known reason. -/
theorem follows_awaitToken {token : PurePosixPath} {deadline heartbeatInterval : ℚ} {fuel : ℕ}
    {nextHeartbeat : ℚ} (hs : Tidy s) : Follows floatOf g self Ended
      (awaitToken self token deadline heartbeatInterval fuel nextHeartbeat s) w := by
  induction fuel generalizing nextHeartbeat s w with
  | zero => exact Follows.raise nofun
  | succ fuel ih =>
    refine Follows.look trivial fun reason _ => ?_
    cases reason with
    | some reason => exact Follows.done (ended_some hs reason.text_mem)
    | none =>
      refine Follows.look trivial fun there _ => ?_
      split
      · refine Follows.look trivial fun read _ => ?_
        split
        · exact Follows.done (ended_some hs (by decide))
        split
        · exact Follows.done (ended_none hs)
        · refine Follows.bind (follows_appendEvent isEventFields_nil fun hkind =>
            absurd hkind (by decide)) fun s' w' hs' => ?_
          obtain rfl := hs'
          exact Follows.done (ended_none ⟨hs.completed, hs.exitCodes, hs.phase⟩)
      · refine Follows.clock fun now => ?_
        split
        · exact Follows.done (ended_some hs (by decide))
        split
        · exact Follows.bind (follows_publishStatus (by decide) hs.phase nofun) fun _ _ _ => ih hs
        · exact ih hs

/-- `_wait_for_launch_authorization` ends with the token or a known reason. -/
theorem follows_waitForLaunchAuthorization {fuel : ℕ} (hs : Tidy s) :
    Follows floatOf g self Ended (waitForLaunchAuthorization self fuel s) w := by
  unfold waitForLaunchAuthorization
  split
  · exact Follows.done (ended_some hs (by decide))
  · refine Follows.clock fun start => Follows.orRaise (plain_numberAsFloat _) fun interval _ => ?_
    exact Follows.clock fun now => follows_awaitToken hs

/-! ## Children -/

/-- Waiting for the exit of a process may end in any way. -/
theorem follows_awaitExit {pid : ℤ} {deadline : ℚ} {fuel : ℕ} :
    Follows floatOf g self (fun _ _ => True) (awaitExit pid deadline fuel) w := by
  induction fuel generalizing w with
  | zero => exact Follows.raise nofun
  | succ fuel ih =>
    refine Follows.look trivial fun code _ => ?_
    cases code with
    | some code => exact Follows.done trivial
    | none =>
      refine Follows.clock fun now => ?_
      split
      · exact ih
      · exact Follows.done trivial

/-- Waiting for the end of a process group may end in any way. -/
theorem follows_awaitGroup {pid : ℤ} {deadline : ℚ} {fuel : ℕ} :
    Follows floatOf g self (fun _ _ => True) (awaitGroup pid deadline fuel) w := by
  induction fuel generalizing w with
  | zero => exact Follows.raise nofun
  | succ fuel ih =>
    refine Follows.clock fun now => ?_
    split
    · refine Follows.look trivial fun found _ => ?_
      split
      · exact ih
      · exact Follows.done trivial
    · exact Follows.done trivial

/-- `_terminate_process_group` leaves the state tidy. -/
theorem follows_terminateProcessGroup {fuel : ℕ} (hs : Tidy s) :
    Follows floatOf g self (fun s' _ => Tidy s') (terminateProcessGroup self fuel s) w := by
  rw [terminateProcessGroup]
  split
  · exact Follows.done hs
  next pid hpid =>
  refine Follows.look trivial fun code _ => ?_
  cases code with
  | some code => exact Follows.done hs
  | none =>
    refine Follows.look trivial fun found _ => ?_
    split
    · exact Follows.done hs
    refine Follows.clock fun now => Follows.orRaise (plain_numberAsFloat _) fun grace _ => ?_
    refine follows_awaitExit.bind fun _ w' _ => Follows.look trivial fun code _ => ?_
    cases code
    case' none => refine Follows.look trivial fun _ _ => ?_
    -- killed or not, the child is waited for
    all_goals
      refine Follows.look trivial fun returnCode _ => Follows.done ?_
      split
      · next phase hphase =>
          exact ⟨hs.completed, hs.exitCodes.setKey (hs.phase phase hphase), hs.phase⟩
      · exact ⟨hs.completed, hs.exitCodes, hs.phase⟩

/-- `_terminate_recorded_process_group` may end in any way. -/
theorem follows_terminateRecordedProcessGroup {fuel : ℕ} :
    Follows floatOf g self (fun _ _ => True) (terminateRecordedProcessGroup self fuel) w := by
  refine Follows.look trivial fun status _ => ?_
  split
  · exact Follows.done trivial
  refine Follows.look trivial fun own _ => ?_
  split
  · exact Follows.done trivial
  refine Follows.look trivial fun found _ => ?_
  split
  · exact Follows.done trivial
  refine Follows.clock fun now => Follows.orRaise (plain_numberAsFloat _) fun grace _ => ?_
  refine follows_awaitGroup.bind fun gone _ _ => ?_
  split
  · exact Follows.done trivial
  · exact Follows.look trivial fun _ _ => Follows.done trivial

/-! ## Phases -/

/-- A phase that is stopped finishes the run for a known reason. -/
theorem follows_stopPhase {fuel : ℕ} {outcome reason phase : Text} (hs : Tidy s)
    (houtcome : outcome ∈ StatusServer.outcomes) (hreason : reason ∈ StatusServer.reasons)
    (hphase : phase ∈ phaseOrder) :
    Follows floatOf g self Closed (stopPhase self fuel s outcome reason phase) w := by
  refine (follows_terminateProcessGroup hs).bind fun s' _ hs' => ?_
  refine (follows_terminalResult hs' houtcome hreason (isPhase_some hphase)).bind fun t _ ht => ?_
  exact Follows.done (closed_some hs' ht.1)

/-- A phase that is watched ends with its exit code, or finishes the run. -/
theorem follows_watchPhase {phase : Text} {pid : ℤ} {phaseStarted timeout heartbeatInterval : ℚ}
    {fuel : ℕ} {nextHeartbeat : ℚ} (hs : Tidy s) (hphase : phase ∈ phaseOrder) :
    Follows floatOf g self Closed
      (watchPhase self phase pid phaseStarted timeout heartbeatInterval fuel nextHeartbeat s) w := by
  induction fuel generalizing nextHeartbeat w with
  | zero => exact Follows.raise nofun
  | succ fuel ih =>
    refine Follows.look trivial fun code _ => ?_
    cases code with
    | some code =>
      have hcode := hs.withExitCode hphase code
      have hkind :
          (if code = 0 then txt "phase_completed" else txt "phase_failed") ≠ txt "phase_started" := by
        split <;> decide
      refine Follows.bind (follows_publishStatus (by decide) hcode.phase nofun) fun _ _ _ => ?_
      refine Follows.bind (follows_appendEvent (isEventFields_exitCode _) fun h => absurd h hkind)
        fun s' w' hs' => ?_
      obtain rfl := hs'
      dsimp only
      split
      · refine Follows.bind (follows_terminalResult ⟨hcode.completed, hcode.exitCodes, hcode.phase⟩
          (by decide)
          (by decide) (isPhase_some hphase)) fun t _ ht => ?_
        exact Follows.done (closed_some ⟨hcode.completed, hcode.exitCodes, hcode.phase⟩ ht.1)
      · exact Follows.done (closed_none ⟨hcode.completed, hcode.exitCodes, hcode.phase⟩)
    | none =>
      refine Follows.clock fun now => Follows.look trivial fun reason _ => ?_
      cases reason with
      | some reason => exact follows_stopPhase hs (by decide) reason.text_mem hphase
      | none =>
        dsimp only
        split
        · exact follows_stopPhase hs (by decide) (by decide) hphase
        refine follows_limitReason.bind fun reason w' hfound => ?_
        cases reason with
        | some reason => exact follows_stopPhase hs (by decide) (hfound.2 reason rfl) hphase
        | none =>
          dsimp only
          split
          · exact Follows.bind (follows_publishStatus (by decide) hs.phase nofun) fun _ _ _ => ih
          · exact ih

/-- `_run_phase` goes on or finishes the run. -/
theorem follows_runPhase {fuel : ℕ} {phase : Text} {config : Record} (hs : Tidy s)
    (hphase : phase ∈ phaseOrder) :
    Follows floatOf g self Closed (runPhase self fuel s phase config) w := by
  refine follows_limitReason.bind fun reason w' hfound => ?_
  cases reason with
  | some reason =>
    refine Follows.bind (follows_terminalResult hs (by decide) (hfound.2 reason rfl)
      (isPhase_some hphase))
      fun t _ ht => ?_
    exact Follows.done (closed_some hs ht.1)
  | none =>
    have hstarted : ∀ n, Tidy { s with currentPhase := some phase, sequence := n } :=
      fun _ => ⟨hs.completed, hs.exitCodes, isPhase_some hphase⟩
    refine Follows.orRaise nofun fun argv _ => ?_
    refine Follows.bind (follows_appendEvent isEventFields_nil fun _ => hfound.unlimited)
      fun s' w' hs' => ?_
    obtain rfl := hs'
    refine Follows.look trivial fun pid _ => ?_
    cases pid with
    | none =>
      refine Follows.bind (follows_appendEvent isEventFields_nil fun h => absurd h (by decide))
        fun s' w' hs' => ?_
      obtain rfl := hs'
      refine Follows.bind (follows_terminalResult (hstarted _) (by decide) (by decide)
        (isPhase_some hphase))
        fun t _ ht => ?_
      exact Follows.done (closed_some (hstarted _) ht.1)
    | some pid =>
      refine Follows.clock fun phaseStarted =>
        Follows.orRaise (plain_numberAsFloat _) fun timeout _ => ?_
      refine Follows.orRaise (plain_numberAsFloat _) fun interval _ => ?_
      exact follows_watchPhase ⟨hs.completed, hs.exitCodes, isPhase_some hphase⟩ hphase

/-- The phases go on one after another, up to the one that finishes the run. -/
theorem follows_runPhases {fuel : ℕ} {phases : List Text} (hs : Tidy s)
    (hphases : ∀ p ∈ phases, p ∈ phaseOrder) :
    Follows floatOf g self Closed (runPhases self fuel phases s) w := by
  induction phases generalizing s w with
  | nil => exact Follows.done (closed_none hs)
  | cons phase phases ih =>
    obtain ⟨hphase, hphases⟩ := List.forall_mem_cons.mp hphases
    rw [runPhases]
    split
    · exact ih hs hphases
    refine Follows.orRaise (plain_requestPart _ _) fun requested _ =>
      Follows.orRaise nofun fun config _ => ?_
    split
    · refine Follows.bind (follows_appendEvent isEventFields_nil fun h => absurd h (by decide))
        fun s' w' hs' => ?_
      obtain rfl := hs'
      exact ih ⟨hs.completed, hs.exitCodes, hs.phase⟩ hphases
    · refine (follows_runPhase hs hphase).bind fun r w' hr => ?_
      obtain ⟨terminal, s'⟩ := r
      cases terminal with
      | some t => exact Follows.done hr
      | none =>
        refine ih ⟨fun p hp => ?_, hr.1.exitCodes, hr.1.phase⟩ hphases
        rcases List.mem_append.mp hp with hp | hp
        · exact hr.1.completed p hp
        · exact List.mem_singleton.mp hp ▸ hphase

/-! ## The run -/

/-- Storage that is not there is a known reason. -/
theorem follows_storageReason :
    Follows floatOf g self (fun r _ => ∀ reason, r = some reason → reason ∈ StatusServer.reasons)
      (storageReason self) w := by
  have hsome : ∀ {reason : Text}, reason ∈ StatusServer.reasons →
      ∀ r, some reason = some r → r ∈ StatusServer.reasons := fun h _ hr => Option.some.inj hr ▸ h
  refine Follows.look trivial fun mounted _ => ?_
  split
  · exact Follows.done (hsome (by decide))
  refine Follows.look trivial fun available _ => ?_
  cases available with
  | none => exact Follows.done (hsome (by decide))
  | some available =>
    refine Follows.orRaise (plain_requestPart _ _) fun storage _ => ?_
    split
    · split
      · exact Follows.done (hsome (by decide))
      · exact Follows.done nofun
    · exact Follows.raise nofun

/-- After the phases the run is finished. -/
theorem follows_finishPhases (hs : Tidy s) :
    Follows floatOf g self (fun _ _ => True) (finishPhases self s) w := by
  refine Follows.bind (follows_terminalResult hs (by decide) (by decide) isPhase_none)
    fun t _ ht => ?_
  refine follows_artifactReceipt.attempt.bind fun r _ hr => ?_
  split
  · exact follows_finish hs (ht.1.withReceipt ht.2 (hr.1 _ rfl))
  · exact follows_finishWith hs (by decide) (hr.2 _ rfl _ rfl) (isPhase_some (by decide))
  · exact Follows.raise (hr.2 _ rfl)

/-- What follows the first event of a process. -/
theorem follows_proceed {fuel : ℕ} (hs : Tidy s) :
    Follows floatOf g self (fun _ _ => True) (proceed self fuel s) w := by
  have hkind :
      (if s.sequence = 0 then txt "ready" else txt "runner_resumed") ≠ txt "phase_started" := by
    split <;> decide
  refine Follows.bind (follows_appendEvent isEventFields_nil fun h => absurd h hkind)
    fun s₁ w' hs₁ => ?_
  have hready : Tidy s₁ := hs₁ ▸ ⟨hs.completed, hs.exitCodes, hs.phase⟩
  refine Follows.bind (follows_publishStatus (by decide) hready.phase nofun) fun _ _ _ => ?_
  refine (follows_waitForLaunchAuthorization hready).bind fun r _ hr => ?_
  obtain ⟨failure, s₂⟩ := r
  cases failure with
  | some failure => exact follows_finishWith hr.1 (by decide) (hr.2 failure rfl) isPhase_none
  | none =>
    refine Follows.bind (follows_runPhases hr.1 fun _ => id) fun r _ hr => ?_
    obtain ⟨terminal, s₃⟩ := r
    cases terminal with
    | some t => exact follows_finish hr.1 (hr.2 t rfl)
    | none => exact follows_finishPhases hr.1

/-- **A whole process** takes allowed steps only. -/
theorem follows_run {fuel : ℕ} (hs : Tidy s) :
    Follows floatOf g self (fun _ _ => True) (run self fuel s) w := by
  refine Follows.of_running fun hrunning => follows_readTerminal.bind fun existing _ hexisting => ?_
  cases existing with
  | some existing =>
    refine Follows.bind (follows_publishStatus (by decide) hs.phase fun hclean r hr => ?_)
      fun _ _ _ => Follows.done trivial
    exact hexisting hclean r hr
  | none =>
    dsimp only
    split
    · next phase reason hfailure =>
      obtain ⟨hphase, hreason⟩ := hrunning.fits.recovered phase reason hfailure
      exact follows_finishWith ⟨hs.completed, hs.exitCodes, isPhase_some hphase⟩ (by decide) hreason
        (isPhase_some hphase)
    · next interrupted _ hinterrupted =>
      refine follows_terminateRecordedProcessGroup.bind fun _ _ _ => ?_
      exact follows_finishWith hs (by decide) (by decide) (hinterrupted ▸ hs.phase)
    · next failure _ _ hfailure =>
      exact follows_finishWith hs (by decide) (hrunning.fits.identityFailure failure hfailure)
        isPhase_none
    · refine follows_storageReason.bind fun reason _ hreason => ?_
      cases reason with
      | some reason => exact follows_finishWith hs (by decide) (hreason reason rfl) isPhase_none
      | none => exact follows_proceed hs

end Runner

end RunpodJobrunner
