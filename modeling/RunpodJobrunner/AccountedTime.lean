import RunpodJobrunner.RunnerStarts

/-!
# Accounted time

The elapsed time of a run over all processes of its status directory: it never goes back, a new
process starts from what was spent before, and a phase starts only below both limits.
-/

namespace RunpodJobrunner

open Json Identity Process

namespace Runner

variable {floatOf : FloatLiteral → JsonFloat}

/-- A process of that run. -/
def OfRun (runId : Text) (args : Arguments) : Prop := fetch (txt "run_id") args.request = .str runId

instance (runId : Text) (args : Arguments) : Decidable (OfRun runId args) :=
  inferInstanceAs (Decidable (fetch (txt "run_id") args.request = .str runId))

/-- The reading before the last was a limit check, not below any elapsed time of an event or a
status: the elapsed time was below the limit, and so was its cost. -/
structure LimitChecked (self : Session) (w : World) (checked : ℚ) : Prop where
  before : ∃ last earlier, w.readings = last :: checked :: earlier
  spent : Spent w.events w.published (ofMicros (self.elapsedAt checked))
  below : ∃ limits maxElapsed cost maxCost, requestPart self.request (txt "limits") = .ok limits ∧
    numberAsFloat (fetch (txt "max_elapsed_seconds") limits) = .ok maxElapsed ∧
    costOf self.request (self.elapsedAt checked) = .ok cost ∧
    decimalField (fetch (txt "max_cost_usd") limits) = .ok maxCost ∧
    ofMicros (self.elapsedAt checked) < maxElapsed ∧ cost.lt maxCost = true

/-- A phase is started after a limit check. -/
def StartsChecked (self : Session) (c : Command) (w : World) : Prop :=
  ∀ e, c = .append e → fetch (txt "kind") e = .str (txt "phase_started") →
    ∃ checked, LimitChecked self w checked

/-- All processes are of one run, wherever their manifests are. -/
def oneRun (runId : Text) : Setting := ⟨False, some runId⟩

/-- The arguments of one run meet its setting. -/
theorem meets_oneRun {runId : Text} {args : Arguments} (h : OfRun runId args) :
    args.Meets (oneRun runId) :=
  ⟨False.elim, False.elim, fun _ hid => Option.some.inj hid ▸ h⟩

/-- It appends nothing. -/
def AppendsNothing (c : Command) : Prop := ∀ e, c ≠ .append e

theorem only_orRaise {α ε : Type} {failure : ε → Failure} {x : Except ε α} :
    (orRaise failure x).Only AppendsNothing := by
  cases x <;> trivial

theorem only_ask {β : Type} {c : Command} {f : Answer c → Remote β} (hc : AppendsNothing c)
    (hf : ∀ a, (f a).Only AppendsNothing) : (ask c >>= f).Only AppendsNothing :=
  ⟨hc, hf⟩

/-- Reading the history appends nothing. -/
theorem readEventHistory_only (runId : Text) :
    (readEventHistory floatOf runId).Only AppendsNothing := by
  refine only_ask nofun ?_
  rintro ⟨lines, torn⟩
  dsimp only
  split
  · exact only_orRaise
  split
  · exact only_ask nofun fun _ => only_orRaise
  · trivial
  · trivial

/-- The constructor appends nothing. -/
theorem construct_only (args : Arguments) : (construct floatOf args).Only AppendsNothing := by
  refine only_orRaise.bind fun request => only_orRaise.bind fun authorization => ?_
  refine only_orRaise.bind fun identity => only_ask nofun fun started => ?_
  refine (readEventHistory_only _).bind fun history => only_orRaise.bind fun sequence => ?_
  exact only_ask nofun fun status => trivial

/-- Where a command is allowed, a phase starts after a check of the limits. -/
theorem Allowed.startsChecked {self : Session} {runId : Text} {c : Command} {w : World}
    (h : Allowed floatOf (oneRun runId) self c w) : StartsChecked self c w := by
  rintro e rfl hkind
  obtain ⟨now, earlier, hreadings, -, -, hchecked⟩ := h
  obtain ⟨checked, rest, rfl, hnone, hspent⟩ := hchecked hkind
  exact ⟨checked, ⟨now, rest, hreadings⟩, hspent runId rfl, limitAt_none hnone⟩

/-- **Accounted time is never forgotten.** For processes of one run, one after the other, each of
which may die anywhere: the elapsed times are in order along the journal; what a new process
starts from is not below that of any record or of any status there has been; and it appends the
start of a phase only after a limit check at such a time, below both limits. -/
theorem accounted_time {runId : Text} {w : World} (h : Reached floatOf (OfRun runId) w) :
    (eventTimes w.events).Pairwise (· ≤ ·) ∧
      ∀ args fuel self s v, OfRun runId args →
        Runs machine (construct floatOf args) w.restarted (.returned (self, s)) v →
        (construct floatOf args).Only AppendsNothing ∧
          Spent w.events w.published self.prior ∧
          Spent w.events w.published (ofMicros (self.elapsedAt self.started)) ∧
          Issues machine (fun _ => StartsChecked self) [] (run self fuel s) v := by
  have hsound : Sound floatOf (oneRun runId) w := h.sound fun _ => meets_oneRun
  refine ⟨(hsound.accounted runId rfl).sorted, fun args fuel self s v hargs hrun => ?_⟩
  have hstart := (keeps_construct (meets_oneRun hargs) hsound).sound hrun (hsound.keep rfl rfl rfl)
  have hstarted := hstart.2.1 _ rfl
  have hspent := hstarted.spent runId rfl
  refine ⟨construct_only args, hspent, ?_, ?_⟩
  · rw [Session.elapsedAt_started]
    exact hspent.rounded (hsound.accounted runId rfl)
  · have hobeys : Follows floatOf (oneRun runId) self (fun _ _ => True) (run self fuel s) v :=
      follows_run hstarted.tidy
    have hissues :
        Issues machine (fun _ c w => Allowed floatOf (oneRun runId) self c w) []
          (run self fuel s) v :=
      (hobeys.obeys hstarted.running).issues (fun w c a w' hc hI he => hc.exec hI he) hstarted.running
    exact hissues.weaken fun _ _ _ => Allowed.startsChecked

theorem accounted_time_sample :
    let w := (played sampleToken phasedArguments 5 .empty).world
    (eventTimes w.events).length = 13 ∧ (eventTimes w.events).Pairwise (· ≤ ·) ∧
      ∀ fuel self s v,
        Runs machine (construct .literal phasedArguments) w.restarted (.returned (self, s)) v →
          Spent w.events w.published self.prior ∧
            Issues machine (fun _ => StartsChecked self) [] (run self fuel s) v := by
  have h := @accounted_time .literal (txt "run-1") _
    (Reached.played .empty (by decide +kernel)
      (by decide +kernel : (played sampleToken phasedArguments 5 .empty).allowed = true))
  refine ⟨by decide +kernel, h.1, fun fuel self s v hrun => ?_⟩
  obtain ⟨-, hspent, -, hissues⟩ := h.2 phasedArguments fuel self s v (by decide +kernel) hrun
  exact ⟨hspent, hissues⟩

end Runner

end RunpodJobrunner
