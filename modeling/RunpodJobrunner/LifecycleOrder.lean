import RunpodJobrunner.Conduct

/-!
# The order of the lifecycle

Every commit leaves the lifecycle where it is or moves it forward, except one: a
workload result recorded of a run that is being deleted without one takes it back
to `recovering`. Where no caller does that, the events of a run are in order.
-/

namespace RunpodJobrunner

/-- The place of a lifecycle in the order. -/
def LifecycleState.rank : LifecycleState → ℕ
  | .planned => 0
  | .provisioning => 1
  | .starting => 2
  | .running => 3
  | .recovering => 4
  | .deleting => 5
  | .closed => 6

theorem LifecycleState.rank_le_deleting {l : LifecycleState} (hclosed : l ≠ .closed) :
    l.rank ≤ LifecycleState.deleting.rank := by
  cases l with
  | closed => exact absurd rfl hclosed
  | _ => decide

theorem LifecycleState.rank_le_recovering {l : LifecycleState} (hclosed : l ≠ .closed)
    (hdeleting : l ≠ .deleting) : l.rank ≤ LifecycleState.recovering.rank := by
  cases l with
  | closed => exact absurd rfl hclosed
  | deleting => exact absurd rfl hdeleting
  | _ => decide

/-- A run that is being deleted and has no workload result. -/
def RunState.IsUndecidedDeletion (s : RunState) : Prop :=
  s.lifecycle = .deleting ∧ s.workloadResult = none

instance (s : RunState) : Decidable s.IsUndecidedDeletion :=
  inferInstanceAs (Decidable (s.lifecycle = .deleting ∧ s.workloadResult = none))

variable {ctl : Controller} {env : Environment} {w w' : World}

/-! ## What a commit does to the lifecycle -/

/-- A commit goes forward, or it is the result of a deletion that has none. -/
theorem Commit.rank_cases {kind : Text} {s s' : RunState} (h : Commit ctl env w kind s')
    (hcur : w.current = some s) :
    s.lifecycle.rank ≤ s'.lifecycle.rank ∨
      s.IsUndecidedDeletion ∧ s'.lifecycle = .recovering ∧
        ∃ r, env.issues (some s) (.recordWorkloadResult r) := by
  have hsame : ∀ {t}, w.current = some t → t = s := fun ht => World.current_unique hcur ht
  cases h with
  | planned hnil _ _ _ => simp [World.current, hnil] at hcur
  | @workloadTerminal t r hc hissue hnone hclosed =>
    obtain rfl := hsame hc
    by_cases hdeleting : t.lifecycle = .deleting
    · exact .inr ⟨⟨hdeleting, hnone⟩, rfl, r, hissue⟩
    · exact .inl (LifecycleState.rank_le_recovering hclosed hdeleting)
  | dispositionRecorded hc _ _ hclosed | stopRequested hc _ hclosed =>
    obtain rfl := hsame hc
    exact .inl (LifecycleState.rank_le_deleting hclosed)
  | intended hc hlife =>
    obtain rfl := hsame hc
    exact .inl (by simp [hlife, LifecycleState.rank])
  | duplicates hp _ | findRejected hp _ | createRejected hp _ | visibilityExhausted hp _ _
  | dispatched hp _ _ | createFailed hp _ _ | visibilityPending hp _ _ | found hp _ | created hp _ =>
    obtain rfl := hsame hp.current
    exact .inl (by simp [hp.lifecycle, LifecycleState.rank])
  | missing hr _ | getRejected hr _ | startRejected hr _ | observedRunning hr _
  | startFailed hr _ _ =>
    obtain rfl := hsame hr.current
    exact .inl (by simp [hr.lifecycle, LifecycleState.rank])
  | started hr hlife _ =>
    obtain rfl := hsame hr.current
    rcases hlife with ⟨-, rfl⟩ | ⟨-, rfl⟩
    · exact .inl (by simp [hr.lifecycle, LifecycleState.rank])
    · exact .inl le_rfl
  | adoptRejected hd _ _ | adoptDuplicates hd _ | adopted hd _ | notDispatched hd _
  | deadlinePending hd _ | absenceObserved hd _ _ _ _ _ | absencePending hd _
  | absenceConfirmed hd _ _ _ _ _ _ _ _ _ =>
    obtain rfl := hsame hd.current
    exact .inl (by simp [hd.lifecycle])
  | nothingPending hd _ _ | deleteFailed hd _ _ | deleted hd _ _ _ _ _ _ | absent hd _ _ _
  | deletionPending hd _ _ | spendObserved hd _ _ _ _ _ _ _ =>
    obtain rfl := hsame hd.current
    exact .inl (by simp [hd.lifecycle])
  | closed hd _ _ _ _ _ _ =>
    obtain rfl := hsame hd.current
    exact .inl (by simp [hd.lifecycle, LifecycleState.rank])

/-! ## Runs in order -/

/-- The lifecycle of `e` is not behind the one of the older event `e'`. -/
def Event.Follows (e e' : Event) : Prop :=
  e'.projection.state.lifecycle.rank ≤ e.projection.state.lifecycle.rank

/-- No caller records the workload result of a run that is being deleted without one. -/
def Environment.NoLateResult (env : Environment) : Prop :=
  ∀ s r, env.issues (some s) (.recordWorkloadResult r) → ¬s.IsUndecidedDeletion

/-- The journal is in the order of the lifecycle. -/
def InOrder (w : World) : Prop := w.events.Pairwise Event.Follows

theorem Step.inOrder (hlate : env.NoLateResult) (hstep : Step ctl env w w') (h : InOrder w) :
    InOrder w' := by
  cases hstep with
  | saw _ _ | corrupt | request _ _ | snapshot _ | receipt _ _ => exact h
  | @commit kind s' _ hc _ =>
    refine List.pairwise_cons.mpr ⟨fun e he => ?_, h⟩
    -- the new state is not behind the newest one, which is not behind the others
    match hevents : w.events, he with
    | newest :: rest, he =>
      have hcur : w.current = some newest.projection.state := by simp [World.current, hevents]
      have hnew : newest.projection.state.lifecycle.rank ≤ s'.lifecycle.rank := by
        rcases hc.rank_cases hcur with hle | ⟨hundecided, -, r, hissue⟩
        · exact hle
        · exact absurd hundecided (hlate _ r hissue)
      rcases List.mem_cons.mp he with rfl | hrest
      · exact hnew
      · have holder := h
        rw [InOrder, hevents] at holder
        exact (List.rel_of_pairwise_cons holder hrest).trans hnew

/-- **The lifecycle never moves backwards.** In every run in which no caller records
the workload result of a run that is being deleted without one, no event is behind
an older one. -/
theorem lifecycle_in_order (ctl : Controller) (env : Environment) (hlate : env.NoLateResult)
    {w : World} (h : Reachable ctl env w) : w.events.Pairwise Event.Follows :=
  reachable_invariant (P := InOrder) .nil (fun _ _ hstep hw => hstep.inOrder hlate hw) h

/-- Results come in time, and anything else may be called. -/
def Environment.timely : Environment where
  answers := fun _ _ => True
  issues := fun s call =>
    match call with
    | .recordWorkloadResult _ => ∀ state, s = some state → ¬state.IsUndecidedDeletion
    | _ => True

/-- A result is not late. -/
def Check.timely : Check .timely where
  answers := fun _ _ => true
  issues := fun s call =>
    match call with
    | .recordWorkloadResult _ => s.all fun state => decide ¬state.IsUndecidedDeletion
    | _ => true
  answers_sound := fun _ _ _ => trivial
  issues_sound := fun s call h => by
    cases call with
    | recordWorkloadResult r =>
      rintro state rfl
      simpa using h
    | _ => trivial

/-- The sample run with a workload that succeeds. -/
def succeedingCalls : List Call :=
  [.plan sampleRequest (.inl (txt "5")), .reconcile, .reconcile, .reconcile,
    .recordWorkloadResult .succeeded, .recordArtifactDisposition .verified none, .reconcile,
    .reconcile, .reconcile]

/-- The sample run from its plan to its closeout. -/
theorem lifecycle_in_order_sample :
    (play sampleController sampleScript .timely succeedingCalls .empty).1.events.Pairwise
      Event.Follows :=
  lifecycle_in_order sampleController .timely (fun s _ h => h s rfl)
    (reachable_play .empty (by decide +kernel))

/-- A disposition recorded of a planned run, and its result after that. -/
def lateCalls : List Call :=
  [.plan sampleRequest (.inl (txt "5")), .recordArtifactDisposition .unavailable none,
    .recordWorkloadResult .failed]

/-- A late result takes the run back from `deleting` to `recovering`. -/
theorem late_result_goes_back :
    ∃ w, Reachable sampleController .any w ∧ ¬w.events.Pairwise Event.Follows := by
  have hplayed : (play sampleController sampleScript .any lateCalls .empty).2 = true ∧
      ((play sampleController sampleScript .any lateCalls .empty).1.events.map fun e =>
        e.projection.state.lifecycle) = [.recovering, .deleting, .planned] := by decide +kernel
  obtain ⟨hallowed, hevents⟩ := hplayed
  refine ⟨_, reachable_play .empty hallowed, fun h => ?_⟩
  have hordered :=
    List.Pairwise.map (R := Event.Follows) (S := fun l l' => LifecycleState.rank l' ≤ l.rank)
    (fun e : Event => e.projection.state.lifecycle) (fun _ _ h => h) h
  rw [hevents] at hordered
  exact absurd hordered (by decide)

end RunpodJobrunner
