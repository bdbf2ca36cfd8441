import RunpodJobrunner.LifecycleRefinement

/-!
# Playing a run

A deterministic interpreter for the controller's calls: a script answers for the
clock and the provider, the store succeeds, and every answer and every call is
checked against what the environment allows. What it plays is a run
(`reachable_play`), so concrete runs can be computed.
-/

namespace RunpodJobrunner

/-- The answers of one playing, which may depend on the world they are given in. -/
structure Script where
  clock : World → DateTime
  find : World → Except ProviderFault (List ProviderResource)
  create : World → Except ProviderFault ProviderResource
  get : World → Except ProviderFault (Option ProviderResource)
  start : World → Except ProviderFault ProviderResource
  delete : World → Text → Except ProviderFault DeleteReceipt
  spend : World → Except ProviderFault Decimal

/-- The answer to a command and the world after it. -/
def Script.respond (sc : Script) (w : World) : (c : Command) → Answer c × World
  | .readEvents => (if w.readable then .ok w.events else .error .corrupt, w)
  | .readSnapshot => (.ok w.snapshot, w)
  | .readRequest => (.ok w.request, w)
  | .readReceipt => (.ok w.receipt, w)
  | .writeRequest r => (.ok (), { w with request := some r })
  | .appendEvent e => (.ok (), w.append e)
  | .replaceState p => (.ok (), { w with snapshot := some p })
  | .replaceReceipt p => (.ok (), { w with receipt := some p })
  | .now => (sc.clock w, w.saw (.clock (sc.clock w)))
  | .find op => (sc.find w, w.saw (.find op (some (sc.find w))))
  | .create r => (sc.create w, w.saw (.create r (some (sc.create w))))
  | .get id => (sc.get w, w.saw (.get id (some (sc.get w))))
  | .start id op => (sc.start w, w.saw (.start id op (some (sc.start w))))
  | .delete id op => (sc.delete w op, w.saw (.delete id op (some (sc.delete w op))))
  | .spend id => (sc.spend w, w.saw (.spend id (some (sc.spend w))))

/-- The entry of a provider call. -/
def Script.asks (sc : Script) (w : World) : Command → Option Entry
  | .find op => some (.find op (some (sc.find w)))
  | .create r => some (.create r (some (sc.create w)))
  | .get id => some (.get id (some (sc.get w)))
  | .start id op => some (.start id op (some (sc.start w)))
  | .delete id op => some (.delete id op (some (sc.delete w op)))
  | .spend id => some (.spend id (some (sc.spend w)))
  | _ => none

/-- A check of the environment that computes. -/
structure Check (env : Environment) where
  answers : World → Entry → Bool
  issues : Option RunState → Call → Bool
  answers_sound : ∀ w e, answers w e = true → env.answers w e
  issues_sound : ∀ s c, issues s c = true → env.issues s c

variable {env : Environment} {α : Type}

/-- Play a transaction. -/
def simulate (sc : Script) (check : Check env) : Transaction α → World → Played World Failure α :=
  Process.interpret fun w c =>
    ((sc.respond w c).1, (sc.respond w c).2, (sc.asks w c).all (check.answers w))

/-- Play calls in order. -/
def play (ctl : Controller) (sc : Script) (check : Check env) : List Call → World → World × Bool
  | [], w => (w, true)
  | call :: calls, w =>
    let r := simulate sc check (ctl.perform call) w
    let rest := play ctl sc check calls r.world
    (rest.1, check.issues w.current call && r.allowed && rest.2)

theorem execute_respond {sc : Script} {check : Check env} {w : World} {c : Command}
    (h : (sc.asks w c).all (check.answers w) = true) :
    execute env.answers w c (sc.respond w c).1 (sc.respond w c).2 := by
  have hcall : ∀ e, sc.asks w c = some e → env.answers w e := by
    intro e he
    rw [he] at h
    exact check.answers_sound w e (by simpa using h)
  cases c with
  | readEvents =>
    cases hr : w.readable with
    | true => exact ⟨⟨rfl, .inl (by simp [Script.respond, hr])⟩, fun hf => by simp [hr] at hf⟩
    | false =>
      have ha : (sc.respond w .readEvents).1 = .error .corrupt := by simp [Script.respond, hr]
      exact ⟨⟨rfl, .inr ⟨_, ha⟩⟩, fun _ => ⟨_, ha⟩⟩
  | readSnapshot | readRequest | readReceipt => exact ⟨rfl, .inl rfl⟩
  | writeRequest r | replaceState p | replaceReceipt p => exact .inl ⟨rfl, rfl⟩
  | appendEvent e => exact .inl ⟨rfl, .inl rfl⟩
  | now => exact rfl
  | find op | create r | get id | start id op | delete id op | spend id => exact ⟨hcall _ rfl, rfl⟩

/-- What is played is an execution. -/
theorem runs_simulate {sc : Script} {check : Check env} {p : Transaction α} {w : World}
    (h : (simulate sc check p w).allowed = true) :
    Runs (machine env.answers) p w (simulate sc check p w).outcome (simulate sc check p w).world :=
  Process.runs_interpret (fun _ _ hc => execute_respond hc) h

/-- Play a transaction until it dies. -/
def simulateUntil (dies : World → Command → Option World) (sc : Script) (check : Check env) :
    Transaction α → World → Played World Failure α :=
  Process.interpretUntil dies fun w c =>
    ((sc.respond w c).1, (sc.respond w c).2, (sc.asks w c).all (check.answers w))

theorem runs_simulateUntil {dies : World → Command → Option World}
    (hdies : ∀ w c w', dies w c = some w' → dieIn w c w') {sc : Script} {check : Check env}
    {p : Transaction α} {w : World} (h : (simulateUntil dies sc check p w).allowed = true) :
    Runs (machine env.answers) p w (simulateUntil dies sc check p w).outcome
      (simulateUntil dies sc check p w).world :=
  Process.runs_interpretUntil hdies (fun _ _ hc => execute_respond hc) h

/-- **Playing is running.** A playing the environment allowed ends in a world of a run. -/
theorem reachable_play {ctl : Controller} {sc : Script} {check : Check env} {calls : List Call}
    {w : World} (hw : Reachable ctl env w) (h : (play ctl sc check calls w).2 = true) :
    Reachable ctl env (play ctl sc check calls w).1 := by
  induction calls generalizing w with
  | nil => exact hw
  | cons call calls ih =>
    obtain ⟨hcall, hrest⟩ := Bool.and_eq_true_iff.mp h
    obtain ⟨hissue, hallowed⟩ := Bool.and_eq_true_iff.mp hcall
    exact ih (.call hw (check.issues_sound _ _ hissue) (runs_simulate hallowed)) hrest

/-! ## A sample run -/

/-- Nothing is refused. -/
def Check.any : Check .any where
  answers := fun _ _ => true
  issues := fun _ _ => true
  answers_sound := fun _ _ _ => trivial
  issues_sound := fun _ _ _ => trivial

theorem isRunId_run1 : isRunId (txt "run-1") = true := by decide

/-- The controller of the run `run-1`, whose operation ids are its UUIDs. A
timestamp it is asked to parse is the deadline of `sampleRequest`. -/
def sampleController : Controller where
  runId := ⟨txt "run-1", isRunId_run1⟩
  uuid5 := fun name =>
    if name = txt "runpod-jobrunner/run-1/provision/1" then txt "459d2888-602c-5107-b20d-1caa1f7f9323"
    else
      if name = txt "runpod-jobrunner/run-1/start/1" then txt "a44d8611-4cb9-5238-bfcc-e3b5f779e4f0"
    else txt "02856d1b-f02b-5650-bc02-1ce7a6e986d3"
  uuid5_text := fun name => by
    split
    · decide
    · split <;> decide
  visibilityGrace := 30
  visibilityGrace_pos := by decide
  fromisoformat := fun text =>
    if text = txt "2026-07-04T12:00:00+00:00" then some ⟨2026, 7, 4, 12, 0, 0, 0, some 0⟩ else none

/-- A request with a termination deadline. -/
def sampleRequest : List (Text × Json) :=
  [(txt "provider", .obj [(txt "terminate_at", .str (txt "2026-07-04T12:00:00+00:00"))])]

/-- The pod the sample provider makes. -/
def samplePod : ProviderResource where
  id := txt "pod-1"
  runId := txt "run-1"
  createOperationId := txt "op-459d2888-602c-5107-b20d-1caa1f7f9323"
  name := txt "rjr-run-1-1f7f9323"
  state := .running
  hourlyRateUsd := .finite false 150 (-2)

/-- A provider that does what it is asked, and a clock that ticks once per entry
of the trace. -/
def sampleScript : Script where
  clock := fun w => ⟨2026, 7, 4, 9, w.trace.length, 0, 0, some 0⟩
  find := fun _ => .ok []
  create := fun _ => .ok samplePod
  get := fun w =>
    if w.trace.any fun e => match e with | .delete _ _ _ => true | _ => false then .ok none
    else .ok (some samplePod)
  start := fun _ => .ok samplePod
  delete := fun _ op => .ok ⟨op, true, false⟩
  spend := fun _ => .ok (.finite false 0 0)

/-- A run from its plan to its closeout, stopped while it is running. -/
def sampleCalls : List Call :=
  [.plan sampleRequest (.inl (txt "5")), .reconcile, .reconcile, .reconcile,
    .requestStop (txt "operator_stop"), .reconcile, .reconcile, .reconcile]

/-- The world the sample run ends in. -/
def sampleWorld : World := (play sampleController sampleScript .any sampleCalls .empty).1

theorem reachable_sampleWorld : Reachable sampleController .any sampleWorld :=
  reachable_play .empty (by decide +kernel)

example : sampleWorld.current.map RunState.lifecycle = some .closed := by decide +kernel

end RunpodJobrunner
