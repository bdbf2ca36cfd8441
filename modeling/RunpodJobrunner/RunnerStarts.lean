import RunpodJobrunner.RunnerRuns

/-!
# Starts of the remote runner

The constructor reads what earlier processes left. What it returns is such that `run` can rely
on it (`keeps_construct`), so that every process keeps what all of them keep (`Reached.sound`).
-/

namespace RunpodJobrunner

open Json Identity Process

namespace Runner

variable {floatOf : FloatLiteral → JsonFloat} {g : Setting} {runId : Text}

/-! ## The history -/

theorem isOneOf_iff {texts : List Text} {v : Json} :
    isOneOf texts v = true ↔ ∃ t ∈ texts, v = .str t := by
  cases v with
  | str t => simp [isOneOf]
  | _ => exact iff_of_false nofun nofun

/-- What is checked of an event that is read. -/
structure IsRead (runId : Text) (sequence : ℤ) (event : Record) : Prop where
  protocol : fetch (txt "protocol") event = .str (txt "run-event/1")
  runId : fetch (txt "run_id") event = .str runId
  sequence : fetch (txt "sequence") event = .int sequence
  kind : ∃ kind ∈ eventKinds, fetch (txt "kind") event = .str kind
  phase :
    fetch (txt "phase") event = .null ∨ ∃ phase ∈ phaseOrder, fetch (txt "phase") event = .str phase

/-- A history that is read is what the lines say, and each event was checked. -/
theorem eventsOf_ok {n : ℕ} {lines : List Json} {history : List Record}
    (h : eventsOf runId n lines = .ok history) :
    lines = history.map .obj ∧ ∀ (i : ℕ) (hi : i < history.length),
      IsRead runId (n + i : ℕ) history[i] := by
  induction lines generalizing n history with
  | nil =>
    obtain rfl := Except.ok.inj h
    exact ⟨rfl, nofun⟩
  | cons line lines ih =>
    obtain ⟨event, hevent, h⟩ := bind_ok_iff.mp h
    obtain ⟨_, hprotocol, h⟩ := bind_ok_iff.mp h
    obtain ⟨_, hsequence, h⟩ := bind_ok_iff.mp h
    obtain ⟨_, hkind, h⟩ := bind_ok_iff.mp h
    obtain ⟨_, hphase, h⟩ := bind_ok_iff.mp h
    obtain ⟨rest, hrest, h⟩ := bind_ok_iff.mp h
    obtain rfl := Except.ok.inj h
    obtain ⟨hlines, hread⟩ := ih hrest
    have hline : line = .obj event := by
      cases line <;> cases hevent
      rfl
    refine ⟨by rw [hline, hlines, List.map_cons], ?_⟩
    rw [refuseIf_ok, not_or, not_ne_iff, not_ne_iff] at hprotocol
    rw [refuseIf_ok, not_ne_iff] at hsequence
    rw [refuseIf_ok, Bool.not_eq_false, isOneOf_iff] at hkind
    rw [refuseIf_ok, not_and_or, not_ne_iff, Bool.not_eq_false, isOneOf_iff] at hphase
    rintro (_ | i) hi
    · exact ⟨hprotocol.1, hprotocol.2, hsequence, hkind, hphase⟩
    · have hnext := hread i (Nat.lt_of_succ_lt_succ hi)
      rwa [show n + 1 + i = n + (i + 1) by omega] at hnext

/-- A history that is read of a journal. -/
theorem history_eq {events : List Record} {history : List Record} {n : ℕ}
    (h : eventsOf runId n (events.map stored) = .ok history) : history = events.map ordered := by
  have hlines := (eventsOf_ok h).1
  refine List.map_injective_iff.mpr (fun a b hab => Json.obj.inj hab) (hlines.symm.trans ?_)
  rw [List.map_map]
  rfl

/-- What is found in a history. -/
structure Recovers (r : Recovered) : Prop where
  active : IsPhase r.activePhase
  completed : ∀ p ∈ r.completedPhases, p ∈ phaseOrder
  exitCodes : IsExitCodes r.exitCodes
  failure : ∀ phase reason, r.failure = some (phase, reason) →
    phase ∈ phaseOrder ∧ reason ∈ StatusServer.reasons

theorem recovers_nothing : Recovers .nothing := ⟨nofun, nofun, IsExitCodes.nil, nofun⟩

theorem isExitCodes_recover {event codes : Record} {phase : Text} (h : IsExitCodes codes)
    (hphase : phase ∈ phaseOrder) : IsExitCodes (recoverExitCode event phase codes) := by
  rw [recoverExitCode]
  split
  · exact h.setKey hphase
  · exact h

/-- One event. -/
theorem Recovers.event {r : Recovered} {n : ℤ} {event : Record} (h : Recovers r)
    (he : IsRead runId n event) : Recovers (r.event event) := by
  rw [Recovered.event]
  split
  · next kind phase _ hfetch =>
    have hphase : phase ∈ phaseOrder := by
      rcases he.phase with hnull | ⟨p, hp, hfetch'⟩
      · rw [hnull] at hfetch
        cases hfetch
      · obtain rfl := Json.str.inj (hfetch'.symm.trans hfetch)
        exact hp
    split
    · exact ⟨isPhase_some hphase, h.completed, h.exitCodes, h.failure⟩
    split
    · exact ⟨isPhase_none,
        List.forall_mem_append.mpr ⟨h.completed, List.forall_mem_singleton.mpr hphase⟩,
          isExitCodes_recover h.exitCodes hphase, h.failure⟩
    split
    · exact ⟨h.active, h.completed, h.exitCodes, h.failure⟩
    split
    · refine ⟨isPhase_none, h.completed, isExitCodes_recover h.exitCodes hphase,
        fun p reason hfailure => ?_⟩
      obtain ⟨rfl, rfl⟩ := Prod.mk.inj (Option.some.inj hfailure)
      exact ⟨hphase, by split <;> decide⟩
    · exact h
  · exact h

/-- A whole history. -/
theorem recovers_history {n : ℕ} {lines : List Json} {history : List Record}
    (h : eventsOf runId n lines = .ok history) : Recovers (recoverHistory history) := by
  obtain ⟨-, hread⟩ := eventsOf_ok h
  have hall : ∀ e ∈ history, ∃ n, IsRead runId n e := by
    intro e he
    obtain ⟨i, hi, rfl⟩ := List.getElem_of_mem he
    exact ⟨_, hread i hi⟩
  suffices ∀ (es : List Record) (r : Recovered), Recovers r → (∀ e ∈ es, ∃ n, IsRead runId n e) →
      Recovers (es.foldl Recovered.event r) from this history .nothing recovers_nothing hall
  intro es
  induction es with
  | nil => exact fun r hr _ => hr
  | cons e es ih =>
    intro r hr hes
    obtain ⟨⟨n, he⟩, hes⟩ := List.forall_mem_cons.mp hes
    exact ih _ (hr.event he) hes

/-! ## The elapsed time of earlier processes -/

theorem atLeast_le (elapsed : ℚ) (recorded : Json) : elapsed ≤ atLeast elapsed recorded := by
  rw [atLeast]
  split
  · exact le_max_left _ _
  · exact le_rfl

theorem le_atLeast {elapsed seconds : ℚ} {recorded : Json} (h : recorded.number = some seconds) :
    seconds ≤ atLeast elapsed recorded := by
  rw [atLeast, h]
  exact le_max_right _ _

/-- The elapsed time of the last event, `0` where there is none. -/
def journalSeconds (history : List Record) : ℚ :=
  match history.getLast? with
  | some event => atLeast 0 (fetch (txt "monotonic_seconds") event)
  | none => 0

theorem journalSeconds_nonneg (history : List Record) : 0 ≤ journalSeconds history := by
  rw [journalSeconds]
  split
  · exact atLeast_le 0 _
  · exact le_rfl

theorem journalSeconds_le (history : List Record) (status : Option Json) (runId : Text) :
    journalSeconds history ≤ priorElapsedSeconds history status runId := by
  cases status with
  | none => exact le_rfl
  | some status =>
    cases status with
    | obj members =>
      show journalSeconds history ≤ if fetch (txt "run_id") members = .str runId then
        atLeast (journalSeconds history) (fetch (txt "heartbeat_monotonic_seconds") members)
        else journalSeconds history
      split
      · exact atLeast_le _ _
      · exact le_rfl
    | _ => exact le_rfl

theorem number_sortKeys (v : Json) : v.sortKeys.number = v.number := by
  cases v <;> rfl

theorem number_fetch_ordered {record : Record} (h : Distinct record) (key : Text) :
    (fetch key (ordered record)).number = (fetch key record).number := by
  rw [fetch_ordered h, number_sortKeys]

/-- The text under a key of a record that is read. -/
theorem fetch_str_of_ordered {record : Record} (h : Distinct record) {key t : Text}
    (ht : fetch key (ordered record) = .str t) : fetch key record = .str t := by
  rw [fetch_ordered h] at ht
  cases hv : fetch key record <;> rw [hv] at ht <;> cases ht
  rfl

/-- **Nothing is forgotten**: what a new process starts from is not below any elapsed time. -/
theorem spent_prior {events published : List Record} {history : List Record}
    (h : Accounted runId events published)
    (hhistory : eventsOf runId 1 (events.map stored) = .ok history) :
    Spent events published (priorElapsedSeconds history (published.head?.map stored) runId) := by
  have heq := history_eq hhistory
  obtain ⟨-, hread⟩ := eventsOf_ok hhistory
  -- the last event has the greatest time of all
  have hevents : ∀ v ∈ eventTimes events, v ≤ journalSeconds history := by
    intro v hv
    rcases List.eq_nil_or_concat events with rfl | ⟨init, last, rfl⟩
    · cases hv
    rw [List.concat_eq_append] at *
    have hlast : history.getLast? = some (ordered last) := by rw [heq]; simp
    have hkeys := h.eventKeys last (by simp)
    have hprotocol : fetch (txt "protocol") last = .str (txt "run-event/1") := by
      refine fetch_str_of_ordered hkeys ?_
      obtain ⟨i, hi, hget⟩ := List.getElem_of_mem (List.mem_of_getLast? hlast)
      exact hget ▸ (hread i hi).protocol
    obtain ⟨t, ht⟩ := Option.isSome_iff_exists.mp (h.timed last (by simp) hprotocol)
    have hle : v ≤ t := by
      have hsorted := h.sorted
      rw [eventTimes_append, ht] at hv hsorted
      rcases List.mem_append.mp hv with hv | hv
      · exact (List.pairwise_append.mp hsorted).2.2 v hv t (List.mem_singleton_self t)
      · exact (List.mem_singleton.mp hv).le
    rw [journalSeconds, hlast]
    exact hle.trans (le_atLeast (by rw [number_fetch_ordered hkeys]; exact ht))
  refine ⟨fun v hv => (hevents v hv).trans (journalSeconds_le _ _ _), fun v hv => ?_⟩
  obtain ⟨s, u, hhead, hrunId, hu, hle⟩ := h.newest v hv
  have hkeys := h.statusKeys s (List.mem_of_mem_head? hhead)
  have hrunId' : fetch (txt "run_id") (ordered s) = .str runId := by
    rw [fetch_ordered hkeys, hrunId]
    rfl
  have hstored : published.head?.map stored = some (.obj (ordered s)) := by rw [hhead]; rfl
  rw [hstored, priorElapsedSeconds, if_pos hrunId']
  exact hle.trans (le_atLeast (by rw [number_fetch_ordered hkeys]; exact hu))

/-! ## Arguments -/

/-- The identity is one that was loaded; a dict has a key once. -/
structure Arguments.Loaded (args : Arguments) : Prop where
  given : ∀ identity, args.runnerIdentity = some identity → IsLoaded identity
  receipt : ∀ members majors, args.receipt = .read (.obj members) →
    fetch (txt "supported_protocol_majors") members = .obj majors → (majors.map Prod.fst).Nodup

/-- Where the artifact manifest of a process is. -/
def Arguments.manifestPlace (args : Arguments) : Place :=
  manifestPlaceOf args.located args.request args.statusDir
    (textOf (fetch (txt "run_id") args.request))

/-- A process in such a setting. -/
structure Arguments.Meets (args : Arguments) (g : Setting) : Prop where
  loaded : g.clean → args.Loaded
  place : g.clean → args.manifestPlace = .elsewhere ∨ args.manifestPlace = .events
  runId : ∀ id, g.runId = some id → fetch (txt "run_id") args.request = .str id

theorem identityFailure_reason {request : Record} {identity : RunnerIdentity} {reason : Text}
    (h : identityFailure request identity = .ok (some reason)) : reason ∈ StatusServer.reasons := by
  rw [identityFailure] at h
  split at h
  · obtain rfl := Option.some.inj (Except.ok.inj h)
    decide
  split at h
  · obtain rfl := Option.some.inj (Except.ok.inj h)
    decide
  obtain ⟨requested, -, h⟩ := bind_ok_iff.mp h
  dsimp only at h
  split at h
  · obtain rfl := Option.some.inj (Except.ok.inj h)
    decide
  split at h
  · obtain rfl := Option.some.inj (Except.ok.inj h)
    decide
  · cases h

theorem identityOf_ok {args : Arguments} {identity : RunnerIdentity} {failure : Option Text}
    (h : identityOf args = .ok (identity, failure)) :
    (args.Loaded → IsLoaded identity) ∧ ∀ reason, failure = some reason →
      reason ∈ StatusServer.reasons := by
  have hchecked : ∀ {i : RunnerIdentity},
      (identityFailure args.request i).map (fun failure => (i, failure)) = .ok (identity, failure) →
        i = identity ∧ ∀ reason, failure = some reason → reason ∈ StatusServer.reasons := by
    intro i hi
    cases hf : identityFailure args.request i with
    | error e =>
      rw [hf] at hi
      cases hi
    | ok f =>
      rw [hf] at hi
      obtain ⟨rfl, rfl⟩ := Prod.mk.inj (Except.ok.inj hi)
      exact ⟨rfl, fun reason hr => identityFailure_reason (hr ▸ hf)⟩
  rw [identityOf] at h
  split at h
  · next given hgiven =>
    obtain ⟨rfl, hreasons⟩ := hchecked h
    exact ⟨fun hloaded => hloaded.given _ hgiven, hreasons⟩
  · split at h
    · obtain ⟨rfl, rfl⟩ := Prod.mk.inj (Except.ok.inj h)
      refine ⟨fun _ => .source, fun reason hr => ?_⟩
      obtain rfl := Option.some.inj hr
      decide
    · next loaded hload =>
      obtain ⟨rfl, hreasons⟩ := hchecked h
      exact ⟨fun hloaded => .receipt hloaded.receipt hload, hreasons⟩

theorem orElse_ok {α : Type} {failure : Failure} {x : Option α} {a : α} :
    orElse failure x = .ok a ↔ x = some a := by
  cases x with
  | none => exact iff_of_false nofun nofun
  | some b => exact ⟨fun h => congrArg _ (Except.ok.inj h), fun h => congrArg _ (Option.some.inj h)⟩

/-- A positive decimal string has no sign. -/
theorem decimalField_neg {v : Json} {name : Text} {rate : Number}
    (hpositive : positiveDecimalString v name = .ok ()) (h : decimalField v = .ok rate) :
    rate.neg = false := by
  cases v with
  | str t =>
    rw [positiveDecimalString, refuseIf_ok, not_or] at hpositive
    have hread := orElse_ok.mp h
    unfold decimalOf at hread
    split at hread
    · next neg coeff exp htext =>
      obtain rfl := Option.some.inj hread
      rw [htext] at hpositive
      cases neg with
      | false => rfl
      | true => exact absurd rfl hpositive.2
    · cases hread
  | _ => cases h

/-- What a validated request costs is not negative. -/
theorem costOf_neg {request validated : Record} (h : validateRequest request = .ok validated)
    {n : ℕ} {cost : Number} (hcost : costOf validated n = .ok cost) : cost.neg = false := by
  obtain ⟨limits, hlimits, hpositive⟩ := validateRequest_rate h
  obtain ⟨rfl, -⟩ := validateRequest_asksFor h
  obtain ⟨limits', hlimits', hcost⟩ := bind_ok_iff.mp hcost
  obtain ⟨rate, hrate, hestimated⟩ := bind_ok_iff.mp hcost
  obtain rfl : limits = limits' := by
    rw [requestPart, hlimits] at hlimits'
    exact Except.ok.inj hlimits'
  exact estimatedCost_neg (decimalField_neg hpositive hrate) (orElse_ok.mp hestimated)

/-! ## The constructor -/

/-- A value that is computed keeps what its use keeps. -/
theorem keeps_orRaise {α β ε : Type} {I : World → Prop} {Q : β → World → Prop}
    {E : Failure → World → Prop} {failure : ε → Failure} {x : Except ε α} {f : α → Remote β}
    {w : World} (hE : ∀ e, E e w)
    (h : ∀ a, x = .ok a → Keeps machine I Q E (f a) w) :
    Keeps machine I Q E (orRaise failure x >>= f) w := by
  cases x with
  | ok a => exact h a rfl
  | error e => exact hE (failure e)

/-- One command. -/
theorem keeps_ask {β : Type} {I : World → Prop} {Q : β → World → Prop} {E : Failure → World → Prop}
    {c : Command} {f : Answer c → Remote β} {w : World} (hdie : ∀ w', dieIn w c w' → I w')
    (h : ∀ a w', execute w c a w' → I w' ∧ Keeps machine I Q E (f a) w') :
    Keeps machine I Q E (ask c >>= f) w :=
  ⟨hdie, h⟩

/-- A new process starts from a world that was left. -/
theorem Sound.keep {w w' : World} (h : Sound floatOf g w) (hevents : w'.events = w.events)
    (hpublished : w'.published = w.published) (hterminal : w'.terminal = w.terminal) :
    Sound floatOf g w' :=
  ⟨hpublished ▸ h.published, hterminal ▸ h.terminal, hevents ▸ hpublished ▸ h.accounted⟩

/-- The journal without what is after its records. -/
def World.trimmed (w : World) : World := { w with torn := [] }

/-- `_read_event_history` reads all records, and leaves nothing after them. -/
theorem keeps_readEventHistory {w : World} (h : Sound floatOf g w) :
    Keeps machine (Sound floatOf g) (fun history w' => w' = w.trimmed ∧
      eventsOf runId 1 (w.events.map stored) = .ok history) (fun _ => Sound floatOf g)
      (readEventHistory floatOf runId) w := by
  have htrimmed : Sound floatOf g w.trimmed := h.keep rfl rfl rfl
  have hread : ∀ w', Sound floatOf g w' → w' = w.trimmed →
      Keeps machine (Sound floatOf g) (fun history w' => w' = w.trimmed ∧
        eventsOf runId 1 (w.events.map stored) = .ok history) (fun _ => Sound floatOf g)
        (orRaise .request (eventsOf runId 1 (w.events.map stored))) w' := by
    intro w' hw' heq
    cases hevents : eventsOf runId 1 (w.events.map stored) with
    | ok history => exact ⟨heq, rfl⟩
    | error e => exact hw'
  refine keeps_ask (fun w' hd => hd ▸ h) ?_
  rintro ⟨lines, torn⟩ w' ⟨heq, rfl⟩
  obtain ⟨rfl, rfl⟩ := Prod.mk.inj heq
  refine ⟨h, ?_⟩
  dsimp only
  split
  · next htorn =>
    refine hread w' h ?_
    rw [World.trimmed, ← htorn]
  split
  · refine keeps_ask ?_ fun _ v hv => ?_
    · rintro v (rfl | rfl)
      · exact h
      · exact htrimmed
    · obtain rfl : v = w'.trimmed := hv
      exact ⟨htrimmed, hread _ htrimmed rfl⟩
  · exact h
  · exact h

/-- A process that starts. -/
structure Started (floatOf : FloatLiteral → JsonFloat) (g : Setting) (w : World)
    (r : Session × State) (w' : World) : Prop where
  running : Running floatOf g r.1 w'
  tidy : Tidy r.2
  spent : ∀ id, g.runId = some id → Spent w.events w.published r.1.prior
  events : w'.events = w.events
  published : w'.published = w.published

/-- **The constructor** establishes what `run` relies on. -/
theorem keeps_construct {args : Arguments} {w : World} (hargs : args.Meets g)
    (h : Sound floatOf g w) :
    Keeps machine (Sound floatOf g) (Started floatOf g w) (fun _ => Sound floatOf g)
      (construct floatOf args) w.restarted := by
  have hrestarted : Sound floatOf g w.restarted := h.keep rfl rfl rfl
  refine keeps_orRaise (fun _ => hrestarted) fun request hrequest => ?_
  refine keeps_orRaise (fun _ => hrestarted) fun authorization _ => ?_
  refine keeps_orRaise (fun _ => hrestarted) fun r hidentity => ?_
  obtain ⟨identity, failure⟩ := r
  obtain ⟨hloaded, hreasons⟩ := identityOf_ok hidentity
  obtain ⟨rfl, -⟩ := validateRequest_asksFor hrequest
  set runId := textOf (fetch (txt "run_id") args.request) with hrunId
  refine keeps_ask (fun w' hd => hd ▸ hrestarted) ?_
  rintro started w₁ ⟨-, rfl⟩
  have hclocked : Sound floatOf g (w.restarted.read started) := h.keep rfl rfl rfl
  refine ⟨hclocked, Keeps.bind (keeps_readEventHistory hclocked) ?_⟩
  rintro history w₂ ⟨rfl, hhistory⟩
  have htrimmed : Sound floatOf g (w.restarted.read started).trimmed := h.keep rfl rfl rfl
  refine keeps_orRaise (fun _ => htrimmed) fun sequence _ => ?_
  refine keeps_ask (fun w' hd => hd ▸ htrimmed) ?_
  rintro status w₃ ⟨rfl, rfl⟩
  refine ⟨htrimmed, ?_⟩
  have hrecovers := recovers_history hhistory
  have hspent : ∀ id, g.runId = some id → Spent w.events w.published
      (priorElapsedSeconds history (w.published.head?.map stored) runId) := by
    intro id hid
    have hsame : runId = id := by rw [hrunId, hargs.runId id hid]; rfl
    rw [hsame] at hhistory ⊢
    exact spent_prior (h.accounted id hid) hhistory
  have hnonneg := (journalSeconds_nonneg history).trans
    (journalSeconds_le history (w.published.head?.map stored) runId)
  refine ⟨⟨htrimmed, ?_, rfl, started, [], rfl, le_rfl, fun id hid => ?_⟩, ?_, hspent, rfl, rfl⟩
  · exact ⟨hargs.place, fun hclean => hloaded (hargs.loaded hclean),
      fun id hid => by
        rw [hrunId, hargs.runId id hid]; rfl, hnonneg, fun n d hd => costOf_neg hrequest hd,
      hreasons, hrecovers.failure⟩
  · rw [Session.elapsedAt_started]
    exact (hspent id hid).rounded (h.accounted id hid)
  · exact ⟨hrecovers.completed, hrecovers.exitCodes, hrecovers.active⟩

/-- A whole process. -/
theorem keeps_remoteRunner {args : Arguments} {fuel : ℕ} {w : World} (hargs : args.Meets g)
    (h : Sound floatOf g w) : Keeps machine (Sound floatOf g) (fun _ _ => True) (fun _ _ => True)
      (remoteRunner floatOf args fuel) w.restarted := by
  refine Keeps.bind ((keeps_construct hargs h).mono (fun _ => id) (fun _ _ => id) fun _ _ _ =>
    trivial) ?_
  rintro ⟨self, s⟩ w' hstarted
  refine (((follows_run hstarted.tidy).obeys hstarted.running).keeps (fun _ hw => hw.sound)
    (fun w c a w' hc hI he => hc.exec hI he) (fun w c w' hc hI hd => hc.die hI hd)
      hstarted.running).mono
      (fun _ => id) (fun _ _ => id) fun _ _ _ => trivial

/-- **All processes together** keep what is said of the directory. -/
theorem Reached.sound {ok : Arguments → Prop} {w : World} (hok : ∀ args, ok args → args.Meets g)
    (h : Reached floatOf ok w) : Sound floatOf g w := by
  induction h with
  | empty =>
    exact ⟨fun _ => nofun, fun _ => nofun, fun _ _ =>
      ⟨List.Pairwise.nil, nofun, nofun, nofun, nofun, nofun⟩⟩
  | process _ hargs hrun ih =>
    exact ((keeps_remoteRunner (hok _ hargs) ih).sound hrun (ih.keep rfl rfl rfl)).1

/-! ## Plain answers -/

/-- Answers of a machine where all goes well, with the world after each and whether it is one that
can be: a token is found or not, and a child exits at once. -/
def respond (token : Option (Text × ℕ)) (w : World) : (c : Command) → Answer c × World × Bool
  | .monotonic => (w.readings.head?.getD 0, w.read (w.readings.head?.getD 0), true)
  | .time => (secondsLiteral 1700000000000000, w, true)
  | .readEvents => ((w.events.map stored, w.torn), w, true)
  | .truncateEvents => ((), w.trimmed, true)
  | .readStatus => (w.published.head?.map stored, w, true)
  | .readTerminal => (w.terminal.map stored, w, true)
  | .append e => ((), { w with events := w.events ++ [e] }, w.torn = [])
  | .publish s => ((), { w with published := s :: w.published }, true)
  | .linkTerminal t =>
    match w.terminal with
    | none => (true, { w with terminal := some t }, true)
    | some _ => (false, w, true)
  | .manifestExists place => (!decide (w.Lacks place), w, true)
  | .phaseLogs _ => (some [], w, true)
  | .writeManifest place m => ((), w.withManifest m place, true)
  | .stopRequested => (none, w, true)
  | .exists _ => (token.isSome, w, true)
  | .readToken _ => (token, w, true)
  | .isDirectory _ => (true, w, true)
  | .freeBytes _ => (some (10 ^ 15), w, true)
  | .spawn _ _ => (some (100 : ℤ), w, true)
  | .poll _ => (some (0 : ℤ), w, true)
  | .wait _ => ((0 : ℤ), w, true)
  | .signal _ _ => (false, w, true)
  | .isOwn _ => (false, w, true)
  | .resolve path => (path, w, true)
  | .isSymlink _ => (false, w, true)
  | .resolveStrict path => (some path, w, true)
  | .isFile _ => (true, w, true)
  | .fileSize _ => (some 74, w, true)
  | .stableSha256 _ => (some (List.replicate 64 97), w, true)
  | .readManifest _ => (w.terminal.map stored, w, true)

theorem respond_execute {token : Option (Text × ℕ)} {w : World} {c : Command}
    (h : (respond token w c).2.2 = true) :
    execute w c (respond token w c).1 (respond token w c).2.1 := by
  cases c with
  | monotonic =>
    refine ⟨fun last hlast => ?_, rfl⟩
    show last ≤ w.readings.head?.getD 0
    rw [hlast]
    exact le_rfl
  | append e => exact ⟨of_decide_eq_true h, rfl⟩
  | linkTerminal t =>
    cases ht : w.terminal <;> simp [respond, execute, ht]
  | manifestExists place => exact ⟨fun ha => by simpa [respond] using ha, rfl⟩
  | stableSha256 path =>
    refine ⟨fun d hd => ?_, rfl⟩
    obtain rfl := Option.some.inj hd
    decide
  | writeManifest place m => exact .inr rfl
  | readEvents | readStatus | readTerminal => exact ⟨rfl, rfl⟩
  | _ => rfl

/-- A process that is answered so. -/
def played (token : Option (Text × ℕ)) (args : Arguments) (fuel : ℕ) (w : World) :
    Played World Failure Record :=
  (remoteRunner .literal args fuel).interpret (respond token) w.restarted

/-- It is a process. -/
theorem Reached.played {ok : Arguments → Prop} {token : Option (Text × ℕ)} {args : Arguments}
    {fuel : ℕ} {w : World} (hw : Reached .literal ok w) (hargs : ok args)
    (hallowed : (played token args fuel w).allowed = true) :
    Reached .literal ok (played token args fuel w).world :=
  .process hw hargs (Process.runs_interpret (fun _ _ => respond_execute) hallowed)

/-- A request whose phases are all run, by the runner of the package. -/
def phasedRequest : Record :=
  let phase (name : Text) := Json.obj [(txt "enabled", .bool true), (txt "argv", .arr [.str name]),
    (txt "timeout_seconds", .int 60)]
  setKey (txt "runner_version") (.str packageVersion)
    (setKey (txt "phases") (.obj (phaseOrder.map fun name => (name, phase name)))
      (sampleRequest .null))

/-- The receipt of that runner. -/
def phasedReceipt : Record :=
  [(txt "protocol", .str (txt "runner-release/1")), (txt "runner_version", .str packageVersion),
    (txt "runner_git_commit", .str (List.replicate 40 97)),
    (txt "supported_protocol_majors", .obj (majorFields localSourceIdentity.supportedProtocolMajors))]

/-- A process of that request. -/
def phasedArguments : Arguments where
  request := phasedRequest
  statusDir := .ofText (txt "/workspace/runpod-jobrunner/runs/run-1/status")
  located := id
  runnerIdentity := none
  statusTokenSha256 := none
  receipt := .read (.obj phasedReceipt)

/-- The token of that request. -/
def sampleToken : Option (Text × ℕ) := some (List.replicate 64 97, 65)

end Runner

end RunpodJobrunner
