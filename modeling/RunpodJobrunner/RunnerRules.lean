import RunpodJobrunner.ShownStatus

/-!
# What the remote runner keeps

The invariants of a status directory: every status is projected and a terminal result is shown,
as long as no artifact manifest is at one of the two files; the elapsed times of the journal are
in order and what a new process reads of both files is the greatest of all, as long as the
directory belongs to one run. `Running` adds what holds inside of a process, and `Allowed` says
where a command keeps it (`Allowed.exec`, `Allowed.die`). A call that issues its commands where
they are allowed `Follows` these rules.
-/

namespace RunpodJobrunner

open Json Identity Process

namespace Runner

/-! ## Elapsed times -/

/-- The elapsed time in an event. -/
def eventSeconds (event : Record) : Option ℚ := (fetch (txt "monotonic_seconds") event).number

/-- The elapsed time in a status. -/
def statusSeconds (status : Record) : Option ℚ :=
  (fetch (txt "heartbeat_monotonic_seconds") status).number

/-- The elapsed times in a journal, in its order. -/
def eventTimes (events : List Record) : List ℚ := events.filterMap eventSeconds

/-- The elapsed times in statuses. -/
def statusTimes (published : List Record) : List ℚ := published.filterMap statusSeconds

theorem eventTimes_append (events : List Record) (event : Record) :
    eventTimes (events ++ [event]) = eventTimes events ++ (eventSeconds event).toList := by
  rw [eventTimes, List.filterMap_append, eventTimes]
  cases h : eventSeconds event <;> simp [h]

theorem statusTimes_cons (published : List Record) (status : Record) :
    statusTimes (status :: published) = (statusSeconds status).toList ++ statusTimes published := by
  cases h : statusSeconds status <;> simp [statusTimes, h]

/-- No elapsed time is above that. -/
structure Spent (events published : List Record) (bound : ℚ) : Prop where
  events : ∀ v ∈ eventTimes events, v ≤ bound
  published : ∀ v ∈ statusTimes published, v ≤ bound

theorem Spent.mono {events published : List Record} {a b : ℚ} (h : Spent events published a)
    (hab : a ≤ b) : Spent events published b :=
  ⟨fun v hv => (h.events v hv).trans hab, fun v hv => (h.published v hv).trans hab⟩

/-- Its keys are distinct. -/
def Distinct (record : Record) : Prop := (record.map Prod.fst).Nodup

/-- The elapsed times are in order, and the greatest is where a new process looks. -/
structure Accounted (runId : Text) (events published : List Record) : Prop where
  sorted : (eventTimes events).Pairwise (· ≤ ·)
  timed :
    ∀ e ∈ events, fetch (txt "protocol") e = .str (txt "run-event/1") → (eventSeconds e).isSome = true
  newest : ∀ v ∈ statusTimes published, ∃ s u, published.head? = some s ∧
    fetch (txt "run_id") s = .str runId ∧ statusSeconds s = some u ∧ v ≤ u
  eventKeys : ∀ e ∈ events, Distinct e
  statusKeys : ∀ s ∈ published, Distinct s
  rounded : ∀ v, v ∈ eventTimes events ∨ v ∈ statusTimes published → ∃ n, v = ofMicros n

/-- Rounding what was spent does not lose any of it. -/
theorem Spent.rounded {runId : Text} {events published : List Record} {prior : ℚ}
    (h : Spent events published prior) (hall : Accounted runId events published) :
    Spent events published (ofMicros (micros prior)) := by
  have hrounded : ∀ t, t ∈ eventTimes events ∨ t ∈ statusTimes published → t ≤ prior →
      t ≤ ofMicros (micros prior) := by
    intro t ht hle
    obtain ⟨n, rfl⟩ := hall.rounded t ht
    have hmono := micros_mono (ofMicros_nonneg n) hle
    rw [micros_ofMicros] at hmono
    exact ofMicros_mono hmono
  exact ⟨fun t ht => hrounded t (.inl ht) (h.events t ht),
    fun t ht => hrounded t (.inr ht) (h.published t ht)⟩

/-- What is asked of the processes: that no manifest is at `status.json` or
`terminal-result.json`, that all are of one run. -/
structure Setting where
  clean : Prop
  runId : Option Text

/-- What every process keeps, wherever it ends. -/
structure Sound (floatOf : FloatLiteral → JsonFloat) (g : Setting) (w : World) : Prop where
  published : g.clean → ∀ s ∈ w.published, Projects floatOf s
  terminal : g.clean → ∀ t, w.terminal = some t → Shown floatOf t
  accounted : ∀ id, g.runId = some id → Accounted id w.events w.published

/-- A session in such a setting. -/
structure Session.Fits (session : Session) (g : Setting) : Prop where
  place : g.clean → session.manifestPlace = .elsewhere ∨ session.manifestPlace = .events
  identity : g.clean → IsLoaded session.identity
  runId : ∀ id, g.runId = some id → session.runId = id
  prior : 0 ≤ session.prior
  rate : ∀ n d, costOf session.request n = .ok d → d.neg = false
  identityFailure : ∀ reason, session.identityFailure = some reason → reason ∈ StatusServer.reasons
  recovered : ∀ phase reason, session.recoveredFailure = some (phase, reason) →
    phase ∈ phaseOrder ∧ reason ∈ StatusServer.reasons

/-- The clock of a process, whose last reading is not below any elapsed time. -/
structure Clocked (g : Setting) (session : Session) (w : World) (now : ℚ) (earlier : List ℚ) :
    Prop where
  readings : w.readings = now :: earlier
  started : session.started ≤ now
  spent : ∀ id, g.runId = some id → Spent w.events w.published (ofMicros (session.elapsedAt now))

/-- What holds inside of a process. -/
structure Running (floatOf : FloatLiteral → JsonFloat) (g : Setting) (session : Session)
    (w : World) : Prop where
  sound : Sound floatOf g w
  fits : session.Fits g
  torn : w.torn = []
  clock : ∃ now earlier, Clocked g session w now earlier

/-- The world after a reading of the clock. -/
def World.read (w : World) (now : ℚ) : World := { w with readings := now :: w.readings }

variable {floatOf : FloatLiteral → JsonFloat} {g : Setting} {self : Session} {w w' : World}

/-- What the clock shows at the start is what was spent before. -/
theorem Session.elapsedAt_started : self.elapsedAt self.started = micros self.prior := by
  rw [Session.elapsedAt, sub_self, add_zero]

theorem Session.Fits.elapsedAt_mono (h : self.Fits g) {a b : ℚ} (ha : self.started ≤ a)
    (hab : a ≤ b) : self.elapsedAt a ≤ self.elapsedAt b := by
  have hprior := h.prior
  exact micros_mono (by linarith) (by linarith)

theorem Running.read (h : Running floatOf g self w) {now : ℚ}
    (hnow : ∀ last, w.readings.head? = some last → last ≤ now) :
    Running floatOf g self (w.read now) := by
  obtain ⟨last, earlier, hclock⟩ := h.clock
  have hle : last ≤ now := hnow last (by rw [hclock.readings, List.head?_cons])
  have hmono := h.fits.elapsedAt_mono hclock.started hle
  exact ⟨⟨h.sound.published, h.sound.terminal, h.sound.accounted⟩, h.fits, h.torn, now, w.readings,
    rfl, hclock.started.trans hle, fun id hid => (hclock.spent id hid).mono (ofMicros_mono hmono)⟩

/-! ## What is written -/

/-- A limit check was made at the last reading before, and found none reached. -/
def CheckedAt (g : Setting) (self : Session) (w : World) (earlier : List ℚ) : Prop :=
  ∃ checked rest, earlier = checked :: rest ∧
    limitAt self.request (self.elapsedAt checked) = .ok none ∧
    ∀ id, g.runId = some id → Spent w.events w.published (ofMicros (self.elapsedAt checked))

/-- Where a command can be issued. -/
def Allowed (floatOf : FloatLiteral → JsonFloat) (g : Setting) (self : Session) :
    Command → World → Prop
  | .append e, w => ∃ now earlier, w.readings = now :: earlier ∧
      eventSeconds e = some (ofMicros (self.elapsedAt now)) ∧ Distinct e ∧
      (fetch (txt "kind") e = .str (txt "phase_started") → CheckedAt g self w earlier)
  | .publish s, w => (∃ now earlier, w.readings = now :: earlier ∧
        statusSeconds s = some (ofMicros (self.elapsedAt now))) ∧
      fetch (txt "run_id") s = .str self.runId ∧ Distinct s ∧ (g.clean → Projects floatOf s)
  | .linkTerminal t, _ => g.clean → Shown floatOf t
  | .writeManifest place m, w =>
    place = self.manifestPlace ∧ w.Lacks place ∧ ∃ files, m = failureManifest self files
  | .truncateEvents, _ => False
  | _, _ => True

/-- A new record of a journal whose time is that of the last reading. -/
theorem Accounted.append {runId : Text} {events published : List Record} {e : Record} {n : ℕ}
    (h : Accounted runId events published) (hspent : Spent events published (ofMicros n))
    (he : eventSeconds e = some (ofMicros n)) (hkeys : Distinct e) :
    Accounted runId (events ++ [e]) published ∧ Spent (events ++ [e]) published (ofMicros n) := by
  have htimes : eventTimes (events ++ [e]) = eventTimes events ++ [ofMicros n] := by
    rw [eventTimes_append, he]
    rfl
  refine ⟨⟨?_, ?_, h.newest, ?_, h.statusKeys, ?_⟩, ?_, hspent.published⟩
  · rw [htimes, List.pairwise_append]
    refine ⟨h.sorted, List.pairwise_singleton _ _, fun v hv u hu => ?_⟩
    rw [List.mem_singleton.mp hu]
    exact hspent.events v hv
  · intro e' he' hprotocol
    rcases List.mem_append.mp he' with he' | he'
    · exact h.timed e' he' hprotocol
    · rw [List.mem_singleton.mp he', he]
      rfl
  · exact List.forall_mem_append.mpr ⟨h.eventKeys, List.forall_mem_singleton.mpr hkeys⟩
  · rintro v (hv | hv)
    · rw [htimes] at hv
      rcases List.mem_append.mp hv with hv | hv
      · exact h.rounded v (.inl hv)
      · exact ⟨n, List.mem_singleton.mp hv⟩
    · exact h.rounded v (.inr hv)
  · intro v hv
    rw [htimes] at hv
    rcases List.mem_append.mp hv with hv | hv
    · exact hspent.events v hv
    · exact (List.mem_singleton.mp hv).le

/-- A new status whose time is that of the last reading. -/
theorem Accounted.publish {runId : Text} {events published : List Record} {s : Record} {n : ℕ}
    (h : Accounted runId events published) (hspent : Spent events published (ofMicros n))
    (hs : statusSeconds s = some (ofMicros n)) (hrunId : fetch (txt "run_id") s = .str runId)
    (hkeys : Distinct s) :
    Accounted runId events (s :: published) ∧ Spent events (s :: published) (ofMicros n) := by
  have htimes : statusTimes (s :: published) = ofMicros n :: statusTimes published := by
    rw [statusTimes_cons, hs]
    rfl
  have hle : ∀ v ∈ statusTimes (s :: published), v ≤ ofMicros n := by
    intro v hv
    rw [htimes] at hv
    rcases List.mem_cons.mp hv with rfl | hv
    · exact le_rfl
    · exact hspent.published v hv
  refine ⟨⟨h.sorted, h.timed, fun v hv => ⟨s, ofMicros n, rfl, hrunId, hs, hle v hv⟩,
    h.eventKeys, List.forall_mem_cons.mpr ⟨hkeys, h.statusKeys⟩, ?_⟩, hspent.events, hle⟩
  rintro v (hv | hv)
  · exact h.rounded v (.inl hv)
  · rw [htimes] at hv
    rcases List.mem_cons.mp hv with rfl | hv
    · exact ⟨n, rfl⟩
    · exact h.rounded v (.inr hv)

/-- What an append leaves. -/
theorem Running.append {e : Record} {n : ℕ} {now : ℚ} {earlier : List ℚ}
    (h : Running floatOf g self w) (hreadings : w.readings = now :: earlier)
    (hn : n = self.elapsedAt now)
    (he : eventSeconds e = some (ofMicros n)) (hkeys : Distinct e) :
    Running floatOf g self { w with events := w.events ++ [e] } := by
  obtain ⟨now', earlier', hclock⟩ := h.clock
  obtain ⟨rfl, rfl⟩ := List.cons.inj (hclock.readings.symm.trans hreadings)
  subst hn
  have hboth := fun id hid => (h.sound.accounted id hid).append (hclock.spent id hid) he hkeys
  exact ⟨⟨h.sound.published, h.sound.terminal, fun id hid => (hboth id hid).1⟩, h.fits, h.torn,
    now', earlier', hclock.readings, hclock.started, fun id hid => (hboth id hid).2⟩

/-- What a publication leaves. -/
theorem Running.publish {s : Record} {n : ℕ} {now : ℚ} {earlier : List ℚ}
    (h : Running floatOf g self w) (hreadings : w.readings = now :: earlier)
    (hn : n = self.elapsedAt now)
    (hs : statusSeconds s = some (ofMicros n)) (hrunId : fetch (txt "run_id") s = .str self.runId)
    (hkeys : Distinct s) (hprojects : g.clean → Projects floatOf s) :
    Running floatOf g self { w with published := s :: w.published } := by
  obtain ⟨now', earlier', hclock⟩ := h.clock
  obtain ⟨rfl, rfl⟩ := List.cons.inj (hclock.readings.symm.trans hreadings)
  subst hn
  have hboth := fun id hid => (h.sound.accounted id hid).publish (hclock.spent id hid) hs
    (h.fits.runId id hid ▸ hrunId) hkeys
  exact ⟨⟨fun hclean => List.forall_mem_cons.mpr ⟨hprojects hclean, h.sound.published hclean⟩,
    h.sound.terminal, fun id hid => (hboth id hid).1⟩, h.fits, h.torn, now', earlier',
    hclock.readings, hclock.started, fun id hid => (hboth id hid).2⟩

/-- What a link of a terminal result leaves. -/
theorem Running.link {t : Record} (h : Running floatOf g self w) (ht : g.clean → Shown floatOf t) :
    Running floatOf g self { w with terminal := some t } := by
  refine ⟨⟨h.sound.published, fun hclean t' ht' => ?_, h.sound.accounted⟩, h.fits, h.torn, ?_⟩
  · obtain rfl := Option.some.inj ht'
    exact ht hclean
  · obtain ⟨now, earlier, hclock⟩ := h.clock
    exact ⟨now, earlier, hclock.readings, hclock.started, hclock.spent⟩

theorem distinct_failureManifest {files : List LogFile} : Distinct (failureManifest self files) :=
  (by decide : ([txt "protocol", txt "run_id", txt "files"] : List Text).Nodup)

/-- What a manifest leaves at a place where nothing was: it has no elapsed time. -/
theorem Running.manifest {files : List LogFile} (h : Running floatOf g self w)
    (hlacks : w.Lacks self.manifestPlace) :
    Running floatOf g self (w.withManifest (failureManifest self files) self.manifestPlace) := by
  obtain ⟨now, earlier, hclock⟩ := h.clock
  have hplace := h.fits.place
  cases heq : self.manifestPlace with
  | elsewhere => exact h
  | events =>
    rw [heq] at hlacks
    have hnone : ∀ id, g.runId = some id → Accounted id [failureManifest self files] w.published := by
      intro id hid
      have hold := h.sound.accounted id hid
      refine ⟨List.Pairwise.nil, ?_, hold.newest,
        List.forall_mem_singleton.mpr distinct_failureManifest, hold.statusKeys,
          fun v hv => hold.rounded v (.inr (hv.resolve_left nofun))⟩
      intro e he hprotocol
      rw [List.mem_singleton.mp he] at hprotocol
      exact absurd (Json.str.inj hprotocol) (by decide)
    exact ⟨⟨h.sound.published, h.sound.terminal, hnone⟩, h.fits, rfl, now, earlier, hclock.readings,
      hclock.started, fun id hid => ⟨nofun, (hclock.spent id hid).published⟩⟩
  | status =>
    rw [heq] at hlacks hplace
    have hdirty : ¬g.clean := fun hclean => by simpa using hplace hclean
    have hempty : statusTimes (failureManifest self files :: w.published) = [] := by
      rw [show w.published = [] from hlacks]
      rfl
    have hnone : ∀ id, g.runId = some id →
        Accounted id w.events (failureManifest self files :: w.published) := by
      intro id hid
      have hold := h.sound.accounted id hid
      refine ⟨hold.sorted, hold.timed, by rw [hempty]; nofun, hold.eventKeys,
        List.forall_mem_cons.mpr ⟨distinct_failureManifest, hold.statusKeys⟩,
        fun v hv => hold.rounded v (.inl ?_)⟩
      rw [hempty] at hv
      exact hv.resolve_right nofun
    exact ⟨⟨fun hclean => absurd hclean hdirty, fun hclean => absurd hclean hdirty, hnone⟩,
      h.fits, h.torn, now, earlier, hclock.readings, hclock.started,
      fun id hid => ⟨(hclock.spent id hid).events, by rw [World.withManifest, hempty]; nofun⟩⟩
  | terminal =>
    rw [heq] at hplace
    have hdirty : ¬g.clean := fun hclean => by simpa using hplace hclean
    exact h.link fun hclean => absurd hclean hdirty

/-- **Allowed commands keep what is relied on.** -/
theorem Allowed.exec {c : Command} {a : Answer c} (hc : Allowed floatOf g self c w)
    (h : Running floatOf g self w) (he : execute w c a w') : Running floatOf g self w' := by
  cases c with
  | monotonic =>
    obtain ⟨hnow, rfl⟩ := he
    exact h.read hnow
  | append e =>
    obtain ⟨now, earlier, hreadings, hseconds, hkeys, -⟩ := hc
    obtain ⟨-, rfl⟩ := he
    exact h.append hreadings rfl hseconds hkeys
  | publish s =>
    obtain ⟨⟨now, earlier, hreadings, hseconds⟩, hrunId, hkeys, hprojects⟩ := hc
    obtain rfl : w' = _ := he
    exact h.publish hreadings rfl hseconds hrunId hkeys hprojects
  | linkTerminal t =>
    simp only [execute] at he
    split at he
    · obtain ⟨-, rfl⟩ := he
      exact h.link hc
    · obtain ⟨-, rfl⟩ := he
      exact h
  | writeManifest place m =>
    obtain ⟨rfl, hlacks, files, rfl⟩ := hc
    rcases he with rfl | rfl
    · exact h
    · exact h.manifest hlacks
  | truncateEvents => exact hc.elim
  | readEvents | readStatus | readTerminal | manifestExists | stableSha256 =>
    obtain ⟨-, rfl⟩ := he
    exact h
  | _ =>
    obtain rfl : w' = w := he
    exact h

/-- What is left when a process dies in an allowed command. -/
theorem Allowed.die {c : Command} (hc : Allowed floatOf g self c w) (h : Running floatOf g self w)
    (hd : dieIn w c w') : Sound floatOf g w' := by
  cases c with
  | append e =>
    obtain ⟨now, earlier, hreadings, hseconds, hkeys, -⟩ := hc
    rcases hd with rfl | ⟨line, part, -, -, -, rfl⟩
    · exact (h.append hreadings rfl hseconds hkeys).sound
    · exact ⟨h.sound.published, h.sound.terminal, h.sound.accounted⟩
  | publish s =>
    obtain ⟨⟨now, earlier, hreadings, hseconds⟩, hrunId, hkeys, hprojects⟩ := hc
    rcases hd with rfl | rfl
    · exact h.sound
    · exact (h.publish hreadings rfl hseconds hrunId hkeys hprojects).sound
  | linkTerminal t =>
    rcases hd with rfl | ⟨-, rfl⟩
    · exact h.sound
    · exact (h.link hc).sound
  | writeManifest place m =>
    obtain ⟨rfl, hlacks, files, rfl⟩ := hc
    rcases hd with rfl | rfl
    · exact h.sound
    · exact (h.manifest hlacks).sound
  | truncateEvents => exact hc.elim
  | _ =>
    obtain rfl : w' = w := hd
    exact h.sound

end Runner

end RunpodJobrunner
