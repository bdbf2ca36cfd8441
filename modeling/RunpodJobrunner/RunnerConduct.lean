import RunpodJobrunner.RunnerRules

/-!
# The conduct of the remote runner

Every method of the runner, with what it returns. The rules for sequences come first; each
method has one lemma, which its callers cite, and loops are by induction on their fuel.
-/

namespace RunpodJobrunner

open Json Identity Process

namespace Runner

/-- An artifact error has a reason that the status server knows. -/
def Raises (e : Failure) (_ : World) : Prop :=
  ∀ reason, e = .artifact reason → reason ∈ StatusServer.reasons

/-- As long as what is relied on holds, a call issues its commands where they are allowed, and
`Q` holds of what it returns. -/
structure Follows {α : Type} (floatOf : FloatLiteral → JsonFloat) (g : Setting) (session : Session)
    (Q : α → World → Prop) (p : Remote α) (w : World) : Prop where
  obeys : Running floatOf g session w →
    Obeys machine (Running floatOf g session) (Allowed floatOf g session) Q Raises p w

variable {α β : Type} {floatOf : FloatLiteral → JsonFloat} {g : Setting} {self : Session} {w : World}

section Rules

variable {Q Q' : α → World → Prop} {S : β → World → Prop} {p : Remote α} {f : α → Remote β}

/-- A method may rely on its session running. -/
theorem Follows.of_running (h : Running floatOf g self w → Follows floatOf g self Q p w) :
    Follows floatOf g self Q p w :=
  ⟨fun hI => (h hI).obeys hI⟩

/-- It returns what it may return. -/
theorem Follows.done {a : α} (h : Q a w) : Follows floatOf g self Q (.done a) w := ⟨fun _ => h⟩

/-- It raises what it may raise. -/
theorem Follows.raise {e : Failure} (h : Raises e w) : Follows floatOf g self Q (.raise e) w :=
  ⟨fun _ => h⟩

/-- It may return less than it may return. -/
theorem Follows.mono (hQ : ∀ a w', Q a w' → Q' a w') (h : Follows floatOf g self Q p w) :
    Follows floatOf g self Q' p w :=
  ⟨fun hI => (h.obeys hI).mono hQ fun _ _ => id⟩

/-- **Sequence.** The rest follows from whatever the first part returns. -/
theorem Follows.bind (h : Follows floatOf g self Q p w)
    (hf : ∀ a w', Q a w' → Follows floatOf g self S (f a) w') :
    Follows floatOf g self S (p >>= f) w := by
  refine ⟨fun hI => ?_⟩
  have hrelied : Obeys machine (Running floatOf g self) (Allowed floatOf g self)
      (fun a w' => Running floatOf g self w' ∧ Q a w') Raises p w :=
    ((h.obeys hI).relied hI).mono (fun _ _ => id) fun _ _ => And.right
  exact hrelied.bind fun a w' ha => (hf a w' ha.2).obeys ha.1

/-- What is attempted is not raised. -/
theorem Follows.attempt (h : Follows floatOf g self Q p w) :
    Follows floatOf g self (fun r w' => (∀ a, r = .ok a → Q a w') ∧ ∀ e, r = .error e → Raises e w')
      p.attempt w :=
  ⟨fun hI => (h.obeys hI).attempt⟩

/-- One command. -/
theorem Follows.ask {c : Command} {Q : Answer c → World → Prop} (hc : Allowed floatOf g self c w)
    (h : ∀ a w', execute w c a w' → Q a w') : Follows floatOf g self Q (ask c) w :=
  ⟨fun _ => ⟨hc, fun a w' he _ => h a w' he⟩⟩

/-- The clock is read. -/
theorem Follows.clock {f : ℚ → Remote β} (h : ∀ now, Follows floatOf g self S (f now) (w.read now)) :
    Follows floatOf g self S (Runner.ask .monotonic >>= f) w :=
  Follows.bind (Follows.ask trivial fun _ _ he => he) fun now _ he => he.2 ▸ h now

/-- A command that only looks. -/
def Looks : Command → Prop
  | .monotonic | .truncateEvents | .append _ | .publish _ | .linkTerminal _
  | .writeManifest _ _ => False
  | _ => True

/-- Looking is always allowed. -/
theorem Looks.allowed {c : Command} (hc : Looks c) : Allowed floatOf g self c w := by
  cases c <;> trivial

/-- Looking changes nothing. -/
theorem Looks.unchanged {c : Command} {a : Answer c} {w' : World} (hc : Looks c)
    (he : execute w c a w') : w' = w := by
  cases c <;> first | exact he | exact he.2 | exact hc.elim

/-- A look, and then the rest in the same world. -/
theorem Follows.look {c : Command} {f : Answer c → Remote β} (hc : Looks c)
    (h : ∀ a, execute w c a w → Follows floatOf g self S (f a) w) :
    Follows floatOf g self S (Runner.ask c >>= f) w := by
  refine Follows.bind (Follows.ask hc.allowed fun _ _ he => he) fun a w' he => ?_
  obtain rfl := hc.unchanged he
  exact h a he

/-- A value that is computed, where what is raised is no artifact error. -/
theorem Follows.orRaise {ε : Type} {failure : ε → Failure} {x : Except ε α} {f : α → Remote β}
    (hraises : ∀ e, x = .error e → ∀ reason, failure e ≠ .artifact reason)
    (h : ∀ a, x = .ok a → Follows floatOf g self S (f a) w) :
    Follows floatOf g self S (Runner.orRaise failure x >>= f) w := by
  cases x with
  | ok a => exact h a rfl
  | error e => exact Follows.raise fun reason he => absurd he (hraises e rfl reason)

end Rules

/-! ## What is computed -/

/-- What it raises is no artifact error. -/
def Plain (x : Except Failure α) : Prop := ∀ e, x = .error e → ∀ reason, e ≠ .artifact reason

/-- A sequence of pure parts raises no rejection of an artifact where neither does. -/
theorem Plain.bind {x : Except Failure α} {f : α → Except Failure β} (hx : Plain x)
    (hf : ∀ a, Plain (f a)) : Plain (x >>= f) := by
  cases x with
  | ok a => exact hf a
  | error e =>
    intro e' he'
    obtain rfl : e = e' := Except.error.inj he'
    exact hx e rfl

/-- What is raised for a missing value is no such rejection. -/
theorem plain_orElse {failure : Failure} {x : Option α} (h : ∀ reason, failure ≠ .artifact reason) :
    Plain (orElse failure x) := by
  rintro e he reason rfl
  cases x with
  | none => exact h reason (Except.error.inj he)
  | some a => cases he

/-- A number that is no float raises no such rejection. -/
theorem plain_numberAsFloat (v : Json) : Plain (numberAsFloat v) := plain_orElse nofun

/-- A field that is no decimal raises no such rejection. -/
theorem plain_decimalField (v : Json) : Plain (decimalField v) := by
  unfold decimalField
  split
  · exact plain_orElse nofun
  · rintro e he reason rfl
    cases he

/-- A missing part of the request raises no such rejection. -/
theorem plain_requestPart (request : Record) (name : Text) : Plain (requestPart request name) := by
  rintro e he reason rfl
  rw [requestPart] at he
  cases h : mapping (fetch name request) name <;> rw [h] at he <;> cases he

/-- The cost raises no such rejection. -/
theorem plain_costOf (request : Record) (elapsed : ℕ) : Plain (costOf request elapsed) :=
  (plain_requestPart request _).bind fun _ => (plain_decimalField _).bind fun _ => plain_orElse nofun

/-- The check of the limits raises no such rejection. -/
theorem plain_limitAt (request : Record) (elapsed : ℕ) : Plain (limitAt request elapsed) := by
  refine (plain_requestPart request _).bind fun limits =>
    (plain_numberAsFloat _).bind fun maxElapsed => ?_
  split
  · nofun
  · refine (plain_costOf request elapsed).bind fun cost =>
      (plain_decimalField _).bind fun maxCost => ?_
    split <;> nofun

/-- A limit that is reached is one of the reasons the status server knows. -/
theorem limitAt_reason {request : Record} {elapsed : ℕ} {reason : Text}
    (h : limitAt request elapsed = .ok (some reason)) : reason ∈ StatusServer.reasons := by
  obtain ⟨limits, -, h⟩ := bind_ok_iff.mp h
  obtain ⟨maxElapsed, -, h⟩ := bind_ok_iff.mp h
  split at h
  · obtain rfl := Option.some.inj (Except.ok.inj h)
    decide
  · obtain ⟨cost, -, h⟩ := bind_ok_iff.mp h
    obtain ⟨maxCost, -, h⟩ := bind_ok_iff.mp h
    split at h
    · cases h
    · obtain rfl := Option.some.inj (Except.ok.inj h)
      decide

/-- What is below both limits. -/
theorem limitAt_none {request : Record} {elapsed : ℕ} (h : limitAt request elapsed = .ok none) :
    ∃ limits maxElapsed cost maxCost, requestPart request (txt "limits") = .ok limits ∧
      numberAsFloat (fetch (txt "max_elapsed_seconds") limits) = .ok maxElapsed ∧
      costOf request elapsed = .ok cost ∧
      decimalField (fetch (txt "max_cost_usd") limits) = .ok maxCost ∧
      ofMicros elapsed < maxElapsed ∧ cost.lt maxCost = true := by
  obtain ⟨limits, hlimits, h⟩ := bind_ok_iff.mp h
  obtain ⟨maxElapsed, hmaxElapsed, h⟩ := bind_ok_iff.mp h
  split at h
  · cases h
  next helapsed =>
  obtain ⟨cost, hcost, h⟩ := bind_ok_iff.mp h
  obtain ⟨maxCost, hmaxCost, h⟩ := bind_ok_iff.mp h
  split at h
  · next hlt =>
      exact ⟨limits, maxElapsed, cost, maxCost, hlimits, hmaxElapsed, hcost, hmaxCost,
        lt_of_not_ge helapsed, hlt⟩
  · cases h

/-! ## Time, events and statuses -/

/-- `_elapsed_seconds` is what has passed at the time it reads. -/
theorem follows_elapsedSeconds :
    Follows floatOf g self (fun n w' => ∃ now, n = self.elapsedAt now ∧ w' = w.read now)
      self.elapsedSeconds w :=
  Follows.clock fun now => Follows.done ⟨now, rfl, rfl⟩

/-- What a limit check has found, and at which reading. -/
def Found (self : Session) (w : World) (reason : Option Text) (w' : World) : Prop :=
  (∃ now, w' = w.read now ∧ limitAt self.request (self.elapsedAt now) = .ok reason) ∧
    ∀ text, reason = some text → text ∈ StatusServer.reasons

/-- `_limit_reason` checks the limits at the time it reads. -/
theorem follows_limitReason : Follows floatOf g self (Found self w) (limitReason self) w := by
  refine follows_elapsedSeconds.bind fun elapsed w' hread => ?_
  obtain ⟨now, rfl, rfl⟩ := hread
  cases h : limitAt self.request (self.elapsedAt now) with
  | ok reason => exact Follows.done ⟨⟨now, rfl, h⟩, fun text htext => limitAt_reason (htext ▸ h)⟩
  | error e => exact Follows.raise fun reason he => absurd he (plain_limitAt _ _ e h reason)

/-- A record is encoded or the method raises. -/
theorem follows_encode (record : Record) :
    Follows floatOf g self (fun _ w' => w' = w) (encode record) w := by
  rw [encode]
  split
  · exact Follows.done rfl
  · exact Follows.raise nofun

/-- The last reading was made by a limit check that found nothing. -/
def Unlimited (self : Session) (w : World) : Prop :=
  ∃ checked rest, w.readings = checked :: rest ∧
    limitAt self.request (self.elapsedAt checked) = .ok none

/-- No reason was found: no limit is reached then. -/
theorem Found.unlimited {w' : World} (h : Found self w none w') : Unlimited self w' := by
  obtain ⟨⟨now, rfl, hnone⟩, -⟩ := h
  exact ⟨now, w.readings, rfl, hnone⟩

/-- What a kind of event has beside the fields of all. -/
def IsEventFields (fields : Record) : Prop :=
  fields.map Prod.fst ∈ ([[], [txt "exit_code"], [txt "outcome"]] : List (List Text))

/-- An event may have no fields of its own. -/
theorem isEventFields_nil : IsEventFields [] :=
  (by decide : ([] : List Text) ∈ ([[], [txt "exit_code"], [txt "outcome"]] : List (List Text)))

/-- An event may have an exit code. -/
theorem isEventFields_exitCode (v : Json) : IsEventFields [(txt "exit_code", v)] :=
  (by decide : [txt "exit_code"] ∈ ([[], [txt "exit_code"], [txt "outcome"]] : List (List Text)))

/-- An event may have an outcome. -/
theorem isEventFields_outcome (v : Json) : IsEventFields [(txt "outcome", v)] :=
  (by decide : [txt "outcome"] ∈ ([[], [txt "exit_code"], [txt "outcome"]] : List (List Text)))

/-- The fields of an event are not those that every event has. -/
theorem distinct_event {n : ℕ} {kind : Text} {phase : Option Text} {fields : Record} {elapsed : ℕ}
    {recordedAt : FloatLiteral} (h : IsEventFields fields) :
    Distinct (eventRecord self n kind phase elapsed recordedAt ++ fields) := by
  have hall : ∀ keys ∈ ([[], [txt "exit_code"], [txt "outcome"]] : List (List Text)),
      ([txt "protocol", txt "run_id", txt "sequence", txt "kind", txt "phase",
        txt "monotonic_seconds", txt "recorded_at_unix"] ++ keys).Nodup := by decide
  rw [Distinct, List.map_append]
  exact hall _ h

/-- The elapsed time of an event is read back from it. -/
theorem seconds_event {n : ℕ} {kind : Text} {phase : Option Text} {fields : Record} {elapsed : ℕ}
    {recordedAt : FloatLiteral} :
    eventSeconds (eventRecord self n kind phase elapsed recordedAt ++ fields) =
      some (ofMicros elapsed) :=
  number_secondsJson elapsed

/-- The kind of an event is read back from it. -/
theorem kind_event {n : ℕ} {kind : Text} {phase : Option Text} {fields : Record} {elapsed : ℕ}
    {recordedAt : FloatLiteral} :
    fetch (txt "kind") (eventRecord self n kind phase elapsed recordedAt ++ fields) = .str kind :=
  rfl

/-- `_append_event`. A phase starts only where no limit is reached. -/
theorem follows_appendEvent {s : State} {kind : Text} {phase : Option Text} {fields : Record}
    (hfields : IsEventFields fields) (hstarted : kind = txt "phase_started" → Unlimited self w) :
    Follows floatOf g self (fun s' _ => s' = { s with sequence := s.sequence + 1 })
      (appendEvent self s kind phase fields) w := by
  refine Follows.of_running fun hrunning => ?_
  obtain ⟨last, earlier, hclock⟩ := hrunning.clock
  refine follows_elapsedSeconds.bind fun elapsed w' hread => ?_
  obtain ⟨now, rfl, rfl⟩ := hread
  refine Follows.look trivial fun recordedAt _ => ?_
  refine (follows_encode _).bind fun _ w' hw' => ?_
  obtain rfl := hw'
  refine Follows.bind (Follows.ask (c := .append _)
    ⟨now, w.readings, rfl, seconds_event, distinct_event hfields, fun hkind => ?_⟩ fun _ _ _ =>
      trivial)
    fun _ _ _ => Follows.done rfl
  obtain ⟨checked, rest, hreadings, hnone⟩ := hstarted (Json.str.inj (kind_event.symm.trans hkind))
  obtain ⟨rfl, rfl⟩ := List.cons.inj (hclock.readings.symm.trans hreadings)
  exact ⟨last, earlier, hreadings, hnone, hclock.spent⟩

/-- What is told of the child is what a status may tell. -/
theorem follows_childStatus (child : Option ℤ) :
    Follows floatOf g self (fun c w' => IsChild c ∧ w' = w) (childStatus child) w := by
  cases child with
  | none => exact Follows.done ⟨.inl rfl, rfl⟩
  | some pid => exact Follows.look trivial fun code _ => Follows.done ⟨.inr ⟨pid, code, rfl⟩, rfl⟩

/-- A status has each of its fields once. -/
theorem distinct_status {s : State} {state : Text} {elapsed : ℕ} {heartbeatAt : FloatLiteral}
    {child : Json} {terminal : Option Record} :
    Distinct (statusRecord self s state elapsed heartbeatAt child terminal) :=
  (by decide : ([txt "protocol", txt "run_id", txt "runner_version", txt "runner_git_commit",
    txt "supported_protocol_majors", txt "state", txt "phase", txt "heartbeat_sequence",
    txt "heartbeat_at_unix", txt "heartbeat_monotonic_seconds", txt "child",
    txt "latest_event_sequence",
    txt "terminal_result"] : List Text).Nodup)

/-- The elapsed time of a status is read back from it. -/
theorem seconds_status {s : State} {state : Text} {elapsed : ℕ} {heartbeatAt : FloatLiteral}
    {child : Json} {terminal : Option Record} :
    statusSeconds (statusRecord self s state elapsed heartbeatAt child terminal) =
      some (ofMicros elapsed) :=
  number_secondsJson elapsed

/-- The run of a status is read back from it. -/
theorem runId_status {s : State} {state : Text} {elapsed : ℕ} {heartbeatAt : FloatLiteral}
    {child : Json} {terminal : Option Record} :
    fetch (txt "run_id") (statusRecord self s state elapsed heartbeatAt child terminal) =
      .str self.runId :=
  rfl

/-- `_publish_status`, of a state and a phase the status server knows. -/
theorem follows_publishStatus {s : State} {state : Text} {terminal : Option Record}
    (hstate : state ∈ StatusServer.states) (hphase : IsPhase s.currentPhase)
    (hterminal : g.clean → ∀ t, terminal = some t → Shown floatOf t) :
    Follows floatOf g self (fun _ _ => True) (publishStatus self s state terminal) w := by
  refine Follows.of_running fun hrunning => ?_
  refine follows_elapsedSeconds.bind fun elapsed w' hread => ?_
  obtain ⟨now, rfl, rfl⟩ := hread
  refine (follows_childStatus s.child).bind fun child w' hchild => ?_
  obtain ⟨hchild, rfl⟩ := hchild
  refine Follows.look trivial fun heartbeatAt _ => ?_
  refine (follows_encode _).bind fun _ w' hw' => ?_
  obtain rfl := hw'
  refine Follows.ask (c := .publish _) ⟨⟨now, w.readings, rfl, seconds_status⟩, runId_status,
    distinct_status, fun hclean => ?_⟩
    fun _ _ _ => trivial
  exact projects_status (hrunning.fits.identity hclean) hstate hphase hchild (hterminal hclean)

/-! ## Terminal results -/

/-- A terminal result that is there can be shown, unless a manifest took its place. -/
theorem follows_readTerminal :
    Follows floatOf g self (fun t _ => g.clean → ∀ r, t = some r → Shown floatOf r)
      readTerminal w := by
  refine Follows.of_running fun hrunning => Follows.look trivial fun stored he => ?_
  obtain ⟨rfl, -⟩ := he
  cases h : w.terminal with
  | none => exact Follows.done nofun
  | some t =>
    refine Follows.orRaise nofun fun terminal hterminal => Follows.done fun hclean r hr => ?_
    obtain rfl := Except.ok.inj hterminal
    obtain rfl := Option.some.inj hr
    exact (hrunning.sound.terminal hclean t h).ordered

/-- `_write_terminal_once` returns a terminal result that can be shown. -/
theorem follows_writeTerminalOnce {t : Record} (ht : g.clean → Shown floatOf t) :
    Follows floatOf g self (fun r _ => g.clean → Shown floatOf r) (writeTerminalOnce t) w := by
  refine (follows_encode t).bind fun _ w' _ => ?_
  refine Follows.bind (Follows.ask ht fun _ _ _ => trivial) fun linked w' _ => ?_
  split
  · exact Follows.done ht
  · refine follows_readTerminal.bind fun existing w' hexisting => ?_
    cases existing with
    | none => exact Follows.raise nofun
    | some r => exact Follows.done fun hclean => hexisting hclean r rfl

/-! ## Artifacts -/

/-- An artifact is rejected for a reason the status server knows. -/
theorem follows_rejectArtifact {Q : α → World → Prop} {reason : Text}
    (h : reason ∈ StatusServer.reasons) : Follows floatOf g self Q (rejectArtifact reason) w :=
  Follows.raise fun _ he => Failure.artifact.inj he ▸ h

/-- Links are looked for in every part of a path. -/
theorem follows_followParts (current : PurePosixPath) (parts : List Text) :
    Follows floatOf g self (fun _ _ => True) (followParts current parts) w := by
  induction parts generalizing current w with
  | nil => exact Follows.done trivial
  | cons part parts ih =>
    refine Follows.look trivial fun symlink _ => ?_
    split
    · exact follows_rejectArtifact (by decide)
    · exact ih _

/-- The path of a file of the storage is checked, or an artifact is rejected. -/
theorem follows_safeStorageFile (storageRoot : PurePosixPath) (candidate : Text) :
    Follows floatOf g self (fun _ _ => True) (safeStorageFile storageRoot candidate) w := by
  have hmissing : (if (txt "manifest.json").isSuffixOf candidate then txt "artifact_manifest_missing"
      else txt "artifact_file_missing") ∈ StatusServer.reasons := by
    split <;> decide
  rw [safeStorageFile]
  split
  · exact follows_rejectArtifact (by decide)
  refine (follows_followParts _ _).bind fun current _ _ => Follows.look trivial fun resolved _ => ?_
  cases resolved with
  | none => exact follows_rejectArtifact hmissing
  | some resolved =>
    dsimp only
    split
    · exact follows_rejectArtifact hmissing
    refine Follows.look trivial fun file _ => ?_
    split
    · exact Follows.done trivial
    · exact follows_rejectArtifact (by decide)

/-- A digest is 64 hexadecimal digits. -/
theorem follows_stableSha256 {path : PurePosixPath} {mismatchReason : Text}
    (h : mismatchReason ∈ StatusServer.reasons) :
    Follows floatOf g self (fun d _ => d.length = 64 ∧ d.all isHex = true)
    (stableSha256 path mismatchReason) w := by
  refine Follows.look trivial fun digest he => ?_
  cases digest with
  | none => exact follows_rejectArtifact h
  | some d => exact Follows.done (he.1 d rfl)

/-- The entries of a manifest are verified or rejected. -/
theorem follows_verifyEntries (runRoot : PurePosixPath) (seen : List Text) (entries : List Json) :
    Follows floatOf g self (fun _ _ => True) (verifyEntries runRoot seen entries) w := by
  induction entries generalizing seen w with
  | nil => exact Follows.done trivial
  | cons entry entries ih =>
    cases entry with
    | obj entry =>
      rw [verifyEntries]
      split
      · split
        · exact follows_rejectArtifact (by decide)
        refine (follows_safeStorageFile _ _).bind fun path _ _ =>
          Follows.look trivial fun actualSize _ => ?_
        cases actualSize with
        | none => exact follows_rejectArtifact (by decide)
        | some actualSize =>
          dsimp only
          split
          · exact follows_rejectArtifact (by decide)
          refine Follows.bind (follows_stableSha256 (by decide)) fun digest _ _ => ?_
          split
          · exact follows_rejectArtifact (by decide)
          · exact ih _
      · exact follows_rejectArtifact (by decide)
    | _ => exact follows_rejectArtifact (by decide)

/-- `_artifact_receipt` returns a receipt. -/
theorem follows_artifactReceipt :
    Follows floatOf g self (fun r _ => IsReceipt r) (artifactReceipt self) w := by
  rw [artifactReceipt]
  split
  · refine Follows.look trivial fun storageRoot _ => ?_
    refine (follows_safeStorageFile _ _).bind fun path _ _ => Follows.look trivial fun size _ => ?_
    cases size with
    | none => exact follows_rejectArtifact (by decide)
    | some size =>
      dsimp only
      split
      · exact follows_rejectArtifact (by decide)
      refine Follows.bind (follows_stableSha256 (by decide)) fun sha256 _ hsha256 =>
        Follows.look trivial fun manifest _ => ?_
      split
      · split
        · exact follows_rejectArtifact (by decide)
        split
        · refine (follows_verifyEntries _ _ _).bind fun _ _ _ => Follows.done ?_
          exact .inr ⟨sha256, size, rfl, hsha256⟩
        · exact follows_rejectArtifact (by decide)
      · exact follows_rejectArtifact (by decide)
  · exact Follows.done (.inl rfl)

/-- `_ensure_failure_artifact_manifest` may write the manifest and no more. -/
theorem follows_ensureFailureArtifactManifest :
    Follows floatOf g self (fun _ _ => True) (ensureFailureArtifactManifest self) w := by
  rw [ensureFailureArtifactManifest]
  split
  · refine Follows.look trivial fun there hthere => ?_
    cases there with
    | true => exact Follows.done trivial
    | false =>
      refine Follows.look trivial fun files _ => ?_
      cases files with
      | none => exact Follows.done trivial
      | some files =>
        exact Follows.ask (c := .writeManifest _ _) ⟨rfl, hthere.1 rfl, files, rfl⟩
          fun _ _ _ => trivial
  · exact Follows.done trivial

/-- A receipt is returned also where the artifacts are not. -/
theorem follows_suppressedReceipt :
    Follows floatOf g self (fun r _ => IsReceipt r) (suppressedReceipt self) w := by
  refine follows_artifactReceipt.attempt.bind fun r w' hr => ?_
  split
  · exact Follows.done (hr.1 _ rfl)
  · exact Follows.done (.inl rfl)
  · exact Follows.raise (hr.2 _ rfl)

/-! ## The end of a run -/

/-- A terminal result as the runner makes them. -/
def IsResult (t : Record) : Prop :=
  ∃ s outcome reason phase elapsed cost receipt,
    t = terminalRecord s outcome reason phase elapsed cost ++ receipt ∧
      IsTerminal s outcome reason phase cost receipt

/-- A terminal result can be shown. -/
theorem IsResult.shown {t : Record} (h : IsResult t) : Shown floatOf t := by
  obtain ⟨s, outcome, reason, phase, elapsed, cost, receipt, rfl, hterminal⟩ := h
  exact shown_terminal hterminal

/-- A result without a receipt can be given one. -/
theorem IsResult.withReceipt {t receipt : Record} (h : IsResult t)
    (hnone : lookup (txt "artifact_manifest_sha256") t = none) (hreceipt : IsReceipt receipt) :
    IsResult (t ++ receipt) := by
  obtain ⟨s, outcome, reason, phase, elapsed, cost, old, rfl, hterminal⟩ := h
  rcases hterminal.receipt with rfl | ⟨sha256, size, rfl, -⟩
  · exact ⟨s, outcome, reason, phase, elapsed, cost, receipt, by rw [List.append_nil],
      { hterminal with receipt := hreceipt }⟩
  · cases hnone

/-- What a process knows of the phases is such as the status server knows. -/
structure Tidy (s : State) : Prop where
  completed : ∀ p ∈ s.completedPhases, p ∈ phaseOrder
  exitCodes : IsExitCodes s.phaseExitCodes
  phase : IsPhase s.currentPhase

/-- `_terminal_result` makes one, still without a receipt. -/
theorem follows_terminalResult {s : State} {outcome reason : Text} {phase : Option Text} (hs : Tidy s)
    (houtcome : outcome ∈ StatusServer.outcomes) (hreason : reason ∈ StatusServer.reasons)
    (hphase : IsPhase phase) :
    Follows floatOf g self (fun t _ => IsResult t ∧ lookup (txt "artifact_manifest_sha256") t = none)
      (terminalResult self s outcome reason phase) w := by
  refine Follows.of_running fun hrunning => ?_
  refine follows_elapsedSeconds.bind fun elapsed _ _ => ?_
  refine Follows.orRaise (plain_costOf _ _) fun cost hcost => ?_
  refine Follows.orRaise (plain_orElse nofun) fun text htext => Follows.done ⟨?_, rfl⟩
  have hdecimal : decimalText cost = some text := by
    cases h : decimalText cost <;> rw [h] at htext <;> cases htext
    rfl
  refine ⟨s, outcome, reason, phase, elapsed, text, [], by rw [List.append_nil], ?_⟩
  exact ⟨houtcome, hreason, hphase,
    ofText_decimalText (hrunning.fits.rate elapsed cost hcost) hdecimal, hs.completed, hs.exitCodes,
      .inl rfl⟩

/-- `_finish` publishes it once it is written. -/
theorem follows_finish {s : State} {t : Record} (hs : Tidy s) (ht : IsResult t) :
    Follows floatOf g self (fun _ _ => True) (finish self s t) w := by
  rw [finish]
  split
  case' isTrue hreceipt =>
    refine follows_ensureFailureArtifactManifest.bind fun _ _ _ => ?_
    refine follows_suppressedReceipt.bind fun receipt _ hr => ?_
    replace ht := ht.withReceipt hreceipt.2 hr
  -- with a receipt or without one, the result is written and shown
  all_goals
    refine (follows_writeTerminalOnce fun _ => ht.shown).bind fun persisted w' hpersisted => ?_
    split
    · exact Follows.raise (by rintro _ ⟨⟩)
    · refine Follows.bind (follows_appendEvent (isEventFields_outcome _) fun hkind =>
        absurd hkind (by decide)) fun s' w' hs' => ?_
      obtain rfl := hs'
      refine Follows.bind (follows_publishStatus (by decide) hs.phase fun hclean r hr => ?_)
        fun _ _ _ => Follows.done trivial
      obtain rfl := Option.some.inj hr
      exact hpersisted hclean

/-- `_finish` of what `_terminal_result` makes. -/
theorem follows_finishWith {s : State} {outcome reason : Text} {phase : Option Text} (hs : Tidy s)
    (houtcome : outcome ∈ StatusServer.outcomes) (hreason : reason ∈ StatusServer.reasons)
    (hphase : IsPhase phase) :
    Follows floatOf g self (fun _ _ => True) (finishWith self s outcome reason phase) w :=
  (follows_terminalResult hs houtcome hreason hphase).bind fun _ _ ht => follows_finish hs ht.1

end Runner

end RunpodJobrunner
