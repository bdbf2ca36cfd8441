import RunpodJobrunner.RunnerProcess
import RunpodJobrunner.StatusProjection

/-!
# Statuses that are shown

What the runner writes against what the status server accepts: a status of known fields is
projected, and the projection has what the status says (`Projects`). A terminal result is shown
when it was read back as well, so that it can be published by a later process.
-/

namespace RunpodJobrunner

open Json Identity

/-! ## Keys in order -/

namespace Json

/-- Its keys stay in order. -/
def StaysSorted (v : Json) : Prop := v.sortKeys.sortKeys = v.sortKeys

variable {kvs : List (Text × Json)}

theorem staysSorted_str (t : Text) : StaysSorted (.str t) := rfl

theorem sortKeys_strs (ts : List Text) : (Json.arr (ts.map .str)).sortKeys = .arr (ts.map .str) := by
  rw [sortKeys, sortKeysList_eq, List.map_map]
  rfl

theorem sortKeys_ints (ns : List ℤ) : (Json.arr (ns.map .int)).sortKeys = .arr (ns.map .int) := by
  rw [sortKeys, sortKeysList_eq, List.map_map]
  rfl

/-- Values that stay sorted are sorted once. -/
theorem sortKeysMembers_staysSorted (h : ∀ p ∈ kvs, StaysSorted p.2) :
    sortKeysMembers (sortKeysMembers kvs) = sortKeysMembers kvs := by
  rw [sortKeysMembers_eq, sortKeysMembers_eq, List.map_map]
  exact List.map_congr_left fun p hp => Prod.ext rfl (h p hp)

/-- Members whose values stay sorted are put in order once. -/
theorem ordered_sortKeysMembers (h : ∀ p ∈ kvs, StaysSorted p.2) :
    ordered (sortKeysMembers kvs) = ordered kvs := by
  rw [ordered, sortKeysMembers_staysSorted h, ordered]

/-- Members in order have each key once. -/
theorem nodup_ordered (hnodup : (kvs.map Prod.fst).Nodup) : ((ordered kvs).map Prod.fst).Nodup :=
  (keys_sortMembers_perm kvs).nodup_iff.mpr hnodup

/-- An object of such values stays sorted once it is. -/
theorem staysSorted_obj (hnodup : (kvs.map Prod.fst).Nodup) (h : ∀ p ∈ kvs, StaysSorted p.2) :
    StaysSorted (.obj kvs) := by
  have hordered : ordered (ordered kvs) = ordered kvs := by
    refine ordered_eq_of_lookup (nodup_ordered hnodup) hnodup fun k => ?_
    have hperm : lookup k (ordered kvs) = lookup k (sortKeysMembers kvs) := by
      rw [ordered, lookup_sorted hnodup, lookup_sortKeysMembers]
    rw [hperm, ← lookup_sortKeysMembers, sortKeysMembers_staysSorted h, lookup_sortKeysMembers]
  rw [StaysSorted, sortKeys_obj, sortKeys_obj, hordered]

/-- What is under a key of a file that is read back. -/
theorem fetch_ordered (hnodup : (kvs.map Prod.fst).Nodup) (key : Text) :
    fetch key (ordered kvs) = (fetch key kvs).sortKeys := by
  rw [fetch, ordered, lookup_sorted hnodup, fetch]
  cases lookup key kvs <;> rfl

end Json

namespace Runner

open StatusServer

variable {floatOf : FloatLiteral → JsonFloat}

/-! ## Terminal results -/

/-- The status server shows a terminal result as it is. -/
def Shown (floatOf : FloatLiteral → JsonFloat) (terminal : Record) : Prop :=
  StaysSorted (.obj terminal) ∧
    ∃ shown, publicTerminal floatOf (stored terminal) = .ok shown ∧ shown.sortKeys = stored terminal

theorem stored_ordered {t : Record} (h : StaysSorted (.obj t)) : stored (ordered t) = stored t := h

/-- What is shown is shown after it was read back. -/
theorem Shown.ordered {t : Record} (h : Shown floatOf t) : Shown floatOf (ordered t) := by
  obtain ⟨hsorted, shown, hshown, hsame⟩ := h
  have hstored := stored_ordered hsorted
  refine ⟨?_, shown, by rw [hstored, hshown], by rw [hstored, hsame]⟩
  have hobj : Json.obj (Json.ordered t) = (Json.obj t).sortKeys := rfl
  rw [StaysSorted, hobj, hsorted, hsorted]

/-- The phases a run can be in. -/
def IsPhase (phase : Option Text) : Prop := ∀ p, phase = some p → p ∈ phaseOrder

/-- The exit codes of phases. -/
structure IsExitCodes (codes : Record) : Prop where
  nodup : (codes.map Prod.fst).Nodup
  phases : ∀ p ∈ codes, p.1 ∈ phaseOrder
  ints : ∀ p ∈ codes, ∃ n, p.2 = .int n

/-- A receipt of an artifact manifest, or none. -/
def IsReceipt (receipt : Record) : Prop :=
  receipt = [] ∨ ∃ sha256 size, receipt = receiptFields sha256 size ∧
    sha256.length = 64 ∧ sha256.all isHex = true

/-- Exit codes in order are exit codes. -/
theorem IsExitCodes.ordered {codes : Record} (h : IsExitCodes codes) :
    IsExitCodes (ordered codes) := by
  have hmem : ∀ p ∈ Json.ordered codes, p ∈ codes := by
    intro p hp
    have hsorted := (sortMembers_perm _).mem_iff.mp hp
    rw [sortKeysMembers_eq] at hsorted
    obtain ⟨q, hq, rfl⟩ := List.mem_map.mp hsorted
    obtain ⟨n, hn⟩ := h.ints q hq
    have heq : (q.1, q.2.sortKeys) = q := Prod.ext rfl (by rw [hn]; rfl)
    rwa [heq]
  exact ⟨nodup_ordered h.nodup, fun p hp => h.phases p (hmem p hp), fun p hp => h.ints p (hmem p hp)⟩

/-- Integers are shown as exit codes. -/
theorem exitCodes_ok {codes : Record} (h : ∀ p ∈ codes, ∃ n, p.2 = .int n) :
    exitCodes codes = .ok codes := by
  induction codes with
  | nil => rfl
  | cons p codes ih =>
    obtain ⟨k, v⟩ := p
    obtain ⟨⟨n, hn⟩, hcodes⟩ := List.forall_mem_cons.mp h
    obtain rfl : v = .int n := hn
    rw [exitCodes, ih hcodes]
    rfl

/-- Exit codes stay sorted. -/
theorem IsExitCodes.staysSorted {codes : Record} (h : IsExitCodes codes) :
    StaysSorted (.obj codes) := by
  refine staysSorted_obj h.nodup fun p hp => ?_
  obtain ⟨n, hn⟩ := h.ints p hp
  rw [hn]
  rfl

variable {s : State} {outcome reason cost : Text} {phase : Option Text} {elapsed : ℕ}
  {receipt : Record}

/-- The data of a terminal result are such as the status server knows. -/
structure IsTerminal (s : State) (outcome reason : Text) (phase : Option Text) (cost : Text)
    (receipt : Record) : Prop where
  outcome : outcome ∈ outcomes
  reason : reason ∈ reasons
  phase : IsPhase phase
  cost : ∃ coeff exp, Decimal.ofText cost = some (.finite false coeff exp)
  completed : ∀ p ∈ s.completedPhases, p ∈ phaseOrder
  exitCodes : IsExitCodes s.phaseExitCodes
  receipt : IsReceipt receipt

theorem sortKeys_optionalText (t : Option Text) : (optionalText t).sortKeys = optionalText t := by
  cases t <;> rfl

/-- A text or `null` is shown. -/
theorem optionalString_optionalText (t : Option Text) : optionalString (optionalText t) = .ok t := by
  cases t <;> rfl

theorem textOrNull_eq (t : Option Text) : textOrNull t = optionalText t := by
  cases t <;> rfl

/-- The text of a decimal that is not negative is shown. -/
theorem decimalString_ok (h : ∃ coeff exp, Decimal.ofText cost = some (.finite false coeff exp)) :
    decimalString (.str cost) = .ok cost := by
  obtain ⟨coeff, exp, h⟩ := h
  simp [decimalString, h, Decimal.isFinite, Decimal.isNegative]

/-- Sorting changes nothing in a receipt. -/
theorem sortKeysMembers_receipt (h : IsReceipt receipt) : sortKeysMembers receipt = receipt := by
  rcases h with rfl | ⟨sha256, size, rfl, -⟩ <;> rfl

/-- The receipt of a terminal result that is read back. -/
theorem publicReceipt_ok {kvs : Record} (h : IsReceipt receipt)
    (hfetch : ∀ key, fetch key kvs =
      (fetch key (terminalRecord s outcome reason phase elapsed cost ++ receipt)).sortKeys) :
    publicReceipt kvs = .ok receipt := by
  rw [publicReceipt, hfetch, hfetch]
  rcases h with rfl | ⟨sha256, size, rfl, hlength, hhex⟩
  · rfl
  · exact bind_ok_iff.mpr ⟨(), if_pos ⟨hlength, hhex, Int.natCast_nonneg size⟩, rfl⟩

/-- **A terminal result is shown** as it is. -/
theorem shown_terminal (h : IsTerminal s outcome reason phase cost receipt) :
    Shown floatOf (terminalRecord s outcome reason phase elapsed cost ++ receipt) := by
  set t := terminalRecord s outcome reason phase elapsed cost ++ receipt with ht
  have hnodup : (t.map Prod.fst).Nodup := by
    rcases h.receipt with rfl | ⟨sha256, size, rfl, -⟩
    · exact (by decide : ([txt "outcome", txt "reason", txt "phase", txt "elapsed_seconds",
        txt "estimated_cost_usd", txt "completed_phases", txt "phase_exit_codes"] : List Text).Nodup)
    · exact (by decide : ([txt "outcome", txt "reason", txt "phase", txt "elapsed_seconds",
        txt "estimated_cost_usd", txt "completed_phases", txt "phase_exit_codes",
        txt "artifact_manifest_sha256", txt "artifact_manifest_size"] : List Text).Nodup)
  have hsorted : ∀ p ∈ t, StaysSorted p.2 := by
    intro p hp
    rcases List.mem_append.mp hp with hp | hp
    · simp only [terminalRecord, List.mem_cons, List.not_mem_nil, or_false] at hp
      rcases hp with rfl | rfl | rfl | rfl | rfl | rfl | rfl
      · rfl
      · rfl
      · simp only [StaysSorted, sortKeys_optionalText]
      · rfl
      · rfl
      · simp only [StaysSorted, sortKeys_strs]
      · exact h.exitCodes.staysSorted
    · rcases h.receipt with rfl | ⟨sha256, size, rfl, -⟩
      · cases hp
      · simp only [receiptFields, List.mem_cons, List.not_mem_nil, or_false] at hp
        rcases hp with rfl | rfl <;> rfl
  refine ⟨staysSorted_obj hnodup hsorted, .obj (sortKeysMembers t), ?_, ?_⟩
  · have hfetch : ∀ key, fetch key (ordered t) = (fetch key t).sortKeys := fetch_ordered hnodup
    have houtcome : fetch (txt "outcome") (ordered t) = .str outcome := hfetch _
    have hreason : fetch (txt "reason") (ordered t) = .str reason := hfetch _
    have hphase : fetch (txt "phase") (ordered t) = optionalText phase :=
      (hfetch _).trans (sortKeys_optionalText phase)
    have helapsed : fetch (txt "elapsed_seconds") (ordered t) = secondsJson elapsed := hfetch _
    have hcost : fetch (txt "estimated_cost_usd") (ordered t) = .str cost := hfetch _
    have hcompleted :
        fetch (txt "completed_phases") (ordered t) = .arr (s.completedPhases.map .str) :=
      (hfetch _).trans (sortKeys_strs _)
    have hcodes : fetch (txt "phase_exit_codes") (ordered t) = .obj (ordered s.phaseExitCodes) :=
      hfetch _
    have hreceipt : publicReceipt (ordered t) = .ok receipt := publicReceipt_ok h.receipt hfetch
    have hphases : (s.completedPhases.map Json.str).all isPhase = true := by
      rw [List.all_map, List.all_eq_true]
      exact fun p hp => decide_eq_true (h.completed p hp)
    have hordered := h.exitCodes.ordered
    refine bind_ok_iff.mpr ⟨ordered t, rfl, ?_⟩
    simp only [houtcome, hreason, hphase, helapsed, hcost, hcompleted, hcodes, hreceipt]
    refine bind_ok_iff.mpr ⟨(), if_pos hphases, ?_⟩
    refine bind_ok_iff.mpr ⟨ordered s.phaseExitCodes, rfl, ?_⟩
    refine bind_ok_iff.mpr ⟨(), if_pos hordered.phases, ?_⟩
    refine bind_ok_iff.mpr ⟨ordered s.phaseExitCodes, exitCodes_ok hordered.ints, ?_⟩
    refine bind_ok_iff.mpr ⟨outcome, rfl, ?_⟩
    refine bind_ok_iff.mpr ⟨reason, rfl, ?_⟩
    refine bind_ok_iff.mpr ⟨(), if_pos ⟨h.outcome, h.reason⟩, ?_⟩
    refine bind_ok_iff.mpr ⟨phase, optionalString_optionalText phase, ?_⟩
    refine bind_ok_iff.mpr ⟨(), if_pos h.phase, ?_⟩
    refine bind_ok_iff.mpr ⟨.literal (secondsLiteral elapsed), rfl, ?_⟩
    refine bind_ok_iff.mpr ⟨cost, decimalString_ok h.cost, ?_⟩
    refine bind_ok_iff.mpr ⟨receipt, rfl, ?_⟩
    rw [textOrNull_eq, ht, sortKeysMembers_eq, List.map_append, ← sortKeysMembers_eq receipt,
      sortKeysMembers_receipt h.receipt, terminalRecord]
    simp only [List.map_cons, List.map_nil, sortKeys_optionalText, sortKeys_strs, sortKeys_obj]
    rfl
  · rw [sortKeys_obj, ordered_sortKeysMembers hsorted]
    rfl

/-! ## Identities -/

/-- A version of a protocol that is read back. -/
def majorOf (p : Text × Json) : Text × List ℤ :=
  match p.2 with
  | .arr items => (p.1, items.filterMap fun item => match item with | .int n => some n | _ => none)
  | _ => (p.1, [])

/-- The majors of a protocol are read back. -/
theorem majorOf_field (p : Text × List ℤ) : majorOf (p.1, .arr (p.2.map .int)) = p := by
  simp [majorOf, List.filterMap_map]

/-- Majors in the order of their names are majors. -/
theorem ordered_majors (majors : Majors) :
    ∃ sorted : Majors, sorted.Perm majors ∧ ordered (majorFields majors) = majorFields sorted := by
  have hvalues : sortKeysMembers (majorFields majors) = majorFields majors := by
    rw [sortKeysMembers_eq, majorFields, List.map_map]
    exact List.map_congr_left fun p _ => Prod.ext rfl (sortKeys_ints p.2)
  have hperm : (ordered (majorFields majors)).Perm (majorFields majors) := by
    rw [ordered, hvalues]
    exact sortMembers_perm _
  refine ⟨(ordered (majorFields majors)).map majorOf, ?_, ?_⟩
  · have hback : (majorFields majors).map majorOf = majors := by
      rw [majorFields, List.map_map]
      exact (List.map_congr_left fun p _ => majorOf_field p).trans (List.map_id majors)
    have hmapped := hperm.map majorOf
    rwa [hback] at hmapped
  · have hfields :
        ∀ q ∈ ordered (majorFields majors),
          ((majorOf q).1, Json.arr ((majorOf q).2.map .int)) = q := by
      intro q hq
      obtain ⟨p, -, rfl⟩ := List.mem_map.mp (hperm.mem_iff.mp hq)
      rw [majorOf_field]
    rw [majorFields.eq_def (List.map _ _), List.map_map]
    exact ((List.map_congr_left hfields).trans (List.map_id _)).symm

/-! ## Statuses -/

/-- The fields that the projection keeps. -/
def keptFields : List Text :=
  [txt "run_id", txt "runner_version", txt "runner_git_commit", txt "supported_protocol_majors",
    txt "state", txt "phase", txt "latest_event_sequence", txt "terminal_result"]

/-- The status server accepts a status whenever it reads it, and shows what it says. -/
def Projects (floatOf : FloatLiteral → JsonFloat) (status : Record) : Prop :=
  ∀ now, ∃ shown, publicStatus floatOf now (stored status) = .ok shown ∧
    ∀ key ∈ keptFields, (fetch key shown).sortKeys = (fetch key status).sortKeys

/-- The child of a status. -/
def IsChild (child : Json) : Prop := child = .null ∨ ∃ pid code, child = .obj (childRecord pid code)

/-- A child is shown. -/
theorem publicChild_ok {child : Json} (h : IsChild child) :
    ∃ shown, publicChild child.sortKeys = .ok shown := by
  rcases h with rfl | ⟨pid, code, rfl⟩
  · exact ⟨.null, rfl⟩
  have hnodup : ((childRecord pid code).map Prod.fst).Nodup :=
    (by decide : ([txt "pid", txt "running", txt "exit_code"] : List Text).Nodup)
  have hfetch := fetch_ordered hnodup
  have hrunning : fetch (txt "running") (ordered (childRecord pid code)) = .bool code.isNone :=
    hfetch _
  have hpid : fetch (txt "pid") (ordered (childRecord pid code)) = .int pid := hfetch _
  have hcode : fetch (txt "exit_code") (ordered (childRecord pid code)) = optionalInt code :=
    (hfetch _).trans (by cases code <;> rfl)
  have hinteger : optionalInteger (optionalInt code) = .ok (optionalInt code) := by
    cases code <;> rfl
  refine ⟨.obj (childRecord pid code), bind_ok_iff.mpr ⟨ordered (childRecord pid code), rfl, ?_⟩⟩
  simp only [hrunning, hpid, hcode, hinteger]
  rfl

/-- The protocol majors of a runner are shown. -/
theorem publicMajors_ok {majors : Majors} (hmajors : Wellformed majors)
    (hnodup : (majors.map Prod.fst).Nodup) :
    ∃ shown, publicProtocolMajors (Json.obj (majorFields majors)).sortKeys = .ok shown ∧
      shown.sortKeys = (Json.obj (majorFields majors)).sortKeys := by
  obtain ⟨sorted, hperm, hsorted⟩ := ordered_majors majors
  have hkeys : (majorFields majors).map Prod.fst = majors.map Prod.fst := by
    rw [majorFields, List.map_map]
    rfl
  have hstays : StaysSorted (.obj (majorFields majors)) := by
    refine staysSorted_obj (by rwa [hkeys]) fun p hp => ?_
    obtain ⟨q, -, rfl⟩ := List.mem_map.mp hp
    simp only [StaysSorted, sortKeys_ints]
  refine ⟨.obj (majorFields sorted), ?_, ?_⟩
  · rw [sortKeys_obj, hsorted, publicProtocolMajors, protocolMajors_ok (hmajors.perm hperm)]
  · rw [← hsorted]
    exact hstays

/-- A terminal result that can be shown is, and so is none. -/
theorem publicTerminal_ok {terminal : Option Record} (h : ∀ t, terminal = some t → Shown floatOf t) :
    ∃ shown, publicTerminal floatOf
        (match terminal with | some t => Json.obj t | none => .null).sortKeys = .ok shown ∧
      shown.sortKeys = (match terminal with | some t => Json.obj t | none => .null).sortKeys := by
  cases terminal with
  | none => exact ⟨.null, rfl, rfl⟩
  | some t => exact (h t rfl).2

/-- **A status is projected** with what it says. -/
theorem projects_status {self : Session} {s : State} {state : Text} {heartbeatAt : FloatLiteral}
    {child : Json} {terminal : Option Record} (hidentity : IsLoaded self.identity)
    (hstate : state ∈ states)
    (hphase : IsPhase s.currentPhase) (hchild : IsChild child)
    (hterminal : ∀ t, terminal = some t → Shown floatOf t) :
    Projects floatOf (statusRecord self s state elapsed heartbeatAt child terminal) := by
  intro now
  set status := statusRecord self s state elapsed heartbeatAt child terminal with hstatus
  have hnodup : (status.map Prod.fst).Nodup :=
    (by decide : ([txt "protocol", txt "run_id", txt "runner_version", txt "runner_git_commit",
      txt "supported_protocol_majors", txt "state", txt "phase", txt "heartbeat_sequence",
      txt "heartbeat_at_unix", txt "heartbeat_monotonic_seconds", txt "child",
      txt "latest_event_sequence",
      txt "terminal_result"] : List Text).Nodup)
  -- a field is read from the file, where the keys are in order
  have hfetch : ∀ key, fetch key (ordered status) = (fetch key status).sortKeys :=
    fetch_ordered hnodup
  obtain ⟨hmajors, hmajorsNodup⟩ := hidentity.majors
  obtain ⟨majors, hmajorsOk, hmajorsSame⟩ := publicMajors_ok hmajors hmajorsNodup
  obtain ⟨shownChild, hchildOk⟩ := publicChild_ok hchild
  obtain ⟨shownTerminal, hterminalOk, hterminalSame⟩ := publicTerminal_ok hterminal
  have hprotocol : fetch (txt "protocol") (ordered status) = .str (txt "run-status/1") := hfetch _
  have hrunId : fetch (txt "run_id") (ordered status) = .str self.runId := hfetch _
  have hversion : fetch (txt "runner_version") (ordered status) = .str self.identity.version :=
    hfetch _
  have hcommit : fetch (txt "runner_git_commit") (ordered status) = .str self.identity.gitCommit :=
    hfetch _
  have hmajorsAt : fetch (txt "supported_protocol_majors") (ordered status) =
      (Json.obj (majorFields self.identity.supportedProtocolMajors)).sortKeys := hfetch _
  have hstateAt : fetch (txt "state") (ordered status) = .str state := hfetch _
  have hphaseAt : fetch (txt "phase") (ordered status) = optionalText s.currentPhase :=
    (hfetch _).trans (sortKeys_optionalText _)
  have hheartbeat :
      fetch (txt "heartbeat_at_unix") (ordered status) = .float (.literal heartbeatAt) := hfetch _
  have hmonotonic :
      fetch (txt "heartbeat_monotonic_seconds") (ordered status) = secondsJson elapsed := hfetch _
  have hchildAt : fetch (txt "child") (ordered status) = child.sortKeys := hfetch _
  have hsequence : fetch (txt "latest_event_sequence") (ordered status) = .int s.sequence := hfetch _
  have hterminalAt : fetch (txt "terminal_result") (ordered status) =
      (match terminal with | some t => Json.obj t | none => .null).sortKeys := hfetch _
  refine ⟨[(txt "protocol", .str (txt "run-status/1")), (txt "run_id", .str self.runId),
    (txt "runner_version", .str self.identity.version),
      (txt "runner_git_commit", .str self.identity.gitCommit),
    (txt "supported_protocol_majors", majors), (txt "state", .str state),
    (txt "phase", textOrNull s.currentPhase),
    (txt "heartbeat_age_seconds", heartbeatAge now (.literal heartbeatAt)),
    (txt "heartbeat_monotonic_seconds", secondsJson elapsed), (txt "child", shownChild),
    (txt "latest_event_sequence", .int s.sequence), (txt "terminal_result", shownTerminal)],
    bind_ok_iff.mpr ⟨ordered status, rfl, ?_⟩, ?_⟩
  · simp only [hprotocol, hrunId, hversion, hcommit, hmajorsAt, hstateAt, hphaseAt, hheartbeat,
      hmonotonic, hchildAt, hsequence, hterminalAt, hmajorsOk, hchildOk, hterminalOk]
    refine bind_ok_iff.mpr ⟨(), if_pos trivial, ?_⟩
    refine bind_ok_iff.mpr ⟨.literal heartbeatAt, rfl, ?_⟩
    refine bind_ok_iff.mpr ⟨state, rfl, ?_⟩
    refine bind_ok_iff.mpr ⟨(), if_pos hstate, ?_⟩
    refine bind_ok_iff.mpr ⟨s.currentPhase, optionalString_optionalText _, ?_⟩
    refine bind_ok_iff.mpr ⟨(), if_pos hphase, ?_⟩
    rfl
  · -- the two objects are the same up to the order of their keys
    simp only [keptFields, List.forall_mem_cons, List.not_mem_nil, false_implies, implies_true,
      and_true, ← hfetch, hrunId, hversion, hcommit, hmajorsAt, hstateAt, hphaseAt, hsequence,
        hterminalAt]
    refine ⟨rfl, rfl, rfl, hmajorsSame, rfl, ?_, rfl, hterminalSame⟩
    rw [← sortKeys_optionalText, ← textOrNull_eq]
    rfl

end Runner

end RunpodJobrunner
