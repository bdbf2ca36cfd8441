import RunpodJobrunner.CloseoutReceipt
import RunpodJobrunner.Decimal
import RunpodJobrunner.Words

/-!
# The names of supervisor units

`supervision.py`: the systemd unit of a run is named by its id in lower case, with every
run of other characters as one hyphen. Two ids whose words are the same but for their case
and for what stands between them have one unit (`distinct_units`).
-/

namespace RunpodJobrunner

open Regex

namespace Supervision

/-! ## The name -/

/-- `[a-z0-9]` -/
def isUnitChar (c : ℕ) : Bool := (97 ≤ c && c ≤ 122) || isDigit c

/-- `-` -/
def hyphen : ℕ := 45

/-- `unit_name_for_run`, of an ASCII id; `none` is the `ValueError`. -/
def unitNameForRun (runId : Text) : Option Text :=
  let safe := Words.strip hyphen (Words.collapse isUnitChar hyphen false (runId.map Decimal.lower))
  if safe = [] then none else some (txt "runpod-jobrunner-" ++ safe ++ txt ".service")

example : unitNameForRun (txt "Run/ABC_123") = some (txt "runpod-jobrunner-run-abc-123.service") := by
  decide +kernel

/-- The words of an id: its letters in lower case and its digits. -/
def idWords (runId : Text) : List Text := Words.words isUnitChar (runId.map Decimal.lower)

theorem unitNameForRun_eq (runId : Text) :
    unitNameForRun runId =
      if idWords runId = [] then none
      else
        some (txt "runpod-jobrunner-" ++ Words.joined hyphen (idWords runId) ++ txt ".service") := by
  have hnil : Words.joined hyphen (idWords runId) = [] ↔ idWords runId = [] :=
    Words.joined_eq_nil fun w => Words.ne_nil_of_mem_words
  rw [unitNameForRun, Words.strip_collapse rfl]
  simp only [← hnil]
  rfl

/-! ## The supervisor -/

/-- A call of `SystemdSupervisor`. -/
inductive SupervisorCall : Type where
  | launch : (executable runDir : Text) → SupervisorCall
  | wake : SupervisorCall
  | state : SupervisorCall

/-- The command line of a call for a unit. The paths are resolved. -/
def commandLine (unit : Text) : SupervisorCall → List Text
  | .launch executable runDir =>
    [txt "systemd-run", txt "--user", txt "--no-block", txt "--collect", txt "--unit=" ++ unit,
      txt "--property=Type=exec", txt "--property=Restart=on-failure", txt "--property=RestartSec=5s",
      txt "--property=StartLimitIntervalSec=0", txt "--property=TimeoutStopSec=30s", executable,
      txt "--run-dir", runDir]
  | .wake => [txt "systemctl", txt "--user", txt "restart", unit]
  | .state =>
    [txt "systemctl", txt "--user", txt "show", unit,
      txt "--property=LoadState,ActiveState,SubState,Result,NRestarts"]

/-- What a call of the supervisor runs for a run. -/
def invoke (call : SupervisorCall) (runId : Text) : Option (List Text) :=
  (unitNameForRun runId).map (commandLine · call)

/-- The service a command line addresses: the value of `--unit`, or what follows the verb. -/
def serviceOf (arguments : List Text) : Option Text :=
  match arguments.find? fun argument => (txt "--unit=").isPrefixOf argument with
  | some argument => some (argument.drop (txt "--unit=").length)
  | none => arguments[3]?

theorem serviceOf_commandLine {runId unit : Text} (h : unitNameForRun runId = some unit)
    (call : SupervisorCall) : serviceOf (commandLine unit call) = some unit := by
  have hunit : ∃ t, unit = 114 :: t := by
    rw [unitNameForRun_eq] at h
    split at h
    · cases h
    · exact ⟨_, (Option.some.inj h).symm⟩
  obtain ⟨t, rfl⟩ := hunit
  cases call with
  | launch executable runDir => rfl
  | wake => rfl
  | state => rfl

/-! ## Accepted ids -/

/-- `run-[A-Za-z0-9][A-Za-z0-9_-]{0,126}` -/
def requestIdPattern : Regex :=
  .seq (lit (txt "run-"))
    (.seq (.set isAlnum) (upTo (.set fun c => isAlnum c || c == 95 || c == 45) 126))

/-- The run ids `JobBundle.to_run_request` accepts. -/
def isRequestId (runId : Text) : Bool := fullmatch (anchored requestIdPattern) runId

/-- The run ids that are accepted by the run store and by the bundle. -/
def isAccepted (runId : Text) : Bool := isRunId runId && isRequestId runId

/-- An id that the bundle accepts begins with a word. -/
theorem idWords_ne_nil {runId : Text} (h : isRequestId runId = true) : idWords runId ≠ [] := by
  have hplain : requestIdPattern.plain = true := by
    rw [requestIdPattern, plain, plain, plain_lit, plain_upTo rfl, plain, Bool.and_self,
      Bool.and_self]
  have hmatch : isMatch (.seq requestIdPattern .eol) runId = true := by
    obtain ⟨d, hd, -⟩ := fullmatch_iff.mp h
    obtain ⟨m, hm, hd⟩ := mem_ends_seq.mp hd
    obtain ⟨-, rfl⟩ := mem_ends_bol.mp hm
    exact isMatch_iff.mpr ⟨d, hd⟩
  obtain ⟨u, hu, hrunId⟩ := (isMatch_eol hplain).mp hmatch
  obtain ⟨front, rest, rfl, hfront, -⟩ := lang_seq.mp hu
  obtain rfl := lang_lit.mp hfront
  have hbegins : ∃ t, runId = 114 :: t := hrunId.elim (fun h => ⟨_, h⟩) fun h => ⟨_, h⟩
  obtain ⟨t, rfl⟩ := hbegins
  exact Words.words_cons_ne_nil rfl _

/-! ## Two runs -/

/-- Both runs have a unit, not the same one, and no call for one addresses the other's. -/
def HaveTheirUnits (a b : Text) : Prop :=
  ∃ m n, unitNameForRun a = some m ∧ unitNameForRun b = some n ∧ m ≠ n ∧
    ∀ c d, (invoke c a).bind serviceOf ≠ (invoke d b).bind serviceOf

/-- **Two runs have units of their own** exactly when the words of their ids are not the
same but for case. -/
theorem distinct_units {a b : Text} (ha : isAccepted a = true) (hb : isAccepted b = true) :
    HaveTheirUnits a b ↔ idWords a ≠ idWords b := by
  have hwords : ∀ {runId : Text}, isAccepted runId = true → unitNameForRun runId =
      some (txt "runpod-jobrunner-" ++ Words.joined hyphen (idWords runId) ++ txt ".service") := by
    intro runId h
    rw [unitNameForRun_eq, if_neg (idWords_ne_nil (Bool.and_eq_true_iff.mp h).2)]
  have haddressed : ∀ {runId unit : Text}, unitNameForRun runId = some unit →
      ∀ call, (invoke call runId).bind serviceOf = some unit := by
    intro runId unit h call
    rw [invoke, h, Option.map_some, Option.bind_some, serviceOf_commandLine h]
  have hjoined : Words.joined hyphen (idWords a) = Words.joined hyphen (idWords b) ↔
      idWords a = idWords b := Words.joined_words_inj rfl
  constructor
  · rintro ⟨m, n, hm, hn, hne, -⟩ heq
    rw [hwords ha, heq] at hm
    exact hne (Option.some.inj (hm.symm.trans (hwords hb).symm |>.trans hn))
  · intro h
    have hne : txt "runpod-jobrunner-" ++ Words.joined hyphen (idWords a) ++ txt ".service" ≠
        txt "runpod-jobrunner-" ++ Words.joined hyphen (idWords b) ++ txt ".service" :=
      fun heq => h (hjoined.mp (List.append_cancel_left (List.append_cancel_right heq)))
    refine ⟨_, _, hwords ha, hwords hb, hne, fun c d heq => hne ?_⟩
    rw [haddressed (hwords ha), haddressed (hwords hb)] at heq
    exact Option.some.inj heq

theorem distinct_units_sample : HaveTheirUnits (txt "run-a") (txt "run-b") :=
  (distinct_units (by decide +kernel) (by decide +kernel)).mpr (by decide +kernel)

/-- **Two runs of one unit**: the ids differ in the case of a letter. -/
theorem case_collides :
    isAccepted (txt "run-A") = true ∧ isAccepted (txt "run-a") = true ∧ txt "run-A" ≠ txt "run-a" ∧
      unitNameForRun (txt "run-A") = some (txt "runpod-jobrunner-run-a.service") ∧
      unitNameForRun (txt "run-a") = some (txt "runpod-jobrunner-run-a.service") ∧
      ¬HaveTheirUnits (txt "run-A") (txt "run-a") := by
  have hupper : unitNameForRun (txt "run-A") = some (txt "runpod-jobrunner-run-a.service") := by
    decide +kernel
  have hlower : unitNameForRun (txt "run-a") = some (txt "runpod-jobrunner-run-a.service") := by
    decide +kernel
  refine ⟨by decide +kernel, by decide +kernel, by decide, hupper, hlower, ?_⟩
  rintro ⟨m, n, hm, hn, hne, -⟩
  exact hne (Option.some.inj (hm.symm.trans (hupper.trans hlower.symm) |>.trans hn))

end Supervision

end RunpodJobrunner
