import RunpodJobrunner.Calendar
import RunpodJobrunner.DecimalDivision
import RunpodJobrunner.InputVerification

/-!
# The provider deadline

`_durable_request` and the limits of a checked bundle it is made from. The pod is to be
terminated after `hard_seconds`: the elapsed limit, or the seconds that the cost limit pays
for at the hourly rate, whichever is less. The seconds are computed in two rounded steps.

`RoundedUp` says of the limits when the two steps reach the whole second after the last one
that is paid for; the deadline bounds the cost exactly when they do not
(`deadline_bounds_cost`).
-/

namespace RunpodJobrunner

open Json

namespace Bundle

/-! ## Limits -/

/-- `^(?:0\.[0-9]*[1-9][0-9]*|[1-9][0-9]*(?:\.[0-9]+)?)$` -/
def positiveMoneyPattern : Regex :=
  let digit := Regex.set isDigit
  let nonzero := Regex.set fun c => isDigit c && c != 48
  anchored (.alt (.seq (.lit (txt "0.")) (.seq (.star digit) (.seq nonzero (.star digit))))
    (.seq nonzero (.seq (.star digit) (.opt (.seq (.chr 46) (.plus digit))))))

/-- `$defs/positive-money` -/
def positiveMoneySchema : Schema := .allOf [.type [.string], .pattern positiveMoneyPattern]

/-- `limits` of `job-spec-1.json` -/
def limitsSchema : Schema :=
  closedObject
    [(txt "max_elapsed_seconds", .allOf [.type [.integer], .minimum 1]),
      (txt "max_cost_usd", positiveMoneySchema), (txt "usd_per_hour", positiveMoneySchema)]

/-- A positive finite amount. -/
structure Amount where
  number : Number
  nonneg : number.neg = false
  nonzero : number.coeff ≠ 0
  deriving DecidableEq

/-- `_money`. -/
def money (value : Json) (fieldName : Text) : Except InputError Amount :=
  match value with
  | .str text =>
    match Decimal.ofText text with
    | none => bundleError (fieldName ++ txt " is not a decimal amount")
    | some (.finite neg coeff exp) =>
      if h : neg = false ∧ coeff ≠ 0 then .ok ⟨⟨neg, coeff, exp⟩, h.1, h.2⟩
      else bundleError (fieldName ++ txt " must be a positive finite decimal amount")
    | some _ => bundleError (fieldName ++ txt " must be a positive finite decimal amount")
  | _ => bundleError (fieldName ++ txt " must be an exact decimal string")

/-- The limits of a checked bundle. -/
structure Limits where
  maxElapsedSeconds : ℕ
  maxCostUsd : Amount
  usdPerHour : Amount
  elapsed_pos : 0 < maxElapsedSeconds
  deriving DecidableEq

/-- The limits of a job spec, as `check_bundle` reads them; `none` where it raises. -/
def checkLimits (limits : Json) : Option Limits :=
  if limitsSchema.accepts limits then
    match limits.get? (txt "max_elapsed_seconds"),
      (item (txt "max_cost_usd") limits).bind fun v => money v (txt "limits.max_cost_usd"),
      (item (txt "usd_per_hour") limits).bind fun v => money v (txt "limits.usd_per_hour") with
    | some (.int n), .ok maxCostUsd, .ok usdPerHour =>
      if h : 0 < n.toNat then some ⟨n.toNat, maxCostUsd, usdPerHour, h⟩ else none
    -- `canonical_json` refuses a float
    | _, _, _ => none
  else none

/-- What of a `JobBundle` a durable request is made from. -/
structure CheckedBundle where
  root : Text
  inputRoot : Text
  jobSpec : List (Text × Json)
  inputManifest : List (Text × Json)
  imageDigest : Text
  limits : Limits

end Bundle

namespace Application

open RunpodJobrunner.Bundle

/-! ## The durable request -/

/-- Why `_durable_request` does not return. -/
inductive RequestFault : Type where
  /-- `ApplicationError` -/
  | application : (message : Text) → RequestFault
  /-- `decimal.Overflow` or `OverflowError` -/
  | overflow : RequestFault
  /-- `TypeError` -/
  | typeError : RequestFault
  deriving DecidableEq

/-- A mapping with string keys. -/
abbrev Members := List (Text × Json)

/-- `_mapping`. -/
def mapping (value : Option Json) (name : Text) : Except RequestFault Members :=
  match value with
  | some (.obj members) => .ok members
  | _ => .error (.application (name ++ txt " must be an object"))

/-- `_sequence`. -/
def sequence (value : Option Json) (name : Text) : Except RequestFault (List Json) :=
  match value with
  | some (.arr items) => .ok items
  | _ => .error (.application (name ++ txt " must be an array"))

/-- `_string`. -/
def string (members : Members) (key : Text) : Except RequestFault Text :=
  match lookup key members with
  | some (.str (c :: t)) => .ok (c :: t)
  | _ => .error (.application (key ++ txt " must be a non-empty string"))

/-- `_first_string`. -/
def firstString (values : List Json) (name : Text) : Except RequestFault Text :=
  match values with
  | .str (c :: t) :: _ => .ok (c :: t)
  | _ => .error (.application (name ++ txt " must contain a string"))

/-- `members.get(key)`. -/
def get (members : Members) (key : Text) : Json := (lookup key members).getD .null

/-- The member `key` under the name `key'`, unless it is `None`. -/
def optional (members : Members) (key key' : Text) : Members :=
  if get members key = .null then [] else [(key', get members key)]

/-- `Decimal(3600)`. -/
def secondsPerHour : Number := ⟨false, 3600, 0⟩

/-- `hard_seconds`; `none` where an operation overflows. -/
def hardSeconds (limits : Limits) : Option ℕ := do
  let hours ← defaultContext.div limits.maxCostUsd.number limits.usdPerHour.number
  let seconds ← defaultContext.mul hours secondsPerHour
  some (min limits.maxElapsedSeconds seconds.truncate.toNat)

/-- `terminate_at` as text; `none` where the date overflows. -/
def terminateAt (now : DateTime) (hardSeconds : ℕ) : Option Text := do
  let utc ← now.toUtc
  let terminateAt ← utc.addSeconds hardSeconds
  some terminateAt.utcText

/-- `hard_seconds` and the text of `terminate_at`. -/
def deadline (limits : Limits) (now : DateTime) : Option (ℕ × Text) := do
  let hardSeconds ← hardSeconds limits
  let text ← terminateAt now hardSeconds
  some (hardSeconds, text)

/-- `dict(item)` of a file entry. -/
def entry : Json → Except RequestFault Json
  | .obj members => .ok (.obj members)
  | _ => .error .typeError

/-- `_durable_request`. -/
def durableRequest (bundle : CheckedBundle) (remote : Members) (approved : Decimal)
    (statusTokenHash : Text) (now : DateTime) : Except RequestFault Members := do
  let spec := bundle.jobSpec
  let resources ← mapping (lookup (txt "resources") spec) (txt "resources")
  let gpuTypes ← sequence (lookup (txt "gpu_types") resources) (txt "resources.gpu_types")
  let storage ← mapping (lookup (txt "storage") resources) (txt "resources.storage")
  let (hardSeconds, terminateAt) ← (deadline bundle.limits now).elim (.error .overflow) .ok
  let inputs ← sequence (lookup (txt "files") bundle.inputManifest) (txt "input manifest files")
  let artifacts ← mapping (lookup (txt "artifacts") spec) (txt "artifacts")
  let runId ← string remote (txt "run_id")
  let remoteRunRoot :=
    shown (get storage (txt "mount")) ++ txt "/runpod-jobrunner/runs/" ++ runId
  let gpuType ← firstString gpuTypes (txt "resources.gpu_types")
  let inputFiles ← inputs.mapM entry
  .ok [
    (txt "protocol", .str (txt "controller-request/1")),
    (txt "approved_max_usd", .str approved.formatF),
    (txt "remote", .obj remote),
    (txt "provider", .obj (
      [(txt "image", .str bundle.imageDigest),
        (txt "gpu_type_id", .str gpuType),
        (txt "gpu_count", get resources (txt "gpu_count")),
        (txt "container_disk_gb", (lookup (txt "container_disk_gb") resources).getD (.int 20))] ++
      (if get storage (txt "network_volume_id") = .null then
          [(txt "volume_gb", get storage (txt "required_gb"))]
        else optional storage (txt "network_volume_id") (txt "network_volume_id")) ++
      [(txt "volume_mount_path", get storage (txt "mount")),
        (txt "ports", (lookup (txt "ports") resources).getD
          (.arr [.str (txt "22/tcp"), .str (txt "8080/http")])),
        (txt "terminate_at", .str terminateAt),
        (txt "max_hourly_rate_usd", .str (Decimal.finite bundle.limits.usdPerHour.number.neg
          bundle.limits.usdPerHour.number.coeff bundle.limits.usdPerHour.number.exp).formatF),
        (txt "environment", .obj [
          (txt "RUNPOD_JOBRUNNER_REQUEST_PATH", .str (remoteRunRoot ++ txt "/request.json")),
          (txt "RUNPOD_JOBRUNNER_STATUS_DIR", .str (remoteRunRoot ++ txt "/status")),
          (txt "RUNPOD_JOBRUNNER_TOKEN_FILE", .str (remoteRunRoot ++ txt "/status-token")),
          (txt "RUNPOD_JOBRUNNER_STATUS_RETENTION_SECONDS", .str (natText hardSeconds))])])),
    (txt "controller", .obj (
      [(txt "bundle_root", .str bundle.root),
        (txt "input_root", .str bundle.inputRoot),
        (txt "input_files", .arr inputFiles),
        (txt "artifact_manifest_path", get artifacts (txt "manifest_path")),
        (txt "status_token_sha256", .str statusTokenHash),
        (txt "remote_run_root", .str remoteRunRoot)] ++
      optional artifacts (txt "incremental_manifest_glob") (txt "incremental_manifest_glob") ++
      optional remote (txt "incremental_mirror_ack") (txt "incremental_mirror_ack")))]

/-- The deadline is what the request carries. -/
structure Carries (request : Members) (hardSeconds : ℕ) (terminateAt : Text) : Prop where
  text : ((lookup (txt "provider") request).bind fun provider =>
    provider.get? (txt "terminate_at")) = some (.str terminateAt)
  retention : (((lookup (txt "provider") request).bind fun provider =>
    provider.get? (txt "environment")).bind fun environment =>
      environment.get? (txt "RUNPOD_JOBRUNNER_STATUS_RETENTION_SECONDS")) =
    some (.str (natText hardSeconds))

theorem durableRequest_deadline {bundle : CheckedBundle} {remote request : Members}
    {approved : Decimal} {statusTokenHash : Text} {now : DateTime}
    (h : durableRequest bundle remote approved statusTokenHash now = .ok request) :
    ∃ hardSeconds text, deadline bundle.limits now = some (hardSeconds, text) ∧
      Carries request hardSeconds text := by
  unfold durableRequest at h
  obtain ⟨resources, -, h⟩ := bind_ok_iff.mp h
  obtain ⟨gpuTypes, -, h⟩ := bind_ok_iff.mp h
  obtain ⟨storage, -, h⟩ := bind_ok_iff.mp h
  obtain ⟨⟨hardSeconds, text⟩, hdeadline, h⟩ := bind_ok_iff.mp h
  obtain ⟨inputs, -, h⟩ := bind_ok_iff.mp h
  obtain ⟨artifacts, -, h⟩ := bind_ok_iff.mp h
  obtain ⟨runId, -, h⟩ := bind_ok_iff.mp h
  obtain ⟨gpuType, -, h⟩ := bind_ok_iff.mp h
  obtain ⟨inputFiles, -, h⟩ := bind_ok_iff.mp h
  refine ⟨hardSeconds, text, ?_, ?_⟩
  · cases hd : deadline bundle.limits now with
    | none => rw [hd] at hdeadline; cases hdeadline
    | some p => rw [hd] at hdeadline; cases hdeadline; rfl
  · obtain rfl := Except.ok.inj h
    rw [optional]
    -- the volume comes before the deadline, in one of two ways
    split
    · exact ⟨rfl, rfl⟩
    · exact ⟨rfl, rfl⟩

/-! ## The bound -/

/-- What the deadline is for: the pod costs no more than the cost limit, lives no longer than
the elapsed limit, and is terminated in time. -/
structure Bounded (limits : Limits) (now : DateTime) (hardSeconds : ℕ) (terminateAt : Text) :
    Prop where
  cost : hardSeconds * limits.usdPerHour.number.magnitude ≤ 3600 * limits.maxCostUsd.number.magnitude
  elapsed : hardSeconds ≤ limits.maxElapsedSeconds
  instant :
    ∃ d, DateTime.readUtc terminateAt = some d ∧ d.instant ≤ now.instant + hardSeconds * 1000000

/-- The hours that the cost limit pays for, exactly. -/
def paidHours (limits : Limits) : ℚ :=
  limits.maxCostUsd.number.magnitude / limits.usdPerHour.number.magnitude

/-- The first whole second that is not paid for. -/
def unpaidSecond (limits : Limits) : ℕ := ⌊3600 * paidHours limits⌋₊ + 1

/-- The units of the last place of the hours that make the unpaid second, less half a unit
of the numbers of 28 digits below it. -/
noncomputable def unpaidUnits (limits : Limits) : ℕ :=
  ⌈(2 * unpaidSecond limits - (10 : ℚ) ^ ((Nat.clog 10 (unpaidSecond limits) : ℤ) - 28)) /
    (7200 * 10 ^ defaultContext.lastPlace (paidHours limits))⌉₊

/-- The unpaid second is within the elapsed limit, and the hours are less than half a unit
below what is rounded to it. -/
def RoundedUp (limits : Limits) : Prop :=
  unpaidSecond limits ≤ limits.maxElapsedSeconds ∧
    Context.RoundsTo (paidHours limits) (unpaidUnits limits)
      (defaultContext.lastPlace (paidHours limits))

variable {limits : Limits} {hours seconds : Number}

theorem paidHours_pos (limits : Limits) : 0 < paidHours limits :=
  div_pos (Number.magnitude_pos limits.maxCostUsd.nonzero)
    (Number.magnitude_pos limits.usdPerHour.nonzero)

/-- A number of seconds is paid for when it is before the unpaid second. -/
theorem paid_iff (limits : Limits) (n : ℕ) :
    n * limits.usdPerHour.number.magnitude ≤ 3600 * limits.maxCostUsd.number.magnitude ↔
      n < unpaidSecond limits := by
  have hrate := Number.magnitude_pos limits.usdPerHour.nonzero
  have hpos := paidHours_pos limits
  rw [unpaidSecond, Nat.lt_add_one_iff, Nat.le_floor_iff (by positivity), paidHours, ← mul_div_assoc,
    le_div_iff₀ hrate]

/-- The first step: the hours to their last place. -/
theorem hours_units
    (hhours : defaultContext.div limits.maxCostUsd.number limits.usdPerHour.number = some hours) :
    ∃ m : ℕ, hours.neg = false ∧
      hours.magnitude = m * (10 : ℚ) ^ defaultContext.lastPlace (paidHours limits) ∧
      ∀ c, c ≤ m ↔
        Context.RoundsTo (paidHours limits) c (defaultContext.lastPlace (paidHours limits)) := by
  obtain ⟨m, hneg, hunits⟩ := Context.div_units limits.maxCostUsd.nonzero hhours
  rw [limits.maxCostUsd.nonneg, limits.usdPerHour.nonneg] at hneg
  exact ⟨m, hneg, hunits⟩

theorem times_secondsPerHour (n : Number) :
    (n.times secondsPerHour).magnitude = n.magnitude * 3600 := by
  rw [Number.times_magnitude]
  simp [secondsPerHour, Number.magnitude]

/-- The two steps reach the unpaid second when the hours are rounded to its units. -/
theorem reaches_unpaid_iff
    (hhours : defaultContext.div limits.maxCostUsd.number limits.usdPerHour.number = some hours)
    (hseconds : defaultContext.mul hours secondsPerHour = some seconds)
    (hroom : unpaidSecond limits < 10 ^ 27) :
    (unpaidSecond limits : ℚ) ≤ seconds.magnitude ↔
      Context.RoundsTo (paidHours limits) (unpaidUnits limits)
        (defaultContext.lastPlace (paidHours limits)) := by
  obtain ⟨m, -, hm, hreach⟩ := hours_units hhours
  have htimes := times_secondsPerHour hours
  rw [← hreach, unpaidUnits, Nat.ceil_le, div_le_iff₀ (by positivity)]
  have hunpaid : 0 < unpaidSecond limits := Nat.succ_pos _
  by_cases hzero : (hours.times secondsPerHour).coeff = 0
  · -- the hours were too small, and so are the seconds
    have hmzero : m = 0 := by
      have hmagnitude : (hours.times secondsPerHour).magnitude = 0 := by
        rw [Number.magnitude, hzero, Nat.cast_zero, zero_mul]
      rw [htimes, hm] at hmagnitude
      have hunit : (0 : ℚ) < 10 ^ defaultContext.lastPlace (paidHours limits) := by positivity
      rcases mul_eq_zero.mp hmagnitude with h | h
      · rcases mul_eq_zero.mp h with h | h
        · exact_mod_cast h
        · exact absurd h hunit.ne'
      · norm_num at h
    have hsecondszero : seconds.magnitude = 0 := by
      rw [Context.mul, Context.fix, if_pos hzero] at hseconds
      obtain rfl := Option.some.inj hseconds
      rw [Number.magnitude, hzero, Nat.cast_zero, zero_mul]
    have hone : (1 : ℚ) ≤ unpaidSecond limits := by exact_mod_cast hunpaid
    have hclog : (Nat.clog 10 (unpaidSecond limits) : ℤ) ≤ 27 := by
      exact_mod_cast Nat.clog_le_of_le_pow hroom.le
    have hunit : (10 : ℚ) ^ ((Nat.clog 10 (unpaidSecond limits) : ℤ) - 28) ≤ 10 ^ (0 : ℤ) :=
      zpow_le_zpow_right₀ (by norm_num) (by omega)
    rw [zpow_zero] at hunit
    rw [hsecondszero, hmzero, Nat.cast_zero, zero_mul]
    exact iff_of_false (by linarith) (by linarith)
  · have hfix := Context.le_fix_iff (by decide) hzero hseconds hunpaid hroom
    rw [htimes, hm] at hfix
    have hprec : ((defaultContext.prec : ℕ) : ℤ) = 28 := rfl
    rw [hprec] at hfix
    have hscale : 2 * (m * (10 : ℚ) ^ defaultContext.lastPlace (paidHours limits) * 3600) =
        m * (7200 * 10 ^ defaultContext.lastPlace (paidHours limits)) := by ring
    rw [hfix, hscale]

/-- The date arithmetic bounds the seconds. -/
theorem hardSeconds_lt {now : DateTime} {n : ℕ} {text : Text} (h : terminateAt now n = some text) :
    n < 10 ^ 12 ∧ ∃ d, DateTime.readUtc text = some d ∧ d.instant ≤ now.instant + n * 1000000 := by
  obtain ⟨utc, hutc, h⟩ := Option.bind_eq_some_iff.mp h
  obtain ⟨d, hd, h⟩ := Option.bind_eq_some_iff.mp h
  obtain rfl := Option.some.inj h
  obtain ⟨hinstant, -⟩ := DateTime.ofInstant_instant hutc
  obtain ⟨hsum, hreadable⟩ := DateTime.ofInstant_instant hd
  have hlow := (DateTime.ofInstant_range hutc).1
  have hhigh := (DateTime.ofInstant_range hd).2
  refine ⟨by omega, _, DateTime.readUtc_utcText hreadable, ?_⟩
  have := DateTime.instant_whole_le d
  omega

/-- A cost limit that pays for ages is reached by the two steps as well. -/
theorem seconds_large
    (hhours : defaultContext.div limits.maxCostUsd.number limits.usdPerHour.number = some hours)
    (hseconds : defaultContext.mul hours secondsPerHour = some seconds)
    (hfar : 10 ^ 27 ≤ unpaidSecond limits) : (10 : ℚ) ^ (12 : ℤ) ≤ seconds.magnitude := by
  have hpos := paidHours_pos limits
  have hpaid : ((10 ^ 27 - 1 : ℕ) : ℚ) ≤ 3600 * paidHours limits := by
    refine (Nat.le_floor_iff (by positivity)).mp ?_
    rw [unpaidSecond] at hfar
    omega
  have hlarge : (10 : ℚ) ^ (12 : ℤ) ≤ paidHours limits := by
    norm_num at hpaid ⊢
    linarith
  have hhourslarge := Context.div_large limits.maxCostUsd.nonzero (by decide) hlarge hhours
  have htimes : (10 : ℚ) ^ (12 : ℤ) ≤ (hours.times secondsPerHour).magnitude := by
    rw [times_secondsPerHour]
    linarith
  exact (Context.fix_large (by decide) htimes hseconds).2

/-- **The deadline bounds the cost** exactly when the two steps are not rounded up to the
first second that is not paid for. -/
theorem deadline_bounds_cost (bundle : CheckedBundle) (remote request : Members) (approved : Decimal)
    (statusTokenHash : Text) (now : DateTime)
    (h : durableRequest bundle remote approved statusTokenHash now = .ok request) :
    ∃ hardSeconds text, deadline bundle.limits now = some (hardSeconds, text) ∧
      Carries request hardSeconds text ∧
      (Bounded bundle.limits now hardSeconds text ↔ ¬RoundedUp bundle.limits) := by
  obtain ⟨n, text, hdeadline, hcarries⟩ := durableRequest_deadline h
  refine ⟨n, text, hdeadline, hcarries, ?_⟩
  obtain ⟨n', hhard, hdeadline⟩ := Option.bind_eq_some_iff.mp hdeadline
  obtain ⟨text', hterminate, hdeadline⟩ := Option.bind_eq_some_iff.mp hdeadline
  obtain ⟨rfl, rfl⟩ := Prod.mk.inj (Option.some.inj hdeadline)
  obtain ⟨hours, hhours, hhard⟩ := Option.bind_eq_some_iff.mp hhard
  obtain ⟨seconds, hseconds, hhard⟩ := Option.bind_eq_some_iff.mp hhard
  have hn := Option.some.inj hhard
  obtain ⟨hrange, hinstant⟩ := hardSeconds_lt hterminate
  have hneg : seconds.neg = false := by
    obtain ⟨m, hhoursneg, -⟩ := hours_units hhours
    rw [Context.fix_neg hseconds, Number.times, hhoursneg]
    rfl
  have htruncate : ∀ k : ℕ, k ≤ seconds.truncate.toNat ↔ (k : ℚ) ≤ seconds.magnitude := by
    intro k
    rw [← Number.le_truncate_iff hneg]
    have := (Number.le_truncate_iff hneg 0).mpr (by simpa using Number.magnitude_nonneg seconds)
    omega
  -- of the three bounds only the cost can fail
  have hbounded : Bounded bundle.limits now n' text' ↔ n' < unpaidSecond bundle.limits :=
    ⟨fun hb => (paid_iff _ _).mp hb.cost,
      fun hlt => ⟨(paid_iff _ _).mpr hlt, by omega, hinstant⟩⟩
  rw [hbounded, ← not_le]
  refine not_congr ?_
  by_cases hroom : unpaidSecond bundle.limits < 10 ^ 27
  · rw [RoundedUp, ← reaches_unpaid_iff hhours hseconds hroom, ← htruncate]
    omega
  · have hlarge := (htruncate (10 ^ 12)).mpr (by
      exact_mod_cast seconds_large hhours hseconds (not_lt.mp hroom))
    refine iff_of_false (by omega) fun hup => ?_
    have := hup.1
    omega

/-- The limits of a job: an hour at most, at a cost and a rate. -/
def sampleLimits (cost rate : String) : Json :=
  .obj [(txt "max_elapsed_seconds", .int 3600), (txt "max_cost_usd", .str (txt cost)),
    (txt "usd_per_hour", .str (txt rate))]

/-- A bundle with these limits. -/
def sampleBundle (cost rate : String) (limits : Limits) : CheckedBundle where
  root := txt "/bundle"
  inputRoot := txt "/bundle/input"
  jobSpec := [(txt "limits", sampleLimits cost rate),
    (txt "resources", .obj [(txt "gpu_types", .arr [.str (txt "NVIDIA A100")]),
      (txt "gpu_count", .int 1),
      (txt "storage", .obj [(txt "encrypted", .bool true), (txt "mount", .str (txt "/workspace")),
        (txt "required_gb", .int 10)])]),
    (txt "artifacts", .obj [(txt "manifest_path", .str (txt "artifact-manifest.json"))])]
  inputManifest := [(txt "files", .arr [])]
  imageDigest := txt "image@sha256:0"
  limits := limits

/-- The remote request of a run. -/
def sampleRemote : Members := [(txt "run_id", .str (txt "run-1"))]

/-- Midnight in UTC. -/
def sampleNow : DateTime := ⟨2026, 8, 1, 0, 0, 0, 0, some 0⟩

/-- One dollar at three dollars an hour. -/
def plainLimits : Limits :=
  ⟨3600, ⟨⟨false, 1, 0⟩, rfl, by decide⟩, ⟨⟨false, 3, 0⟩, rfl, by decide⟩, by decide⟩

/-- Almost one dollar, at one dollar a second. -/
def longLimits : Limits :=
  ⟨3600, ⟨⟨false, 10 ^ 40 - 1, -40⟩, rfl, by decide⟩, ⟨⟨false, 3600, 0⟩, rfl, by decide⟩, by decide⟩

example : checkLimits (sampleLimits "1" "3") = some plainLimits := by decide +kernel

example : deadline plainLimits sampleNow = some (1200, txt "2026-08-01T00:20:00Z") := by
  decide +kernel

theorem deadline_bounds_cost_sample :
    ∃ request hardSeconds text,
      durableRequest (sampleBundle "1" "3" plainLimits) sampleRemote (.finite false 1 0) []
        sampleNow = .ok request ∧
      deadline plainLimits sampleNow = some (hardSeconds, text) ∧ Carries request hardSeconds text ∧
      (Bounded plainLimits sampleNow hardSeconds text ↔ ¬RoundedUp plainLimits) := by
  obtain ⟨request, hrequest⟩ : ∃ request, durableRequest (sampleBundle "1" "3" plainLimits)
      sampleRemote (.finite false 1 0) [] sampleNow = .ok request := ⟨_, rfl⟩
  obtain ⟨hardSeconds, text, h⟩ := deadline_bounds_cost _ _ _ _ _ _ hrequest
  exact ⟨request, hardSeconds, text, hrequest, h⟩

/-- A cost just below the price of a second is rounded up to it. -/
theorem deadline_overruns :
    let bundle := sampleBundle "0.9999999999999999999999999999999999999999" "3600" longLimits
    (lookup (txt "limits") bundle.jobSpec).bind checkLimits = some bundle.limits ∧
    ∃ request,
      durableRequest bundle sampleRemote (.finite false 1 0) [] sampleNow = .ok request ∧
      Carries request 1 (txt "2026-08-01T00:00:01Z") ∧
      ¬(1 : ℕ) * bundle.limits.usdPerHour.number.magnitude ≤
        3600 * bundle.limits.maxCostUsd.number.magnitude := by
  refine ⟨by decide +kernel, _, rfl, ⟨by decide +kernel, by decide +kernel⟩, ?_⟩
  simp only [sampleBundle, longLimits, Number.magnitude]
  norm_num

end Application

end RunpodJobrunner
