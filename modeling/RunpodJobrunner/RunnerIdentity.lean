import RunpodJobrunner.CloseoutReceipt
import RunpodJobrunner.JsonText

/-!
# Runner identity

The identity a runner and a controller exchange: a version, a commit and the protocol
majors each of them supports. Majors are read by `parse_protocol_majors`; what it returns is
read back from the fields it is published in (`protocolMajors_fields`).
-/

namespace RunpodJobrunner

open Json

/-- `record.get(key)`: `None` for what is missing. -/
def Json.fetch (key : Text) (record : List (Text × Json)) : Json := (lookup key record).getD .null

namespace Identity

/-! ## Version and commit -/

/-- `0|[1-9][0-9]*` -/
def numberPattern : Regex :=
  .alt (.chr 48) (.seq (.set fun c => isDigit c && c != 48) (.star (.set isDigit)))

/-- `[0-9A-Za-z-]+(?:\.[0-9A-Za-z-]+)*` after a mark, or nothing. -/
def labelsPattern (mark : ℕ) : Regex :=
  let label := Regex.plus (.set fun c => isAlnum c || c == 45)
  .opt (.seq (.chr mark) (.seq label (.star (.seq (.chr 46) label))))

/-- `_SEMANTIC_VERSION` -/
def semanticVersion : Regex :=
  .seq numberPattern <| .seq (.chr 46) <| .seq numberPattern <| .seq (.chr 46) <|
    .seq numberPattern <| .seq (labelsPattern 45) <| .seq (labelsPattern 43) .eos

/-- `_GIT_COMMIT` -/
def gitCommitPattern : Regex :=
  .seq (.alt (.exactly (.set isHex) 40) (.exactly (.set isHex) 64)) .eos

/-- `validate_runner_version`. -/
def validateRunnerVersion (candidate : Json) : Except Text Text :=
  match candidate with
  | .str t =>
    if semanticVersion.fullmatch t then .ok t
    else .error (txt "runner identity needs an exact semantic version")
  | _ => .error (txt "runner identity needs an exact semantic version")

/-- `validate_git_commit`. -/
def validateGitCommit (candidate : Json) : Except Text Text :=
  match candidate with
  | .str t =>
    if gitCommitPattern.fullmatch t = false then
      .error (txt "runner identity needs an exact Git commit")
    else if t.all (· == 48) then .error (txt "runner identity Git commit must not be all zero")
    else .ok t
  | _ => .error (txt "runner identity needs an exact Git commit")

/-! ## Protocol majors -/

/-- The protocols with the majors supported of each. -/
abbrev Majors := List (Text × List ℤ)

/-- `_REQUIRED_PROTOCOLS` -/
def requiredProtocols : List Text :=
  [txt "artifact-manifest", txt "launch-authorization", txt "run-event", txt "run-request",
    txt "run-status"]

/-- `majors.get(protocol, ())`. -/
def majorsOf (majors : Majors) (protocol : Text) : List ℤ := (majors.lookup protocol).getD []

/-- One of two sides does not support the first major of a protocol. -/
def lacks (a b : Majors) (protocol : Text) : Bool :=
  1 ∉ majorsOf a protocol || 1 ∉ majorsOf b protocol

/-- A protocol is not lacking where both sides have its first major. -/
theorem lacks_eq_false {a b : Majors} {protocol : Text} :
    lacks a b protocol = false ↔ 1 ∈ majorsOf a protocol ∧ 1 ∈ majorsOf b protocol := by
  simp [lacks]

theorem lacks_comm (a b : Majors) (protocol : Text) : lacks a b protocol = lacks b a protocol := by
  rw [lacks, lacks, Bool.or_comm]

/-- A positive integer that is not a boolean. -/
def positiveInt : Json → Option ℤ
  | .int n => if 0 < n then some n else none
  | _ => none

/-- The versions of one protocol. -/
def parseVersions (protocol : Text) (versions : Json) : Except Text (List ℤ) :=
  let subject := txt "supported protocol majors for " ++ protocol
  match versions with
  | .arr (item :: items) =>
    match (item :: items).mapM positiveInt with
    | none => .error (subject ++ txt " must be positive integers")
    | some ns =>
      if ns.Nodup ∧ ns.Pairwise (· ≤ ·) then .ok ns
      else .error (subject ++ txt " must be sorted and unique")
  | _ => .error (subject ++ txt " must be an array")

/-- The loop over the members. -/
def parseMembers : List (Text × Json) → Except Text Majors
  | [] => .ok []
  | (protocol, versions) :: rest =>
    if protocol = [] then .error (txt "supported protocol major names must be non-empty strings")
    else do
      let ns ← parseVersions protocol versions
      let parsed ← parseMembers rest
      .ok ((protocol, ns) :: parsed)

/-- The first required protocol that is not there. -/
def missingProtocol (parsed : Majors) : Option Text :=
  requiredProtocols.find? fun required => (parsed.lookup required).isNone

/-- `parse_protocol_majors`. -/
def protocolMajors (candidate : Json) : Except Text Majors :=
  match candidate with
  | .obj raw => do
    let parsed ← parseMembers raw
    match missingProtocol parsed with
    | some required => .error (txt "supported protocol majors must include " ++ required)
    | none => .ok parsed
  | _ => .error (txt "supported protocol majors must be an object")

/-! ## Identities -/

/-- `RunnerIdentity`. -/
structure RunnerIdentity where
  version : Text
  gitCommit : Text
  supportedProtocolMajors : Majors
  deriving DecidableEq

/-- Majors as a JSON object. -/
def majorFields (majors : Majors) : List (Text × Json) :=
  majors.map fun p => (p.1, .arr (p.2.map .int))

/-- `as_protocol_fields`. -/
def RunnerIdentity.asProtocolFields (identity : RunnerIdentity) : List (Text × Json) :=
  [(txt "runner_version", .str identity.version),
    (txt "runner_git_commit", .str identity.gitCommit),
    (txt "supported_protocol_majors", .obj (majorFields identity.supportedProtocolMajors))]

/-- `__version__` -/
def packageVersion : Text := txt "0.1.12"

/-- `local_source_identity`. -/
def localSourceIdentity : RunnerIdentity where
  version := packageVersion
  gitCommit := List.replicate 40 48
  supportedProtocolMajors :=
    [(txt "artifact-manifest", [1]), (txt "incremental-mirror-ack", [1]),
      (txt "launch-authorization", [1]), (txt "run-event", [1]), (txt "run-request", [1]),
      (txt "run-status", [1])]

/-- What is found where the release receipt is configured. -/
inductive ReleaseReceipt : Type where
  /-- none is configured, and the package is not the published one -/
  | unconfigured : ReleaseReceipt
  /-- it is not read, with the text of the error -/
  | unavailable : (error : Text) → ReleaseReceipt
  /-- a key is repeated, with its `repr` -/
  | repeated : (key : Text) → ReleaseReceipt
  | read : Json → ReleaseReceipt

/-- `load_runner_identity`. -/
def loadRunnerIdentity (receipt : ReleaseReceipt) : Except Text RunnerIdentity :=
  match receipt with
  | .unconfigured => .ok localSourceIdentity
  | .unavailable error => .error (txt "runner release receipt is unavailable: " ++ error)
  | .repeated key => .error (txt "runner release receipt has duplicate key " ++ key)
  | .read (.obj receipt) =>
    if fetch (txt "protocol") receipt ≠ .str (txt "runner-release/1") then
      .error (txt "runner release receipt protocol is unsupported")
    else do
      let version ← validateRunnerVersion (fetch (txt "runner_version") receipt)
      if version ≠ packageVersion then
        .error (txt "runner release receipt version differs from installed package")
      else do
        let gitCommit ← validateGitCommit (fetch (txt "runner_git_commit") receipt)
        let majors ← protocolMajors (fetch (txt "supported_protocol_majors") receipt)
        .ok ⟨version, gitCommit, majors⟩
  | .read _ => .error (txt "runner release receipt must be an object")

/-! ## Reading majors back -/

/-- Integers are read as what they are. -/
theorem mapM_positiveInt {ns ms : List ℤ} (h : (ns.map Json.int).mapM positiveInt = some ms) :
    ms = ns := by
  induction ns generalizing ms with
  | nil => simpa using h.symm
  | cons n ns ih =>
    rw [List.map_cons, List.mapM_cons] at h
    obtain ⟨m, hm, h⟩ := Option.bind_eq_some_iff.mp h
    obtain ⟨ms', hms, h⟩ := Option.bind_eq_some_iff.mp h
    obtain rfl := Option.some.inj h
    rw [ih hms]
    rw [positiveInt] at hm
    split at hm
    · rw [Option.some.inj hm]
    · cases hm

/-- The integers that are read are positive. -/
theorem mapM_positive {items : List Json} {ns : List ℤ} (h : items.mapM positiveInt = some ns) :
    ∀ n ∈ ns, 0 < n := by
  induction items generalizing ns with
  | nil =>
    obtain rfl : ns = [] := by simpa using h.symm
    simp
  | cons item items ih =>
    rw [List.mapM_cons] at h
    obtain ⟨m, hm, h⟩ := Option.bind_eq_some_iff.mp h
    obtain ⟨ms, hms, h⟩ := Option.bind_eq_some_iff.mp h
    obtain rfl := Option.some.inj h
    refine List.forall_mem_cons.mpr ⟨?_, ih hms⟩
    cases item with
    | int k =>
      rw [positiveInt] at hm
      split at hm
      · next hk => rwa [← Option.some.inj hm]
      · cases hm
    | _ => cases hm

/-- Positive integers are read. -/
theorem mapM_int {ns : List ℤ} (h : ∀ n ∈ ns, 0 < n) :
    (ns.map Json.int).mapM positiveInt = some ns := by
  induction ns with
  | nil => rfl
  | cons n ns ih =>
    obtain ⟨hn, hns⟩ := List.forall_mem_cons.mp h
    rw [List.map_cons, List.mapM_cons, ih hns, positiveInt, if_pos hn]
    rfl

/-- The majors `parse_protocol_majors` can return. -/
structure Wellformed (majors : Majors) : Prop where
  named : ∀ p ∈ majors, p.1 ≠ []
  nonempty : ∀ p ∈ majors, p.2 ≠ []
  positive : ∀ p ∈ majors, ∀ n ∈ p.2, 0 < n
  sorted : ∀ p ∈ majors, p.2.Nodup ∧ p.2.Pairwise (· ≤ ·)
  required : ∀ protocol ∈ requiredProtocols, (majors.lookup protocol).isSome = true

/-- Versions are positive, sorted and without repetition. -/
theorem parseVersions_spec {protocol : Text} {versions : Json} {ns : List ℤ}
    (h : parseVersions protocol versions = .ok ns) :
    ns ≠ [] ∧ (∀ n ∈ ns, 0 < n) ∧ ns.Nodup ∧ ns.Pairwise (· ≤ ·) := by
  unfold parseVersions at h
  dsimp only at h
  split at h
  · next item items =>
    split at h
    · cases h
    · next ms hms =>
      split at h
      · next hsorted =>
        obtain rfl := Except.ok.inj h
        refine ⟨?_, mapM_positive hms, hsorted⟩
        rintro rfl
        rw [List.mapM_cons] at hms
        obtain ⟨m, -, hms⟩ := Option.bind_eq_some_iff.mp hms
        obtain ⟨ms, -, hms⟩ := Option.bind_eq_some_iff.mp hms
        cases hms
      · cases h
  · cases h

/-- The versions of an identity are read back. -/
theorem parseVersions_fields {protocol : Text} {ns ms : List ℤ}
    (h : parseVersions protocol (.arr (ns.map .int)) = .ok ms) : ms = ns := by
  cases ns with
  | nil => cases h
  | cons n ns =>
    rw [List.map_cons, parseVersions, ← List.map_cons] at h
    split at h
    · cases h
    · next ks hks =>
      split at h
      · obtain rfl := Except.ok.inj h
        exact mapM_positiveInt hks
      · cases h

/-- Positive versions in order, without repetition, are accepted. -/
theorem parseVersions_ok {protocol : Text} {ns : List ℤ} (hne : ns ≠ []) (hpos : ∀ n ∈ ns, 0 < n)
    (hsorted : ns.Nodup ∧ ns.Pairwise (· ≤ ·)) :
    parseVersions protocol (.arr (ns.map .int)) = .ok ns := by
  obtain ⟨n, ns, rfl⟩ := List.exists_cons_of_ne_nil hne
  rw [List.map_cons, parseVersions, ← List.map_cons, mapM_int hpos]
  exact if_pos hsorted

/-- The majors of an identity are read back. -/
theorem parseMembers_fields {majors parsed : Majors}
    (h : parseMembers (majorFields majors) = .ok parsed) : parsed = majors := by
  induction majors generalizing parsed with
  | nil => exact (Except.ok.inj h).symm
  | cons p majors ih =>
    rw [majorFields, List.map_cons, parseMembers] at h
    obtain ⟨-, h⟩ := ite_error_iff.mp h
    obtain ⟨ns, hns, h⟩ := bind_ok_iff.mp h
    obtain ⟨rest, hrest, h⟩ := bind_ok_iff.mp h
    rw [← Except.ok.inj h, parseVersions_fields hns, ih hrest]

/-- Majors are read back from their fields. -/
theorem protocolMajors_fields {majors parsed : Majors}
    (h : protocolMajors (.obj (majorFields majors)) = .ok parsed) : parsed = majors := by
  obtain ⟨members, hmembers, h⟩ := bind_ok_iff.mp h
  rw [parseMembers_fields hmembers] at h
  split at h
  · cases h
  · exact (Except.ok.inj h).symm

/-- No protocol is missing where every required one has versions. -/
theorem missingProtocol_eq_none {majors : Majors} :
    missingProtocol majors = none ↔
      ∀ protocol ∈ requiredProtocols, (majors.lookup protocol).isSome = true := by
  simp only [missingProtocol, List.find?_eq_none, Bool.not_eq_true, Option.isNone_eq_false_iff]

/-- What is read of the majors is well formed, member by member. -/
theorem parseMembers_spec {raw : List (Text × Json)} {parsed : Majors}
    (h : parseMembers raw = .ok parsed) :
    (∀ p ∈ parsed, p.1 ≠ []) ∧ (∀ p ∈ parsed, p.2 ≠ []) ∧ (∀ p ∈ parsed, ∀ n ∈ p.2, 0 < n) ∧
      ∀ p ∈ parsed, p.2.Nodup ∧ p.2.Pairwise (· ≤ ·) := by
  induction raw generalizing parsed with
  | nil =>
    obtain rfl := Except.ok.inj h
    simp
  | cons kv raw ih =>
    obtain ⟨protocol, versions⟩ := kv
    rw [parseMembers] at h
    obtain ⟨hname, h⟩ := ite_error_iff.mp h
    obtain ⟨ns, hns, h⟩ := bind_ok_iff.mp h
    obtain ⟨rest, hrest, h⟩ := bind_ok_iff.mp h
    obtain rfl := Except.ok.inj h
    obtain ⟨hne, hpos, hsorted⟩ := parseVersions_spec hns
    obtain ⟨hnames, hnonempty, hpositive, hsorteds⟩ := ih hrest
    exact ⟨List.forall_mem_cons.mpr ⟨hname, hnames⟩, List.forall_mem_cons.mpr ⟨hne, hnonempty⟩,
      List.forall_mem_cons.mpr ⟨hpos, hpositive⟩, List.forall_mem_cons.mpr ⟨hsorted, hsorteds⟩⟩

/-- Majors that are accepted are well formed. -/
theorem protocolMajors_spec {candidate : Json} {majors : Majors}
    (h : protocolMajors candidate = .ok majors) : Wellformed majors := by
  unfold protocolMajors at h
  split at h
  · obtain ⟨parsed, hparsed, h⟩ := bind_ok_iff.mp h
    split at h
    · cases h
    · next hnone =>
      obtain rfl := Except.ok.inj h
      obtain ⟨hnamed, hnonempty, hpositive, hsorted⟩ := parseMembers_spec hparsed
      exact ⟨hnamed, hnonempty, hpositive, hsorted, missingProtocol_eq_none.mp hnone⟩
  · cases h

/-- What is well formed is accepted as its fields. -/
theorem protocolMajors_ok {majors : Majors} (h : Wellformed majors) :
    protocolMajors (.obj (majorFields majors)) = .ok majors := by
  have hmembers : ∀ ms : Majors, (∀ p ∈ ms, p ∈ majors) → parseMembers (majorFields ms) = .ok ms := by
    intro ms hms
    induction ms with
    | nil => rfl
    | cons p ms ih =>
      have hp := hms p List.mem_cons_self
      rw [majorFields, List.map_cons, parseMembers, if_neg (h.named p hp),
        parseVersions_ok (h.nonempty p hp) (h.positive p hp) (h.sorted p hp), ← majorFields,
        ih fun q hq => hms q (List.mem_cons_of_mem _ hq)]
      rfl
  have hparse : protocolMajors (.obj (majorFields majors)) =
      parseMembers (majorFields majors) >>= fun parsed =>
        match missingProtocol parsed with
        | some required => .error (txt "supported protocol majors must include " ++ required)
        | none => .ok parsed := rfl
  rw [hparse, hmembers majors fun p hp => hp]
  refine bind_ok_iff.mpr ⟨majors, rfl, ?_⟩
  rw [missingProtocol_eq_none.mpr h.required]

/-! ## Published majors -/

/-- A protocol has versions where it is a key. -/
theorem isSome_lookup_iff {majors : Majors} {protocol : Text} :
    (majors.lookup protocol).isSome = true ↔ protocol ∈ majors.map Prod.fst := by
  induction majors with
  | nil => simp
  | cons p majors ih =>
    rw [List.lookup_cons, List.map_cons, List.mem_cons]
    by_cases h : protocol = p.1
    · simp [h]
    · rw [beq_false_of_ne h, ih, or_iff_right h]

/-- The order of the protocols does not matter. -/
theorem Wellformed.perm {as bs : Majors} (h : Wellformed as) (hperm : bs.Perm as) :
    Wellformed bs where
  named p hp := h.named p (hperm.mem_iff.mp hp)
  nonempty p hp := h.nonempty p (hperm.mem_iff.mp hp)
  positive p hp := h.positive p (hperm.mem_iff.mp hp)
  sorted p hp := h.sorted p (hperm.mem_iff.mp hp)
  required protocol hp := by
    rw [isSome_lookup_iff, (hperm.map Prod.fst).mem_iff, ← isSome_lookup_iff]
    exact h.required protocol hp

/-- The identities that `load_runner_identity` and `local_source_identity` return; a dict has
a key once. -/
inductive IsLoaded : RunnerIdentity → Prop where
  | receipt {receipt : ReleaseReceipt} {identity : RunnerIdentity} :
    (∀ members majors, receipt = .read (.obj members) →
      fetch (txt "supported_protocol_majors") members = .obj majors → (majors.map Prod.fst).Nodup) →
    loadRunnerIdentity receipt = .ok identity → IsLoaded identity
  | source : IsLoaded localSourceIdentity

/-- The protocols are read as they stand. -/
theorem parseMembers_keys {raw : List (Text × Json)} {parsed : Majors}
    (h : parseMembers raw = .ok parsed) : parsed.map Prod.fst = raw.map Prod.fst := by
  induction raw generalizing parsed with
  | nil =>
    obtain rfl := Except.ok.inj h
    rfl
  | cons kv raw ih =>
    rw [parseMembers] at h
    obtain ⟨-, h⟩ := ite_error_iff.mp h
    obtain ⟨ns, -, h⟩ := bind_ok_iff.mp h
    obtain ⟨rest, hrest, h⟩ := bind_ok_iff.mp h
    obtain rfl := Except.ok.inj h
    rw [List.map_cons, List.map_cons, ih hrest]

/-- The majors of the source are well formed. -/
theorem wellformed_source : Wellformed localSourceIdentity.supportedProtocolMajors := by
  refine ⟨?_, ?_, ?_, ?_, ?_⟩ <;> decide +kernel

/-- The majors of such an identity are accepted where they are published. -/
theorem IsLoaded.majors {identity : RunnerIdentity} (h : IsLoaded identity) :
    Wellformed identity.supportedProtocolMajors ∧
      (identity.supportedProtocolMajors.map Prod.fst).Nodup := by
  cases h with
  | source => exact ⟨wellformed_source, by decide +kernel⟩
  | @receipt receipt identity hdict h =>
    unfold loadRunnerIdentity at h
    split at h
    · obtain rfl := Except.ok.inj h
      exact ⟨wellformed_source, by decide +kernel⟩
    · cases h
    · cases h
    · next members =>
      obtain ⟨-, h⟩ := ite_error_iff.mp h
      obtain ⟨version, -, h⟩ := bind_ok_iff.mp h
      obtain ⟨-, h⟩ := ite_error_iff.mp h
      obtain ⟨gitCommit, -, h⟩ := bind_ok_iff.mp h
      obtain ⟨majors, hmajors, h⟩ := bind_ok_iff.mp h
      obtain rfl := Except.ok.inj h
      refine ⟨protocolMajors_spec hmajors, ?_⟩
      unfold protocolMajors at hmajors
      split at hmajors
      · next raw hraw =>
        obtain ⟨parsed, hparsed, hmajors⟩ := bind_ok_iff.mp hmajors
        split at hmajors
        · cases hmajors
        · obtain rfl := Except.ok.inj hmajors
          rw [parseMembers_keys hparsed]
          exact hdict members raw rfl hraw
      · cases hmajors
    · cases h

end Identity

end RunpodJobrunner
