import RunpodJobrunner.Lifecycle

/-!
# When a closeout receipt is valid

The receipt schema, read off the state: what a closed state has to satisfy for
`commit_state` to accept its receipt.
-/

namespace RunpodJobrunner

open Regex Schema

/-! ## Patterns -/

/-- A point and digits. -/
theorem lang_fraction {u : Text} (hu : u ≠ []) (hdig : ∀ c ∈ u, isDigit c = true) :
    Lang (.seq (chr 46) (plus (.set isDigit))) (46 :: u) :=
  lang_seq.mpr ⟨[46], u, rfl, lang_chr.mpr rfl, lang_plus_set.mpr ⟨hu, hdig⟩⟩

/-- A number that does not start with zero, and perhaps a fraction. -/
theorem lang_money_whole {c : ℕ} {u v : Text} (hc : isDigit c = true) (h0 : c ≠ 48)
    (hu : ∀ c ∈ u, isDigit c = true)
    (hv : v = [] ∨ ∃ w, v = 46 :: w ∧ w ≠ [] ∧ ∀ c ∈ w, isDigit c = true) :
    Lang nonnegativeMoneyPattern (c :: (u ++ v)) := by
  refine .altRight (.altRight ?_)
  refine lang_seq.mpr ⟨[c], u ++ v, rfl, lang_set.mpr ⟨c, by simp [hc, h0], rfl⟩, ?_⟩
  refine lang_seq.mpr ⟨u, v, rfl, lang_star_set.mpr hu, lang_opt.mpr ?_⟩
  rcases hv with rfl | ⟨w, rfl, hw, hdig⟩
  · exact .inr rfl
  · exact .inl (lang_fraction hw hdig)

/-- A plain text of a positive number matches the pattern of money. -/
theorem lang_plainText {coeff : ℕ} (hpos : 0 < coeff) (exp : ℤ) :
    Lang nonnegativeMoneyPattern (Decimal.plainText coeff exp) := by
  have hdigits := natText_digits coeff
  obtain ⟨c, cs, hcs⟩ := List.exists_cons_of_ne_nil (natText_ne_nil coeff)
  have h0 : c ≠ 48 := by
    have hhead := natText_head_ne_zero hpos
    rw [hcs] at hhead
    simpa using hhead
  rw [hcs] at hdigits
  have hc := hdigits c List.mem_cons_self
  have hrest : ∀ x ∈ cs, isDigit x = true := fun x hx => hdigits x (List.mem_cons_of_mem _ hx)
  rw [Decimal.plainText, hcs]
  dsimp only
  split
  · -- an integer, with the zeros of a positive exponent
    rw [List.cons_append, ← List.append_nil (cs ++ _)]
    refine lang_money_whole hc h0 (fun x hx => ?_) (.inl rfl)
    rcases List.mem_append.mp hx with hx | hx
    · exact hrest x hx
    · rw [List.eq_of_mem_replicate hx]
      rfl
  · next hneg =>
    split
    · next hk =>
      -- the point falls inside the digits
      obtain ⟨m, hm⟩ : ∃ m, (c :: cs).length - (-exp).toNat = m + 1 :=
        Nat.exists_eq_add_one.mpr (by omega)
      rw [hm, List.take_succ_cons, List.drop_succ_cons, List.cons_append]
      refine lang_money_whole hc h0 (fun x hx => hrest x (List.mem_of_mem_take hx))
        (.inr ⟨_, rfl, ?_, fun x hx => hrest x (List.mem_of_mem_drop hx)⟩)
      intro hnil
      have hlen := congrArg List.length hnil
      simp only [List.length_drop, List.length_nil, List.length_cons] at hlen hm hk
      omega
    · -- the number is less than one
      have hpoint : txt "0." = [48, 46] := by decide
      rw [hpoint]
      refine .altRight (.altLeft (lang_seq.mpr ⟨[48], _, rfl, lang_chr.mpr rfl,
        lang_fraction (by simp) fun x hx => ?_⟩))
      rcases List.mem_append.mp hx with hx | hx
      · rw [List.eq_of_mem_replicate hx]
        rfl
      · exact hdigits x hx

/-- An amount `_format_money` writes has the form the receipt asks for. -/
theorem IsMoney.lang {t : Text} (h : IsMoney t) : Lang nonnegativeMoneyPattern t := by
  obtain ⟨d, hfinite, hpositive, rfl⟩ := h
  rw [formatMoney]
  cases hzero : d.isZero with
  | true => exact .altLeft (lang_chr.mpr rfl)
  | false =>
    cases d with
    | infinity neg => cases hfinite
    | nan signaling => cases hfinite
    | finite neg coeff exp =>
      have hcoeff : coeff ≠ 0 := by simpa [Decimal.isZero] using hzero
      obtain rfl : neg = false := by simpa [Decimal.isNegative, hcoeff] using hpositive
      exact lang_plainText (Nat.pos_of_ne_zero hcoeff) _

/-- A full match is found between `^` and `$`. -/
theorem search_anchored {r : Regex} (hr : r.plain = true) {t : Text} (h : Lang r t) :
    (anchored r).search t = true := by
  rw [anchored, search_bol, isMatch_eol hr]
  exact ⟨t, h, .inl rfl⟩

/-- `op-` and a UUID match the pattern of operation ids. -/
theorem search_operationIdPattern {u : Text} (hne : u ≠ [])
    (hu : ∀ c ∈ u, (isHex c || c == 45) = true) :
    operationIdPattern.search (txt "op-" ++ u) = true := by
  rw [operationIdPattern, search_bol, isMatch_iff]
  generalize txt "op-" = op
  refine ⟨after ⟨true, op ++ u⟩ (op ++ u) [], ?_⟩
  rw [mem_ends_plain (by simp [plain, plus, dot])]
  refine ⟨op ++ u, ?_, by simp [after], rfl⟩
  refine lang_seq.mpr ⟨_, u, rfl, lang_lit.mpr rfl, lang_plus_set.mpr ⟨hne, fun c hc => ?_⟩⟩
  have hc := hu c hc
  simp only [isHex, isDigit, Bool.or_eq_true, Bool.and_eq_true, decide_eq_true_eq,
    beq_iff_eq] at hc
  simp only [bne_iff_ne]
  omega

/-- A run id has the form the receipt asks for. -/
theorem search_runIdPattern {t : Text} (h : isRunId t = true) :
    (anchored runIdPattern).search t = true := by
  rw [isRunId, Bool.and_eq_true, fullmatch_iff] at h
  obtain ⟨-, d, hd, hrest⟩ := h
  obtain ⟨m, hm, hd⟩ := mem_ends_seq.mp hd
  have hlang : isMatch (.seq runIdPattern .eos) t = true :=
    isMatch_iff.mpr ⟨d, mem_ends_seq.mpr ⟨m, hm, hd⟩⟩
  have hchar : (Regex.set isRunIdChar).plain = true := rfl
  have hplain : runIdPattern.plain = true := by
    rw [runIdPattern, plain, plain_upTo hchar, plain, Bool.and_self]
  exact search_anchored hplain ((isMatch_eos hplain).mp hlang)

/-! ## Members -/

@[simp] theorem lookup_optionalMember (key k : Text) (v : Option Json) :
    Json.lookup key (optionalMember k v) = if k = key then v else none := by
  cases v with
  | none => simp [optionalMember]
  | some v => simp [optionalMember]

@[simp] theorem all_optionalMember (k : Text) (v : Option Json) (p : Text × Json → Bool) :
    (optionalMember k v).all p = v.all fun x => p (k, x) := by
  cases v with
  | none => rfl
  | some v => simp [optionalMember]

@[simp] theorem lookup_flag (key k : Text) (v : Json) (b : Bool) :
    Json.lookup key (if b = true then [(k, v)] else []) =
      if k = key then if b = true then some v else none else none := by
  cases b <;> simp

@[simp] theorem same_str (bools : Bool) (a b : Text) :
    Json.same bools (.str a) (.str b) = (a == b) := by
  simp [Json.same, Json.sameScalar, Json.number, Json.unboxed]

/-- Distinct strings are distinct items. -/
theorem distinct_idsJson {ids : List Text} (h : ids.Nodup) :
    Json.distinct (ids.map .str) = true := by
  induction ids with
  | nil => rfl
  | cons id ids ih =>
    obtain ⟨hnotin, hrest⟩ := List.nodup_cons.mp h
    rw [List.map_cons, Json.distinct, ih hrest, Bool.and_true, Bool.not_eq_true',
      List.any_map, List.any_eq_false]
    intro x hx
    rw [Function.comp, same_str]
    simp only [beq_iff_eq]
    rintro rfl
    exact hnotin hx

/-- Ids that are named and not repeated are accepted. -/
theorem resourceIdsSchema_accepts {ids : List Text} (h : ids.Nodup) (hne : ∀ id ∈ ids, id ≠ []) :
    resourceIdsSchema.accepts (idsJson ids) = true := by
  have hitems : ((ids.map Json.str).all nonemptyString.accepts) = true := by
    rw [List.all_map, List.all_eq_true]
    intro id hid
    have hpos := List.length_pos_iff.mpr (hne id hid)
    simp [nonemptyString, accepts, acceptsAll, onString, Json.hasType]
    exact hpos
  simp [resourceIdsSchema, idsJson, accepts, acceptsAll, onArray, Json.hasType, hitems,
    distinct_idsJson h]

/-! ## The parts of a receipt -/

/-- An operation id as the receipt asks for it. -/
def IsOperationId (id : Text) : Prop := operationIdPattern.search id = true

theorem OperationStatus.text_ne_nil (status : OperationStatus) : status.text ≠ [] := by
  have hempty : txt "" = [] := rfl
  rw [← hempty]
  cases status <;> simp [OperationStatus.text]

theorem nonemptyString_accepts {t : Text} (h : t ≠ []) :
    nonemptyString.accepts (.str t) = true := by
  have hpos := List.length_pos_iff.mpr h
  simp [nonemptyString, accepts, acceptsAll, onString, Json.hasType]
  exact hpos

/-- An operation with an id is accepted. -/
theorem operationSchema_accepts {op : Operation} (h : IsOperationId op.id) :
    operationSchema.accepts op.json = true := by
  have hstatus := nonemptyString_accepts op.status.text_ne_nil
  have hid : operationIdPattern.search op.id = true := h
  simp [operationSchema, Operation.json, accepts, acceptsAll, acceptsMembers, onObject, hasKey,
    onString, Json.hasType, Json.bounded, Json.infinite, Json.number, hid, hstatus]

/-- Every disposition is accepted. -/
theorem dispositionSchema_accepts (d : RecordedDisposition) :
    artifactDispositionSchema.accepts d.json = true := by
  obtain ⟨status, detail⟩ := d
  have hdetail : (orNull (detail.map .str)).hasType .string = true ∨
      (orNull (detail.map .str)).hasType .null = true := by
    cases detail with
    | none => exact .inr rfl
    | some text => exact .inl rfl
  cases status <;>
    simp [artifactDispositionSchema, RecordedDisposition.json, ArtifactDisposition.text, accepts,
      acceptsAll, acceptsMembers, onObject, hasKey, hdetail] <;> rfl

/-- A resolution of an operation is accepted. -/
theorem resolutionSchema_accepts {r : ProvisionResolution} (h : IsOperationId r.operationId) :
    provisionResolutionSchema.accepts r.json = true := by
  have hid : operationIdPattern.search r.operationId = true := h
  simp [provisionResolutionSchema, closedObject, ProvisionResolution.json, timestampJson, accepts,
    acceptsAll, acceptsMembers, onObject, hasKey, onString, Json.hasType, hid]

/-- A scope of what has a name is accepted. -/
theorem spendScopeSchema_accepts {scope : SpendScope}
    (hres : ∀ id, scope = .resource id → id ≠ [])
    (hop : ∀ id n, scope = .provisionOperation id n → id ≠ []) :
    spendScopeSchema.accepts scope.json = true := by
  cases scope with
  | account =>
    simp [spendScopeSchema, closedObject, SpendScope.json, accepts, acceptsAll, acceptsCount,
      acceptsMembers, onObject, hasKey, Json.hasType]
  | resource id =>
    have hid := nonemptyString_accepts (hres id rfl)
    simp [spendScopeSchema, closedObject, SpendScope.json, accepts, acceptsAll, acceptsCount,
      acceptsMembers, onObject, hasKey, Json.hasType, hid]
  | run =>
    simp [spendScopeSchema, closedObject, SpendScope.json, accepts, acceptsAll, acceptsCount,
      acceptsMembers, onObject, hasKey, Json.hasType]
  | provisionOperation id notDispatched =>
    have hid := nonemptyString_accepts (hop id notDispatched rfl)
    cases notDispatched with
    | true =>
      simp [spendScopeSchema, closedObject, SpendScope.json, accepts, acceptsAll, acceptsCount,
        acceptsMembers, onObject, hasKey, Json.hasType, hid]
    | false =>
      simp [spendScopeSchema, closedObject, SpendScope.json, accepts, acceptsAll, acceptsCount,
        acceptsMembers, onObject, hasKey, Json.hasType, hid]

/-! ## The receipt -/

/-- What a state has to satisfy for its receipt to be valid. -/
structure Receiptable (s : RunState) : Prop where
  runId : isRunId s.runId = true
  closed : s.lifecycle = .closed
  result : s.workloadResult ≠ none
  approved : IsMoney s.approvedMaxUsd
  resource : ∀ r, s.resource = some r → r.id ≠ []
  operations : ∀ kind op, s.operations.get kind = some op → IsOperationId op.id
  disposition : s.closeout.artifactDisposition ≠ none
  deleted : s.closeout.deleteAcknowledged = true
  absent : s.closeout.providerNotFound = true
  spend : s.closeout.currentSpendUsdPerHour = some (txt "0")
  scope : ∃ scope, s.closeout.currentSpendScope = some scope ∧
    (∀ id, scope = .resource id → id ≠ []) ∧ ∀ id n, scope = .provisionOperation id n → id ≠ []
  acknowledged : ∀ ids, s.closeout.deleteAcknowledgedResourceIds = some ids →
    ids.Nodup ∧ ∀ id ∈ ids, id ≠ []
  resolution : ∀ r, s.closeout.provisionResolution = some r → IsOperationId r.operationId
  quarantined : ∀ ids, s.quarantinedResourceIds = some ids → ids.Nodup ∧ ∀ id ∈ ids, id ≠ []
  /-- an uncertain create without a resource is resolved -/
  resolved : s.resource = none → ∀ op, s.operations.provision = some op → op.attempts ≠ 0 →
    op.status.isUncertain = true →
    s.closeout.provisionAbsenceConfirmed = true ∧ s.closeout.provisionResolution ≠ none

/-- The closeout of a receiptable state is accepted. -/
theorem closeoutSchema_accepts {s : RunState} (h : Receiptable s) :
    closeoutSchema.accepts s.closeout.json = true := by
  obtain ⟨scope, hscope, hres, hop⟩ := h.scope
  obtain ⟨d, hd⟩ := Option.ne_none_iff_exists'.mp h.disposition
  have hdisposition := dispositionSchema_accepts d
  have hspend := spendScopeSchema_accepts hres hop
  have hacked : ∀ ids, s.closeout.deleteAcknowledgedResourceIds = some ids →
      resourceIdsSchema.accepts (idsJson ids) = true := by
    intro ids hids
    obtain ⟨hnodup, hne⟩ := h.acknowledged ids hids
    exact resourceIdsSchema_accepts hnodup hne
  have hresolution : ∀ r, s.closeout.provisionResolution = some r →
      provisionResolutionSchema.accepts r.json = true :=
    fun r hr => resolutionSchema_accepts (h.resolution r hr)
  have hobserved : ∀ t, s.closeout.provisionAbsenceFirstObservedAt = some t →
      (orNull (t.map timestampJson)).hasType .string = true ∨
        (orNull (t.map timestampJson)).hasType .null = true := by
    intro t _
    cases t with
    | none => exact .inr rfl
    | some t => exact .inl rfl
  have hbool : ∀ b, (Json.bool b).hasType .boolean = true := fun _ => rfl
  have htrue : Json.same false (.bool true) (.bool true) = true := rfl
  have hobject : ∀ kvs, (Json.obj kvs).hasType .object = true := fun _ => rfl
  simp [closeoutSchema, Closeout.json, accepts, acceptsAll, acceptsMembers, onObject, hasKey,
    Json.lookup_append, hd, h.deleted, h.absent, h.spend, hscope, hdisposition, hspend, orNull,
    hbool, htrue, hobject]
  refine ⟨?_, ?_, ?_, ?_⟩
  · cases hids : s.closeout.deleteAcknowledgedResourceIds with
    | none => rfl
    | some ids => exact hacked ids hids
  · cases s.closeout.provisionAbsenceConfirmed <;> rfl
  · cases ht : s.closeout.provisionAbsenceFirstObservedAt with
    | none => rfl
    | some t => exact Bool.or_eq_true_iff.mpr (hobserved t ht)
  · cases hr : s.closeout.provisionResolution with
    | none => rfl
    | some r => exact hresolution r hr

/-- The operations of a receiptable state are accepted. -/
theorem operationsSchema_accepts {s : RunState} (h : Receiptable s) :
    operationsSchema.accepts s.operations.json = true := by
  have hp := fun op hop => operationSchema_accepts (h.operations .provision op hop)
  have hs := fun op hop => operationSchema_accepts (h.operations .start op hop)
  have hd := fun op hop => operationSchema_accepts (h.operations .delete op hop)
  simp only [Operations.get] at hp hs hd
  have hobject : ∀ kvs, (Json.obj kvs).hasType .object = true := fun _ => rfl
  have hall : ∀ op : Option Operation, (∀ o, op = some o → operationSchema.accepts o.json = true) →
      (op.map Operation.json).all operationSchema.accepts = true := by
    intro op hop
    cases op with
    | none => rfl
    | some o => exact hop o rfl
  simp [operationsSchema, Operations.json, accepts, acceptsAll, acceptsMembers, onObject, hobject]
  exact ⟨hall _ hp, hall _ hs, hall _ hd⟩

/-- The resource of a receiptable state is accepted. -/
theorem resourceSchema_accepts {s : RunState} (h : Receiptable s) :
    resourceSchema.accepts ((s.resource.map Resource.json).getD .null) = true := by
  cases hres : s.resource with
  | none => rfl
  | some r =>
    have hid := nonemptyString_accepts (h.resource r hres)
    cases r with
    | projected r =>
      simp [resourceSchema, Resource.json, accepts, acceptsAll, acceptsMembers, onObject, hasKey]
      exact ⟨.inl rfl, hid⟩
    | named id =>
      simp [resourceSchema, Resource.json, accepts, acceptsAll, acceptsMembers, onObject, hasKey]
      exact ⟨.inl rfl, hid⟩

/-- The schema's uncertain statuses are those of the code. -/
theorem uncertain_status (status : OperationStatus) :
    (txt "dispatched" = status.text ∨ txt "outcome_unknown" = status.text ∨
      txt "unresolved" = status.text) ↔ status.isUncertain = true := by
  cases status <;> simp [OperationStatus.text, OperationStatus.isUncertain]

/-- The schema's condition is that of an uncertain create without a resource. -/
theorem uncertainProvisionSchema_iff {s : RunState} {n : ℕ} :
    uncertainProvisionSchema.accepts (.obj (closeoutReceipt s n)) = true ↔
      s.resource = none ∧ ∃ op, s.operations.provision = some op ∧ op.attempts ≠ 0 ∧
        op.status.isUncertain = true := by
  have hnull : ((s.resource.map Resource.json).getD .null).hasType .null = true ↔
      s.resource = none := by
    rcases s.resource with - | r
    · exact ⟨fun _ => rfl, fun _ => rfl⟩
    · cases r <;> exact ⟨fun h => (by cases h), fun h => by cases h⟩
  have hattempts : ∀ n : ℕ, (Json.int n).bounded (fun x => decide (1 ≤ x)) false true = true ↔
      n ≠ 0 := by
    intro n
    simp [Json.bounded, Json.infinite, Json.number, Nat.one_le_iff_ne_zero]
  simp [uncertainProvisionSchema, closeoutReceipt, RunState.json, Json.setKey, accepts, acceptsAll,
    acceptsMembers, onObject, hasKey, orNull, hnull]
  intro _
  cases hop : s.operations.provision with
  | none => simp [Operations.json, hop, Json.lookup_append]
  | some op =>
    have hstatus := uncertain_status op.status
    simp [Operations.json, hop, Operation.json, Json.lookup_append, hattempts, hstatus]
    exact and_comm

/-- The schema asks of a resolved create what the code does. -/
theorem resolvedProvisionSchema_iff {s : RunState} {n : ℕ} :
    resolvedProvisionSchema.accepts (.obj (closeoutReceipt s n)) = true ↔
      s.closeout.provisionAbsenceConfirmed = true ∧ s.closeout.provisionResolution ≠ none := by
  have htrue : Json.same false (.bool true) (.bool true) = true := rfl
  simp [resolvedProvisionSchema, closeoutReceipt, RunState.json, Json.setKey, accepts, acceptsAll,
    acceptsMembers, onObject, hasKey, Closeout.json, Json.lookup_append, ← Option.ne_none_iff_isSome]
  intro hconfirmed _
  simp [hconfirmed, htrue]

/-- **Validity.** The receipt of such a state is valid. -/
theorem receiptAccepted_of_receiptable {s : RunState} (h : Receiptable s) {n : ℕ} (hn : 1 ≤ n) :
    receiptAccepted s n = true := by
  have hcloseout := closeoutSchema_accepts h
  have hoperations := operationsSchema_accepts h
  have hresource := resourceSchema_accepts h
  have hrunId := search_runIdPattern h.runId
  have hmoney : (anchored nonnegativeMoneyPattern).search s.approvedMaxUsd = true :=
    search_anchored rfl h.approved.lang
  obtain ⟨result, hresult⟩ := Option.ne_none_iff_exists'.mp h.result
  have hobject : ∀ kvs, (Json.obj kvs).hasType .object = true := fun _ => rfl
  have hstring : ∀ t, (Json.str t).hasType .string = true := fun _ => rfl
  have hreason : ((s.recoveryReason.map Json.str).getD .null).hasType .string = true ∨
      ((s.recoveryReason.map Json.str).getD .null).hasType .null = true := by
    cases s.recoveryReason with
    | none => exact .inr rfl
    | some reason => exact .inl rfl
  have hsequence : (Json.int n).hasType .integer = true ∧
      (Json.int n).bounded (fun x => decide (1 ≤ x)) false true = true := by
    refine ⟨rfl, ?_⟩
    simp [Json.bounded, Json.infinite, Json.number, hn]
  have hresult' : txt "succeeded" = result.text ∨ txt "failed" = result.text ∨
      txt "cancelled" = result.text := by
    cases result <;> simp [WorkloadResult.text]
  have hif : uncertainProvisionSchema.accepts (.obj (closeoutReceipt s n)) = false ∨
      resolvedProvisionSchema.accepts (.obj (closeoutReceipt s n)) = true := by
    rw [resolvedProvisionSchema_iff, ← Bool.not_eq_true, uncertainProvisionSchema_iff]
    by_contra hno
    push Not at hno
    obtain ⟨⟨hres, op, hop, hattempts, huncertain⟩, hnot⟩ := hno
    obtain ⟨hconfirmed, hresolution⟩ := h.resolved hres op hop hattempts huncertain
    exact hresolution (hnot hconfirmed)
  rw [receiptAccepted, closeoutReceiptSchema]
  simp [closeoutReceipt, RunState.json, Json.setKey, accepts, acceptsAll, acceptsMembers, onObject,
    onString, hasKey, hresult, orNull, hobject, hstring, hrunId, hmoney, hcloseout, h.closed,
    hoperations, hresource, hreason, hsequence, hresult', LifecycleState.text] at hif ⊢
  refine ⟨?_, hif⟩
  cases hids : s.quarantinedResourceIds with
  | none => rfl
  | some ids =>
    obtain ⟨hnodup, hne⟩ := h.quarantined ids hids
    exact resourceIdsSchema_accepts hnodup hne

end RunpodJobrunner
