import RunpodJobrunner.CloseoutEvidence
import RunpodJobrunner.ReceiptValidity
import RunpodJobrunner.Conduct

/-!
# A closeout is not blocked by its own checks

Once the deletes are acknowledged and the absence is confirmed, a driven run
needs one observation that nothing is spent: the scope it recomputes is the one
it recorded, the proof it checks is complete and the receipt it builds is valid.
The ids are what can go wrong: the receipt wants those in quarantine distinct,
and a `find_resources` of a run without a resource that lists one twice puts it
there twice. So is the journal: one that does not read back stops every call.
-/

namespace RunpodJobrunner

/-! ## What the provider names -/

/-- The ids an answer names are not empty. -/
def Entry.Named : Entry → Prop
  | .find _ (some (.ok found)) => ∀ r ∈ found, r.id ≠ []
  | .create _ (some (.ok r)) | .get _ (some (.ok (some r))) | .start _ _ (some (.ok r)) => r.id ≠ []
  | .find _ (some (.error (.error (.rejected e))))
  | .create _ (some (.error (.error (.rejected e))))
  | .get _ (some (.error (.error (.rejected e))))
  | .start _ _ (some (.error (.error (.rejected e)))) => ∀ id ∈ e.resourceIds, id ≠ []
  | _ => True

/-- A find lists no resource twice. -/
def Entry.Distinct : Entry → Prop
  | .find _ (some (.ok found)) => (found.map ProviderResource.id).Nodup
  | _ => True

/-- The run has no resource. -/
def World.HoldsNothing (w : World) : Prop := ∃ s, w.current = some s ∧ s.resource = none

/-- A provider that names its resources, and to a run without one each only once. -/
def distinctAnswers : Answers := fun w e => e.Named ∧ (w.HoldsNothing → e.Distinct)

/-- The answer of a spend observation is zero. -/
def IsZeroSpend : Except ProviderFault Decimal → Prop
  | .ok spend => spend.isZero = true
  | .error _ => False

/-- A failure that is none of the program's own checks: the operating system fails the store,
or the provider raises. -/
def Failure.IsOutside : Failure → Prop
  | .store .io | .provider _ | .foreign => True
  | _ => False

variable {ctl : Controller} {env : Environment} {answers : Answers} {w w' : World} {α : Type}

/-! ## Ids -/

/-- A list of ids a receipt accepts. -/
def IdList (ids : List Text) : Prop := ids.Nodup ∧ ∀ id ∈ ids, id ≠ []

/-- The ids of a state can stand in a receipt. -/
structure Listed (s : RunState) : Prop where
  resource : ∀ id, s.resourceId = some id → id ≠ []
  quarantined : ∀ ids, s.quarantinedResourceIds = some ids → IdList ids
  acknowledged : ∀ ids, s.closeout.deleteAcknowledgedResourceIds = some ids → IdList ids

/-- Only the ids that are stored matter. -/
theorem Listed.congr {s s' : RunState} (h : Listed s) (hres : s'.resourceId = s.resourceId)
    (hquar : s'.quarantinedResourceIds = s.quarantinedResourceIds)
    (hack : s'.closeout.deleteAcknowledgedResourceIds = s.closeout.deleteAcknowledgedResourceIds) :
    Listed s' := by
  refine ⟨?_, ?_, ?_⟩
  · rw [hres]
    exact h.resource
  · rw [hquar]
    exact h.quarantined
  · rw [hack]
    exact h.acknowledged

/-- A resource the provider answered with. -/
theorem Listed.projected {s s' : RunState} {r : ProviderResource} (h : Listed s) (hid : r.id ≠ [])
    (hres : s'.resourceId = some r.id)
    (hquar : s'.quarantinedResourceIds = s.quarantinedResourceIds)
    (hack : s'.closeout.deleteAcknowledgedResourceIds = s.closeout.deleteAcknowledgedResourceIds) :
    Listed s' := by
  refine ⟨fun id hid' => ?_, ?_, ?_⟩
  · rw [hres] at hid'
    obtain rfl := Option.some.inj hid'
    exact hid
  · rw [hquar]
    exact h.quarantined
  · rw [hack]
    exact h.acknowledged

/-- The duplicates a find lists. -/
theorem Listed.duplicates {s s' : RunState} {first : ProviderResource}
    {found : List ProviderResource} (h : Listed s) (hne : ∀ r ∈ first :: found, r.id ≠ [])
    (hnodup : ((first :: found).map ProviderResource.id).Nodup)
    (hres : s'.resourceId = some first.id)
    (hquar : s'.quarantinedResourceIds = some ((first :: found).map ProviderResource.id))
    (hack : s'.closeout.deleteAcknowledgedResourceIds = s.closeout.deleteAcknowledgedResourceIds) :
    Listed s' := by
  refine ⟨fun id hid => ?_, fun ids hids => ?_, ?_⟩
  · rw [hres] at hid
    obtain rfl := Option.some.inj hid
    exact hne first List.mem_cons_self
  · rw [hquar] at hids
    obtain rfl := Option.some.inj hids
    refine ⟨hnodup, fun id hid => ?_⟩
    obtain ⟨r, hr, rfl⟩ := List.mem_map.mp hid
    exact hne r hr
  · rw [hack]
    exact h.acknowledged

/-- What a rejection names. -/
theorem Listed.adopts {s s' t : RunState} {e : ProviderRejected} (h : Listed s)
    (hadopts : Adopts t e.resourceIds s') (hne : ∀ id ∈ e.resourceIds, id ≠ [])
    (hres : ∀ id, t.resourceId = some id → id ≠ [])
    (hquar : t.quarantinedResourceIds = s.quarantinedResourceIds)
    (hack : s'.closeout.deleteAcknowledgedResourceIds = s.closeout.deleteAcknowledgedResourceIds) :
    Listed s' := by
  have hacked : ∀ ids, s'.closeout.deleteAcknowledgedResourceIds = some ids → IdList ids := by
    rw [hack]
    exact h.acknowledged
  rcases hadopts with ⟨-, hsame, hquar'⟩ | ⟨id, rest, hids, hres', hquar'⟩
  · refine ⟨hsame ▸ hres, ?_, hacked⟩
    rw [hquar', hquar]
    exact h.quarantined
  · refine ⟨fun x hx => ?_, fun ids hids' => ?_, hacked⟩
    · rw [hres'] at hx
      obtain rfl := Option.some.inj hx
      exact hne _ (hids ▸ List.mem_cons_self)
    · rw [hquar'] at hids'
      obtain rfl := Option.some.inj hids'
      exact ⟨e.nodup, hne⟩

/-- An id that is still to be deleted is none of the acknowledged ones. -/
theorem Listed.withReceipt {s : RunState} {op : Operation} {receipt : DeleteReceipt} {id : Text}
    (h : Listed s) (hmem : id ∈ s.deleteIds) (hnew : id ∉ s.acknowledgedIds) :
    Listed (s.withReceipt op receipt id) := by
  have hne : id ≠ [] := by
    rw [RunState.deleteIds] at hmem
    rcases hq : s.quarantinedResourceIds with - | ids
    · rw [hq] at hmem
      exact h.resource id (Option.mem_toList.mp hmem)
    · cases ids with
      | nil =>
        rw [hq] at hmem
        exact h.resource id (Option.mem_toList.mp hmem)
      | cons x xs =>
        rw [hq] at hmem
        exact (h.quarantined _ hq).2 id hmem
  have hold : IdList s.acknowledgedIds := by
    rw [RunState.acknowledgedIds]
    rcases hids : s.closeout.deleteAcknowledgedResourceIds with - | ids
    · exact ⟨List.nodup_nil, fun _ hid => by cases hid⟩
    · exact h.acknowledged ids hids
  refine ⟨h.resource, h.quarantined, fun ids hids => ?_⟩
  have heq : ids = s.acknowledgedIds ++ [id] := by
    have hids' := @withReceipt_acknowledgedIds s op receipt id hnew
    rw [RunState.acknowledgedIds, hids] at hids'
    exact hids'
  subst heq
  refine ⟨List.nodup_append.mpr ⟨hold.1, by simp, fun a ha b hb => ?_⟩,
    fun x hx => ?_⟩
  · obtain rfl : b = id := by simpa using hb
    rintro rfl
    exact hnew ha
  · rcases List.mem_append.mp hx with hx | hx
    · exact hold.2 x hx
    · obtain rfl : x = id := by simpa using hx
      exact hne

/-- What the provider answered: names, and to a run without a resource distinct ones. -/
structure Answering (w : World) : Prop where
  named : ∀ e ∈ w.trace, e.Named
  distinct : ∀ e rest, w.trace = e :: rest → w.HoldsNothing → e.Distinct
  unprovisioned : Unprovisioned w

/-- The last answer names its resources. -/
theorem Answering.head {e : Entry} {rest : List Entry} (h : Answering w)
    (ht : w.trace = e :: rest) : e.Named := by
  apply h.named
  rw [ht]
  exact List.mem_cons_self

/-- The answer before the last names its resources. -/
theorem Answering.second {e first : Entry} {rest : List Entry} (h : Answering w)
    (ht : w.trace = first :: e :: rest) : e.Named := by
  apply h.named
  rw [ht]
  exact List.mem_cons_of_mem _ List.mem_cons_self

/-- A commit stores each id once, as long as the answers list them once. -/
theorem Commit.listed {kind : Text} {s s' : RunState} (h : Commit ctl env w kind s')
    (hcur : w.current = some s) (hw : Answering w) (hs : Listed s) : Listed s' := by
  have hsame : ∀ {t : RunState}, w.current = some t → t = s := World.current_unique hcur
  cases h with
  | planned hempty _ _ _ => simp [World.current, hempty] at hcur
  | workloadTerminal hc _ _ _ | dispositionRecorded hc _ _ _ | intended hc _ =>
    obtain rfl := hsame hc
    exact hs.congr rfl rfl rfl
  | stopRequested hc _ _ =>
    obtain rfl := hsame hc
    exact hs.congr (by simp [RunState.resourceId]) (by simp) (by simp)
  -- the one commit that stores a listing as it was answered
  | duplicates hp ht =>
    obtain rfl := hsame hp.current
    have hnodup := hw.distinct _ _ ht ⟨_, hcur, hw.unprovisioned _ hcur (.inr hp.lifecycle)⟩
    have hne := hw.head ht
    exact hs.duplicates hne hnodup rfl rfl rfl
  | dispatched hp _ _ | createFailed hp _ _ | visibilityPending hp _ _ | visibilityExhausted hp _ _ =>
    obtain rfl := hsame hp.current
    exact hs.congr rfl rfl rfl
  -- a rejection names its ids without repetition
  | findRejected hp ht | createRejected hp ht =>
    obtain rfl := hsame hp.current
    have hne := hw.head ht
    exact hs.adopts (adopts_rejectedState _ _ _ _) hne hs.resource rfl (by simp)
  | found hp ht =>
    obtain rfl := hsame hp.current
    have hid := hw.head ht _ List.mem_cons_self
    exact hs.projected hid rfl rfl rfl
  | created hp ht =>
    obtain rfl := hsame hp.current
    have hid := hw.head ht
    exact hs.projected hid rfl rfl rfl
  | missing hr _ =>
    obtain rfl := hsame hr.current
    exact hs.congr rfl rfl rfl
  | getRejected hr ht =>
    obtain rfl := hsame hr.current
    have hne := hw.head ht
    exact hs.adopts (adopts_rejectedState _ _ _ _) hne hs.resource rfl (by simp)
  | observedRunning hr ht =>
    obtain rfl := hsame hr.current
    have hid := hw.head ht
    exact hs.projected hid rfl rfl rfl
  | startRejected hr ht =>
    obtain rfl := hsame hr.current
    have hne := hw.head ht
    have hid := hw.second ht
    refine hs.adopts (adopts_rejectedState _ _ _ _) hne (fun id hid' => ?_) rfl (by simp)
    obtain rfl := Option.some.inj hid'
    exact hid
  | startFailed hr _ ht =>
    obtain rfl := hsame hr.current
    have hid := hw.second ht
    exact hs.projected hid rfl rfl rfl
  | started hr _ ht =>
    obtain rfl := hsame hr.current
    have hid := hw.head ht
    exact hs.projected hid rfl rfl rfl
  | adoptRejected hu _ ht =>
    obtain rfl := hsame hu.current
    have hne := hw.head ht
    exact hs.adopts (adopts_firstObserved _ _ _) hne hs.resource rfl (by simp)
  | adoptDuplicates hu ht =>
    obtain rfl := hsame hu.current
    have hnodup := hw.distinct _ _ ht ⟨_, hcur, hu.resource⟩
    have hne := hw.head ht
    exact hs.duplicates hne hnodup rfl rfl rfl
  | adopted hu ht =>
    obtain rfl := hsame hu.current
    have hid := hw.head ht _ List.mem_cons_self
    exact hs.projected hid rfl rfl rfl
  | notDispatched hu _ | deadlinePending hu _ | absenceObserved hu _ _ _ _ _ | absencePending hu _
  | absenceConfirmed hu _ _ _ _ _ _ _ _ _ =>
    obtain rfl := hsame hu.current
    exact hs.congr rfl rfl rfl
  -- an acknowledgement is added where it was not there
  | deleted hc _ hmem hnew _ _ _ =>
    obtain rfl := hsame hc.current
    exact hs.withReceipt hmem hnew
  | nothingPending hc _ _ | deleteFailed hc _ _ | absent hc _ _ _ | deletionPending hc _ _
  | spendObserved hc _ _ _ _ _ _ _ | closed hc _ _ _ _ _ _ =>
    obtain rfl := hsame hc.current
    exact hs.congr rfl rfl rfl

/-! ## Operations -/

/-- Every operation has the id of its kind. -/
def Labelled (ctl : Controller) (ops : Operations) : Prop :=
  ∀ kind op, ops.get kind = some op → op.id = (ctl.newOperation kind).id

/-- An operation with its own id leaves them labelled. -/
theorem Labelled.set {ops : Operations} {op : Operation} {kind : OperationKind}
    (h : Labelled ctl ops) (hid : op.id = (ctl.newOperation kind).id) :
    Labelled ctl (ops.set op kind) := by
  intro kind' op' hop'
  by_cases hkind : kind' = kind
  · subst hkind
    obtain rfl : op = op' := by cases kind' <;> exact Option.some.inj hop'
    exact hid
  · refine h kind' op' ?_
    cases kind <;> cases kind' <;> first | exact absurd rfl hkind | exact hop'

/-- A default operation leaves them labelled. -/
theorem Labelled.setDefault {ops : Operations} (h : Labelled ctl ops) (kind : OperationKind) :
    Labelled ctl (ctl.setDefault kind ops) := by
  rw [Controller.setDefault_eq]
  refine h.set ?_
  cases hop : ops.get kind with
  | none => rfl
  | some op => exact h kind op hop

/-- A commit leaves every operation with its own id. -/
theorem Commit.labelled {kind : Text} {s s' : RunState} (h : Commit ctl env w kind s')
    (hcur : w.current = some s) (hs : Labelled ctl s.operations) : Labelled ctl s'.operations := by
  have hsame : ∀ {t : RunState}, w.current = some t → t = s := World.current_unique hcur
  cases h with
  | planned hempty _ _ _ => simp [World.current, hempty] at hcur
  | workloadTerminal hc _ _ _ =>
    obtain rfl := hsame hc
    exact hs
  | dispositionRecorded hc _ _ _ =>
    obtain rfl := hsame hc
    exact hs.setDefault .delete
  | stopRequested hc _ _ =>
    obtain rfl := hsame hc
    rw [stoppedState_operations]
    exact hs.setDefault .delete
  | intended hc _ =>
    obtain rfl := hsame hc
    exact hs.setDefault .provision
  | duplicates hp _ | visibilityExhausted hp _ _ =>
    obtain rfl := hsame hp.current
    have hid := hs .provision _ hp.operation
    refine Labelled.setDefault (@Labelled.set ctl _ _ .provision hs ?_) _
    exact hid
  | findRejected hp _ | createRejected hp _ =>
    obtain rfl := hsame hp.current
    rw [Controller.rejectedState, Controller.toDeleting, adoptNamed_operations]
    have hid := hs .provision _ hp.operation
    refine Labelled.setDefault (@Labelled.set ctl _ _ .provision hs ?_) _
    exact hid
  | dispatched hp _ _ | createFailed hp _ _ | visibilityPending hp _ _ =>
    obtain rfl := hsame hp.current
    have hid := hs .provision _ hp.operation
    refine @Labelled.set ctl _ _ .provision hs ?_
    exact hid
  | found hp _ | created hp _ =>
    obtain rfl := hsame hp.current
    have hid := hs .provision _ hp.operation
    refine Labelled.setDefault (@Labelled.set ctl _ _ .provision hs ?_) _
    exact hid
  | missing hr _ =>
    obtain rfl := hsame hr.current
    have hid := hs .start _ hr.operation
    refine Labelled.setDefault (@Labelled.set ctl _ _ .start hs ?_) _
    exact hid
  | getRejected hr _ | startRejected hr _ =>
    obtain rfl := hsame hr.current
    rw [Controller.rejectedState, Controller.toDeleting, adoptNamed_operations]
    have hid := hs .start _ hr.operation
    refine Labelled.setDefault (@Labelled.set ctl _ _ .start hs ?_) _
    exact hid
  | observedRunning hr _ | startFailed hr _ _ | started hr _ _ =>
    obtain rfl := hsame hr.current
    have hid := hs .start _ hr.operation
    refine @Labelled.set ctl _ _ .start hs ?_
    exact hid
  | adoptRejected hu _ _ =>
    obtain rfl := hsame hu.current
    rw [RunState.firstObserved, adoptNamed_operations]
    exact hs
  | adoptDuplicates hu _ | adopted hu _ | notDispatched hu _ | deadlinePending hu _
  | absenceObserved hu _ _ _ _ _ | absencePending hu _ | absenceConfirmed hu _ _ _ _ _ _ _ _ _ =>
    obtain rfl := hsame hu.current
    exact hs
  | nothingPending hc _ _ | deleteFailed hc _ _ | deleted hc _ _ _ _ _ _ =>
    obtain rfl := hsame hc.current
    have hid := hs .delete _ hc.operation
    refine @Labelled.set ctl _ _ .delete hs ?_
    exact hid
  | absent hc _ _ _ | deletionPending hc _ _ | spendObserved hc _ _ _ _ _ _ _
  | closed hc _ _ _ _ _ _ =>
    obtain rfl := hsame hc.current
    exact hs

/-- An operation id is one a receipt accepts. -/
theorem newOperation_isOperationId (kind : OperationKind) :
    IsOperationId (ctl.newOperation kind).id := by
  obtain ⟨hne, hhex⟩ := ctl.uuid5_text
    (txt "runpod-jobrunner/" ++ ctl.runId.val ++ txt "/" ++ kind.text ++ txt "/1")
  exact search_operationIdPattern hne hhex

/-- The run id and the approved amount never change. -/
theorem Commit.fixed {kind : Text} {s s' : RunState} (h : Commit ctl env w kind s')
    (hcur : w.current = some s) : s'.runId = s.runId ∧ s'.approvedMaxUsd = s.approvedMaxUsd := by
  have hsame : ∀ {t : RunState}, w.current = some t → t = s := World.current_unique hcur
  cases h with
  | planned hempty _ _ _ => simp [World.current, hempty] at hcur
  | workloadTerminal hc _ _ _ | dispositionRecorded hc _ _ _ | intended hc _ =>
    obtain rfl := hsame hc
    exact ⟨rfl, rfl⟩
  | stopRequested hc _ _ =>
    obtain rfl := hsame hc
    exact ⟨stoppedState_runId _ _ _, stoppedState_approvedMaxUsd _ _ _⟩
  | findRejected hp _ | createRejected hp _ =>
    obtain rfl := hsame hp.current
    simp
  | duplicates hp _ | dispatched hp _ _ | createFailed hp _ _ | found hp _ | created hp _
  | visibilityPending hp _ _ | visibilityExhausted hp _ _ =>
    obtain rfl := hsame hp.current
    exact ⟨rfl, rfl⟩
  | getRejected hr _ | startRejected hr _ =>
    obtain rfl := hsame hr.current
    simp
  | missing hr _ | observedRunning hr _ | startFailed hr _ _ | started hr _ _ =>
    obtain rfl := hsame hr.current
    exact ⟨rfl, rfl⟩
  | adoptRejected hu _ _ =>
    obtain rfl := hsame hu.current
    simp
  | adoptDuplicates hu _ | adopted hu _ | notDispatched hu _ | deadlinePending hu _
  | absenceObserved hu _ _ _ _ _ | absencePending hu _ | absenceConfirmed hu _ _ _ _ _ _ _ _ _ =>
    obtain rfl := hsame hu.current
    exact ⟨rfl, rfl⟩
  | nothingPending hc _ _ | deleteFailed hc _ _ | deleted hc _ _ _ _ _ _ | absent hc _ _ _
  | deletionPending hc _ _ | spendObserved hc _ _ _ _ _ _ _ | closed hc _ _ _ _ _ _ =>
    obtain rfl := hsame hc.current
    exact ⟨rfl, rfl⟩

/-! ## What a deletion rests on -/

/-- The result, the disposition and the delete operation of a run that is deleted. -/
structure Terminal (s : RunState) : Prop where
  result : s.workloadResult ≠ none
  disposition : s.closeout.artifactDisposition ≠ none
  delete : s.operations.delete ≠ none

/-- A run that goes on to `deleting` has its outcome. -/
theorem Commit.terminal {kind : Text} {s' : RunState}
    (h : Commit ctl (.supervised answers) w kind s')
    (hw : ∀ s, w.current = some s → s.lifecycle = .deleting → Terminal s)
    (hl : s'.lifecycle = .deleting) : Terminal s' := by
  cases h with
  | dispositionRecorded hc hissue _ _ =>
    obtain ⟨t, ht, hresult⟩ := hissue
    obtain rfl := Option.some.inj ht
    exact ⟨hresult, by simp, by simp⟩
  | stopRequested _ _ _ => exact ⟨by simp, by simp, by simp⟩
  | duplicates _ _ | findRejected _ _ | createRejected _ _ | missing _ _ | getRejected _ _
  | startRejected _ _ => exact ⟨by simp, by simp, by simp⟩
  | dispatched hp _ _ | createFailed hp _ _ | visibilityPending hp _ _ => simp [hp.lifecycle] at hl
  | startFailed hr _ _ => simp [hr.lifecycle] at hl
  | started hr hlife _ =>
    rcases hlife with ⟨-, rfl⟩ | ⟨-, rfl⟩
    · simp at hl
    · simp [hr.lifecycle] at hl
  | adoptRejected hu _ _ =>
    obtain ⟨hresult, hdisposition, hdelete⟩ := hw _ hu.current hu.lifecycle
    exact ⟨by simpa using hresult, by simpa using hdisposition, by simpa using hdelete⟩
  | adoptDuplicates hu _ | adopted hu _ | notDispatched hu _ | deadlinePending hu _
  | absenceObserved hu _ _ _ _ _ | absencePending hu _ | absenceConfirmed hu _ _ _ _ _ _ _ _ _ =>
    obtain ⟨hresult, hdisposition, hdelete⟩ := hw _ hu.current hu.lifecycle
    exact ⟨hresult, hdisposition, hdelete⟩
  | nothingPending hc _ _ | deleteFailed hc _ _ | deleted hc _ _ _ _ _ _ =>
    obtain ⟨hresult, hdisposition, -⟩ := hw _ hc.current hc.lifecycle
    exact ⟨hresult, hdisposition, by simp⟩
  | absent hc _ _ _ | deletionPending hc _ _ | spendObserved hc _ _ _ _ _ _ _ =>
    obtain ⟨hresult, hdisposition, hdelete⟩ := hw _ hc.current hc.lifecycle
    exact ⟨hresult, hdisposition, hdelete⟩
  | closed _ _ _ _ _ _ _ => simp at hl
  | _ => simp at hl

/-- Past the workload: nothing is provisioned or started any more. -/
def Past (s : RunState) : Prop :=
  s.lifecycle = .recovering ∨ s.lifecycle = .deleting ∨ s.lifecycle = .closed

/-- What the settlement of a create consists of is the same. -/
structure SameSettlement (s s' : RunState) : Prop where
  resource : s'.resource = s.resource
  provision : s'.operations.provision = s.operations.provision
  confirmed : s'.closeout.provisionAbsenceConfirmed = s.closeout.provisionAbsenceConfirmed
  resolution : s'.closeout.provisionResolution = s.closeout.provisionResolution

/-- A run that is past its start does not provision. -/
theorem Past.not_provisioning {s : RunState} {op : Operation} (h : Past s) :
    ¬Provisioning w s op := by
  intro hp
  simp [Past, hp.lifecycle] at h

/-- A run that is past its start starts no workload. -/
theorem Past.not_starting {s : RunState} {op : Operation} {resource : Resource} (h : Past s) :
    ¬Starting w s op resource := by
  intro hr
  simp [Past, hr.lifecycle] at h

/-- A run that is past its workload stays so. -/
theorem Commit.past {kind : Text} {s s' : RunState} (h : Commit ctl env w kind s')
    (hcur : w.current = some s) (hpast : Past s) : Past s' := by
  have hsame : ∀ {t : RunState}, w.current = some t → t = s := World.current_unique hcur
  cases h with
  | planned hempty _ _ _ => simp [World.current, hempty] at hcur
  | workloadTerminal _ _ _ _ => exact .inl rfl
  | dispositionRecorded _ _ _ _ => exact .inr (.inl rfl)
  | stopRequested _ _ _ => exact .inr (.inl rfl)
  | intended hc hl =>
    obtain rfl := hsame hc
    simp [Past, hl] at hpast
  | duplicates hp _ | dispatched hp _ _ | createFailed hp _ _ | found hp _ | created hp _
  | visibilityPending hp _ _ | visibilityExhausted hp _ _ | findRejected hp _
  | createRejected hp _ =>
    obtain rfl := hsame hp.current
    exact absurd hp hpast.not_provisioning
  | missing hr _ | getRejected hr _ | observedRunning hr _ | startRejected hr _
  | startFailed hr _ _ | started hr _ _ =>
    obtain rfl := hsame hr.current
    exact absurd hr hpast.not_starting
  | adoptRejected hu _ _ => exact .inr (.inl (by simp [hu.lifecycle]))
  | adoptDuplicates hu _ | adopted hu _ | notDispatched hu _ | deadlinePending hu _
  | absenceObserved hu _ _ _ _ _ | absencePending hu _ | absenceConfirmed hu _ _ _ _ _ _ _ _ _ =>
    exact .inr (.inl hu.lifecycle)
  | nothingPending hc _ _ | deleteFailed hc _ _ | deleted hc _ _ _ _ _ _ | absent hc _ _ _
  | deletionPending hc _ _ | spendObserved hc _ _ _ _ _ _ _ => exact .inr (.inl hc.lifecycle)
  | closed _ _ _ _ _ _ _ => exact .inr (.inr rfl)

/-- Nothing changes a settled create of a run that is past its workload. -/
theorem Commit.sameSettlement {kind : Text} {s s' : RunState} (h : Commit ctl env w kind s')
    (hcur : w.current = some s) (hpast : Past s) (hset : Settled s) : SameSettlement s s' := by
  have hsame : ∀ {t : RunState}, w.current = some t → t = s := World.current_unique hcur
  cases h with
  | planned hempty _ _ _ => simp [World.current, hempty] at hcur
  | workloadTerminal hc _ _ _ =>
    obtain rfl := hsame hc
    exact ⟨rfl, rfl, rfl, rfl⟩
  | dispositionRecorded hc _ _ _ =>
    obtain rfl := hsame hc
    exact ⟨rfl, by simp, rfl, rfl⟩
  | stopRequested hc _ _ =>
    obtain rfl := hsame hc
    exact ⟨by simp, by simp, by simp, by simp⟩
  | intended hc hl =>
    obtain rfl := hsame hc
    simp [Past, hl] at hpast
  | duplicates hp _ | dispatched hp _ _ | createFailed hp _ _ | found hp _ | created hp _
  | visibilityPending hp _ _ | visibilityExhausted hp _ _ | findRejected hp _
  | createRejected hp _ =>
    obtain rfl := hsame hp.current
    exact absurd hp hpast.not_provisioning
  | missing hr _ | getRejected hr _ | observedRunning hr _ | startRejected hr _
  | startFailed hr _ _ | started hr _ _ =>
    obtain rfl := hsame hr.current
    exact absurd hr hpast.not_starting
  | adoptRejected hu _ _ | adoptDuplicates hu _ | adopted hu _ | notDispatched hu _
  | deadlinePending hu _ | absenceObserved hu _ _ _ _ _ | absencePending hu _
  | absenceConfirmed hu _ _ _ _ _ _ _ _ _ =>
    obtain rfl := hsame hu.current
    exact absurd hset hu.not_settled
  | nothingPending hc _ _ | deleteFailed hc _ _ | deleted hc _ _ _ _ _ _ | absent hc _ _ _
  | deletionPending hc _ _ | spendObserved hc _ _ _ _ _ _ _ | closed hc _ _ _ _ _ _ =>
    obtain rfl := hsame hc.current
    exact ⟨rfl, rfl, rfl, rfl⟩

/-- A resolution depends on the request and on what is settled. -/
theorem Controller.Resolved.congr {s s' : RunState} (h : ctl.Resolved w s s.closeout)
    (hsame : SameSettlement s s') (hreq : w'.request = w.request) :
    ctl.Resolved w' s' s'.closeout := by
  rcases h with hres | hnone | ⟨provision, hp, hdone⟩
  · exact .inl (hsame.resource.trans_ne hres)
  · exact .inr (.inl (hsame.provision.trans hnone))
  · refine .inr (.inr ⟨provision, hsame.provision.trans hp, ?_⟩)
    refine hdone.imp_right (Or.imp_right ?_)
    rintro ⟨resolution, request, text, deadline, hrec, hr, hd, hok⟩
    refine ⟨resolution, request, text, deadline, hsame.resolution.trans hrec, hreq.trans hr, hd, ?_⟩
    rw [resolves] at hok ⊢
    rw [hsame.confirmed]
    exact hok

/-- Two states settle the same, both ways round. -/
theorem SameSettlement.symm {s s' : RunState} (h : SameSettlement s s') : SameSettlement s' s :=
  ⟨h.resource.symm, h.provision.symm, h.confirmed.symm, h.resolution.symm⟩

/-- Two states that settle the same have the same resource. -/
theorem SameSettlement.resourceId {s s' : RunState} (h : SameSettlement s s') :
    s'.resourceId = s.resourceId := by
  rw [RunState.resourceId, h.resource]
  rfl

/-- The scope of a spend depends on what is settled alone. -/
theorem Controller.ScopeOf.congr {s s' : RunState} {scope : SpendScope}
    (h : ctl.ScopeOf w s s.closeout scope) (hsame : SameSettlement s s')
    (hreq : w'.request = w.request) : ctl.ScopeOf w' s' s'.closeout scope := by
  have hid := hsame.resourceId
  have hp := hsame.provision
  cases h with
  | resource h => exact .resource (hid.trans h)
  | noVolume h hr hv => exact .noVolume (hid.trans h) (hreq.trans hr) hv
  | run h hr hv hnone => exact .run (hid.trans h) (hreq.trans hr) hv (hp.trans hnone)
  | notDispatched h hr hv hop ha =>
    exact .notDispatched (hid.trans h) (hreq.trans hr) hv (hp.trans hop) ha
  | account h hr hv hop ha hu =>
    refine .account (hid.trans h) (hreq.trans hr) hv (hp.trans hop) ha
      (hu.imp_right fun hno hyes => ?_)
    exact hno (hyes.congr hsame.symm hreq.symm)
  | absence h hr hv hop ha hu hres =>
    exact .absence (hid.trans h) (hreq.trans hr) hv (hp.trans hop) ha hu (hres.congr hsame hreq)

/-- The scope is determined by the state. -/
theorem Controller.ScopeOf.unique {s : RunState} {c : Closeout} {scope scope' : SpendScope}
    (h : ctl.ScopeOf w s c scope) (h' : ctl.ScopeOf w s c scope') : scope = scope' := by
  cases h <;> cases h' <;> simp_all

/-- A commit keeps the recorded scope, or records the scope of the state. -/
theorem Commit.scope_cases {kind : Text} {s s' : RunState} (h : Commit ctl env w kind s')
    (hcur : w.current = some s) :
    s'.closeout.currentSpendScope = s.closeout.currentSpendScope ∨
      ∃ scope, ctl.ScopeOf w s s.closeout scope ∧ s.closeout.deleteAcknowledged = true ∧
        s'.closeout.currentSpendScope = some scope := by
  have hsame : ∀ {t : RunState}, w.current = some t → t = s := World.current_unique hcur
  cases h with
  | planned hempty _ _ _ => simp [World.current, hempty] at hcur
  | stopRequested hc _ _ =>
    obtain rfl := hsame hc
    exact .inl (by simp)
  | workloadTerminal hc _ _ _ | dispositionRecorded hc _ _ _ | intended hc _ =>
    obtain rfl := hsame hc
    exact .inl rfl
  | findRejected hp _ | createRejected hp _ =>
    obtain rfl := hsame hp.current
    exact .inl (by simp)
  | duplicates hp _ | dispatched hp _ _ | createFailed hp _ _ | found hp _ | created hp _
  | visibilityPending hp _ _ | visibilityExhausted hp _ _ =>
    obtain rfl := hsame hp.current
    exact .inl rfl
  | getRejected hr _ | startRejected hr _ =>
    obtain rfl := hsame hr.current
    exact .inl (by simp)
  | missing hr _ | observedRunning hr _ | startFailed hr _ _ | started hr _ _ =>
    obtain rfl := hsame hr.current
    exact .inl rfl
  | adoptRejected hu _ _ =>
    obtain rfl := hsame hu.current
    exact .inl (by simp)
  | adoptDuplicates hu _ | adopted hu _ | notDispatched hu _ | deadlinePending hu _
  | absenceObserved hu _ _ _ _ _ | absencePending hu _ | absenceConfirmed hu _ _ _ _ _ _ _ _ _ =>
    obtain rfl := hsame hu.current
    exact .inl rfl
  | nothingPending hc _ _ | deleteFailed hc _ _ | deleted hc _ _ _ _ _ _ | absent hc _ _ _
  | deletionPending hc _ _ =>
    obtain rfl := hsame hc.current
    exact .inl rfl
  | spendObserved hc hd _ hscope _ _ _ _ | closed hc hd _ hscope _ _ _ =>
    obtain rfl := hsame hc.current
    exact .inr ⟨_, hscope, hd, rfl⟩

/-- The request has a deadline. -/
def Controller.Dated (ctl : Controller) (w : World) : Prop :=
  ∃ request d, w.request = some request ∧ ctl.terminationDeadline request = .ok d

/-- Two observations five seconds apart, after the deadline if one is required,
resolve the create. -/
theorem Unsettled.resolved {s : RunState} {op provision : Operation}
    {deadline : Option (Text × DateTime)} {now first : DateTime} (hu : Unsettled w s op provision)
    (hd : ctl.Deadline w provision deadline) (ha : provision.attempts ≠ 0)
    (hnow : now.isAware = true) (hfirst : first.isAware = true)
    (hafter : isBefore first deadline = false) (hgrace : absenceGrace ≤ now.elapsed first) :
    ctl.Resolved w
      (s.absenceConfirmed (deadline.map fun d => ⟨provision.id, d.1, first, now⟩))
      (s.absenceConfirmed (deadline.map fun d => ⟨provision.id, d.1, first, now⟩)).closeout := by
  refine .inr (.inr ⟨provision, hu.provision, .inr ?_⟩)
  rw [Controller.Deadline] at hd
  by_cases hcertain : provision.status.isUncertain = false
  · exact .inl hcertain
  rw [if_pos ⟨Nat.pos_of_ne_zero ha, by simpa using hcertain⟩] at hd
  obtain ⟨request, d, hr, hok, rfl⟩ := hd
  refine .inr ⟨_, request, d.1, d.2, rfl, hr, hok, ?_⟩
  have hle : d.2.instant ≤ first.instant := by simpa [isBefore] using hafter
  simp [resolves, hnow, hfirst, hle, hgrace]

/-- A commit keeps what the settlement of the create was recorded as, or records
a complete one. -/
theorem Commit.settlement_cases {kind : Text} {s s' : RunState} (h : Commit ctl env w kind s')
    (hcur : w.current = some s) :
    (s'.closeout.provisionAbsenceConfirmed = s.closeout.provisionAbsenceConfirmed ∧
      s'.closeout.provisionResolution = s.closeout.provisionResolution) ∨
    (Past s' ∧ ctl.Resolved w s' s'.closeout ∧ ∀ r, s'.closeout.provisionResolution = some r →
      s.closeout.provisionResolution = some r ∨
        ctl.Dated w ∧ ∃ op, s.operations.provision = some op ∧ r.operationId = op.id) := by
  have hsame : ∀ {t : RunState}, w.current = some t → t = s := World.current_unique hcur
  cases h with
  | planned hempty _ _ _ => simp [World.current, hempty] at hcur
  | stopRequested hc _ _ =>
    obtain rfl := hsame hc
    exact .inl ⟨by simp, by simp⟩
  | workloadTerminal hc _ _ _ | dispositionRecorded hc _ _ _ | intended hc _ =>
    obtain rfl := hsame hc
    exact .inl ⟨rfl, rfl⟩
  | findRejected hp _ | createRejected hp _ =>
    obtain rfl := hsame hp.current
    exact .inl ⟨by simp, by simp⟩
  | duplicates hp _ | dispatched hp _ _ | createFailed hp _ _ | found hp _ | created hp _
  | visibilityPending hp _ _ | visibilityExhausted hp _ _ =>
    obtain rfl := hsame hp.current
    exact .inl ⟨rfl, rfl⟩
  | getRejected hr _ | startRejected hr _ =>
    obtain rfl := hsame hr.current
    exact .inl ⟨by simp, by simp⟩
  | missing hr _ | observedRunning hr _ | startFailed hr _ _ | started hr _ _ =>
    obtain rfl := hsame hr.current
    exact .inl ⟨rfl, rfl⟩
  | adoptRejected hu _ _ =>
    obtain rfl := hsame hu.current
    exact .inl ⟨by simp, by simp⟩
  | adoptDuplicates hu _ | adopted hu _ | deadlinePending hu _ | absenceObserved hu _ _ _ _ _
  | absencePending hu _ =>
    obtain rfl := hsame hu.current
    exact .inl ⟨rfl, rfl⟩
  | notDispatched hu ha =>
    obtain rfl := hsame hu.current
    exact .inr ⟨.inr (.inl hu.lifecycle), .inr (.inr ⟨_, hu.provision, .inl ha⟩), fun r hr => .inl hr⟩
  | @absenceConfirmed _ _ provision deadline now first _ hu ha hd _ hnow _ _ hfirst hafter hgrace =>
    obtain rfl := hsame hu.current
    refine .inr ⟨.inr (.inl hu.lifecycle), hu.resolved hd ha hnow hfirst hafter hgrace,
      fun r hr => ?_⟩
    cases deadline with
    | none => exact .inl hr
    | some d =>
      obtain rfl := Option.some.inj hr
      rw [Controller.Deadline] at hd
      split at hd
      · obtain ⟨request, d', hrequest, hok, -⟩ := hd
        exact .inr ⟨⟨request, d', hrequest, hok⟩, provision, hu.provision, rfl⟩
      · cases hd
  | nothingPending hc _ _ | deleteFailed hc _ _ | deleted hc _ _ _ _ _ _ | absent hc _ _ _
  | deletionPending hc _ _ | spendObserved hc _ _ _ _ _ _ _ | closed hc _ _ _ _ _ _ =>
    obtain rfl := hsame hc.current
    exact .inl ⟨rfl, rfl⟩

/-! ## The invariant -/

/-- What every state of a driven run keeps. -/
structure Closable (ctl : Controller) (w : World) (s : RunState) : Prop where
  runId : s.runId = ctl.runId.val
  approved : IsMoney s.approvedMaxUsd
  labelled : Labelled ctl s.operations
  listed : Listed s
  terminal : s.lifecycle = .deleting → Terminal s
  complete : s.closeout.deleteAcknowledged = true → Complete s
  confirmed : s.closeout.provisionAbsenceConfirmed = true → Past s ∧ ctl.Resolved w s s.closeout
  resolution : ∀ r, s.closeout.provisionResolution = some r →
    ctl.Dated w ∧ r.operationId = (ctl.newOperation .provision).id
  scope : ∀ scope, s.closeout.currentSpendScope = some scope →
    s.closeout.deleteAcknowledged = true ∧ ctl.ScopeOf w s s.closeout scope

/-- A planned run can be closed some day. -/
theorem closable_initialState {text : Text} (h : IsMoney text) :
    Closable ctl w (ctl.initialState text) where
  runId := rfl
  approved := h
  labelled := by
    intro kind op hop
    cases kind <;> cases hop
  listed := ⟨fun _ h => (by cases h), fun _ h => (by cases h), fun _ h => by cases h⟩
  terminal := fun h => by cases h
  complete := fun h => by cases h
  confirmed := fun h => by cases h
  resolution := fun _ h => by cases h
  scope := fun _ h => by cases h

/-- A run that only waits for its spend is past its start. -/
theorem Complete.past {s : RunState} (h : Complete s) : Past s := h.lifecycle

/-- A commit leaves a run that can be closed. -/
theorem Commit.closable {kind : Text} {s' : RunState}
    (h : Commit ctl (.supervised answers) w kind s') (hanswering : Answering w)
    (hw : ∀ s, w.current = some s → Closable ctl w s) : Closable ctl w s' := by
  rcases h.source with ⟨s, hcur⟩ | ⟨-, -, -, text, hmoney, rfl⟩
  swap
  · exact closable_initialState hmoney
  have hs := hw s hcur
  obtain ⟨hrunId, happroved⟩ := h.fixed hcur
  refine
    { runId := hrunId.trans hs.runId
      approved := by rw [happroved]; exact hs.approved
      labelled := h.labelled hcur hs.labelled
      listed := h.listed hcur hanswering hs.listed
      terminal := h.terminal fun t ht => (hw t ht).terminal
      complete := h.complete fun t ht => (hw t ht).complete
      confirmed := ?_
      resolution := ?_
      scope := ?_ }
  · intro hc
    rcases h.settlement_cases hcur with ⟨hsame, -⟩ | ⟨hpast, hres, -⟩
    · obtain ⟨hpast, hres⟩ := hs.confirmed (hsame ▸ hc)
      have hset : Settled s := .inr (.inr (hsame ▸ hc))
      exact ⟨h.past hcur hpast, hres.congr (h.sameSettlement hcur hpast hset) rfl⟩
    · exact ⟨hpast, hres⟩
  · intro r hr
    rcases h.settlement_cases hcur with ⟨-, hsame⟩ | ⟨-, -, hnew⟩
    · exact hs.resolution r (hsame ▸ hr)
    · rcases hnew r hr with hold | ⟨hdated, op, hop, hid⟩
      · exact hs.resolution r hold
      · exact ⟨hdated, hid.trans (hs.labelled .provision op hop)⟩
  · intro scope hscope
    have hkept : s.closeout.deleteAcknowledged = true → ctl.ScopeOf w s s.closeout scope →
        s'.closeout.deleteAcknowledged = true ∧ ctl.ScopeOf w s' s'.closeout scope := by
      intro hd hof
      have hcomplete := hs.complete hd
      refine ⟨?_, hof.congr (h.sameSettlement hcur hcomplete.past hcomplete.settled) rfl⟩
      rcases h.acknowledged_cases hcur with ⟨hsame, -⟩ | ⟨hfalse, -⟩
      · exact hsame.trans hd
      · rw [hd] at hfalse
        cases hfalse
    rcases h.scope_cases hcur with hsame | ⟨scope', hof, hd, hnew⟩
    · obtain ⟨hd, hof⟩ := hs.scope scope (hsame ▸ hscope)
      exact hkept hd hof
    · rw [hnew] at hscope
      obtain rfl := Option.some.inj hscope
      exact hkept hd hof

/-- Whether it can depends on the world by the request alone. -/
theorem Closable.congr {s : RunState} (h : Closable ctl w s) (hreq : w'.request = w.request) :
    Closable ctl w' s := by
  have hsame : SameSettlement s s := ⟨rfl, rfl, rfl, rfl⟩
  refine { h with confirmed := ?_, resolution := ?_, scope := ?_ }
  · intro hc
    obtain ⟨hpast, hres⟩ := h.confirmed hc
    exact ⟨hpast, hres.congr hsame hreq⟩
  · intro r hr
    obtain ⟨⟨request, d, hrequest, hok⟩, hid⟩ := h.resolution r hr
    exact ⟨⟨request, d, hreq.trans hrequest, hok⟩, hid⟩
  · intro scope hscope
    obtain ⟨hd, hof⟩ := h.scope scope hscope
    exact ⟨hd, hof.congr hsame hreq⟩

/-- The answers keep naming resources, and each once. -/
theorem Step.answering (hstep : Step ctl (.supervised distinctAnswers) w w') (h : Answering w) :
    Answering w' := by
  refine ⟨?_, ?_, hstep.unprovisioned h.unprovisioned⟩
  · cases hstep with
    | @saw e hallow _ =>
      intro e' he
      rcases List.mem_cons.mp he with rfl | hold
      · cases e' with
        | find op a | create r a | get id a | start id op a | delete id op a | spend id a =>
          cases a with
          | none => trivial
          | some a => exact hallow.1
        | clock t | commit e => trivial
      · exact h.named e' hold
    | commit _ hc _ =>
      intro e he
      rcases List.mem_cons.mp he with rfl | hold
      · trivial
      · exact h.named e hold
    | request _ _ | corrupt | snapshot _ | receipt _ _ => exact h.named
  · cases hstep with
    | @saw e hallow _ =>
      intro e' rest ht hnothing
      obtain ⟨rfl, -⟩ := List.cons.inj ht
      cases e with
      | find op a =>
        cases a with
        | none => trivial
        | some a => exact hallow.2 hnothing
      | _ => trivial
    | commit _ hc _ =>
      intro e rest ht _
      obtain ⟨rfl, -⟩ := List.cons.inj ht
      trivial
    | request _ _ | corrupt | snapshot _ | receipt _ _ => exact h.distinct

/-- What a driven run keeps. -/
structure Proceeds (ctl : Controller) (w : World) : Prop where
  answering : Answering w
  closable : ∀ s, w.current = some s → Closable ctl w s

/-- What proceeds holds of the empty world. -/
theorem proceeds_empty : Proceeds ctl .empty where
  answering := ⟨fun _ he => (by cases he), fun _ _ ht => (by cases ht), fun _ hs => by cases hs⟩
  closable := fun _ hs => by cases hs

/-- What proceeds holds after every step. -/
theorem Step.proceeds (hstep : Step ctl (.supervised distinctAnswers) w w')
    (h : Proceeds ctl w) : Proceeds ctl w' := by
  refine ⟨hstep.answering h.answering, ?_⟩
  cases hstep with
  | commit _ hc _ =>
    intro s hs
    obtain rfl := Option.some.inj hs
    exact (hc.closable h.answering h.closable).congr rfl
  | request hempty _ =>
    intro s hs
    simp [World.current, hempty] at hs
  | saw _ _ | corrupt | snapshot _ | receipt _ _ =>
    exact fun s hs => (h.closable s hs).congr rfl

/-! ## The closeout -/

/-- Between the two worlds the spend was asked for, and the answer was not zero. -/
def SpendsOtherwise (w : World) (s : RunState) (w' : World) : Prop :=
  ∃ a newer, w'.trace = newer ++ .spend s.resourceId (some a) :: w.trace ∧ ¬IsZeroSpend a

/-- A spend that was not zero stays in the trace. -/
theorem SpendsOtherwise.cons {s : RunState} {w₁ : World} {e : Entry} (h : SpendsOtherwise w s w₁)
    (ht : w'.trace = e :: w₁.trace) : SpendsOtherwise w s w' := by
  obtain ⟨a, newer, ht₁, ha⟩ := h
  rw [ht₁] at ht
  exact ⟨a, e :: newer, ht, ha⟩

/-- A closeout that returns has closed the run, or there was a spend. -/
def ClosesOut (w : World) (s : RunState) (p : Projection) (w' : World) : Prop :=
  SpendsOtherwise w s w' ∨
    p.state.lifecycle = .closed ∧ w'.events = ⟨txt "closeout_completed", p⟩ :: w.events

/-- A closeout that raises does so for the store, or for what the provider said. -/
def FailsOutside (w : World) (s : RunState) (e : Failure) (w' : World) : Prop :=
  (∃ error, e = .store error) ∨ e.IsOutside ∧ SpendsOtherwise w s w'

/-- A store that fails is a failure of the outside. -/
theorem failsOutside_store {s : RunState} (error : StoreError) (w' : World) :
    FailsOutside w s (.store error) w' := .inl ⟨error, rfl⟩

/-- An operation has an id. -/
theorem newOperation_id_ne_nil (kind : OperationKind) : (ctl.newOperation kind).id ≠ [] := by
  have hop : txt "op-" = [111, 112, 45] := by decide
  rw [Controller.newOperation, hop]
  exact List.cons_ne_nil _ _

/-- The create of a run whose deletes are acknowledged is resolved. -/
theorem Closable.resolved {s : RunState} (h : Closable ctl w s)
    (hd : s.closeout.deleteAcknowledged = true) : ctl.Resolved w s s.closeout := by
  rcases (h.complete hd).settled with hres | hnone | hconfirmed
  · exact .inl hres
  · exact .inr (.inl hnone)
  · exact (h.confirmed hconfirmed).2

/-- The ids in a scope of such a state are not empty. -/
theorem Closable.scope_ids {s : RunState} {scope : SpendScope} (h : Closable ctl w s)
    (hof : ctl.ScopeOf w s s.closeout scope) :
    (∀ id, scope = .resource id → id ≠ []) ∧ ∀ id n, scope = .provisionOperation id n → id ≠ [] := by
  have hop : ∀ op, s.operations.provision = some op → op.id ≠ [] := by
    intro op hop
    rw [h.labelled .provision op hop]
    exact newOperation_id_ne_nil _
  refine ⟨?_, ?_⟩
  · rintro id rfl
    cases hof with
    | resource hid => exact h.listed.resource id hid
  · rintro id n rfl
    cases hof with
    | notDispatched _ _ _ hp _ => exact hop _ hp
    | absence _ _ _ hp _ _ _ => exact hop _ hp

/-- The receipt of the closeout is valid. -/
theorem Closable.receiptable {s : RunState} {spend : Decimal} {scope : SpendScope}
    (h : Closable ctl w s) (hl : s.lifecycle = .deleting)
    (hd : s.closeout.deleteAcknowledged = true) (hn : s.closeout.providerNotFound = true)
    (hof : ctl.ScopeOf w s s.closeout scope) (hzero : spend.isZero = true) :
    Receiptable { s.withSpend spend scope with lifecycle := .closed } where
  runId := by
    have hid : isRunId ctl.runId.val = true := ctl.runId.property
    rw [← h.runId] at hid
    exact hid
  closed := rfl
  result := (h.terminal hl).result
  approved := h.approved
  resource := fun r hr => h.listed.resource r.id (by
    rw [RunState.resourceId, show s.resource = some r from hr]
    rfl)
  operations := fun kind op hop => by
    rw [h.labelled kind op hop]
    exact newOperation_isOperationId kind
  disposition := (h.terminal hl).disposition
  deleted := hd
  absent := hn
  spend := by
    rw [RunState.withSpend, formatMoney, if_pos hzero]
  scope := ⟨scope, rfl, h.scope_ids hof⟩
  acknowledged := h.listed.acknowledged
  resolution := fun r hr => by
    rw [(h.resolution r hr).2]
    exact newOperation_isOperationId _
  quarantined := h.listed.quarantined
  resolved := by
    intro hres op hop hattempts huncertain
    have hres : s.resource = none := hres
    have hop : s.operations.provision = some op := hop
    rcases (h.complete hd).settled with hsome | hnone | hconfirmed
    · exact absurd hres hsome
    · rw [hop] at hnone
      cases hnone
    refine ⟨hconfirmed, ?_⟩
    rcases h.resolved hd with hsome | hnone | ⟨op', hop', hdone⟩
    · exact absurd hres hsome
    · rw [hop] at hnone
      cases hnone
    rw [hop] at hop'
    obtain rfl := Option.some.inj hop'
    rcases hdone with hzero | hcertain | ⟨resolution, _, _, _, hrec, -⟩
    · exact absurd hzero hattempts
    · rw [huncertain] at hcertain
      cases hcertain
    · intro hnone
      rw [show s.closeout.provisionResolution = _ from hnone] at hrec
      cases hrec

/-- Sequence numbers begin with one. -/
theorem one_le_nextSequence (events : List Event) : 1 ≤ nextSequence events := by
  cases events with
  | nil => exact le_rfl
  | cons e es => exact Nat.le_add_left 1 _

/-- An amount that is refused is not zero. -/
theorem Decimal.isZero_of_refused {d : Decimal} (h : (!d.isFinite || d.isNegative) = true) :
    d.isZero = false := by
  cases d with
  | infinity neg => rfl
  | nan signaling => rfl
  | finite neg coeff exp =>
    simp only [Decimal.isFinite, Bool.not_true, Bool.false_or, Decimal.isNegative] at h
    simp only [Decimal.isZero]
    simp_all

/-- The part of `_reconcile_delete` that closes the run. -/
theorem keeps_reconcileCloseout {s : RunState} (h : Closable ctl w s) (hw : Consistent w)
    (hcur : w.current = some s) (hl : s.lifecycle = .deleting)
    (hd : s.closeout.deleteAcknowledged = true) (hn : s.closeout.providerNotFound = true) :
    Keeps (machine answers) (fun _ => True) (ClosesOut w s) (FailsOutside w s)
      (ctl.reconcileCloseout s) w := by
  have hrequest : w.request ≠ none := by
    intro hnone
    simp [World.current, hw.request hnone] at hcur
  have hdated : ∀ {message : Text} {w₁ : World}, w₁.request = w.request →
      s.closeout.provisionResolution ≠ none → ¬ctl.Undated w₁ message := by
    rintro message w₁ hreq hres ⟨request, hr, herror⟩
    obtain ⟨r, hr'⟩ := Option.ne_none_iff_exists'.mp hres
    obtain ⟨⟨request', d, hr'', hok⟩, -⟩ := h.resolution r hr'
    rw [hreq, hr''] at hr
    obtain rfl := Option.some.inj hr
    rw [hok] at herror
    cases herror
  rw [Controller.reconcileCloseout]
  simp only [hn, Bool.not_true, Bool.false_eq_true, if_false]
  refine keeps_currentSpendScope trivial (fun e => failsOutside_store e w)
    (fun hnone => absurd hnone hrequest) (fun _ hres hun => absurd hun (hdated rfl hres))
    fun scope hof => ?_
  -- the scope is the one that was recorded
  have hscope : (s.closeout.currentSpendScope.isSome &&
      s.closeout.currentSpendScope != some scope) = false := by
    cases hrec : s.closeout.currentSpendScope with
    | none => rfl
    | some recorded =>
      obtain rfl := (h.scope recorded hrec).2.unique hof
      simp
  rw [if_neg (by simp [hscope])]
  refine keeps_observedSpend trivial trivial (fun _ _ => trivial) (fun fault => ?_)
    fun spend w₁ _ hw₁ _ => ?_
  · have hfault : SpendsOtherwise w s (w.saw (.spend s.resourceId (some (.error fault)))) :=
      ⟨.error fault, [], rfl, fun h => h⟩
    cases fault with
    | error e => exact .inr ⟨trivial, hfault⟩
    | foreign => exact .inr ⟨trivial, hfault⟩
  have hsame : w₁.request = w.request ∧ w₁.events = w.events := by
    rcases hw₁ with ⟨rfl, -⟩ | rfl
    · exact ⟨rfl, rfl⟩
    · exact ⟨rfl, rfl⟩
  -- an amount that is not zero was answered
  have hother : spend.isZero = false → SpendsOtherwise w s w₁ := by
    intro hzero
    rcases hw₁ with ⟨-, rfl⟩ | rfl
    · cases hzero
    · exact ⟨.ok spend, [], rfl, by simp [IsZeroSpend, hzero]⟩
  by_cases hbad : (!spend.isFinite || spend.isNegative) = true
  · simp only [hbad, if_true]
    exact .inr ⟨trivial, hother (Decimal.isZero_of_refused hbad)⟩
  simp only [hbad, Bool.false_eq_true, if_false]
  cases hzero : spend.isZero with
  | true =>
    simp only [if_true]
    have hsettlement : SameSettlement s (s.withSpend spend scope) := ⟨rfl, rfl, rfl, rfl⟩
    refine keeps_assertCloseoutReady trivial (fun e => failsOutside_store e w₁)
      (fun hnone => absurd (hsame.1.symm.trans hnone) hrequest)
      (fun _ hres hun => absurd hun (hdated hsame.1 hres)) (fun expected hexpected hno => ?_)
      fun _ => ?_
    · refine absurd ⟨⟨?_, hd, hn, ?_, ?_⟩, (h.resolved hd).congr hsettlement hsame.1⟩ hno
      · exact Option.ne_none_iff_isSome.mp (h.terminal hl).disposition
      · rw [RunState.withSpend, formatMoney, if_pos hzero]
      · rw [← (hof.congr hsettlement hsame.1).unique hexpected]
        rfl
    rw [← Process.bind_done (commitState _ _)]
    refine keeps_commitState trivial (fun e w' _ => failsOutside_store e w') (fun _ hrefused => ?_)
      (fun _ _ _ _ => trivial) fun w' _ hcommitted _ => ?_
    · have haccepted := receiptAccepted_of_receiptable (h.receiptable hl hd hn hof hzero)
        (one_le_nextSequence w₁.events)
      rw [haccepted] at hrefused
      cases hrefused
    · refine .inr ⟨rfl, ?_⟩
      rw [hcommitted.events, hsame.2]
  | false =>
    simp only [Bool.false_eq_true, if_false]
    rw [← Process.bind_done (commitState _ _)]
    refine keeps_commitState trivial (fun e w' _ => failsOutside_store e w')
      (fun hclosed => ?_) (fun _ _ _ _ => trivial) fun w' _ hcommitted _ => ?_
    · simp [hl] at hclosed
    · exact .inl ((hother hzero).cons hcommitted.trace)

/-- With the deletes acknowledged, `_reconcile_delete` is its last part: the disposition is
recorded, no id in quarantine is empty and the create is settled. -/
theorem Closable.reconcileDelete_eq {s : RunState} (h : Closable ctl w s)
    (hl : s.lifecycle = .deleting) (hd : s.closeout.deleteAcknowledged = true) :
    ctl.reconcileDelete s = ctl.reconcileCloseout s := by
  obtain ⟨-, hdisposition, hdelete⟩ := h.terminal hl
  obtain ⟨op, hop⟩ := Option.ne_none_iff_exists'.mp hdelete
  have hneed : needOperation s .delete = .done op := by
    rw [needOperation, show s.operations.get .delete = some op from hop]
  have hids : (s.quarantinedResourceIds.any fun ids => ids.any List.isEmpty) = false := by
    cases hq : s.quarantinedResourceIds with
    | none => rfl
    | some ids =>
      rw [Option.any_some, List.any_eq_false]
      intro id hid
      simpa using (h.listed.quarantined ids hq).2 id hid
  have hsettled : ctl.reconcileSettled s op = ctl.reconcileCloseout s := by
    rw [Controller.reconcileSettled, if_neg (by simp [hids]), if_neg (by simp [hd])]
  rw [Controller.reconcileDelete, if_neg hdisposition, hneed, Process.done_bind, ← hsettled]
  cases hres : s.resource with
  | some r => rfl
  | none =>
    cases hp : s.operations.provision with
    | none => rfl
    | some provision =>
      rcases (h.complete hd).settled with hsome | hnone | hconfirmed
      · exact absurd hres hsome
      · rw [hp] at hnone
        cases hnone
      · rw [hconfirmed]

/-- Where a run can be closed, `reconcile` closes it or fails for an outside reason. -/
theorem keeps_reconcile {s : RunState} (h : Closable ctl w s) (hw : Consistent w)
    (hcur : w.current = some s) (hl : s.lifecycle = .deleting)
    (hd : s.closeout.deleteAcknowledged = true) (hn : s.closeout.providerNotFound = true) :
    Keeps (machine answers) (fun _ => True) (ClosesOut w s) (FailsOutside w s) ctl.reconcile w := by
  refine keeps_currentState trivial (fun e => failsOutside_store e w) hw (fun hempty => ?_)
    fun e _ hcur' => ?_
  · simp [World.current, hempty] at hcur
  rw [World.current_unique hcur hcur', hl]
  dsimp only
  rw [h.reconcileDelete_eq hl hd]
  exact keeps_reconcileCloseout h hw hcur hl hd hn

/-! ## A store that serves the run -/

/-- The answer says that a file does not decode. -/
def FoundCorrupt : (c : Command) → Answer c → Prop
  | .readEvents, a => a = .error .corrupt
  | .readSnapshot, a => a = .error .corrupt
  | .readRequest, a => a = .error .corrupt
  | .readReceipt, a => a = .error .corrupt
  | .writeRequest _, a => a = .error .corrupt
  | .appendEvent _, a => a = .error .corrupt
  | .replaceState _, a => a = .error .corrupt
  | .replaceReceipt _, a => a = .error .corrupt
  | _, _ => False

/-- Transactions on a run whose files nobody else damages: what does not decode is a journal
that does not read back. The operating system may still fail, and the process die. -/
def servedMachine (answers : Answers) : Machine World Command Answer where
  exec := fun w c a w' =>
    execute answers w c a w' ∧ (FoundCorrupt c a → c = .readEvents ∧ w.readable = false)
  die := dieIn

/-- A run on files that nobody damages is a run. -/
theorem Runs.ofServed {p : Transaction α} {o : Outcome Failure α}
    (h : Runs (servedMachine answers) p w o w') : Runs (machine answers) p w o w' := by
  refine Runs.mono (fun w c a w' he => ?_) (fun _ _ _ hd => ?_) h
  · exact he.1
  · exact hd

/-- What holds of every run holds of a run on such files. -/
theorem Keeps.served {I : World → Prop} {Q : α → World → Prop} {E : Failure → World → Prop}
    {p : Transaction α} (h : Keeps (machine answers) I Q E p w) :
    Keeps (servedMachine answers) I Q E p w := by
  refine Keeps.restrict (fun w c a w' he => ?_) (fun _ _ _ hd => ?_) h
  · exact he.1
  · exact hd

/-- A command that changes no file. -/
def Command.Looks : Command → Prop
  | .writeRequest _ | .appendEvent _ | .replaceState _ | .replaceReceipt _ => False
  | _ => True

/-- The journal still reads back after a command that changes no file. -/
theorem Command.Looks.readable {c : Command} {a : Answer c} (hc : c.Looks)
    (h : execute answers w c a w') : w'.readable = w.readable := by
  cases c with
  | readEvents =>
    obtain ⟨⟨rfl, -⟩, -⟩ := h
    rfl
  | readSnapshot | readRequest | readReceipt =>
    obtain ⟨rfl, -⟩ := h
    rfl
  | now =>
    obtain rfl := h
    rfl
  | find op | create r | get id | start id op | delete id op | spend id =>
    obtain ⟨-, rfl⟩ := h
    rfl
  | writeRequest r | appendEvent e | replaceState p | replaceReceipt p => exact hc.elim

/-- Every command satisfies `P`, and that a file does not decode is raised only where an
answer said so. -/
abbrev Process.Passes (P : Command → Prop) (p : Transaction α) : Prop :=
  p.Within P (fun c a => ¬FoundCorrupt c a) (· ≠ .store .corrupt)

/-- An access that did not find a damaged file raises nothing else. -/
theorem passes_orRaise {P : Command → Prop} {a : Except StoreError α} (ha : a ≠ .error .corrupt) :
    (orRaise a).Passes P := by
  cases a with
  | ok x => trivial
  | error e =>
    intro he
    obtain rfl := Failure.store.inj he
    exact ha rfl

/-- In front of a journal that reads back, a transaction that changes no file does not raise
that one does not decode. -/
theorem Process.Passes.keeps_looks {p : Transaction α} (hp : p.Passes Command.Looks)
    (hread : w.readable = true) :
    Keeps (servedMachine answers) (fun w' => w'.readable = true) (fun _ w' => w'.readable = true)
      (fun e _ => e ≠ .store .corrupt) p w := by
  refine Process.Within.keeps hp (fun w c a w' hc hw he => ⟨fun hbad => ?_, ?_⟩)
    (fun w c w' hc hw hd => ?_) hread
  · rw [(he.2 hbad).2] at hw
    cases hw
  · rw [hc.readable he.1]
    exact hw
  · cases c with
    | writeRequest r | appendEvent e | replaceState p | replaceReceipt p => exact hc.elim
    | _ =>
      obtain rfl := hd
      exact hw

/-- Nor does one that does not read the journal. -/
theorem Process.Passes.keeps_writes {p : Transaction α} (hp : p.Passes (· ≠ .readEvents)) :
    Keeps (servedMachine answers) (fun _ => True) (fun _ _ => True)
      (fun e _ => e ≠ .store .corrupt) p w :=
  Process.Within.keeps hp (fun _ _ _ _ hc _ he => ⟨fun hbad => hc (he.2 hbad).1, trivial⟩)
    (fun _ _ _ _ _ _ => trivial) trivial

/-- Reading the state changes no file. -/
theorem looks_currentState : currentState.Passes Command.Looks := by
  refine ⟨trivial, fun events hevents => (passes_orRaise hevents).bind fun events => ?_⟩
  refine ⟨trivial, fun snapshot hsnapshot => (passes_orRaise hsnapshot).bind fun snapshot => ?_⟩
  cases effective events snapshot with
  | some p => trivial
  | none =>
    intro he
    cases he

/-- Reading the request changes no file. -/
theorem looks_readRequest : readRequest.Passes Command.Looks := by
  refine ⟨trivial, fun request hrequest => (passes_orRaise hrequest).bind fun request => ?_⟩
  cases request with
  | some request => trivial
  | none =>
    intro he
    cases he

/-- Reading the deadline of the provider changes no file. -/
theorem looks_providerTerminationDeadline :
    ctl.providerTerminationDeadline.Passes Command.Looks := by
  refine looks_readRequest.bind fun request => ?_
  cases ctl.terminationDeadline request with
  | ok d => trivial
  | error message =>
    intro he
    cases he

/-- Asking whether the create is resolved changes no file. -/
theorem looks_provisionResolutionIsComplete {s : RunState} {c : Closeout} :
    (ctl.provisionResolutionIsComplete s c).Passes Command.Looks := by
  rw [Controller.provisionResolutionIsComplete]
  split
  · trivial
  · cases s.operations.provision with
    | none => trivial
    | some provision =>
      dsimp only
      split
      · trivial
      · cases c.provisionResolution with
        | none => trivial
        | some resolution => exact looks_providerTerminationDeadline.bind fun _ => trivial

/-- Computing the scope of the spend changes no file. -/
theorem looks_currentSpendScope {s : RunState} {c : Closeout} :
    (ctl.currentSpendScope s c).Passes Command.Looks := by
  rw [Controller.currentSpendScope]
  cases s.resourceId with
  | some id => trivial
  | none =>
    refine looks_readRequest.bind fun request => ?_
    split
    · cases s.operations.provision with
      | none => trivial
      | some provision =>
        dsimp only
        split
        · trivial
        · split
          · trivial
          · refine looks_provisionResolutionIsComplete.bind fun complete => ?_
            cases complete <;> trivial
    · trivial

/-- Checking the evidence for a closeout changes no file. -/
theorem looks_assertCloseoutReady {s : RunState} :
    (ctl.assertCloseoutReady s).Passes Command.Looks := by
  refine looks_currentSpendScope.bind fun expected => ?_
  refine looks_provisionResolutionIsComplete.bind fun complete => ?_
  dsimp only
  split
  · trivial
  · intro he
    cases he

/-- Asking for the spend changes no file. -/
theorem looks_observedSpend {s : RunState} {scope : SpendScope} :
    (Controller.observedSpend s scope).Passes Command.Looks := by
  have hcall : (currentSpendUsdPerHour s.resourceId >>= orRaiseFault).Passes Command.Looks := by
    refine ⟨trivial, fun a _ => ?_⟩
    cases a with
    | ok spend => trivial
    | error fault =>
      cases fault with
      | error e =>
        intro he
        cases he
      | foreign =>
        intro he
        cases he
  cases scope with
  | provisionOperation id n => trivial
  | run => trivial
  | account => exact hcall
  | resource id => exact hcall

/-- A commit reads the journal before it appends to it, and not again after it. -/
theorem keeps_served_commitState {kind : Text} {s : RunState} (hread : w.readable = true) :
    Keeps (servedMachine answers) (fun _ => True) (fun _ _ => True)
      (fun e _ => e ≠ .store .corrupt) (commitState kind s) w := by
  refine ⟨fun _ _ => trivial, fun a w' he => ⟨trivial, Process.Passes.keeps_writes ?_⟩⟩
  have ha : a ≠ .error .corrupt := by
    intro hbad
    rw [(he.2 hbad).2] at hread
    cases hread
  refine (passes_orRaise ha).bind fun events => ?_
  dsimp only
  split
  · intro he
    cases he
  · refine ⟨nofun, fun a ha => (passes_orRaise ha).bind fun _ => ?_⟩
    refine ⟨nofun, fun a ha => (passes_orRaise ha).bind fun _ => ?_⟩
    split
    · exact ⟨nofun, fun a ha => (passes_orRaise ha).bind fun _ => trivial⟩
    · trivial

/-- In front of a journal that reads back, the closeout does not raise that a file does not
decode. -/
theorem keeps_served_reconcile {s : RunState} (h : Closable ctl w s) (hw : Consistent w)
    (hcur : w.current = some s) (hl : s.lifecycle = .deleting)
    (hd : s.closeout.deleteAcknowledged = true) (hn : s.closeout.providerNotFound = true)
    (hread : w.readable = true) :
    Keeps (servedMachine answers) (fun _ => True) (fun _ _ => True)
      (fun e _ => e ≠ .store .corrupt) ctl.reconcile w := by
  -- what the transaction reads in front of its commit leaves the journal as it is
  have hbind : ∀ {α β : Type} {p : Transaction α} {k : α → Transaction β} {w : World},
      p.Passes Command.Looks → w.readable = true →
      (∀ a w', w'.readable = true → Keeps (servedMachine answers) (fun _ => True) (fun _ _ => True)
        (fun e _ => e ≠ .store .corrupt) (k a) w') →
      Keeps (servedMachine answers) (fun _ => True) (fun _ _ => True)
        (fun e _ => e ≠ .store .corrupt) (p >>= k) w := by
    intro α β p k w hp hread hk
    exact ((hp.keeps_looks hread).mono (fun _ _ => trivial) (fun _ _ h => h)
      fun _ _ h => h).bind hk
  have hcurrent : Keeps (machine answers) (fun _ => True) (fun p w' => w' = w ∧ p.state = s)
      (fun _ _ => True) currentState w := by
    rw [← Process.bind_done currentState]
    refine keeps_currentState trivial (fun _ => trivial) hw (fun _ => trivial) fun e _ hcur' => ?_
    exact ⟨rfl, World.current_unique hcur hcur'⟩
  have hserved := hcurrent.served.and (looks_currentState.keeps_looks hread)
  refine Keeps.bind (hserved.mono (fun _ _ => trivial) (fun _ _ h => h) fun _ _ h => h.2) ?_
  rintro p w' ⟨⟨rfl, rfl⟩, -⟩
  rw [hl]
  dsimp only
  rw [h.reconcileDelete_eq hl hd, Controller.reconcileCloseout]
  simp only [hn, Bool.not_true, Bool.false_eq_true, if_false]
  refine hbind looks_currentSpendScope hread fun scope w₁ hread₁ => ?_
  split
  · intro he
    cases he
  refine hbind looks_observedSpend hread₁ fun spend w₂ hread₂ => ?_
  split
  · intro he
    cases he
  split
  · exact hbind looks_assertCloseoutReady hread₂ fun _ _ => keeps_served_commitState
  · exact keeps_served_commitState hread₂

/-- Whether the next `reconcile` is the closeout. -/
def World.awaitsSpend (w : World) : Bool :=
  w.current.any fun s => s.lifecycle = .deleting && s.closeout.deleteAcknowledged &&
    s.closeout.providerNotFound

/-- `awaitsSpend`, by the state. -/
theorem World.awaitsSpend_iff :
    w.awaitsSpend = true ↔ ∃ s, w.current = some s ∧ s.lifecycle = .deleting ∧
      s.closeout.deleteAcknowledged = true ∧ s.closeout.providerNotFound = true := by
  simp [World.awaitsSpend, Option.any_eq_true, and_assoc]

/-- The next `reconcile` of a run whose deletes are acknowledged and whose absence
is confirmed closes it, unless the process dies, the operating system fails the store or the
spend it asked for is not zero; and no check of the program's own raises, nor the journal
that it does not read back. -/
def NotBlocked (ctl : Controller) (answers : Answers) (w : World) : Prop :=
  ∀ s o w', w.current = some s → s.lifecycle = .deleting →
    s.closeout.deleteAcknowledged = true → s.closeout.providerNotFound = true →
    Runs (servedMachine answers) ctl.reconcile w o w' →
    (∀ e, o = .raised e → e.IsOutside) ∧
      (o = .died ∨ o = .raised (.store .io) ∨ SpendsOtherwise w s w' ∨
        ∃ p, o = .returned p ∧ p.state.lifecycle = .closed ∧
          w'.events = ⟨txt "closeout_completed", p⟩ :: w.events)

/-- A journal that does not read back blocks every `reconcile`. -/
theorem raises_of_unreadable (hread : w.readable = false) :
    Runs (servedMachine answers) ctl.reconcile w (.raised (.store .corrupt)) w :=
  .step (a := .error .corrupt)
    ⟨⟨⟨rfl, .inr ⟨_, rfl⟩⟩, fun _ => ⟨_, rfl⟩⟩, fun _ => ⟨rfl, hread⟩⟩ (.raise _ _)

/-- **A closeout is not blocked** in a state of a driven run in which no find, made without a
resource, listed one twice, exactly when its journal reads back. -/
theorem closeout_not_blocked (ctl : Controller) {w : World} (h : Driven ctl distinctAnswers w) :
    NotBlocked ctl distinctAnswers w ↔ (w.awaitsSpend = true → w.readable = true) := by
  constructor
  · intro hfree hawaits
    obtain ⟨s, hcur, hl, hd, hn⟩ := World.awaitsSpend_iff.mp hawaits
    by_contra hread
    have hrun : Runs (servedMachine distinctAnswers) ctl.reconcile w _ w :=
      raises_of_unreadable (by simpa using hread)
    exact (hfree s _ w hcur hl hd hn hrun).1 _ rfl
  intro hreads s o w' hcur hl hd hn hrun
  have hread := hreads (World.awaitsSpend_iff.mpr ⟨s, hcur, hl, hd, hn⟩)
  have hreach := h.reachable
  have hproceeds : Proceeds ctl w :=
    reachable_invariant proceeds_empty (fun _ _ hs hp => hs.proceeds hp) hreach
  have hclosable := hproceeds.closable s hcur
  have hconsistent := consistent_of_reaches hreach.reaches consistent_empty
  obtain ⟨-, hreturned, hraised⟩ := Keeps.sound hrun.ofServed
    (keeps_reconcile hclosable hconsistent hcur hl hd hn) trivial
  obtain ⟨-, -, hserved⟩ := Keeps.sound hrun
    (keeps_served_reconcile hclosable hconsistent hcur hl hd hn hread) trivial
  have hstore : ∀ error, o = .raised (.store error) → error = .io := by
    intro error ho
    cases error with
    | io => rfl
    | corrupt => exact absurd rfl (hserved _ ho)
  refine ⟨fun e he => ?_, ?_⟩
  · rcases hraised e he with ⟨error, rfl⟩ | ⟨houtside, -⟩
    · obtain rfl := hstore error he
      trivial
    · exact houtside
  · cases o with
    | died => exact .inl rfl
    | raised e =>
      rcases hraised e rfl with ⟨error, rfl⟩ | ⟨-, hspends⟩
      · obtain rfl := hstore error rfl
        exact .inr (.inl rfl)
      · exact .inr (.inr (.inl hspends))
    | returned p =>
      rcases hreturned p rfl with hspends | hclosed
      · exact .inr (.inr (.inl hspends))
      · exact .inr (.inr (.inr ⟨p, rfl, hclosed⟩))

/-- A playing where the ids are named; it plays no rejection. -/
def Entry.playsNamed : Entry → Bool
  | .find _ (some (.ok found)) => found.all fun r => !r.id.isEmpty
  | .create _ (some (.ok r)) | .get _ (some (.ok (some r))) | .start _ _ (some (.ok r)) =>
    !r.id.isEmpty
  | .find _ (some (.error _)) | .create _ (some (.error _)) | .get _ (some (.error _))
  | .start _ _ (some (.error _)) => false
  | _ => true

/-- What a played run checks of its answers is that they name resources. -/
theorem Entry.named_of_plays {e : Entry} (h : e.playsNamed = true) : e.Named := by
  unfold Entry.playsNamed at h
  split at h
  · simpa [Entry.Named] using h
  · simpa [Entry.Named] using h
  · simpa [Entry.Named] using h
  · simpa [Entry.Named] using h
  · cases h
  · cases h
  · cases h
  · cases h
  · unfold Entry.Named
    split <;> simp_all

/-- Where no find lists a resource twice. -/
def Entry.playsDistinct : Entry → Bool
  | .find _ (some (.ok found)) => decide (found.map ProviderResource.id).Nodup
  | _ => true

/-- What a played run checks of its answers is that they name each resource once. -/
theorem Entry.distinct_of_plays {e : Entry} (h : e.playsDistinct = true) : e.Distinct := by
  unfold Entry.playsDistinct at h
  unfold Entry.Distinct
  split at h
  · exact of_decide_eq_true h
  · trivial

/-- The ids are named. -/
def Check.named : Check (.supervised fun _ e => e.Named) where
  answers := fun _ e => e.playsNamed
  issues := fun s call =>
    match call with
    | .recordArtifactDisposition _ _ => s.any fun state => state.workloadResult.isSome
    | _ => true
  answers_sound := fun _ _ h => Entry.named_of_plays h
  issues_sound := fun s call h => by
    cases call with
    | recordArtifactDisposition disposition detail =>
      obtain ⟨state, hs, hstate⟩ := (Option.any_eq_true _ _).mp h
      exact ⟨state, hs, Option.ne_none_iff_isSome.mpr hstate⟩
    | _ => trivial

/-- The ids are named, each once. -/
def Check.distinct : Check (.supervised distinctAnswers) where
  answers := fun _ e => e.playsNamed && e.playsDistinct
  issues := Check.named.issues
  answers_sound := fun _ _ h => by
    obtain ⟨hnamed, hdistinct⟩ := Bool.and_eq_true_iff.mp h
    exact ⟨Entry.named_of_plays hnamed, fun _ => Entry.distinct_of_plays hdistinct⟩
  issues_sound := Check.named.issues_sound

/-- What is played is an execution with a store that serves the run. -/
theorem runs_served_simulate {sc : Script} {check : Check env} {p : Transaction α}
    (h : (simulate sc check p w).allowed = true) :
    Runs (servedMachine env.answers) p w (simulate sc check p w).outcome
      (simulate sc check p w).world := by
  refine Process.runs_interpret (M := servedMachine env.answers)
    (fun w c hc => ⟨execute_respond hc, fun hbad => ?_⟩) h
  cases c with
  | readEvents =>
    refine ⟨rfl, ?_⟩
    by_contra hread
    have hok : (sc.respond w .readEvents).1 = .ok w.events := by
      simp [Script.respond, hread]
    rw [show (sc.respond w .readEvents).1 = .error .corrupt from hbad] at hok
    cases hok
  | readSnapshot | readRequest | readReceipt | writeRequest r | appendEvent e | replaceState p
  | replaceReceipt p => cases hbad
  | _ => exact hbad.elim

/-- The sample run driven until its pod is gone. -/
def absentRun : Played World EngineFailure Projection :=
  playDrive sampleController sampleScript .distinct sampleObservation 7
    (plannedRun sampleScript .distinct).world

/-- A run whose pod is gone is not blocked: its journal reads back. -/
theorem closeout_not_blocked_sample :
    absentRun.world.awaitsSpend = true ∧ absentRun.world.readable = true ∧
      NotBlocked sampleController distinctAnswers absentRun.world := by
  have hrun : (plannedRun sampleScript .distinct).allowed = true ∧ absentRun.allowed = true ∧
      absentRun.world.awaitsSpend = true ∧ absentRun.world.readable = true := by decide +kernel
  obtain ⟨hplanned, hplayed, hawaits, hread⟩ := hrun
  exact ⟨hawaits, hread, (closeout_not_blocked sampleController
    (driven_playDrive (driven_plannedRun hplanned) hplayed)).mpr fun _ => hread⟩

/-- The provider lists the pod twice, until it is deleted. -/
def duplicateScript : Script :=
  { sampleScript with
    find := fun w =>
      if w.trace.any fun e => match e with | .delete _ _ _ => true | _ => false then .ok []
      else .ok [samplePod, samplePod] }

/-- The run driven until the pod is gone. -/
def duplicateRun : Played World EngineFailure Projection :=
  playDrive sampleController duplicateScript .named sampleObservation 4
    (plannedRun duplicateScript .named).world

/-- The closeout of that run. -/
def duplicateCloseout : Played World Failure Projection :=
  simulate duplicateScript .named sampleController.reconcile duplicateRun.world

/-- A pod that was listed twice is never closed out: its receipt is refused. -/
theorem duplicate_listing_blocks :
    ∃ w, Driven sampleController (fun _ e => e.Named) w ∧
      ¬NotBlocked sampleController (fun _ e => e.Named) w := by
  have hrun : (plannedRun duplicateScript .named).allowed = true ∧ duplicateRun.allowed = true ∧
      duplicateRun.world.awaitsSpend = true ∧ duplicateCloseout.allowed = true ∧
      duplicateCloseout.outcome.raises .invalidReceipt = true := by decide +kernel
  obtain ⟨hplanned, hplayed, hawaits, hallowed, houtcome⟩ := hrun
  refine ⟨duplicateRun.world, driven_playDrive (driven_plannedRun hplanned) hplayed, fun h => ?_⟩
  obtain ⟨s, hs, hl, hd, hn⟩ := World.awaitsSpend_iff.mp hawaits
  obtain ⟨houtside, -⟩ := h s _ _ hs hl hd hn (runs_served_simulate hallowed)
  exact houtside _ (Outcome.eq_of_raises houtcome)

end RunpodJobrunner
