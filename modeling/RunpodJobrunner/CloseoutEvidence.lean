import RunpodJobrunner.CreateDeadline

/-!
# Closed is evidence

Whatever ids a run learns of, by adoption, creation, duplicates or rejections,
they stay known, and nothing is adopted once the deletes are acknowledged. So a
closed state has an acknowledged delete for every id the run ever knew, then the
absence observation, then the observation that nothing is spent.
-/

namespace RunpodJobrunner

/-- The ids a state holds as its resource or in quarantine. -/
def RunState.knownIds (s : RunState) : List Text :=
  s.resourceId.toList ++ s.quarantinedResourceIds.getD []

/-- The answer or rejection of a `get` or a `start` is about the id asked for. -/
def Entry.About : Entry → Prop
  | .get id (some (.ok (some r))) => r.id = id
  | .get id (some (.error (.error (.rejected e)))) => ∀ x ∈ e.resourceIds, x = id
  | .start id _ (some (.ok r)) => r.id = id
  | .start id _ (some (.error (.error (.rejected e)))) => ∀ x ∈ e.resourceIds, x = id
  | _ => True

/-- Any calls, and a provider that answers about what it is asked. -/
def Environment.faithful : Environment where
  answers := fun _ e => e.About
  issues := fun _ _ => True

/-- The kind of the event an absence observation commits. -/
def absenceKind : Text := txt "provider_absence_confirmed"

/-- A delete of that id was acknowledged. -/
def DeleteAcknowledged (trace : List Entry) (id : Text) : Prop :=
  ∃ operationId receipt, .delete id operationId (some (.ok receipt)) ∈ trace ∧
    receipt.acknowledged = true ∧ receipt.operationId = operationId

/-- The proof a spend scope stands for instead of an observation: nothing was
dispatched, or the resolution of the create after the deadline. -/
def SpendScope.Proved (ctl : Controller) (w : World) (s : RunState) : SpendScope → Prop
  | .run => s.operations.provision = none
  | .provisionOperation id true =>
    ∃ provision, s.operations.provision = some provision ∧ provision.id = id ∧
      provision.attempts = 0
  | .provisionOperation id false =>
    ∃ provision resolution request text deadline, s.operations.provision = some provision ∧
      provision.id = id ∧ s.closeout.provisionResolution = some resolution ∧
      w.request = some request ∧ ctl.terminationDeadline request = .ok (text, deadline) ∧
      resolves s.closeout provision resolution text deadline = true
  | _ => False

/-- The trace of a closed event: the acknowledged deletes, then the absence, then
the zero spend or its proof, then the closeout. -/
structure ClosedTrace (ctl : Controller) (w : World) (e absent : Event)
    (newer older : List Entry) : Prop where
  kind : absent.kind = absenceKind
  acknowledged : ∀ id ∈ e.projection.state.acknowledgedIds, DeleteAcknowledged older id
  last : absent.projection.state.acknowledgedIds = e.projection.state.acknowledgedIds
  spend : (∃ spend, .spend e.projection.state.resourceId (some (.ok spend)) ∈ newer ∧
      spend.isZero = true) ∨
    ∃ scope, e.projection.state.closeout.currentSpendScope = some scope ∧
      scope.Proved ctl w e.projection.state

variable {ctl : Controller} {env : Environment} {w w' : World}

/-! ## What the ids do -/

/-- A quarantine holds the resource. -/
def Quarantined (s : RunState) : Prop :=
  ∀ ids, s.quarantinedResourceIds = some ids → ∃ id ∈ ids, s.resourceId = some id

/-- A run that is starting has nothing in quarantine. -/
def StartsFree (s : RunState) : Prop :=
  s.lifecycle = .starting → s.quarantinedResourceIds = none

/-- Every known id is to be deleted. -/
theorem Quarantined.deleteIds {s : RunState} (h : Quarantined s) {id : Text}
    (hid : id ∈ s.knownIds) : id ∈ s.deleteIds := by
  rw [RunState.knownIds] at hid
  rw [RunState.deleteIds]
  rcases hq : s.quarantinedResourceIds with - | ids
  · simpa [hq] using hid
  obtain ⟨first, hfirst, hres⟩ := h ids hq
  cases ids with
  | nil => cases hfirst
  | cons x xs =>
    rcases List.mem_append.mp hid with hr | hids
    · rw [hres] at hr
      obtain rfl : id = first := by simpa using hr
      exact hfirst
    · simpa [hq] using hids

/-- Every known id is among those of the state. -/
theorem Quarantined.allResourceIds {s : RunState} (h : Quarantined s) {id : Text}
    (hid : id ∈ s.knownIds) : id ∈ s.allResourceIds := by
  have hdelete := h.deleteIds hid
  rw [RunState.deleteIds] at hdelete
  rw [RunState.allResourceIds]
  rcases hq : s.quarantinedResourceIds with - | ids
  · simpa [hq] using hdelete
  cases ids with
  | nil =>
    obtain ⟨first, hfirst, -⟩ := h [] hq
    cases hfirst
  | cons x xs => simpa [hq] using hdelete

/-- What a commit does to the ids: they stay, they are made where there were none
(and the create is unsettled), or a rejection puts the resource into quarantine. -/
inductive IdsChange (s s' : RunState) : Prop where
  | same : s'.resourceId = s.resourceId → s'.quarantinedResourceIds = s.quarantinedResourceIds →
      IdsChange s s'
  | made : s.resource = none → s.lifecycle = .provisioning ∨ ¬Settled s → Quarantined s' →
      IdsChange s s'
  | rejected {id ids} : s.lifecycle = .starting → s.resourceId = some id →
      s.quarantinedResourceIds = none → id ∈ ids → s'.resourceId = some id →
      s'.quarantinedResourceIds = some ids → IdsChange s s'

/-- The ids a rejection names, if any, are adopted. -/
def Adopts (s : RunState) (ids : List Text) (s' : RunState) : Prop :=
  (ids = [] ∧ s'.resourceId = s.resourceId ∧
    s'.quarantinedResourceIds = s.quarantinedResourceIds) ∨
  ∃ id rest, ids = id :: rest ∧ s'.resourceId = some id ∧ s'.quarantinedResourceIds = some ids

/-- A rejection adopts the ids that it names. -/
theorem adopts_rejectedState (s : RunState) (kind : OperationKind) (op : Operation)
    (e : ProviderRejected) : Adopts s e.resourceIds (ctl.rejectedState s kind op e) := by
  obtain ⟨message, resourceId, ids, hids⟩ := e
  cases ids with
  | nil => exact .inl ⟨rfl, rfl, rfl⟩
  | cons id rest => exact .inr ⟨id, rest, rfl, rfl, rfl⟩

/-- Noting the first observation adopts nothing more. -/
theorem adopts_firstObserved (s : RunState) (ids : List Text) (t : Option DateTime) :
    Adopts s ids ((s.adoptNamed ids).firstObserved t) := by
  cases ids with
  | nil => exact .inl ⟨rfl, rfl, rfl⟩
  | cons id rest => exact .inr ⟨id, rest, rfl, rfl, rfl⟩

/-- A rejection of what the run holds names nothing else. -/
theorem Adopts.rejected {s t s' : RunState} {ids : List Text} {id : Text} (h : Adopts t ids s')
    (hl : s.lifecycle = .starting) (hfree : StartsFree s) (hid : s.resourceId = some id)
    (ht : t.resourceId = some id) (htq : t.quarantinedResourceIds = s.quarantinedResourceIds)
    (hall : ∀ x ∈ ids, x = id) : IdsChange s s' := by
  rcases h with ⟨-, hres, hquar⟩ | ⟨first, rest, rfl, hres, hquar⟩
  · exact .same (hres.trans (ht.trans hid.symm)) (hquar.trans htq)
  · obtain rfl : first = id := hall first List.mem_cons_self
    exact .rejected hl hid (hfree hl) List.mem_cons_self hres hquar

/-- Ids that are adopted before a resource is known change the ids as they may. -/
theorem Adopts.made {s s' : RunState} {ids : List Text} (h : Adopts s ids s')
    (hres : s.resource = none) (hq : s.quarantinedResourceIds = none)
    (hl : s.lifecycle = .provisioning ∨ ¬Settled s) : IdsChange s s' := by
  refine .made hres hl fun ids' hids' => ?_
  rcases h with ⟨-, -, hquar⟩ | ⟨first, rest, rfl, hres', hquar⟩
  · rw [hquar, hq] at hids'
    cases hids'
  · rw [hquar] at hids'
    obtain rfl := Option.some.inj hids'
    exact ⟨first, List.mem_cons_self, hres'⟩

/-- A create whose outcome is open is not settled. -/
theorem Unsettled.not_settled {s : RunState} {op provision : Operation}
    (h : Unsettled w s op provision) : ¬Settled s := by
  rintro (hres | hp | hc)
  · exact hres h.resource
  · rw [h.provision] at hp
    cases hp
  · rw [h.unconfirmed] at hc
    cases hc

/-- Without a resource nothing is in quarantine. -/
theorem Quarantined.none_of_resource {s : RunState} (h : Quarantined s) (hres : s.resource = none) :
    s.quarantinedResourceIds = none := by
  rcases hids : s.quarantinedResourceIds with - | ids
  · rfl
  · obtain ⟨id, -, hid⟩ := h ids hids
    simp [RunState.resourceId, hres] at hid

/-- A run that starts has its resource. -/
theorem Starting.resourceId {s : RunState} {op : Operation} {resource : Resource}
    (h : Starting w s op resource) : s.resourceId = some resource.id := by
  rw [RunState.resourceId, h.resource]
  rfl

/-- An answer at the head of the trace is about what was asked. -/
theorem about_head {e : Entry} {rest : List Entry} (habout : ∀ e ∈ w.trace, e.About)
    (ht : w.trace = e :: rest) : e.About := by
  apply habout
  rw [ht]
  exact List.mem_cons_self

/-- The answer before the last is about the id asked for. -/
theorem about_second {e first : Entry} {rest : List Entry} (habout : ∀ e ∈ w.trace, e.About)
    (ht : w.trace = first :: e :: rest) : e.About := by
  apply habout
  rw [ht]
  exact List.mem_cons_of_mem _ List.mem_cons_self

/-- **A commit changes the ids as it may**: it keeps them, or adopts what was answered. -/
theorem Commit.idsChange {kind : Text} {s s' : RunState} (h : Commit ctl env w kind s')
    (hcur : w.current = some s) (habout : ∀ e ∈ w.trace, e.About) (hnone : Unprovisioned w)
    (hq : Quarantined s) (hfree : StartsFree s) : IdsChange s s' := by
  have hsame : ∀ {t : RunState}, w.current = some t → t = s := World.current_unique hcur
  cases h with
  | planned hempty _ _ _ => simp [World.current, hempty] at hcur
  | workloadTerminal hc _ _ _ | dispositionRecorded hc _ _ _ | intended hc _ =>
    obtain rfl := hsame hc
    exact .same rfl rfl
  | stopRequested hc _ _ =>
    obtain rfl := hsame hc
    exact .same (by simp [RunState.resourceId]) (by simp)
  -- ids come in where there is no resource: while provisioning, or unsettled
  | duplicates hp _ =>
    obtain rfl := hsame hp.current
    have hres := hnone _ hcur (.inr hp.lifecycle)
    refine .made hres (.inl hp.lifecycle) fun ids hids => ?_
    obtain rfl := Option.some.inj hids
    exact ⟨_, List.mem_cons_self, rfl⟩
  | dispatched hp _ _ | createFailed hp _ _ | visibilityPending hp _ _ | visibilityExhausted hp _ _ =>
    obtain rfl := hsame hp.current
    exact .same rfl rfl
  | findRejected hp _ | createRejected hp _ =>
    obtain rfl := hsame hp.current
    have hres := hnone _ hcur (.inr hp.lifecycle)
    exact (adopts_rejectedState _ _ _ _).made hres (hq.none_of_resource hres) (.inl hp.lifecycle)
  | found hp _ | created hp _ =>
    obtain rfl := hsame hp.current
    have hres := hnone _ hcur (.inr hp.lifecycle)
    refine .made hres (.inl hp.lifecycle) fun ids hids => ?_
    have hquar := hq.none_of_resource hres
    simp [hquar] at hids
  | missing hs _ =>
    obtain rfl := hsame hs.current
    exact .same rfl rfl
  -- from here on the resource is there, and the answer is about it
  | getRejected hs ht =>
    obtain rfl := hsame hs.current
    have hall := about_head habout ht
    exact (adopts_rejectedState _ _ _ _).rejected hs.lifecycle hfree hs.resourceId
      hs.resourceId rfl hall
  | observedRunning hs ht =>
    obtain rfl := hsame hs.current
    have hid := about_head habout ht
    exact .same (by rw [hs.resourceId, ← hid]; rfl) rfl
  | startFailed hs _ ht =>
    obtain rfl := hsame hs.current
    have hid := about_second habout ht
    exact .same (by rw [hs.resourceId, ← hid]; rfl) rfl
  | startRejected hs ht =>
    obtain rfl := hsame hs.current
    have hall := about_head habout ht
    have hid := about_second habout ht
    exact (adopts_rejectedState _ _ _ _).rejected hs.lifecycle hfree hs.resourceId
      (congrArg some hid) rfl hall
  | started hs _ ht =>
    obtain rfl := hsame hs.current
    have hid := about_head habout ht
    exact .same (by rw [hs.resourceId, ← hid]; rfl) rfl
  -- a create that was not settled may still have made a resource
  | adoptRejected hu _ _ =>
    obtain rfl := hsame hu.current
    exact (adopts_firstObserved _ _ _).made hu.resource (hq.none_of_resource hu.resource)
      (.inr hu.not_settled)
  | adoptDuplicates hu _ =>
    obtain rfl := hsame hu.current
    refine .made hu.resource (.inr hu.not_settled) fun ids hids => ?_
    obtain rfl := Option.some.inj hids
    exact ⟨_, List.mem_cons_self, rfl⟩
  | adopted hu _ =>
    obtain rfl := hsame hu.current
    refine .made hu.resource (.inr hu.not_settled) fun ids hids => ?_
    have hquar := hq.none_of_resource hu.resource
    simp [hquar] at hids
  | notDispatched hu _ | deadlinePending hu _ | absenceObserved hu _ _ _ _ _ | absencePending hu _
  | absenceConfirmed hu _ _ _ _ _ _ _ _ _ =>
    obtain rfl := hsame hu.current
    exact .same rfl rfl
  | nothingPending hc _ _ | deleteFailed hc _ _ | deleted hc _ _ _ _ _ _ | absent hc _ _ _
  | deletionPending hc _ _ | spendObserved hc _ _ _ _ _ _ _ | closed hc _ _ _ _ _ _ =>
    obtain rfl := hsame hc.current
    exact .same rfl rfl

/-- Without a resource no id is known. -/
theorem knownIds_nil {s : RunState} (hq : Quarantined s) (hres : s.resource = none) :
    s.knownIds = [] := by
  rw [RunState.knownIds, RunState.resourceId, hres, hq.none_of_resource hres]
  rfl

/-- Known ids stay known. -/
theorem IdsChange.known {s s' : RunState} (h : IdsChange s s') (hq : Quarantined s) {id : Text}
    (hid : id ∈ s.knownIds) : id ∈ s'.knownIds := by
  cases h with
  | same hres hquar =>
    rw [RunState.knownIds, hres, hquar]
    exact hid
  | made hres _ _ =>
    rw [knownIds_nil hq hres] at hid
    cases hid
  | rejected _ hres hquar _ hres' _ =>
    rw [RunState.knownIds, hres, hquar] at hid
    rw [RunState.knownIds, hres']
    exact List.mem_append_left _ (by simpa using hid)

/-- A change of the ids keeps the resource in the quarantine. -/
theorem IdsChange.quarantined {s s' : RunState} (h : IdsChange s s') (hq : Quarantined s) :
    Quarantined s' := by
  cases h with
  | same hres hquar =>
    intro ids hids
    rw [hquar] at hids
    rw [hres]
    exact hq ids hids
  | made _ _ hq' => exact hq'
  | rejected _ _ _ hmem hres' hquar' =>
    intro ids hids
    rw [hquar'] at hids
    obtain rfl := Option.some.inj hids
    exact ⟨_, hmem, hres'⟩

/-- A commit leaves nothing in quarantine of a run that is starting. -/
theorem Commit.startsFree {kind : Text} {s' : RunState} (h : Commit ctl env w kind s')
    (hnone : Unprovisioned w) (hw : ∀ s, w.current = some s → Quarantined s ∧ StartsFree s) :
    StartsFree s' := by
  intro hl
  cases h with
  | found hp _ | created hp _ =>
    have hquar := (hw _ hp.current).1.none_of_resource (hnone _ hp.current (.inr hp.lifecycle))
    exact hquar
  | startFailed hs _ _ | started hs _ _ =>
    have hquar := (hw _ hs.current).2 hs.lifecycle
    exact hquar
  | stopRequested _ _ _ => simp at hl
  | dispatched hp _ _ | createFailed hp _ _ | visibilityPending hp _ _ =>
    simp [hp.lifecycle] at hl
  | adoptRejected hu _ _ | adoptDuplicates hu _ | adopted hu _ | notDispatched hu _
  | deadlinePending hu _ | absenceObserved hu _ _ _ _ _ | absencePending hu _
  | absenceConfirmed hu _ _ _ _ _ _ _ _ _ => simp [hu.lifecycle] at hl
  | nothingPending hc _ _ | deleteFailed hc _ _ | deleted hc _ _ _ _ _ _ | absent hc _ _ _
  | deletionPending hc _ _ | spendObserved hc _ _ _ _ _ _ _ => simp [hc.lifecycle] at hl
  | _ => simp at hl

/-! ## Acknowledgements -/

/-- Once the deletes are acknowledged, the create is settled for good and every
known id is acknowledged. -/
structure Complete (s : RunState) : Prop where
  lifecycle : s.lifecycle = .recovering ∨ s.lifecycle = .deleting ∨ s.lifecycle = .closed
  settled : Settled s
  known : Quarantined s → ∀ id ∈ s.knownIds, id ∈ s.acknowledgedIds

/-- A receipt of a new id adds it to those acknowledged. -/
theorem withReceipt_acknowledgedIds {s : RunState} {op : Operation} {receipt : DeleteReceipt}
    {id : Text} (h : id ∉ s.acknowledgedIds) :
    (s.withReceipt op receipt id).acknowledgedIds = s.acknowledgedIds ++ [id] := by
  simp [RunState.acknowledgedIds] at h ⊢
  simp [h]

/-- The delete that completes the acknowledgements has all ids. -/
theorem withReceipt_complete {s : RunState} {op : Operation} {receipt : DeleteReceipt} {id : Text}
    (hfalse : s.closeout.deleteAcknowledged = false)
    (hd : (s.withReceipt op receipt id).closeout.deleteAcknowledged = true) :
    ∀ x ∈ s.allResourceIds, x ∈ (s.withReceipt op receipt id).acknowledgedIds := by
  intro x hx
  simp only [RunState.withReceipt, RunState.setOperation, hfalse, Bool.or_false, List.all_eq_true,
    decide_eq_true_eq] at hd
  exact hd x hx

/-- A commit acknowledges the delete as a whole only where every id is acknowledged. -/
theorem Commit.complete {kind : Text} {s' : RunState} (h : Commit ctl env w kind s')
    (hw : ∀ s, w.current = some s → s.closeout.deleteAcknowledged = true → Complete s)
    (hd : s'.closeout.deleteAcknowledged = true) : Complete s' := by
  cases h with
  | planned _ _ _ _ => simp at hd
  | workloadTerminal hc _ _ _ =>
    obtain ⟨-, hset, hids⟩ := hw _ hc hd
    exact ⟨.inl rfl, hset, hids⟩
  | dispositionRecorded hc _ _ _ =>
    obtain ⟨-, hset, hids⟩ := hw _ hc hd
    exact ⟨.inr (.inl rfl), by simpa [Settled] using hset, hids⟩
  | stopRequested hc _ _ =>
    obtain ⟨-, hset, hids⟩ := hw _ hc (by simpa using hd)
    exact ⟨.inr (.inl (by simp)), by simpa [Settled] using hset,
      by simpa [Quarantined, RunState.knownIds, RunState.resourceId, RunState.acknowledgedIds]
        using hids⟩
  | intended hc hl =>
    have hlife := (hw _ hc hd).lifecycle
    simp [hl] at hlife
  | findRejected hp _ | createRejected hp _ =>
    have hlife := (hw _ hp.current (by simpa using hd)).lifecycle
    simp [hp.lifecycle] at hlife
  | duplicates hp _ | dispatched hp _ _ | createFailed hp _ _ | found hp _ | created hp _
  | visibilityPending hp _ _ | visibilityExhausted hp _ _ =>
    have hlife := (hw _ hp.current hd).lifecycle
    simp [hp.lifecycle] at hlife
  | getRejected hs _ | startRejected hs _ =>
    have hlife := (hw _ hs.current (by simpa using hd)).lifecycle
    simp [hs.lifecycle] at hlife
  | missing hs _ | observedRunning hs _ | startFailed hs _ _ | started hs _ _ =>
    have hlife := (hw _ hs.current hd).lifecycle
    simp [hs.lifecycle] at hlife
  | adoptRejected hu _ _ =>
    exact absurd (hw _ hu.current (by simpa using hd)).settled hu.not_settled
  | adoptDuplicates hu _ | adopted hu _ | notDispatched hu _ | deadlinePending hu _
  | absenceObserved hu _ _ _ _ _ | absencePending hu _ | absenceConfirmed hu _ _ _ _ _ _ _ _ _ =>
    exact absurd (hw _ hu.current hd).settled hu.not_settled
  | nothingPending hc _ hall =>
    exact ⟨.inr (.inl hc.lifecycle), hc.settled, fun hq id hid => hall id (hq.deleteIds hid)⟩
  | deleted hc hfalse hmem hnew hack hop ht =>
    exact ⟨.inr (.inl hc.lifecycle), hc.settled, fun hq x hx =>
      withReceipt_complete hfalse hd x (hq.allResourceIds hx)⟩
  | deleteFailed hc hfalse _ =>
    simp [hfalse] at hd
  | absent hc _ _ _ | deletionPending hc _ _ | spendObserved hc _ _ _ _ _ _ _ =>
    obtain ⟨hl, hset, hids⟩ := hw _ hc.current hd
    exact ⟨hl, hset, hids⟩
  | closed hc _ _ _ _ _ _ =>
    obtain ⟨-, hset, hids⟩ := hw _ hc.current hd
    exact ⟨.inr (.inr rfl), hset, hids⟩

/-- A commit keeps the acknowledgements, or closes the list of them, or adds an
id whose delete was just acknowledged; the latter two only before they are complete. -/
theorem Commit.acknowledged_cases {kind : Text} {s s' : RunState} (h : Commit ctl env w kind s')
    (hcur : w.current = some s) :
    (s'.closeout.deleteAcknowledged = s.closeout.deleteAcknowledged ∧
      s'.acknowledgedIds = s.acknowledgedIds) ∨
    (s.closeout.deleteAcknowledged = false ∧
      s'.closeout.providerNotFound = s.closeout.providerNotFound ∧
        (s'.acknowledgedIds = s.acknowledgedIds ∨ ∃ id, DeleteAcknowledged w.trace id ∧
          s'.acknowledgedIds = s.acknowledgedIds ++ [id])) := by
  have hsame : ∀ {t : RunState}, w.current = some t → t = s := World.current_unique hcur
  cases h with
  | planned hempty _ _ _ => simp [World.current, hempty] at hcur
  | stopRequested hc _ _ =>
    obtain rfl := hsame hc
    exact .inl ⟨by simp, by simp [RunState.acknowledgedIds]⟩
  | workloadTerminal hc _ _ _ | dispositionRecorded hc _ _ _ | intended hc _ =>
    obtain rfl := hsame hc
    exact .inl ⟨rfl, rfl⟩
  | findRejected hp _ | createRejected hp _ =>
    obtain rfl := hsame hp.current
    exact .inl ⟨by simp, by simp [RunState.acknowledgedIds]⟩
  | duplicates hp _ | dispatched hp _ _ | found hp _ | created hp _ | visibilityPending hp _ _
  | visibilityExhausted hp _ _ | createFailed hp _ _ =>
    obtain rfl := hsame hp.current
    exact .inl ⟨rfl, rfl⟩
  | getRejected hs _ | startRejected hs _ =>
    obtain rfl := hsame hs.current
    exact .inl ⟨by simp, by simp [RunState.acknowledgedIds]⟩
  | missing hs _ | observedRunning hs _ | startFailed hs _ _ | started hs _ _ =>
    obtain rfl := hsame hs.current
    exact .inl ⟨rfl, rfl⟩
  | adoptRejected hu _ _ =>
    obtain rfl := hsame hu.current
    exact .inl ⟨by simp, by simp [RunState.acknowledgedIds]⟩
  | adoptDuplicates hu _ | adopted hu _ | notDispatched hu _ | deadlinePending hu _
  | absenceObserved hu _ _ _ _ _ | absencePending hu _ | absenceConfirmed hu _ _ _ _ _ _ _ _ _ =>
    obtain rfl := hsame hu.current
    exact .inl ⟨rfl, rfl⟩
  | nothingPending hc hfalse _ =>
    obtain rfl := hsame hc.current
    exact .inr ⟨hfalse, rfl, .inl rfl⟩
  | deleted hc hfalse _ hnew hack hop ht =>
    obtain rfl := hsame hc.current
    have hack : DeleteAcknowledged w.trace _ :=
      ⟨_, _, by rw [ht]; exact List.mem_cons_self, hack, hop⟩
    exact .inr ⟨hfalse, rfl, .inr ⟨_, hack, withReceipt_acknowledgedIds hnew⟩⟩
  | deleteFailed hc _ _ | absent hc _ _ _ | deletionPending hc _ _ | spendObserved hc _ _ _ _ _ _ _
  | closed hc _ _ _ _ _ _ =>
    obtain rfl := hsame hc.current
    exact .inl ⟨rfl, rfl⟩

/-- The absence is committed once, when the deletes are acknowledged. -/
theorem Commit.notFound_cases {kind : Text} {s s' : RunState} (h : Commit ctl env w kind s')
    (hcur : w.current = some s) :
    s'.closeout.providerNotFound = s.closeout.providerNotFound ∨
      (kind = absenceKind ∧ s.closeout.deleteAcknowledged = true ∧ s' = s.notFound) := by
  have hsame : ∀ {t : RunState}, w.current = some t → t = s := World.current_unique hcur
  cases h with
  | planned hempty _ _ _ => simp [World.current, hempty] at hcur
  | stopRequested hc _ _ =>
    obtain rfl := hsame hc
    exact .inl (by simp)
  | workloadTerminal hc _ _ _ | dispositionRecorded hc _ _ _ | intended hc _ =>
    obtain rfl := hsame hc
    exact .inl rfl
  | findRejected hp _ | createRejected hp _ =>
    obtain rfl := hsame hp.current
    exact .inl (by simp)
  | duplicates hp _ | dispatched hp _ _ | found hp _ | created hp _ | visibilityPending hp _ _
  | visibilityExhausted hp _ _ | createFailed hp _ _ =>
    obtain rfl := hsame hp.current
    exact .inl rfl
  | getRejected hs _ | startRejected hs _ =>
    obtain rfl := hsame hs.current
    exact .inl (by simp)
  | missing hs _ | observedRunning hs _ | startFailed hs _ _ | started hs _ _ =>
    obtain rfl := hsame hs.current
    exact .inl rfl
  | adoptRejected hu _ _ =>
    obtain rfl := hsame hu.current
    exact .inl (by simp)
  | adoptDuplicates hu _ | adopted hu _ | notDispatched hu _ | deadlinePending hu _
  | absenceObserved hu _ _ _ _ _ | absencePending hu _ | absenceConfirmed hu _ _ _ _ _ _ _ _ _ =>
    obtain rfl := hsame hu.current
    exact .inl rfl
  | absent hc hd _ _ =>
    obtain rfl := hsame hc.current
    exact .inr ⟨rfl, hd, rfl⟩
  | nothingPending hc _ _ | deleted hc _ _ _ _ _ _ | deleteFailed hc _ _ | deletionPending hc _ _
  | spendObserved hc _ _ _ _ _ _ _ | closed hc _ _ _ _ _ _ =>
    obtain rfl := hsame hc.current
    exact .inl rfl

/-! ## The closeout -/

/-- Only a closeout makes a state closed. -/
theorem Commit.closed_cases {kind : Text} {s' : RunState} (h : Commit ctl env w kind s')
    (hclosed : s'.lifecycle = .closed) :
    ∃ s scope spend, w.current = some s ∧ s.closeout.providerNotFound = true ∧
      ctl.ScopeOf w s s.closeout scope ∧ SpendSeen w s scope spend ∧ spend.isZero = true ∧
      s' = { s.withSpend spend scope with lifecycle := .closed } := by
  cases h with
  | closed hc _ hn hscope hseen hzero _ => exact ⟨_, _, _, hc.current, hn, hscope, hseen, hzero, rfl⟩
  | stopRequested _ _ _ => simp at hclosed
  | dispatched hp _ _ | createFailed hp _ _ | visibilityPending hp _ _ =>
    simp [hp.lifecycle] at hclosed
  | startFailed hs _ _ => simp [hs.lifecycle] at hclosed
  | started hs hl _ =>
    rcases hl with ⟨-, rfl⟩ | ⟨-, rfl⟩
    · simp at hclosed
    · simp [hs.lifecycle] at hclosed
  | adoptRejected hu _ _ | adoptDuplicates hu _ | adopted hu _ | notDispatched hu _
  | deadlinePending hu _ | absenceObserved hu _ _ _ _ _ | absencePending hu _
  | absenceConfirmed hu _ _ _ _ _ _ _ _ _ => simp [hu.lifecycle] at hclosed
  | nothingPending hc _ _ | deleteFailed hc _ _ | deleted hc _ _ _ _ _ _ | absent hc _ _ _
  | deletionPending hc _ _ | spendObserved hc _ _ _ _ _ _ _ => simp [hc.lifecycle] at hclosed
  | _ => simp at hclosed

/-- The scope that stands for an observation of the spend is proved. -/
theorem Controller.ScopeOf.proved {s : RunState} {scope : SpendScope}
    (h : ctl.ScopeOf w s s.closeout scope)
    (hscope : scope = .run ∨ ∃ id notDispatched, scope = .provisionOperation id notDispatched) :
    scope.Proved ctl w s := by
  have hresource : ∀ {id}, scope = .resource id → False := by
    rintro id rfl
    rcases hscope with h | ⟨_, _, h⟩ <;> cases h
  have haccount : scope = .account → False := by
    rintro rfl
    rcases hscope with h | ⟨_, _, h⟩ <;> cases h
  cases h with
  | resource _ => exact (hresource rfl).elim
  | noVolume _ _ _ => exact (haccount rfl).elim
  | account _ _ _ _ _ _ => exact (haccount rfl).elim
  | run _ _ _ hnone => exact hnone
  | notDispatched _ _ _ hop hzero => exact ⟨_, hop, rfl, hzero⟩
  | absence hres _ _ hop hattempts huncertain hresolved =>
    rcases hresolved with hsome | hnone | ⟨provision, hop', hdone⟩
    · exact absurd (by simpa [RunState.resourceId] using hres) hsome
    · rw [hop] at hnone
      cases hnone
    rw [hop] at hop'
    obtain rfl := Option.some.inj hop'
    rcases hdone with hzero | hcertain | ⟨resolution, request, text, deadline, hrec, hreq, hdl, hok⟩
    · exact absurd hzero hattempts
    · rw [huncertain] at hcertain
      cases hcertain
    · exact ⟨_, resolution, request, text, deadline, hop, rfl, hrec, hreq, hdl, hok⟩

/-- An acknowledgement stays in the trace. -/
theorem DeleteAcknowledged.cons {trace : List Entry} {id : Text} (e : Entry)
    (h : DeleteAcknowledged trace id) : DeleteAcknowledged (e :: trace) id := by
  obtain ⟨operationId, receipt, hmem, hack, hop⟩ := h
  exact ⟨operationId, receipt, List.mem_cons_of_mem _ hmem, hack, hop⟩

/-- The absence stands in the trace, behind all acknowledgements of the state. -/
def AbsenceCommitted (trace : List Entry) (s : RunState) : Prop :=
  ∃ newer absent older, trace = newer ++ .commit absent :: older ∧ absent.kind = absenceKind ∧
    absent.projection.state.acknowledgedIds = s.acknowledgedIds ∧
    ∀ id ∈ s.acknowledgedIds, DeleteAcknowledged older id

/-- A committed absence stays in the trace. -/
theorem AbsenceCommitted.cons {trace : List Entry} {s : RunState} (e : Entry)
    (h : AbsenceCommitted trace s) : AbsenceCommitted (e :: trace) s := by
  obtain ⟨newer, absent, older, rfl, hrest⟩ := h
  exact ⟨e :: newer, absent, older, rfl, hrest⟩

/-- The newest event, if closed, stands in the trace behind its evidence. -/
def ClosedCommitted (ctl : Controller) (w : World) : Prop :=
  ∀ e, w.events.head? = some e → e.projection.state.lifecycle = .closed →
    ∃ after newer absent older, w.trace = after ++ .commit e :: (newer ++ .commit absent :: older) ∧
      ClosedTrace ctl w e absent newer older

/-- What a run against a faithful provider keeps. -/
structure Accounted (ctl : Controller) (w : World) : Prop where
  about : ∀ e ∈ w.trace, e.About
  unprovisioned : Unprovisioned w
  held : ∀ s, w.current = some s → Quarantined s ∧ StartsFree s
  known : ∀ s, w.current = some s → ∀ e ∈ w.events, ∀ id ∈ e.projection.state.knownIds,
    id ∈ s.knownIds
  acknowledged : ∀ s, w.current = some s → ∀ id ∈ s.acknowledgedIds, DeleteAcknowledged w.trace id
  complete : ∀ s, w.current = some s → s.closeout.deleteAcknowledged = true → Complete s
  absent : ∀ s, w.current = some s → s.closeout.providerNotFound = true →
    s.closeout.deleteAcknowledged = true ∧ AbsenceCommitted w.trace s
  notFound : ∀ s, w.current = some s → s.lifecycle = .closed → s.closeout.providerNotFound = true
  newest : ClosedLast ctl w
  closed : ClosedCommitted ctl w

theorem accounted_empty : Accounted ctl .empty where
  about := fun _ he => by cases he
  unprovisioned := fun _ hs => by cases hs
  held := fun _ hs => by cases hs
  known := fun _ hs => by cases hs
  acknowledged := fun _ hs => by cases hs
  complete := fun _ hs => by cases hs
  absent := fun _ hs => by cases hs
  notFound := fun _ hs => by cases hs
  newest := closedLast_empty
  closed := fun _ he => by cases he

/-- Of the files, the evidence of a closeout depends on the request alone. -/
theorem ClosedTrace.congr {e absent : Event} {newer older : List Entry}
    (h : ClosedTrace ctl w e absent newer older) (hreq : w'.request = w.request) :
    ClosedTrace ctl w' e absent newer older := by
  refine ⟨h.kind, h.acknowledged, h.last, ?_⟩
  rcases h.spend with hseen | ⟨scope, hscope, hproved⟩
  · exact .inl hseen
  · refine .inr ⟨scope, hscope, ?_⟩
    cases scope with
    | provisionOperation id notDispatched =>
      cases notDispatched with
      | true => exact hproved
      | false =>
        obtain ⟨p, resolution, request, text, deadline, hp, hid, hrec, hr, hrest⟩ := hproved
        exact ⟨p, resolution, request, text, deadline, hp, hid, hrec, hreq.trans hr, hrest⟩
    | _ => exact hproved

/-- Another faithful answer leaves a run accounted for. -/
theorem Accounted.saw {e : Entry} (h : Accounted ctl w)
    (hallow : Environment.faithful.allows w e) : Accounted ctl (w.saw e) := by
  refine ⟨?_, h.unprovisioned, h.held, h.known,
    fun s hs id hid => (h.acknowledged s hs id hid).cons _, h.complete, fun s hs hn => ?_,
      h.notFound, ⟨h.newest.newest, h.newest.resolved⟩, fun e' he hclosed => ?_⟩
  · intro e' he
    rcases List.mem_cons.mp he with rfl | hold
    · cases e' with
      | get id a =>
        cases a with
        | none => trivial
        | some a => exact hallow
      | start id op a =>
        cases a with
        | none => trivial
        | some a => exact hallow
      | _ => trivial
    · exact h.about e' hold
  · obtain ⟨hd, habsent⟩ := h.absent s hs hn
    exact ⟨hd, habsent.cons _⟩
  · obtain ⟨after, newer, absent, older, ht, htrace⟩ := h.closed e' he hclosed
    exact ⟨e :: after, newer, absent, older, congrArg _ ht, htrace.congr rfl⟩

/-- A closeout commits its evidence. -/
theorem Accounted.closedTrace {kind : Text} {s' : RunState} {n : ℕ} (h : Accounted ctl w)
    (hc : Commit ctl env w kind s') (hclosed : s'.lifecycle = .closed) :
    ∃ newer absent older, w.trace = newer ++ .commit absent :: older ∧
      ClosedTrace ctl w ⟨kind, ⟨n, s'⟩⟩ absent newer older := by
  obtain ⟨s, scope, spend, hcur, hnotFound, hscope, hseen, hzero, rfl⟩ := hc.closed_cases hclosed
  obtain ⟨-, newer, absent, older, ht, hkind, hlast, hacks⟩ := h.absent s hcur hnotFound
  refine ⟨newer, absent, older, ht, hkind, hacks, hlast, ?_⟩
  rcases hseen with ⟨hproof, -⟩ | ⟨rest, hspend⟩
  · refine .inr ⟨scope, rfl, ?_⟩
    have hproved := hscope.proved hproof
    cases scope with
    | provisionOperation id notDispatched => cases notDispatched <;> exact hproved
    | _ => exact hproved
  · -- the spend at the head of the trace is newer than the absence
    refine .inl ⟨spend, ?_, hzero⟩
    rw [hspend] at ht
    cases newer with
    | nil => cases (List.cons.inj ht).1
    | cons x newer =>
      obtain ⟨rfl, -⟩ := List.cons.inj ht
      exact List.mem_cons_self

/-- A commit leaves a run accounted for. -/
theorem Accounted.append {kind : Text} {s' : RunState} {n : ℕ} (h : Accounted ctl w)
    (hc : Commit ctl env w kind s') (hstep : Step ctl env w (w.append ⟨kind, ⟨n, s'⟩⟩)) :
    Accounted ctl (w.append ⟨kind, ⟨n, s'⟩⟩) := by
  -- the first commit is that of a planned run, of which nothing is known yet
  have hfirst : ∀ {P : Prop}, (∀ text, s' = ctl.initialState text → w.events = [] → P) →
      (∀ s, w.current = some s → P) → P := by
    intro P hplanned hcur
    rcases hc.source with ⟨s, hs⟩ | ⟨hempty, -, -, text, -, heq⟩
    · exact hcur s hs
    · exact hplanned text heq hempty
  refine
    { about := ?_
      unprovisioned := hstep.unprovisioned h.unprovisioned
      held := ?_
      known := ?_
      acknowledged := ?_
      complete := ?_
      absent := ?_
      notFound := ?_
      newest := hstep.closedLast h.newest
      closed := ?_ }
  · intro e he
    rcases List.mem_cons.mp he with rfl | hold
    · trivial
    · exact h.about e hold
  · intro s hs
    obtain rfl := Option.some.inj hs
    refine ⟨?_, hc.startsFree h.unprovisioned h.held⟩
    refine hfirst (fun text heq _ => ?_) fun s₀ hcur => ?_
    · rw [show s' = ctl.initialState text from heq]
      intro ids hids
      cases hids
    · obtain ⟨hq, hfree⟩ := h.held s₀ hcur
      exact (hc.idsChange hcur h.about h.unprovisioned hq hfree).quarantined hq
  · intro s hs e he id hid
    obtain rfl := Option.some.inj hs
    rcases List.mem_cons.mp he with rfl | hold
    · exact hid
    refine hfirst (fun text _ hempty => ?_) fun s₀ hcur => ?_
    · rw [hempty] at hold
      cases hold
    · obtain ⟨hq, hfree⟩ := h.held s₀ hcur
      exact (hc.idsChange hcur h.about h.unprovisioned hq hfree).known hq
        (h.known s₀ hcur e hold id hid)
  · intro s hs id hid
    obtain rfl := Option.some.inj hs
    refine DeleteAcknowledged.cons _ ?_
    refine hfirst (fun text heq _ => ?_) fun s₀ hcur => ?_
    · rw [show _ = ctl.initialState text from heq] at hid
      cases hid
    rcases hc.acknowledged_cases hcur with ⟨-, heq⟩ | ⟨-, -, heq | ⟨x, hx, heq⟩⟩
    · exact h.acknowledged s₀ hcur id (heq ▸ hid)
    · exact h.acknowledged s₀ hcur id (heq ▸ hid)
    · rw [show _ = s₀.acknowledgedIds ++ [x] from heq] at hid
      rcases List.mem_append.mp hid with hold | hnew
      · exact h.acknowledged s₀ hcur id hold
      · obtain rfl : id = x := by simpa using hnew
        exact hx
  · intro s hs hd
    obtain rfl := Option.some.inj hs
    exact hc.complete h.complete hd
  · intro s hs hn
    obtain rfl := Option.some.inj hs
    refine hfirst (fun text heq _ => ?_) fun s₀ hcur => ?_
    · rw [show _ = ctl.initialState text from heq] at hn
      cases hn
    rcases hc.notFound_cases hcur with heq | ⟨rfl, hd, heq⟩
    · -- the absence was committed before: nothing is acknowledged any more
      obtain ⟨hd, habsent⟩ := h.absent s₀ hcur (heq ▸ hn)
      rcases hc.acknowledged_cases hcur with ⟨hd', hids⟩ | ⟨hfalse, -⟩
      · refine ⟨hd'.trans hd, AbsenceCommitted.cons _ ?_⟩
        obtain ⟨newer, absent, older, ht, hkind, hlast, hacks⟩ := habsent
        exact ⟨newer, absent, older, ht, hkind, hlast.trans hids.symm, hids ▸ hacks⟩
      · rw [hd] at hfalse
        cases hfalse
    · -- this is the absence
      subst heq
      exact ⟨hd, [], _, w.trace, rfl, rfl, rfl, h.acknowledged s₀ hcur⟩
  · intro s hs hclosed
    obtain rfl := Option.some.inj hs
    obtain ⟨s₀, scope, spend, -, hn, -, -, -, heq⟩ := hc.closed_cases hclosed
    rw [heq]
    exact hn
  · intro e he hclosed
    obtain rfl := Option.some.inj he
    obtain ⟨newer, absent, older, ht, htrace⟩ := @closedTrace ctl env w kind s' n h hc hclosed
    exact ⟨[], newer, absent, older, congrArg _ ht, htrace.congr rfl⟩

/-- A step leaves a run accounted for. -/
theorem Step.accounted (hstep : Step ctl .faithful w w') (h : Accounted ctl w) :
    Accounted ctl w' := by
  cases hstep with
  | saw hallow _ => exact h.saw hallow
  | commit hr hc ha => exact h.append hc (.commit hr hc ha)
  | request hempty hnone =>
    refine ⟨h.about, h.unprovisioned, h.held, h.known, h.acknowledged, h.complete, h.absent,
      h.notFound, Step.closedLast (@Step.request ctl .faithful _ _ hempty hnone) h.newest, ?_⟩
    intro e he
    simp [hempty] at he
  | corrupt | snapshot _ | receipt _ _ =>
    refine ⟨h.about, h.unprovisioned, h.held, h.known, h.acknowledged, h.complete, h.absent,
      h.notFound, ⟨h.newest.newest, h.newest.resolved⟩, fun e he hclosed => ?_⟩
    obtain ⟨after, newer, absent, older, ht, htrace⟩ := h.closed e he hclosed
    exact ⟨after, newer, absent, older, ht, htrace.congr rfl⟩

/-- **Closed is evidence.** In every run against a provider that answers about
what it is asked, a closed event has an acknowledged delete for every id an event
of the run ever held, all of them before the commit of the absence, and a zero
spend, or its proof, between that and the closeout. -/
theorem closed_is_evidence (ctl : Controller) {w : World} (h : Reachable ctl .faithful w) :
    ∀ e ∈ w.events, e.projection.state.lifecycle = .closed →
      (∀ e' ∈ w.events, ∀ id ∈ e'.projection.state.knownIds,
        id ∈ e.projection.state.acknowledgedIds) ∧
      ∃ after newer absent older, w.trace = after ++ .commit e :: (newer ++ .commit absent :: older) ∧
        ClosedTrace ctl w e absent newer older := by
  have hw : Accounted ctl w :=
    reachable_invariant accounted_empty (fun _ _ hs ha => hs.accounted ha) h
  intro e he hclosed
  have hhead := hw.newest.newest e he hclosed
  have hcur : w.current = some e.projection.state := by rw [World.current, hhead]; rfl
  obtain ⟨hd, -⟩ := hw.absent _ hcur (hw.notFound _ hcur hclosed)
  refine ⟨fun e' he' id hid => ?_, hw.closed e hhead hclosed⟩
  exact (hw.complete _ hcur hd).known (hw.held _ hcur).1 id (hw.known _ hcur e' he' id hid)

/-- A check for the faithful environment that refuses every start. -/
def Check.faithful : Check .faithful where
  answers := fun _ e =>
    match e with
    | .get id (some (.ok (some r))) => r.id = id
    | .get _ (some (.error _)) | .start _ _ _ => false
    | _ => true
  issues := fun _ _ => true
  answers_sound := fun w e h => by
    dsimp only [Environment.faithful]
    unfold Entry.About
    split
    · simpa using h
    · cases h
    · cases h
    · cases h
    · trivial
  issues_sound := fun _ _ _ => trivial

/-- The sample run, where the provider is faithful. -/
def faithfulRun : World × Bool := play sampleController sampleScript .faithful sampleCalls .empty

/-- The sample run is closed with its pod deleted. -/
theorem closed_is_evidence_sample :
    (∃ e ∈ faithfulRun.1.events, e.projection.state.lifecycle = .closed ∧
      txt "pod-1" ∈ e.projection.state.acknowledgedIds) ∧
    ∀ e ∈ faithfulRun.1.events, e.projection.state.lifecycle = .closed →
      (∀ e' ∈ faithfulRun.1.events, ∀ id ∈ e'.projection.state.knownIds,
        id ∈ e.projection.state.acknowledgedIds) ∧
      ∃ after newer absent older,
        faithfulRun.1.trace = after ++ .commit e :: (newer ++ .commit absent :: older) ∧
          ClosedTrace sampleController faithfulRun.1 e absent newer older := by
  have hrun : faithfulRun.2 = true ∧
      (faithfulRun.1.events.head?.any fun e => e.projection.state.lifecycle = .closed ∧
        txt "pod-1" ∈ e.projection.state.acknowledgedIds) = true := by decide +kernel
  obtain ⟨hplayed, hclosed⟩ := hrun
  obtain ⟨e, hhead, hstate⟩ := (Option.any_eq_true _ _).mp hclosed
  simp only [decide_eq_true_eq] at hstate
  exact ⟨⟨e, List.mem_of_mem_head? hhead, hstate⟩,
    closed_is_evidence sampleController (reachable_play .empty hplayed)⟩

end RunpodJobrunner
