import RunpodJobrunner.Lifecycle

/-!
# What a lifecycle step can do

`Step` is the durable effect of the controller, one constructor for each write
and each outside call, `Commit` lists every state the controller commits, with
the guard it commits it under: the state it read, and what the outside answered
just before (the head of the trace). Every invariant of the lifecycle is proved
against these two relations; that the transactions stay within them is the
refinement theorem of the next module.
-/

namespace RunpodJobrunner

/-- What the environment of a run may do: how the provider answers, and which
calls are issued when a given state is in effect. -/
structure Environment where
  answers : Answers
  issues : Option RunState → Call → Prop

/-- Any answers and any calls. -/
def Environment.any : Environment := ⟨fun _ _ => True, fun _ _ => True⟩

/-- The state in effect: the projection of the newest event. -/
def World.current (w : World) : Option RunState := w.events.head?.map fun e => e.projection.state

@[simp] theorem World.saw_current (w : World) (e : Entry) : (w.saw e).current = w.current := rfl

@[simp] theorem World.append_current (w : World) (e : Event) :
    (w.append e).current = some e.projection.state := rfl

theorem World.current_unique {w : World} {s t : RunState} (hs : w.current = some s)
    (ht : w.current = some t) : t = s := by
  rw [hs] at ht
  exact (Option.some.inj ht).symm

/-! ## Guards -/

/-- The run is provisioning, with that provision operation. -/
structure Provisioning (w : World) (s : RunState) (op : Operation) : Prop where
  current : w.current = some s
  lifecycle : s.lifecycle = .provisioning
  operation : s.operations.provision = some op

/-- The run is starting that resource, with that start operation. -/
structure Starting (w : World) (s : RunState) (op : Operation) (resource : Resource) : Prop where
  current : w.current = some s
  lifecycle : s.lifecycle = .starting
  resource : s.resource = some resource
  operation : s.operations.start = some op

/-- The run is being deleted, with a disposition and that delete operation. -/
structure Deleting (w : World) (s : RunState) (op : Operation) : Prop where
  current : w.current = some s
  lifecycle : s.lifecycle = .deleting
  disposition : s.closeout.artifactDisposition ≠ none
  operation : s.operations.delete = some op

/-- The run is being deleted while the create of that provision operation has
neither a resource nor a confirmed absence. -/
structure Unsettled (w : World) (s : RunState) (op provision : Operation) : Prop
    extends Deleting w s op where
  resource : s.resource = none
  provision : s.operations.provision = some provision
  unconfirmed : s.closeout.provisionAbsenceConfirmed = false

/-- The create is settled: there is a resource, no create, or a confirmed absence. -/
def Settled (s : RunState) : Prop :=
  s.resource ≠ none ∨ s.operations.provision = none ∨ s.closeout.provisionAbsenceConfirmed = true

/-- The run is being deleted and its create is settled. -/
structure Closing (w : World) (s : RunState) (op : Operation) : Prop extends Deleting w s op where
  settled : Settled s
  quarantined : ∀ ids, s.quarantinedResourceIds = some ids → ∀ id ∈ ids, id ≠ []

namespace Controller

variable (ctl : Controller)

/-- The deadline `_reconcile_delete` holds a create of that operation to. -/
def Deadline (w : World) (provision : Operation) (deadline : Option (Text × DateTime)) : Prop :=
  if 0 < provision.attempts ∧ provision.status.isUncertain = true then
    ∃ request d, w.request = some request ∧ ctl.terminationDeadline request = .ok d ∧
      deadline = some d
  else deadline = none

/-- `_provision_resolution_is_complete` is true. -/
def Resolved (w : World) (s : RunState) (c : Closeout) : Prop :=
  s.resource ≠ none ∨ s.operations.provision = none ∨
    ∃ provision, s.operations.provision = some provision ∧
      (provision.attempts = 0 ∨ provision.status.isUncertain = false ∨
        ∃ resolution request text deadline, c.provisionResolution = some resolution ∧
          w.request = some request ∧ ctl.terminationDeadline request = .ok (text, deadline) ∧
          resolves c provision resolution text deadline = true)

/-- The request names a network volume. -/
def HasVolume (request : List (Text × Json)) : Prop :=
  ∃ c cs, providerField request (txt "network_volume_id") = some (.str (c :: cs))

/-- `_current_spend_scope`. -/
inductive ScopeOf (w : World) (s : RunState) (c : Closeout) : SpendScope → Prop where
  | resource {id : Text} : s.resourceId = some id → ScopeOf w s c (.resource id)
  | noVolume {request} : s.resourceId = none → w.request = some request → ¬HasVolume request →
      ScopeOf w s c .account
  | run {request} : s.resourceId = none → w.request = some request → HasVolume request →
      s.operations.provision = none → ScopeOf w s c .run
  | notDispatched {request provision} : s.resourceId = none → w.request = some request →
      HasVolume request → s.operations.provision = some provision → provision.attempts = 0 →
      ScopeOf w s c (.provisionOperation provision.id true)
  | account {request provision} : s.resourceId = none → w.request = some request →
      HasVolume request → s.operations.provision = some provision → provision.attempts ≠ 0 →
      (provision.status.isUncertain = false ∨ ¬ctl.Resolved w s c) → ScopeOf w s c .account
  | absence {request provision} : s.resourceId = none → w.request = some request →
      HasVolume request → s.operations.provision = some provision → provision.attempts ≠ 0 →
      provision.status.isUncertain = true → ctl.Resolved w s c →
      ScopeOf w s c (.provisionOperation provision.id false)

end Controller

/-- The provider was seen without the run's resources. -/
def AbsenceSeen (w : World) (s : RunState) : Prop :=
  ((∃ id ids, s.quarantinedResourceIds = some (id :: ids)) ∧ ∃ provision rest,
    s.operations.provision = some provision ∧
      w.trace = .find provision.id (some (.ok [])) :: rest) ∨
  (s.quarantinedResourceIds.getD [] = [] ∧ s.resource = none) ∨
  (s.quarantinedResourceIds.getD [] = [] ∧ ∃ resource rest, s.resource = some resource ∧
    w.trace = .get resource.id (some (.ok none)) :: rest)

/-- The spend was observed, or a proof stands for its being zero. -/
def SpendSeen (w : World) (s : RunState) (scope : SpendScope) (spend : Decimal) : Prop :=
  ((scope = .run ∨ ∃ id notDispatched, scope = .provisionOperation id notDispatched) ∧
    spend = .finite false 0 0) ∨
  (∃ rest, w.trace = .spend s.resourceId (some (.ok spend)) :: rest)

/-! ## Commits -/

/-- The kind of event each commit appends, and the state. -/
inductive Commit (ctl : Controller) (env : Environment) (w : World) : Text → RunState → Prop where
  | planned {request approved text} :
      w.events = [] → w.request ≠ none → env.issues none (.plan request approved) → IsMoney text →
      Commit ctl env w (txt "run_planned") (ctl.initialState text)
  | workloadTerminal {s result} :
      w.current = some s → env.issues (some s) (.recordWorkloadResult result) →
      s.workloadResult = none → s.lifecycle ≠ .closed →
      Commit ctl env w (txt "workload_terminal")
        { s with workloadResult := some result, lifecycle := .recovering }
  | dispositionRecorded {s disposition detail} :
      w.current = some s → env.issues (some s) (.recordArtifactDisposition disposition detail) →
      s.closeout.artifactDisposition = none → s.lifecycle ≠ .closed →
      Commit ctl env w (txt "artifact_disposition_recorded")
        (ctl.toDeleting
          { s with closeout :=
            { s.closeout with artifactDisposition := some ⟨disposition, detail⟩ } })
  | stopRequested {s reason} :
      w.current = some s → env.issues (some s) (.requestStop reason) → s.lifecycle ≠ .closed →
      Commit ctl env w (txt "stop_requested") (ctl.stoppedState s reason)
  | intended {s} :
      w.current = some s → s.lifecycle = .planned →
      Commit ctl env w (txt "provider_operation_intended")
        { s with operations := ctl.setDefault .provision s.operations, lifecycle := .provisioning }
  -- provisioning
  | duplicates {s op first second more rest} :
      Provisioning w s op →
      w.trace = .find op.id (some (.ok (first :: second :: more))) :: rest →
      Commit ctl env w (txt "provider_reconciliation_conflict_quarantined")
        (ctl.duplicateState s op first ((first :: second :: more).map ProviderResource.id))
  | dispatched {s op now rest} :
      Provisioning w s op → op.status = .intended →
      w.trace = .clock now :: .find op.id (some (.ok [])) :: rest →
      Commit ctl env w (txt "provider_operation_dispatched")
        (s.setOperation .provision (op.dispatched now))
  | findRejected {s op e rest} :
      Provisioning w s op → w.trace = .find op.id (some (.error (.error (.rejected e)))) :: rest →
      Commit ctl env w (txt "provider_resource_rejected") (ctl.rejectedState s .provision op e)
  | createRejected {s op e request rest} :
      Provisioning w s op → w.trace = .create request (some (.error (.error (.rejected e)))) :: rest →
      Commit ctl env w (txt "provider_resource_rejected") (ctl.rejectedState s .provision op e)
  | createFailed {s op e request rest} :
      Provisioning w s op → (∀ r, e ≠ .rejected r) →
      w.trace = .create request (some (.error (.error e))) :: rest →
      Commit ctl env w e.eventKind (s.setOperation .provision (op.failedWith e))
  | found {s op r rest} :
      Provisioning w s op → w.trace = .find op.id (some (.ok [r])) :: rest →
      Commit ctl env w (txt "resource_provisioned") (ctl.provisionedState s op r)
  | created {s op r request rest} :
      Provisioning w s op → w.trace = .create request (some (.ok r)) :: rest →
      Commit ctl env w (txt "resource_provisioned") (ctl.provisionedState s op r)
  | visibilityPending {s op now rest} :
      Provisioning w s op → op.status ≠ .intended →
      w.trace = .clock now :: .find op.id (some (.ok [])) :: rest →
      Commit ctl env w (txt "provider_resource_visibility_pending")
        (s.setOperation .provision (op.observedOnce now))
  | visibilityExhausted {s op now rest} :
      Provisioning w s op → op.status ≠ .intended →
      w.trace = .clock now :: .find op.id (some (.ok [])) :: rest →
      Commit ctl env w (txt "provider_create_visibility_exhausted")
        (ctl.unresolvedState s (op.observedOnce now))
  -- starting
  | missing {s op resource rest} :
      Starting w s op resource → w.trace = .get resource.id (some (.ok none)) :: rest →
      Commit ctl env w (txt "provider_resource_missing") (ctl.missingState s op)
  | getRejected {s op resource e rest} :
      Starting w s op resource →
      w.trace = .get resource.id (some (.error (.error (.rejected e)))) :: rest →
      Commit ctl env w (txt "provider_resource_rejected") (ctl.rejectedState s .start op e)
  | observedRunning {s op resource observed rest} :
      Starting w s op resource → w.trace = .get resource.id (some (.ok (some observed))) :: rest →
      Commit ctl env w (txt "resource_running")
        { { s with resource := some (.projected observed) }.setOperation .start
            { op with status := .observedRunning } with lifecycle := .running }
  | startRejected {s op resource observed e rest} :
      Starting w s op resource →
      w.trace = .start resource.id op.id (some (.error (.error (.rejected e)))) ::
        .get resource.id (some (.ok (some observed))) :: rest →
      Commit ctl env w (txt "provider_resource_rejected")
        (ctl.rejectedState { s with resource := some (.projected observed) } .start op.attempted e)
  | startFailed {s op resource observed e rest} :
      Starting w s op resource → (∀ r, e ≠ .rejected r) →
      w.trace = .start resource.id op.id (some (.error (.error e))) ::
        .get resource.id (some (.ok (some observed))) :: rest →
      Commit ctl env w e.eventKind
        ({ s with resource := some (.projected observed) }.setOperation .start
          (op.attempted.failedWith e))
  | started {s op resource observed started rest lifecycle kind} :
      Starting w s op resource →
      (kind = txt "resource_running" ∧ lifecycle = LifecycleState.running) ∨
        (kind = txt "resource_starting" ∧ lifecycle = s.lifecycle) →
      w.trace = .start resource.id op.id (some (.ok started)) ::
        .get resource.id (some (.ok (some observed))) :: rest →
      Commit ctl env w kind
        { { s with resource := some (.projected observed) }.setOperation .start
            { op.attempted with status := .acknowledged } with
          resource := some (.projected started), lifecycle := lifecycle }
  -- deleting, with an unsettled create
  | adoptRejected {s op provision e rest} :
      Unsettled w s op provision → e.resourceIds ≠ [] →
      w.trace = .find provision.id (some (.error (.error (.rejected e)))) :: rest →
      Commit ctl env w (txt "stopped_rejected_resource_adopted")
        ((s.adoptNamed e.resourceIds).firstObserved none)
  | adoptDuplicates {s op provision first second more rest} :
      Unsettled w s op provision →
      w.trace = .find provision.id (some (.ok (first :: second :: more))) :: rest →
      Commit ctl env w (txt "stopped_duplicate_resources_quarantined")
        { s with
          quarantinedResourceIds := some ((first :: second :: more).map ProviderResource.id)
          resource := some (.projected first) }
  | adopted {s op provision r rest} :
      Unsettled w s op provision → w.trace = .find provision.id (some (.ok [r])) :: rest →
      Commit ctl env w (txt "stopped_resource_adopted")
        ({ s with resource := some (.projected r) }.firstObserved none)
  | notDispatched {s op provision} :
      Unsettled w s op provision → provision.attempts = 0 →
      Commit ctl env w (txt "stopped_provision_not_dispatched")
        (s.absenceConfirmed none)
  | deadlinePending {s op provision} :
      Unsettled w s op provision → provision.attempts ≠ 0 →
      Commit ctl env w (txt "stopped_provision_termination_pending") (s.firstObserved none)
  | absenceObserved {s op provision deadline now rest} :
      Unsettled w s op provision → provision.attempts ≠ 0 → ctl.Deadline w provision deadline →
      w.trace = .clock now :: .find provision.id (some (.ok [])) :: rest →
      now.isAware = true → isBefore now deadline = false →
      Commit ctl env w (txt "stopped_provision_absence_observed")
        (s.firstObserved (some now))
  | absencePending {s op provision} :
      Unsettled w s op provision → provision.attempts ≠ 0 →
      Commit ctl env w (txt "stopped_provision_absence_pending") s
  | absenceConfirmed {s op provision deadline now first rest} :
      Unsettled w s op provision → provision.attempts ≠ 0 → ctl.Deadline w provision deadline →
      w.trace = .clock now :: .find provision.id (some (.ok [])) :: rest →
      now.isAware = true → isBefore now deadline = false →
      s.closeout.provisionAbsenceFirstObservedAt = some (some first) → first.isAware = true →
      isBefore first deadline = false → absenceGrace ≤ now.elapsed first →
      Commit ctl env w (txt "stopped_provision_absence_confirmed")
        (s.absenceConfirmed
          (deadline.map fun d => ⟨provision.id, d.1, first, now⟩))
  -- deleting, with a settled create
  | nothingPending {s op} :
      Closing w s op → s.closeout.deleteAcknowledged = false →
      (∀ id ∈ s.deleteIds, id ∈ s.acknowledgedIds) →
      Commit ctl env w (txt "delete_acknowledged") (s.withNothingPending op)
  | deleteFailed {s op id e rest} :
      Closing w s op → s.closeout.deleteAcknowledged = false →
      w.trace = .delete id op.id (some (.error (.error e))) :: rest →
      Commit ctl env w e.eventKind (s.setOperation .delete (op.attempted.failedWith e))
  | deleted {s op id receipt rest} :
      Closing w s op → s.closeout.deleteAcknowledged = false → id ∈ s.deleteIds →
      id ∉ s.acknowledgedIds → receipt.acknowledged = true → receipt.operationId = op.id →
      w.trace = .delete id op.id (some (.ok receipt)) :: rest →
      Commit ctl env w (txt "delete_acknowledged")
        (s.withReceipt op.attempted receipt id)
  | absent {s op} :
      Closing w s op → s.closeout.deleteAcknowledged = true → s.closeout.providerNotFound = false →
      AbsenceSeen w s →
      Commit ctl env w (txt "provider_absence_confirmed") s.notFound
  | deletionPending {s op} :
      Closing w s op → s.closeout.deleteAcknowledged = true → s.closeout.providerNotFound = false →
      Commit ctl env w (txt "provider_deletion_pending") s
  | spendObserved {s op scope spend} :
      Closing w s op → s.closeout.deleteAcknowledged = true → s.closeout.providerNotFound = true →
      ctl.ScopeOf w s s.closeout scope → SpendSeen w s scope spend → spend.isFinite = true →
      spend.isNegative = false → spend.isZero = false →
      Commit ctl env w (txt "provider_spend_observed") (s.withSpend spend scope)
  | closed {s op scope spend} :
      Closing w s op → s.closeout.deleteAcknowledged = true → s.closeout.providerNotFound = true →
      ctl.ScopeOf w s s.closeout scope → SpendSeen w s scope spend → spend.isZero = true →
      ctl.Resolved w s s.closeout →
      Commit ctl env w (txt "closeout_completed")
        { s.withSpend spend scope with lifecycle := .closed }

/-- A commit starts from the state in effect, or it is the first one. -/
theorem Commit.source {ctl : Controller} {env : Environment} {w : World} {kind : Text}
    {s' : RunState} (h : Commit ctl env w kind s') :
    (∃ s, w.current = some s) ∨
      w.events = [] ∧ w.request ≠ none ∧
        (∃ request approved, env.issues none (.plan request approved)) ∧
        ∃ text, IsMoney text ∧ s' = ctl.initialState text := by
  cases h with
  | planned he hr hi hm => exact Or.inr ⟨he, hr, ⟨_, _, hi⟩, _, hm, rfl⟩
  | workloadTerminal hc => exact Or.inl ⟨_, hc⟩
  | dispositionRecorded hc => exact Or.inl ⟨_, hc⟩
  | stopRequested hc => exact Or.inl ⟨_, hc⟩
  | intended hc => exact Or.inl ⟨_, hc⟩
  | duplicates hp | dispatched hp | findRejected hp | createRejected hp | createFailed hp
  | found hp | created hp | visibilityPending hp | visibilityExhausted hp =>
    exact Or.inl ⟨_, hp.current⟩
  | missing hs | getRejected hs | observedRunning hs | startRejected hs | startFailed hs
  | started hs => exact Or.inl ⟨_, hs.current⟩
  | adoptRejected hu | adoptDuplicates hu | adopted hu | notDispatched hu | deadlinePending hu
  | absenceObserved hu | absencePending hu | absenceConfirmed hu =>
    exact Or.inl ⟨_, hu.current⟩
  | nothingPending hc | deleteFailed hc | deleted hc | absent hc | deletionPending hc
  | spendObserved hc | closed hc => exact Or.inl ⟨_, hc.current⟩

/-! ## Steps -/

/-- A create is issued right after the commit of its dispatch. -/
def Fenced (w : World) (request : ProviderCreateRequest) : Prop :=
  ∃ e rest op, w.events.head? = some e ∧ w.trace = .commit e :: rest ∧
    e.kind = txt "provider_operation_dispatched" ∧
    e.projection.state.lifecycle = .provisioning ∧
    e.projection.state.operations.provision = some op ∧ op.id = request.operationId ∧
    op.status = .dispatched

/-- What an entry of the trace needs to be there. -/
def Guarded (w : World) : Entry → Prop
  | .create request _ => Fenced w request
  | .start id op _ => ∃ s operation resource, Starting w s operation resource ∧
      resource.id = id ∧ operation.id = op
  | .commit _ => False
  | _ => True

/-- The entry is an answer the environment allows, or not an answer. -/
def Environment.allows (env : Environment) (w : World) : Entry → Prop
  | .find op (some a) => env.answers w (.find op (some a))
  | .create r (some a) => env.answers w (.create r (some a))
  | .get id (some a) => env.answers w (.get id (some a))
  | .start id op (some a) => env.answers w (.start id op (some a))
  | .delete id op (some a) => env.answers w (.delete id op (some a))
  | .spend id (some a) => env.answers w (.spend id (some a))
  | _ => True

/-- One durable effect of the controller. -/
inductive Step (ctl : Controller) (env : Environment) (w : World) : World → Prop where
  | saw {e} : env.allows w e → Guarded w e → Step ctl env w (w.saw e)
  | commit {kind s} : w.readable = true → Commit ctl env w kind s →
      (s.lifecycle = .closed → receiptAccepted s (nextSequence w.events) = true) →
      Step ctl env w (w.append ⟨kind, ⟨nextSequence w.events, s⟩⟩)
  | corrupt : Step ctl env w w.corrupt
  | request {r} : w.events = [] → w.request = none → Step ctl env w { w with request := some r }
  | snapshot {e} : w.events.head? = some e →
      Step ctl env w { w with snapshot := some e.projection }
  | receipt {e} : w.events.head? = some e → e.projection.state.lifecycle = .closed →
      Step ctl env w { w with receipt := some e.projection }

/-- Chains of steps. -/
abbrev Reaches (ctl : Controller) (env : Environment) : World → World → Prop :=
  Relation.ReflTransGen (Step ctl env)

end RunpodJobrunner
