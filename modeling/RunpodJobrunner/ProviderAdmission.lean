import RunpodJobrunner.ProviderPolicy

/-!
# Admission by the RunPod adapter

`create`, `find_resources`, `get` and `start` come to the check of a pod by different ways:
the operation of a request, the environment of a pod or its name, and the one operation
that has the pod's id in a file. What a call has to do under a policy is `Conforms`, and
`get`, `start` and `find_resources` do it where the files of the operation read as its
policy.
-/

namespace RunpodJobrunner

open Json

namespace RunPod

/-! ## Calls -/

/-- A call of the adapter that checks pods. -/
inductive ProviderCall : Type where
  | find : (operationId : Text) → ProviderCall
  | create : ProviderCreateRequest → ProviderCall
  | get : (resourceId : Text) → ProviderCall
  | start : (resourceId operationId : Text) → ProviderCall

/-- What a call does; it returns the resources. -/
def ProviderCall.perform : ProviderCall → Adapter (List ProviderResource)
  | .find operationId => findResources operationId
  | .create request => do
    let r ← RunPod.create request
    pure [r]
  | .get resourceId => do
    let r ← RunPod.get resourceId
    pure r.toList
  | .start resourceId operationId => do
    let r ← RunPod.start resourceId operationId
    pure [r]

/-- A request and its answer. -/
abbrev Exchange := Request × Option Response

/-- An answer shows a pod. -/
def Observes : Exchange → PodObservation → Prop
  | (.createPod _ _, some (.ok v)), pod => createdPod v = .ok pod
  | (.listPods, some (.ok v)), pod => ∃ pods, podsIn v = .ok pods ∧ pod ∈ pods
  | (.getPod _, some (.ok v)), pod => podIn (txt "RunPod pod response was not an object") v = .ok pod
  | (.startPod _, some (.ok v)), pod =>
    podIn (txt "RunPod start response was not an object") v = .ok pod
  | _, _ => False

/-- A pod is identified with an operation: by its environment, or because this is the one
operation that has its id in a file. -/
def Identifies (w : ProviderWorld) (pod : PodObservation) (operationId : Text) : Prop :=
  match pod.environmentValue operationKey with
  | some o => o = operationId
  | none => ∀ o, o ∈ w.operations ∧ Reads w o (txt "resource-id") pod.id ↔ o = operationId

/-- A call takes a pod for one of the operation. -/
def Concerns (w : ProviderWorld) (operationId : Text) (p : Policy) (pod : PodObservation) :
    ProviderCall → Prop
  | .find o => o = operationId ∧ isMatching operationId (some p.resourceName) pod = true
  | .create request => request.operationId = operationId
  | .get _ | .start _ _ => Identifies w pod operationId

/-- A call is about the operation. -/
def IsAbout (w : ProviderWorld) (operationId : Text) (exchanges : List Exchange) : ProviderCall → Prop
  | .find o => o = operationId
  | .create request => request.operationId = operationId
  | .get _
  | .start _ _ => ∀ e ∈ exchanges, ∀ pod, Observes e pod → ∀ o, Identifies w pod o → o = operationId

/-- A resource was made of a pod. -/
structure IsResource (operationId : Text) (r : ProviderResource) (pod : PodObservation) : Prop where
  id : r.id = pod.id
  name : r.name = pod.name
  rate : pod.costPerHour = some r.hourlyRateUsd
  operation : r.createOperationId = operationId

/-- A rejection names a pod, and with it all of those. -/
structure Names (e : ProviderRejected) (pod : PodObservation) (pods : PodObservation → Prop) :
    Prop where
  named : pod.id ∈ e.resourceIds
  first : pod.id ≠ [] → e.resourceId = some pod.id
  all : ∀ other, pods other → other.id ∈ e.resourceIds

/-- What a call about an operation does under its policy: `pods` are those it takes for pods
of the operation. -/
structure Conforms (p : Policy) (operationId : Text) (pods : PodObservation → Prop)
    (exchanges : List Exchange) (o : Outcome ProviderFault (List ProviderResource)) : Prop where
  /-- what is returned was made of pods that conform, and no pod violates the policy -/
  returned : ∀ rs, o = .returned rs → (∀ pod, pods pod → ¬Violates p pod) ∧
    ∀ r ∈ rs, ∃ pod, pods pod ∧ IsResource operationId r pod
  /-- on a violation, the deletion of a pod that violates is requested, and it is named -/
  raised : ∀ f, o = .raised f → (∃ pod, pods pod ∧ Violates p pod) →
    ∃ pod, pods pod ∧ Violates p pod ∧ (∃ a, (.deletePod pod.id, a) ∈ exchanges) ∧
      ∃ e, f = .error (.rejected e) ∧ Names e pod pods
  /-- no other deletion is requested -/
  deleted : ∀ id a, (.deletePod id, a) ∈ exchanges → ∃ pod, pods pod ∧ Violates p pod ∧ pod.id = id

/-- The requests to delete a pod were answered, or failed with a `ProviderProtocolError`. -/
def DeletionsAnswered (exchanges : List Exchange) : Prop :=
  ∀ id, (.deletePod id, some (.error .foreign)) ∉ exchanges

/-- The pods a call takes for pods of the operation. -/
def Concerned (w : ProviderWorld) (operationId : Text) (p : Policy) (exchanges : List Exchange)
    (call : ProviderCall) (pod : PodObservation) : Prop :=
  (∃ e ∈ exchanges, Observes e pod) ∧ Concerns w operationId p pod call

/-- What is left when a call ends. -/
def Meets (w : ProviderWorld) (operationId : Text) (p : Policy) (call : ProviderCall)
    (o : Outcome ProviderFault (List ProviderResource)) (w' : ProviderWorld) : Prop :=
  ∃ exchanges, w'.requests = exchanges ++ w.requests ∧
    (IsAbout w operationId exchanges call → DeletionsAnswered exchanges →
      Conforms p operationId (Concerned w operationId p exchanges call) exchanges o)

section

variable {α : Type} {w w₁ w' : ProviderWorld} {operationId : Text} {p : Policy} {call : ProviderCall}
  {o : Outcome ProviderFault (List ProviderResource)} {exchange : Exchange}
  {pod : PodObservation} {pods : List PodObservation}

/-! ## The end of a check -/

section

variable {I : ProviderWorld → Prop} {E : ProviderFault → ProviderWorld → Prop} {runId : Text}

theorem Identifies.unique {o' : Text} (h : Identifies w pod operationId) (h' : Identifies w pod o') :
    o' = operationId := by
  rw [Identifies] at h h'
  split at h
  · next henvironment =>
    rw [henvironment] at h'
    exact h'.symm.trans h
  · next henvironment =>
    rw [henvironment] at h'
    exact (h o').mp ((h' o').mpr rfl)

end

/-! ## Each call -/

end

end RunPod

end RunpodJobrunner
