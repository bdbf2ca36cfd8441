import RunpodJobrunner.ProviderRules

/-!
# The admitted policy

What `create` was asked for is the policy of its operation: the storage, the highest
hourly rate and the image of the pod. Where the files of an operation read as its policy
(`Holds`), a pod that violates it is never returned: its deletion is requested and a
rejection raised that names it. Texts are read back without the blanks around them, so
the files of a policy read as that policy when it has none (`Policy.Trimmed`).
-/

namespace RunpodJobrunner

open Json

namespace RunPod

/-! ## Policies -/

/-- What an operation was admitted with. -/
structure Policy where
  resourceName : Text
  image : Text
  networkVolumeId : Option Text
  maximum : ℚ
  deriving DecidableEq

/-- The policy a request to create a pod stands for. -/
def policyOf (request : ProviderCreateRequest) : Option Policy :=
  (podRequestOf request).toOption.map fun r =>
    ⟨request.resourceName, r.1.image, r.1.networkVolumeId, r.2.value⟩

/-- The storage mode of a policy. -/
def Policy.mode (p : Policy) : Text :=
  if p.networkVolumeId.isSome then networkMode else encryptedMode

/-- No text of the policy has blanks around it. -/
structure Policy.Trimmed (p : Policy) : Prop where
  resourceName : Decimal.strip p.resourceName = p.resourceName
  image : Decimal.strip p.image = p.image
  networkVolumeId : ∀ id, p.networkVolumeId = some id → Decimal.strip id = id

/-- An observation proves the admitted storage. -/
def ProvesStorage (p : Policy) (pod : PodObservation) : Prop :=
  match p.networkVolumeId with
  | none => pod.volumeEncrypted = some true
  | some id => pod.networkVolumeId = some id

/-- A pod is not what was admitted. -/
inductive Violates (p : Policy) (pod : PodObservation) : Prop where
  | storage : ¬ProvesStorage p pod → Violates p pod
  | noRate : pod.costPerHour = none → Violates p pod
  | rate {rate : Decimal} : pod.costPerHour = some rate →
      rate.isFinite = false ∨ rate.value ≤ 0 ∨ p.maximum < rate.value → Violates p pod
  | image : pod.image ≠ some p.image → Violates p pod

/-- The files of an operation read as a policy. -/
structure Holds (w : ProviderWorld) (operationId : Text) (p : Policy) : Prop where
  resourceName : Reads w operationId (txt "resource-name") p.resourceName
  image : Reads w operationId (txt "expected-image") p.image
  mode : Reads w operationId (txt "storage-mode") p.mode
  volume : ∀ id, p.networkVolumeId = some id →
    Reads w operationId (txt "expected-network-volume-id") id
  rate : ∃ d, ReadsRate w operationId d ∧ d.value = p.maximum

section

variable {α : Type} {I : ProviderWorld → Prop} {Q : α → ProviderWorld → Prop}
  {E : ProviderFault → ProviderWorld → Prop} {w w' : ProviderWorld}
  {operationId name value : Text} {p : Policy} {pod : PodObservation} {pods : List PodObservation}

theorem Holds.mono (h : Holds w operationId p) (hextends : Extends w w') :
    Holds w' operationId p where
  resourceName := h.resourceName.mono hextends
  image := h.image.mono hextends
  mode := h.mode.mono hextends
  volume := fun id hid => (h.volume id hid).mono hextends
  rate := by
    obtain ⟨d, hreads, hvalue⟩ := h.rate
    exact ⟨d, hreads.mono hextends, hvalue⟩

/-! ## Checks -/

/-- How a call ends that requested the deletion of a pod. -/
def Rejects (podId : Text) (a : Response) (f : ProviderFault) : Prop :=
  a ≠ .error .foreign → ∃ m, f = rejection podId m

end

end RunPod

end RunpodJobrunner
