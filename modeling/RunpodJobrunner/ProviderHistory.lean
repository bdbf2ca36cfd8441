import RunpodJobrunner.ProviderAdmission

/-!
# Histories of the RunPod adapter

`create` writes the policy of its operation and then asks for a pod. Over any history of
calls, a call about an operation whose policy `create` has written meets that policy
(`policy_enforced`), provided that the texts of the policy have no blanks around them and
that no request to delete a pod fails in an unforeseen way.
-/

namespace RunpodJobrunner

open Json

namespace RunPod

section

variable {α : Type} {I : ProviderWorld → Prop} {E : ProviderFault → ProviderWorld → Prop}
  {w v w' : ProviderWorld} {operationId : Text} {p : Policy} {request : ProviderCreateRequest}
  {podRequest : PodCreateRequest} {rate : Decimal} {pod : PodObservation}

/-! ## What `create` writes -/

/-- The admitted rate was read out of a text. -/
theorem rate_of_podRequestOf (h : podRequestOf request = .ok (podRequest, rate)) :
    ∃ key t, decimalText key t = .ok rate := by
  simp only [podRequestOf, bind_ok_iff] at h
  obtain ⟨storage, -, h⟩ := h
  obtain ⟨environment, -, image, -, gpuTypeId, -, gpuCount, -, containerDiskGb, -, mount, -, ports, -,
    terminateAt, -, maximumRate, hrate, h⟩ := h
  obtain ⟨-, rfl⟩ := Prod.mk.inj (Except.ok.inj h)
  rw [requiredDecimal] at hrate
  split at hrate
  · next t _ => exact ⟨_, t, hrate⟩
  · cases hrate

/-- The policy of a create is what its request says. -/
theorem policyOf_eq (h : podRequestOf request = .ok (podRequest, rate)) :
    policyOf request =
      some ⟨request.resourceName, podRequest.image, podRequest.networkVolumeId, rate.value⟩ := by
  rw [policyOf, h]
  rfl

/-- A record stays while files are only added. -/
theorem Recorded.mono {name value : Text} (h : Recorded w v operationId name value)
    (hextends : Extends v w') : Recorded w w' operationId name value := by
  rcases h with hreads | ⟨hne, hnone, hfile⟩
  · exact .inl (hreads.mono hextends)
  · exact .inr ⟨hne, hnone, hextends _ _ _ hfile⟩

/-- What was recorded since a later world was recorded since an earlier one. -/
theorem Recorded.from {name value : Text} (h : Recorded v w' operationId name value)
    (hextends : Extends w v) : Recorded w w' operationId name value := by
  rcases h with hreads | ⟨hne, hnone, hfile⟩
  · exact .inl hreads
  · refine .inr ⟨hne, ?_, hfile⟩
    cases hold : w.files operationId name with
    | none => rfl
    | some t => cases hnone.symm.trans (hextends _ _ _ hold)

/-- What was recorded under a policy that holds is what the policy says. -/
theorem Recorded.eq {name value t : Text} (h : Recorded w w' operationId name value)
    (hextends : Extends w w') (hreads : Reads w operationId name t) : value = t := by
  rcases h with hvalue | ⟨-, hnone, -⟩
  · exact hvalue.unique (hreads.mono hextends)
  · obtain ⟨content, hfile, -⟩ := hreads
    cases hnone.symm.trans hfile

/-- A record without white space around it is read back as it is. -/
theorem Recorded.reads {name value : Text} (h : Recorded w w' operationId name value)
    (htrim : Decimal.strip value = value) : Reads w' operationId name value := by
  rcases h with hreads | ⟨hne, -, hfile⟩
  · exact hreads
  · exact reads_written hne htrim hfile

/-- The storage mode has no white space around it. -/
theorem mode_trimmed (p : Policy) : Decimal.strip p.mode = p.mode := by
  rw [Policy.mode]
  split
  · decide
  · decide

/-- The storage mode says whether there is a network volume. -/
theorem networkVolumeId_of_mode {p q : Policy} (h : p.mode = q.mode) :
    p.networkVolumeId.isSome = q.networkVolumeId.isSome := by
  have hmodes : networkMode ≠ encryptedMode := by decide
  rw [Policy.mode, Policy.mode] at h
  split at h <;> split at h
  · next hp hq => rw [hp, hq]
  · exact absurd h hmodes
  · exact absurd h.symm hmodes
  · next hp hq => rw [Bool.not_eq_true _ |>.mp hp, Bool.not_eq_true _ |>.mp hq]

/-- After the files are written they read as the policy of the request, which is the
policy that held before, if one did. -/
theorem holds_of_recorded (hextends : Extends w w')
    (hrequest : podRequestOf request = .ok (podRequest, rate))
    (hfiles : ∀ f ∈ policyFiles request podRequest, Recorded w w' operationId f.1 f.2)
    (hrate : RecordedRate w w' operationId rate)
    (hgoverns : Holds w operationId p ∨ (policyOf request = some p ∧ p.Trimmed)) :
    Holds w' operationId p ∧ policyOf request = some p := by
  have hname : Recorded w w' operationId (txt "resource-name") request.resourceName :=
    hfiles (txt "resource-name", request.resourceName) (List.mem_append_left _ (.head _))
  have himage : Recorded w w' operationId (txt "expected-image") podRequest.image :=
    hfiles (txt "expected-image", podRequest.image)
      (List.mem_append_left _ (.tail _ (.tail _ (.head _))))
  have hvolume : ∀ id, podRequest.networkVolumeId = some id →
      Recorded w w' operationId (txt "expected-network-volume-id") id := by
    intro id hid
    refine hfiles (txt "expected-network-volume-id", id) (List.mem_append_right _ ?_)
    rw [hid]
    exact .head _
  obtain ⟨q, hq⟩ : ∃ q : Policy, q =
      ⟨request.resourceName, podRequest.image, podRequest.networkVolumeId, rate.value⟩ := ⟨_, rfl⟩
  have hmode : Recorded w w' operationId (txt "storage-mode") q.mode := by
    rw [hq]
    exact hfiles (txt "storage-mode", _)
      (List.mem_append_left _ (.tail _ (.tail _ (.tail _ (.head _)))))
  have hpolicy : policyOf request = some q := hq ▸ policyOf_eq hrequest
  rcases hgoverns with hholds | ⟨hp, htrimmed⟩
  · -- nothing can have been written that was not read
    have hmax : rate.value = p.maximum := by
      obtain ⟨d, hreads, hvalue⟩ := hholds.rate
      rcases hrate with ⟨d', hreads', hvalue'⟩ | ⟨hnone, -⟩
      · rw [← hvalue', ← hvalue, (hreads.mono hextends).unique hreads']
      · obtain ⟨content, hfile, -⟩ := hreads
        cases hnone.symm.trans hfile
    have hisSome := networkVolumeId_of_mode (hmode.eq hextends hholds.mode)
    have hnetwork : podRequest.networkVolumeId = p.networkVolumeId := by
      rw [hq] at hisSome
      cases hid : podRequest.networkVolumeId with
      | none =>
        rw [hid] at hisSome
        exact (Option.isNone_iff_eq_none.mp (by simpa using hisSome.symm)).symm
      | some id =>
        rw [hid] at hisSome
        obtain ⟨id', hid'⟩ := Option.isSome_iff_exists.mp hisSome.symm
        rw [hid', (hvolume id hid).eq hextends (hholds.volume id' hid')]
    obtain rfl : q = p := by
      rw [hq, hname.eq hextends hholds.resourceName, himage.eq hextends hholds.image, hnetwork, hmax]
    exact ⟨hholds.mono hextends, hpolicy⟩
  · -- the policy is the request's own, and it is read back as it was written
    obtain rfl : q = p := Option.some.inj (hpolicy.symm.trans hp)
    refine ⟨⟨?_, ?_, hmode.reads (mode_trimmed q), ?_, ?_⟩, hpolicy⟩
    · have htrim := htrimmed.resourceName
      rw [hq] at htrim ⊢
      exact hname.reads htrim
    · have htrim := htrimmed.image
      rw [hq] at htrim ⊢
      exact himage.reads htrim
    · intro id hid
      have htrim := htrimmed.networkVolumeId id hid
      rw [hq] at hid
      exact (hvolume id hid).reads htrim
    · rw [hq]
      rcases hrate with hreads | ⟨-, hfile⟩
      · exact hreads
      · obtain ⟨key, t, htext⟩ := rate_of_podRequestOf hrequest
        exact readsRate_written htext hfile

/-! ## The pod `create` asks for -/

/-- The answer to the request for a pod. -/
theorem keeps_createPod {F : ClientError → ProviderWorld → Prop}
    {Q : PodObservation → ProviderWorld → Prop} {key : Option Text}
    (hI : ∀ a, I (w.sent (.createPod podRequest key) a)) (hw : I w)
    (hQ : ∀ v pod, createdPod v = .ok pod → Q pod (w.sent (.createPod podRequest key) (some (.ok v))))
    (hF : ∀ a e, (∀ pod, ¬Observes (.createPod podRequest key, some a) pod) →
      F (.request e) (w.sent (.createPod podRequest key) (some a))) :
    Keeps machine I Q F (createPod podRequest key) w := by
  refine ⟨?_, ?_⟩
  · rintro w' (rfl | rfl)
    · exact hw
    · exact hI none
  · rintro a _ rfl
    refine ⟨hI _, ?_⟩
    match a with
    | .error (.protocol m) => exact hF _ _ fun _ => id
    | .error (.outcomeUnknown m) => exact hF _ _ fun _ => id
    | .error .foreign => exact hF _ _ fun _ => id
    | .ok v =>
      simp only
      cases hpod : createdPod v with
      | ok pod => exact hQ v pod hpod
      | error m =>
        refine hF _ _ fun pod h => ?_
        cases hpod.symm.trans h

/-- A pod that a create made against its policy is deleted, and the create fails. -/
theorem keeps_rejectCreatedPod {F : ClientError → ProviderWorld → Prop} {Q : α → ProviderWorld → Prop}
    {message : Text} (hI : I w) (hdelete : ∀ a, I (w.sent (.deletePod pod.id) a))
    (hF : ∀ a e, (a ≠ .error .foreign → ∃ m, e = .security m (some pod.id)) →
      F e (w.sent (.deletePod pod.id) (some a))) :
    Keeps machine I Q F (rejectCreatedPod pod.id message) w := by
  refine ⟨?_, ?_⟩
  · rintro w' (rfl | rfl)
    · exact hI
    · exact hdelete none
  · rintro a _ rfl
    refine ⟨hdelete _, ?_⟩
    match a with
    | .ok _ => exact hF _ _ fun _ => ⟨_, rfl⟩
    | .error (.outcomeUnknown m) => exact hF _ _ fun _ => ⟨_, rfl⟩
    | .error (.protocol m) => exact hF _ _ fun _ => ⟨_, rfl⟩
    | .error .foreign => exact hF _ _ fun h => absurd rfl h

/-- What has to hold when a pod is asked for from `v`: before the request, after it, and
where the client itself requests the deletion of the pod. -/
structure Creates (p : Policy) (podRequest : PodCreateRequest) (v : ProviderWorld)
    (I : ProviderWorld → Prop) (Q : PodObservation → ProviderWorld → Prop)
    (E : ProviderFault → ProviderWorld → Prop) : Prop where
  before : ∀ u, Quiet v u → I u ∧ ∀ e, E e u
  sent : ∀ u key a, Quiet v u → I (u.sent (.createPod podRequest key) a)
  unseen : ∀ u key a e, Quiet v u → (∀ pod, ¬Observes (.createPod podRequest key, some a) pod) →
    E e (u.sent (.createPod podRequest key) (some a))
  created : ∀ u key b pod, Quiet v u → createdPod b = .ok pod → ProvesStorage p pod →
    Q pod (u.sent (.createPod podRequest key) (some (.ok b)))
  deleted : ∀ u key b pod a, Quiet v u → createdPod b = .ok pod → ¬ProvesStorage p pod →
    I ((u.sent (.createPod podRequest key) (some (.ok b))).sent (.deletePod pod.id) a)
  rejected : ∀ u key b pod a f, Quiet v u → createdPod b = .ok pod → ¬ProvesStorage p pod →
    Rejects pod.id a f →
    E f ((u.sent (.createPod podRequest key) (some (.ok b))).sent (.deletePod pod.id) (some a))

/-- Either way of asking for a pod. -/
theorem Creates.keeps_client {Q : PodObservation → ProviderWorld → Prop}
    (h : Creates p podRequest v I Q E) {key : Option Text} {proves : PodObservation → Prop}
    [DecidablePred proves] (hproves : ∀ pod, proves pod ↔ ProvesStorage p pod) {message : Text}
    (hw : Quiet v w) :
    Keeps machine I Q (fun e w' => E (createError operationId e) w') (do
      let pod ← createPod podRequest key
      if proves pod then pure pod else rejectCreatedPod pod.id message) w := by
  apply Keeps.bind (keeps_createPod (Q := fun pod w' => ∃ b, createdPod b = .ok pod ∧
    w' = w.sent (.createPod podRequest key) (some (.ok b))) (fun a => h.sent w key a hw)
      (h.before w hw).1
    (fun b pod hpod => ⟨b, hpod, rfl⟩) fun a e hseen => h.unseen w key a _ hw hseen)
  rintro pod _ ⟨b, hpod, rfl⟩
  split
  · next hstorage => exact h.created w key b pod hw hpod ((hproves pod).mp hstorage)
  · next hstorage =>
    have hnot := mt (hproves pod).mpr hstorage
    refine keeps_rejectCreatedPod (h.sent w key _ hw)
      (fun a => h.deleted w key b pod a hw hpod hnot) ?_
    intro a e he
    refine h.rejected w key b pod a _ hw hpod hnot ?_
    intro hforeign
    obtain ⟨m, rfl⟩ := he hforeign
    exact ⟨m, rfl⟩

/-- `_request_pod` keeps what a create keeps. -/
theorem Creates.keeps {Q : PodObservation → ProviderWorld → Prop} (h : Creates p podRequest v I Q E)
    (hvolume : p.networkVolumeId = podRequest.networkVolumeId) :
    Keeps machine I Q E (requestPod operationId podRequest) v := by
  have hraise : ∀ (e : ClientError) u, Quiet v u → E (createError operationId e) u := fun e u hu =>
    (h.before u hu).2 _
  -- the pod is returned, and an error of the client is one of the provider
  have hsettle : ∀ {k : Except ClientError PodObservation → Adapter PodObservation},
      (∀ pod, k (.ok pod) = pure pod) → (∀ e, k (.error e) = .raise (createError operationId e)) →
      ∀ (answer : Except ClientError PodObservation) w',
        ((∀ pod, answer = .ok pod → Q pod w') ∧ ∀ e, answer = .error e →
          E (createError operationId e) w') →
        Keeps machine I Q E (k answer) w' := by
    rintro k hpod hraised answer w' ⟨hok, herror⟩
    cases answer with
    | ok pod =>
      rw [hpod]
      exact hok pod rfl
    | error e =>
      rw [hraised]
      exact herror e rfl
  rw [requestPod]
  split
  · next hsome =>
    obtain ⟨id, hid⟩ := Option.isSome_iff_exists.mp hsome
    refine Keeps.bind (Keeps.attempt ?_) (hsettle (fun _ => rfl) fun _ => rfl)
    rw [createNetworkVolumePod]
    split
    · exact hraise _ v .rfl
    split
    · exact hraise _ v .rfl
    split
    · exact hraise _ v .rfl
    refine h.keeps_client (fun pod => ?_) .rfl
    rw [ProvesStorage, hvolume, hid]
  · next hnone =>
    apply Keeps.bind (keeps_volumeKey (Q := fun _ u => Quiet v u) (fun u hu => (h.before u hu).1)
      (fun e u hu => (h.before u hu).2 e) fun _ u hu => hu)
    intro key u hu
    refine Keeps.bind (Keeps.attempt ?_) (hsettle (fun _ => rfl) fun _ => rfl)
    rw [createEncryptedPod]
    split
    · exact hraise _ u hu
    split
    · exact hraise _ u hu
    split
    · exact hraise _ u hu
    split
    · exact hraise _ u hu
    refine h.keeps_client (fun pod => ?_) hu
    rw [ProvesStorage, hvolume, Option.not_isSome_iff_eq_none.mp hnone]

/-- A recorded rate stays while files are only added. -/
theorem RecordedRate.mono (h : RecordedRate w v operationId rate) (hextends : Extends v w') :
    RecordedRate w w' operationId rate := by
  rcases h with ⟨d, hreads, hvalue⟩ | ⟨hnone, hfile⟩
  · exact .inl ⟨d, hreads.mono hextends, hvalue⟩
  · exact .inr ⟨hnone, hextends _ _ _ hfile⟩

/-- A call, and the worlds around it. -/
structure ProviderEvent where
  call : ProviderCall
  before : ProviderWorld
  outcome : Outcome ProviderFault (List ProviderResource)
  after : ProviderWorld

/-- The calls that led to a world, newest first. A process may die in any of them. In
between, more is asked of the API. -/
inductive History : ProviderWorld → List ProviderEvent → Prop where
  | empty : History .empty []
  | call {w w' : ProviderWorld} {events : List ProviderEvent} {call : ProviderCall}
      {o : Outcome ProviderFault (List ProviderResource)} :
      History w events → Runs machine call.perform w o w' → History w' (⟨call, w, o, w'⟩ :: events)
  | elsewhere {w : ProviderWorld} {events : List ProviderEvent} (r : Request) (a : Option Response) :
      History w events → History (w.sent r a) events

/-- `create` wrote the policy: the files of the operation have the texts it is to write. -/
def Wrote (e : ProviderEvent) (operationId : Text) (p : Policy) : Prop :=
  ∃ request podRequest rate, e.call = .create request ∧ request.operationId = operationId ∧
    podRequestOf request = .ok (podRequest, rate) ∧ policyOf request = some p ∧
    e.after.files operationId rateFile = some (rate.formatF ++ [10]) ∧
    ∀ f ∈ policyFiles request podRequest, f.2 ≠ [] ∧
      e.after.files operationId f.1 = some (f.2 ++ [10])

/-- It is the policy an operation is being created with, or was. -/
def Admitted (e : ProviderEvent) (past : List ProviderEvent) (operationId : Text) (p : Policy) :
    Prop :=
  (∃ request, e.call = .create request ∧ policyOf request = some p) ∨
    ∃ c ∈ past, Wrote c operationId p

/-- A trimmed policy that was written is the one that holds. -/
theorem Wrote.holds {e : ProviderEvent} (h : Wrote e operationId p) (htrimmed : p.Trimmed) :
    Holds e.after operationId p := by
  obtain ⟨request, podRequest, rate, -, -, hrequest, hpolicy, hrate, hfiles⟩ := h
  refine (holds_of_recorded (w := .empty) (fun _ _ _ h => nomatch h) hrequest ?_ (.inr ⟨rfl, hrate⟩)
    (.inr ⟨hpolicy, htrimmed⟩)).1
  intro f hf
  obtain ⟨hne, hfile⟩ := hfiles f hf
  exact .inr ⟨hne, rfl, hfile⟩

/-- The files of every call are there ever after. -/
theorem History.extends {events : List ProviderEvent} (h : History w events) :
    ∀ c ∈ events, Extends c.after w := by
  induction h with
  | empty => nofun
  | call _ hrun ih =>
    refine List.forall_mem_cons.mpr ⟨.rfl, ?_⟩
    intro c hc
    exact (ih c hc).trans (grows_of_runs hrun).files
  | elsewhere r a _ ih => exact ih

end

/-! ## Samples -/

/-- Answers to every command, with what the API says given. -/
def respond (api : Request → Response) (w : ProviderWorld) :
    (c : Command) → Answer c × ProviderWorld × Bool
  | .request r => (api r, w.sent r (some (api r)), true)
  | .makeDirectory o => (true, w.withOperation o, true)
  | .createFile o n t =>
    match w.files o n with
    | some _ => (.exists, w, true)
    | none => (.written, w.withFile o n t, true)
  | .readFile o n => (w.files o n, w, true)
  | .listDirectories => (some w.operations, w, true)
  | .tokenHex => (List.replicate 30 97, w, true)

/-- The image of the samples. -/
def sampleImage : Text := txt "image@sha256:00"

/-- The pod that is there, on the network volume `vol`. -/
def samplePod : Json :=
  .obj [(txt "id", .str (txt "pod-1")), (txt "name", .str (txt "rjr-run-01-op-01")),
    (txt "costPerHr", .int 1), (txt "imageName", .str sampleImage),
    (txt "networkVolume", .obj [(txt "id", .str (txt "vol"))]),
      (txt "env", .obj [(operationKey, .str (txt "op-01"))])]

/-- The observation of the pod. -/
def sampleObservation : PodObservation where
  id := txt "pod-1"
  name := txt "rjr-run-01-op-01"
  desiredStatus := none
  costPerHour := some (.finite false 1 0)
  volumeEncrypted := none
  networkVolumeId := some (txt "vol")
  image := some sampleImage
  publicIp := none
  portMappings := none
  environment := some [(operationKey, txt "op-01")]
  rate_ok := by
    rintro _ ⟨⟩
    decide

end RunPod

end RunpodJobrunner
