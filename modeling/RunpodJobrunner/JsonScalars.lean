import RunpodJobrunner.JournalLines

/-!
# The scalars of a value

A condition on every scalar of a value, its keys included, and the replacement of its
scalars by others. A fact about scalars carries over to values by one rule each: what
is storable, what holds a character, what is written and what is equal.
-/

namespace RunpodJobrunner

namespace Json

/-- A value that holds no other. -/
def IsScalar : Json → Prop
  | arr _ | obj _ => False
  | _ => True

mutual

/-- Every scalar satisfies `p`, every key does as a string, and no object has a key
twice. -/
def Every (p : Json → Prop) : Json → Prop
  | arr vs => EveryItem p vs
  | obj kvs => (kvs.map Prod.fst).Nodup ∧ EveryMember p kvs
  | v => p v

/-- In every element. -/
def EveryItem (p : Json → Prop) : List Json → Prop
  | [] => True
  | v :: vs => Every p v ∧ EveryItem p vs

/-- In every member. -/
def EveryMember (p : Json → Prop) : List (Text × Json) → Prop
  | [] => True
  | (k, v) :: kvs => p (str k) ∧ Every p v ∧ EveryMember p kvs

end

mutual

/-- The value with its scalars replaced. Keys stay. -/
def mapScalars (f : Json → Json) : Json → Json
  | arr vs => arr (mapItems f vs)
  | obj kvs => obj (mapMembers f kvs)
  | v => f v

/-- The elements with their scalars replaced. -/
def mapItems (f : Json → Json) : List Json → List Json
  | [] => []
  | v :: vs => mapScalars f v :: mapItems f vs

/-- The members with their scalars replaced. -/
def mapMembers (f : Json → Json) : List (Text × Json) → List (Text × Json)
  | [] => []
  | (k, v) :: kvs => (k, mapScalars f v) :: mapMembers f kvs

end

/-! ## Induction -/

/-- A value is a scalar, an array or an object of values. -/
@[elab_as_elim] theorem induct {motive : Json → Prop} (scalar : ∀ v, v.IsScalar → motive v)
    (arr : ∀ vs, (∀ v ∈ vs, motive v) → motive (.arr vs))
    (obj : ∀ kvs, (∀ r ∈ kvs, motive r.2) → motive (.obj kvs)) (v : Json) : motive v :=
  @Json.rec motive (fun vs => ∀ v ∈ vs, motive v) (fun kvs => ∀ r ∈ kvs, motive r.2)
    (fun r => motive r.2) (scalar null trivial) (fun b => scalar (bool b) trivial)
    (fun n => scalar (int n) trivial) (fun x => scalar (float x) trivial)
    (fun x => scalar (decimal x) trivial) (fun t => scalar (str t) trivial) arr obj nofun
    (fun _ _ hv hvs => List.forall_mem_cons.mpr ⟨hv, hvs⟩) nofun
    (fun _ _ hr hkvs => List.forall_mem_cons.mpr ⟨hr, hkvs⟩) (fun _ _ hv => hv) v

/-! ## What the definitions say -/

section

variable {p q : Json → Prop} {f g : Json → Json} {d : Decoder} {o : DumpOptions} {v : Json}
  {vs : List Json} {kvs : List (Text × Json)}

/-- Of a scalar, the condition is about itself. -/
theorem every_scalar (hv : v.IsScalar) : Every p v ↔ p v := by
  cases v with
  | arr vs | obj kvs => cases hv
  | _ => rfl

@[simp] theorem every_arr : Every p (arr vs) ↔ ∀ v ∈ vs, Every p v := by
  rw [Every]
  induction vs with
  | nil => simp [EveryItem]
  | cons v vs ih => simp [EveryItem, ih]

@[simp] theorem every_obj :
    Every p (obj kvs) ↔ (kvs.map Prod.fst).Nodup ∧ ∀ r ∈ kvs, p (str r.1) ∧ Every p r.2 := by
  rw [Every]
  refine and_congr .rfl ?_
  induction kvs with
  | nil => simp [EveryMember]
  | cons r kvs ih => simp [EveryMember, ih, and_assoc]

/-- A scalar is mapped itself. -/
theorem mapScalars_scalar (hv : v.IsScalar) : mapScalars f v = f v := by
  cases v with
  | arr vs | obj kvs => cases hv
  | _ => rfl

@[simp] theorem mapScalars_arr : mapScalars f (arr vs) = arr (vs.map (mapScalars f)) := by
  rw [mapScalars]
  induction vs with
  | nil => rfl
  | cons v vs ih => rw [mapItems, Json.arr.inj ih, List.map_cons]

@[simp] theorem mapScalars_obj :
    mapScalars f (obj kvs) = obj (kvs.map fun r => (r.1, mapScalars f r.2)) := by
  rw [mapScalars]
  induction kvs with
  | nil => rfl
  | cons r kvs ih => rw [mapMembers, Json.obj.inj ih, List.map_cons]

/-- Mapping the values leaves the keys. -/
theorem keys_map (kvs : List (Text × Json)) :
    (kvs.map fun r => (r.1, g r.2)).map Prod.fst = kvs.map Prod.fst := by
  rw [List.map_map]
  rfl

/-- A key is found with its value mapped. -/
theorem lookup_map (key : Text) (kvs : List (Text × Json)) :
    lookup key (kvs.map fun r => (r.1, g r.2)) = (lookup key kvs).map g := by
  induction kvs with
  | nil => rfl
  | cons r kvs ih =>
    obtain ⟨k, v⟩ := r
    rw [List.map_cons, lookup_cons, lookup_cons, ih]
    split <;> rfl

theorem sortKeys_scalar (hv : v.IsScalar) : v.sortKeys = v := by
  cases v with
  | arr vs | obj kvs => cases hv
  | _ => rfl

/-! ## Conditions -/

theorem every_and (v : Json) : Every (fun u => p u ∧ q u) v ↔ Every p v ∧ Every q v := by
  induction v using induct with
  | scalar v hv => rw [every_scalar hv, every_scalar hv, every_scalar hv]
  | arr vs ih =>
    rw [every_arr, every_arr, every_arr, ← forall₂_and]
    exact forall₂_congr ih
  | obj kvs ih =>
    have hmembers : ∀ r ∈ kvs, ((p (str r.1) ∧ q (str r.1)) ∧ Every (fun u => p u ∧ q u) r.2 ↔
        (p (str r.1) ∧ Every p r.2) ∧ q (str r.1) ∧ Every q r.2) := by
      intro r hr
      rw [ih r hr]
      tauto
    rw [every_obj, every_obj, every_obj, forall₂_congr hmembers, forall₂_and]
    tauto

/-- A condition on scalars implies what each scalar's does. -/
theorem every_imp (h : ∀ v, v.IsScalar → p v → q v) {v : Json} (hv : Every p v) : Every q v := by
  induction v using induct with
  | scalar v hs => exact (every_scalar hs).mpr (h v hs ((every_scalar hs).mp hv))
  | arr vs ih => exact every_arr.mpr fun v hmem => ih v hmem (every_arr.mp hv v hmem)
  | obj kvs ih =>
    obtain ⟨hnodup, hmembers⟩ := every_obj.mp hv
    refine every_obj.mpr ⟨hnodup, fun r hr => ?_⟩
    exact ⟨h (str r.1) trivial (hmembers r hr).1, ih r hr (hmembers r hr).2⟩

/-- Scalars that are replaced by themselves. -/
theorem mapScalars_eq_self (h : ∀ v, v.IsScalar → p v → f v = v) {v : Json} (hv : Every p v) :
    mapScalars f v = v := by
  induction v using induct with
  | scalar v hs => rw [mapScalars_scalar hs, h v hs ((every_scalar hs).mp hv)]
  | arr vs ih =>
    rw [mapScalars_arr, List.map_congr_left fun v hmem => ih v hmem (every_arr.mp hv v hmem),
      List.map_id']
  | obj kvs ih =>
    have hvalues : ∀ r ∈ kvs, (r.1, mapScalars f r.2) = r := fun r hr =>
      Prod.ext rfl (ih r hr ((every_obj.mp hv).2 r hr).2)
    rw [mapScalars_obj, List.map_congr_left hvalues, List.map_id']

/-- The order of keys does not matter. -/
theorem every_sortKeys (v : Json) : Every p v.sortKeys ↔ Every p v := by
  induction v using induct with
  | scalar v hv => rw [sortKeys_scalar hv]
  | arr vs ih =>
    rw [sortKeys, sortKeysList_eq, every_arr, every_arr, List.forall_mem_map]
    exact forall₂_congr ih
  | obj kvs ih =>
    rw [sortKeys, every_obj, every_obj, (keys_sortMembers_perm kvs).nodup_iff]
    refine and_congr .rfl ?_
    simp only [(sortMembers_perm _).mem_iff, sortKeysMembers_eq, List.forall_mem_map]
    exact forall₂_congr fun r hr => and_congr .rfl (ih r hr)

/-- A replacement of scalars by scalars, strings by themselves. -/
structure KeepsStrings (f : Json → Json) : Prop where
  scalar : ∀ v, v.IsScalar → (f v).IsScalar
  str : ∀ t, f (.str t) = .str t

/-- What is mapped meets the condition that each mapped scalar does. -/
theorem every_mapScalars (hf : KeepsStrings f) (h : ∀ v, v.IsScalar → p v → q (f v)) (v : Json)
    (hv : Every p v) : Every q (mapScalars f v) := by
  induction v using induct with
  | scalar v hs =>
    rw [mapScalars_scalar hs, every_scalar (hf.scalar v hs)]
    exact h v hs ((every_scalar hs).mp hv)
  | arr vs ih =>
    rw [mapScalars_arr, every_arr, List.forall_mem_map]
    exact fun v hmem => ih v hmem (every_arr.mp hv v hmem)
  | obj kvs ih =>
    obtain ⟨hnodup, hmembers⟩ := every_obj.mp hv
    rw [mapScalars_obj, every_obj, keys_map, List.forall_mem_map]
    refine ⟨hnodup, fun r hr => ?_⟩
    obtain ⟨hkey, hvalue⟩ := hmembers r hr
    exact ⟨hf.str r.1 ▸ h _ trivial hkey, ih r hr hvalue⟩

/-- A value whose scalars can be stored can be stored. -/
theorem storable_of_every (h : ∀ v, v.IsScalar → p v → Storable d v) (v : Json) (hv : Every p v) :
    Storable d v := by
  induction v using induct with
  | scalar v hs => exact h v hs ((every_scalar hs).mp hv)
  | arr vs ih => exact storableItems_iff.mpr fun v hmem => ih v hmem (every_arr.mp hv v hmem)
  | obj kvs ih =>
    obtain ⟨hnodup, hmembers⟩ := every_obj.mp hv
    refine ⟨hnodup, storableMembers_iff.mpr fun r hr => ?_⟩
    exact ⟨h (str r.1) trivial (hmembers r hr).1, ih r hr (hmembers r hr).2⟩

/-- A value has no such character where its scalars have none. -/
theorem anyChar_of_every {c : ℕ → Bool} (h : ∀ v, v.IsScalar → p v → anyChar c v = false) (v : Json)
    (hv : Every p v) : anyChar c v = false := by
  induction v using induct with
  | scalar v hs => exact h v hs ((every_scalar hs).mp hv)
  | arr vs ih =>
    rw [anyChar, anyCharItems_eq, List.any_eq_false]
    intro v hmem
    simp [ih v hmem (every_arr.mp hv v hmem)]
  | obj kvs ih =>
    obtain ⟨-, hmembers⟩ := every_obj.mp hv
    rw [anyChar, anyCharMembers_eq, List.any_eq_false]
    intro r hr
    have hkey : r.1.any c = false := h (str r.1) trivial (hmembers r hr).1
    simp [hkey, ih r hr (hmembers r hr).2]

/-! ## Writing -/

/-- An array is written where its elements are. -/
theorem isSome_writeItems :
    (writeItems o vs).isSome = true ↔ ∀ v ∈ vs, (write o v).isSome = true := by
  induction vs with
  | nil => simp [writeItems]
  | cons v vs ih =>
    rw [writeItems, List.forall_mem_cons, ← ih]
    cases write o v <;> cases writeItems o vs <;> simp

/-- An object is written where its values are. -/
theorem isSome_writeMembers :
    (writeMembers o kvs).isSome = true ↔ ∀ r ∈ kvs, (write o r.2).isSome = true := by
  induction kvs with
  | nil => simp [writeMembers]
  | cons r kvs ih =>
    rw [writeMembers, List.forall_mem_cons, ← ih]
    cases write o r.2 <;> cases writeMembers o kvs <;> simp

/-- A value of distinct keys is written when each of its scalars is. -/
theorem isSome_write (hq : ∀ t, q (str t))
    (h : ∀ v, v.IsScalar → p v → ((write o (f v)).isSome = true ↔ q v)) (v : Json) (hv : Every p v) :
    (write o (mapScalars f v)).isSome = true ↔ Every q v := by
  induction v using induct with
  | scalar v hs =>
    rw [mapScalars_scalar hs, every_scalar hs]
    exact h v hs ((every_scalar hs).mp hv)
  | arr vs ih =>
    rw [mapScalars_arr, write, Option.isSome_map, isSome_writeItems, every_arr, List.forall_mem_map]
    exact forall₂_congr fun v hmem => ih v hmem (every_arr.mp hv v hmem)
  | obj kvs ih =>
    obtain ⟨hnodup, hmembers⟩ := every_obj.mp hv
    rw [mapScalars_obj, write, Option.isSome_map, isSome_writeMembers, every_obj, List.forall_mem_map]
    simp only [hnodup, hq, true_and]
    exact forall₂_congr fun r hr => ih r hr (hmembers r hr).2

/-! ## Comparing -/

/-- Mapped elements are the same where each is. -/
theorem sameList_map {bools : Bool} :
    sameList bools vs (vs.map g) = true ↔ ∀ v ∈ vs, same bools v (g v) = true := by
  induction vs with
  | nil => simp [sameList]
  | cons v vs ih => simp [sameList, ih]

/-- Mapped members are the same where each value is. -/
theorem sameMembers_map {bools : Bool} (hnodup : (kvs.map Prod.fst).Nodup) :
    sameMembers bools kvs (kvs.map fun r => (r.1, g r.2)) = true ↔
      ∀ r ∈ kvs, same bools r.2 (g r.2) = true := by
  rw [sameMembers_eq, List.all_eq_true]
  refine forall₂_congr fun r hr => ?_
  rw [lookup_map, lookup_of_mem hnodup hr]
  rfl

/-- A value is equal to its image when each of its scalars is. -/
theorem same_mapScalars {bools : Bool} (hq : ∀ t, q (str t))
    (h : ∀ v, v.IsScalar → p v → (same bools v (f v) = true ↔ q v)) (v : Json) (hv : Every p v) :
    same bools v (mapScalars f v) = true ↔ Every q v := by
  induction v using induct with
  | scalar v hs =>
    rw [mapScalars_scalar hs, every_scalar hs]
    exact h v hs ((every_scalar hs).mp hv)
  | arr vs ih =>
    rw [mapScalars_arr, same, sameList_map, every_arr]
    exact forall₂_congr fun v hmem => ih v hmem (every_arr.mp hv v hmem)
  | obj kvs ih =>
    obtain ⟨hnodup, hmembers⟩ := every_obj.mp hv
    rw [mapScalars_obj, same, List.length_map, beq_self_eq_true, Bool.true_and,
      sameMembers_map hnodup, every_obj]
    simp only [hnodup, hq, true_and]
    exact forall₂_congr fun r hr => ih r hr (hmembers r hr).2

/-- Elements with equal images are the same, where that holds of scalars. -/
theorem sameList_of_map_eq {bools : Bool} {ws : List Json} (heq : vs.map g = ws.map g)
    (h : ∀ v ∈ vs, ∀ w ∈ ws, g v = g w → same bools v w = true) : sameList bools vs ws = true := by
  induction vs generalizing ws with
  | nil =>
    obtain rfl := List.map_eq_nil_iff.mp heq.symm
    rfl
  | cons v vs ih =>
    cases ws with
    | nil => cases heq
    | cons w ws =>
      obtain ⟨hhead, htail⟩ := List.cons.inj heq
      rw [sameList, h v List.mem_cons_self w List.mem_cons_self hhead,
        ih htail fun v hv w hw => h v (List.mem_cons_of_mem _ hv) w (List.mem_cons_of_mem _ hw)]
      rfl

/-- Values with one image are equal when scalars with one image are. -/
theorem same_of_mapScalars_eq {bools : Bool} (hf : KeepsStrings f)
    (h : ∀ v w, v.IsScalar → w.IsScalar → p v → p w → f v = f w → same bools v w = true)
    (v w : Json) (hv : Every p v) (hw : Every p w) (heq : mapScalars f v = mapScalars f w) :
    same bools v w = true := by
  induction v using induct generalizing w with
  | scalar v hs =>
    have himage := hf.scalar v hs
    rw [mapScalars_scalar hs] at heq
    have hws : w.IsScalar := by
      cases w with
      | arr ws | obj lws =>
        rw [heq] at himage
        cases himage
      | _ => trivial
    rw [mapScalars_scalar hws] at heq
    exact h v w hs hws ((every_scalar hs).mp hv) ((every_scalar hws).mp hw) heq
  | arr vs ih =>
    have hws : ¬w.IsScalar := by
      intro hs
      rw [mapScalars_arr, mapScalars_scalar hs] at heq
      have himage := hf.scalar w hs
      rw [← heq] at himage
      exact himage
    cases w with
    | arr ws =>
      rw [mapScalars_arr, mapScalars_arr] at heq
      exact sameList_of_map_eq (Json.arr.inj heq) fun v hmem w hmem' =>
        ih v hmem w (every_arr.mp hv v hmem) (every_arr.mp hw w hmem')
    | obj lws => cases heq
    | _ => exact absurd trivial hws
  | obj kvs ih =>
    have hws : ¬w.IsScalar := by
      intro hs
      rw [mapScalars_obj, mapScalars_scalar hs] at heq
      have himage := hf.scalar w hs
      rw [← heq] at himage
      exact himage
    cases w with
    | obj lws =>
      rw [mapScalars_obj, mapScalars_obj] at heq
      have hmap := Json.obj.inj heq
      have hlength : kvs.length = lws.length := by simpa using congrArg List.length hmap
      rw [same, hlength, beq_self_eq_true, Bool.true_and, sameMembers_eq, List.all_eq_true]
      intro r hr
      obtain ⟨q, hq, hqr⟩ := List.mem_map.mp (hmap ▸ List.mem_map_of_mem hr)
      obtain ⟨hkey, hvalue⟩ := Prod.mk.inj hqr
      rw [← hkey, lookup_of_mem (every_obj.mp hw).1 hq]
      exact ih r hr q.2 ((every_obj.mp hv).2 r hr).2 ((every_obj.mp hw).2 q hq).2 hvalue.symm
    | arr ws => cases heq
    | _ => exact absurd trivial hws

end

end Json

end RunpodJobrunner
