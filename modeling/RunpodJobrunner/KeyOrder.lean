import RunpodJobrunner.JsonReadBack
import RunpodJobrunner.JsonSchema

/-!
# The order of keys

A dict that was written and read back has its keys in order. That changes neither
what it is equal to nor what schemas accept, and a dict with its keys in order does
not depend on the order they were in.
-/

namespace RunpodJobrunner

/-! ## The order of strings -/

/-- Of two texts, one is not after the other. -/
theorem textLe_total (s t : Text) : textLe s t = true ∨ textLe t s = true := by
  induction s generalizing t with
  | nil => exact .inl rfl
  | cons a s ih =>
    cases t with
    | nil => exact .inr rfl
    | cons b t =>
      have htail := ih t
      simp only [textLe, Bool.or_eq_true, decide_eq_true_eq, Bool.and_eq_true, beq_iff_eq]
      grind

theorem textLe_trans {s t u : Text} (hst : textLe s t = true) (htu : textLe t u = true) :
    textLe s u = true := by
  induction s generalizing t u with
  | nil => rfl
  | cons a s ih =>
    cases t with
    | nil => cases hst
    | cons b t =>
      cases u with
      | nil => cases htu
      | cons c u =>
        have htail := @ih t u
        simp only [textLe, Bool.or_eq_true, decide_eq_true_eq, Bool.and_eq_true, beq_iff_eq] at *
        grind

theorem textLe_antisymm {s t : Text} (hst : textLe s t = true) (hts : textLe t s = true) :
    s = t := by
  induction s generalizing t with
  | nil =>
    cases t with
    | nil => rfl
    | cons b t => cases hts
  | cons a s ih =>
    cases t with
    | nil => cases hst
    | cons b t =>
      simp only [textLe, Bool.or_eq_true, decide_eq_true_eq, Bool.and_eq_true, beq_iff_eq] at hst hts
      have hab : a = b := by omega
      subst hab
      rw [ih (by simpa using hst) (by simpa using hts)]

/-- Members in the order of their keys. -/
def keyLe (p q : Text × Json) : Prop := textLe p.1 q.1 = true

instance : DecidableRel keyLe := fun p q => inferInstanceAs (Decidable (textLe p.1 q.1 = true))

instance : IsTrans (Text × Json) keyLe where
  trans _ _ _ hpq hqr := textLe_trans hpq hqr

instance : Std.Total keyLe where
  total p q := textLe_total p.1 q.1

/-! ## Conditions on lists -/

theorem all_congr_mem {α : Type} {p q : α → Bool} {l : List α} (h : ∀ a ∈ l, p a = q a) :
    l.all p = l.all q := by
  rw [Bool.eq_iff_iff, List.all_eq_true, List.all_eq_true]
  exact forall₂_congr fun a ha => by rw [h a ha]

theorem any_congr_mem {α : Type} {p q : α → Bool} {l : List α} (h : ∀ a ∈ l, p a = q a) :
    l.any p = l.any q := by
  rw [Bool.eq_iff_iff, List.any_eq_true, List.any_eq_true]
  exact exists_congr fun a => and_congr_right fun ha => by rw [h a ha]

namespace Json

variable {d : Decoder} {bools : Bool}

/-- Members in any order have one order by their keys. -/
theorem sortMembers_perm_eq {as bs : List (Text × Json)} (h : as.Perm bs)
    (hnodup : (as.map Prod.fst).Nodup) : sortMembers as = sortMembers bs := by
  have hperm : (sortMembers as).Perm (sortMembers bs) :=
    (sortMembers_perm as).trans (h.trans (sortMembers_perm bs).symm)
  have hsorted : ∀ kvs : List (Text × Json), (sortMembers kvs).Pairwise keyLe :=
    List.pairwise_insertionSort keyLe
  refine hperm.eq_of_pairwise ?_ (hsorted as) (hsorted bs)
  intro p q hp hq hpq hqp
  have hkey : p.1 = q.1 := textLe_antisymm hpq hqp
  -- a key stands for one member
  have hp' : p ∈ as := (sortMembers_perm as).mem_iff.mp hp
  have hq' : q ∈ as := h.mem_iff.mpr ((sortMembers_perm bs).mem_iff.mp hq)
  exact List.inj_on_of_nodup_map hnodup hp' hq' hkey

/-! ## Members -/

/-- A dict does not depend on the order of its members. -/
theorem lookup_perm {key : Text} {as bs : List (Text × Json)} (h : as.Perm bs)
    (hnodup : (as.map Prod.fst).Nodup) : lookup key as = lookup key bs := by
  cases has : lookup key as with
  | none =>
    rw [lookup_eq_none_iff] at has
    symm
    rw [lookup_eq_none_iff]
    exact fun hmem => has ((h.map Prod.fst).mem_iff.mpr hmem)
  | some v =>
    symm
    exact lookup_of_mem ((h.map Prod.fst).nodup_iff.mp hnodup) (h.mem_iff.mp (mem_of_lookup has))

/-- A member is found with its value sorted. -/
theorem lookup_sortKeysMembers (key : Text) (kvs : List (Text × Json)) :
    lookup key (sortKeysMembers kvs) = (lookup key kvs).map sortKeys := by
  induction kvs with
  | nil => rfl
  | cons p kvs ih =>
    obtain ⟨k, v⟩ := p
    rw [sortKeysMembers, lookup_cons, lookup_cons, ih]
    split <;> rfl

/-- A member is found in any order of the keys, where each is there once. -/
theorem lookup_sorted {key : Text} {kvs : List (Text × Json)} (hnodup : (kvs.map Prod.fst).Nodup) :
    lookup key (sortMembers (sortKeysMembers kvs)) = (lookup key kvs).map sortKeys := by
  rw [lookup_perm (sortMembers_perm _) ((keys_sortMembers_perm kvs).nodup_iff.mpr hnodup),
    lookup_sortKeysMembers]

/-- Sorting leaves the number of members. -/
theorem length_sorted (kvs : List (Text × Json)) :
    (sortMembers (sortKeysMembers kvs)).length = kvs.length := by
  rw [(sortMembers_perm _).length_eq, sortKeysMembers_eq, List.length_map]

/-- What every member satisfies, every member in order does. -/
theorem all_sorted {p : Text × Json → Bool} (kvs : List (Text × Json)) :
    (sortMembers (sortKeysMembers kvs)).all p = kvs.all fun kv => p (kv.1, sortKeys kv.2) := by
  rw [(sortMembers_perm _).all_eq, sortKeysMembers_eq, List.all_map]
  rfl

/-- What is found in stored members can be stored. -/
theorem storable_lookup {key : Text} {v : Json} {kvs : List (Text × Json)}
    (h : StorableMembers d kvs) (hlookup : lookup key kvs = some v) : Storable d v :=
  (storableMembers_iff.mp h (key, v) (mem_of_lookup hlookup)).2

/-! ## Equality -/

/-- `sameMembers` compares each member with the one of its key. -/
theorem sameMembers_eq (as bs : List (Text × Json)) :
    sameMembers bools as bs =
      as.all fun p =>
        match lookup p.1 bs with
        | some b => same bools p.2 b
        | none => false := by
  induction as with
  | nil => rfl
  | cons p as ih =>
    rw [sameMembers, ih]
    rfl

/-- An array is equal to nothing but arrays. -/
theorem same_arr {c : Json} {vs : List Json} (h : ∀ cs, c ≠ arr cs) :
    same bools c (arr vs) = false := by
  cases c with
  | arr cs => exact absurd rfl (h cs)
  | bool b => cases bools <;> simp [same, sameScalar, number, unboxed]
  | float f => cases f <;> simp [same, sameScalar, number, unboxed]
  | decimal x => cases x <;> simp [same, sameScalar, number, unboxed]
  | null | int _ | str _ | obj _ => simp [same, sameScalar, number, unboxed]

/-- A dict is equal to nothing but dicts. -/
theorem same_obj {c : Json} {kvs : List (Text × Json)} (h : ∀ cs, c ≠ obj cs) :
    same bools c (obj kvs) = false := by
  cases c with
  | obj cs => exact absurd rfl (h cs)
  | bool b => cases bools <;> simp [same, sameScalar, number, unboxed]
  | float f => cases f <;> simp [same, sameScalar, number, unboxed]
  | decimal x => cases x <;> simp [same, sameScalar, number, unboxed]
  | null | int _ | str _ | arr _ => simp [same, sameScalar, number, unboxed]

mutual

/-- Ordering the keys of the second value changes nothing. -/
theorem same_sortKeys_right : ∀ (c v : Json), Storable d v →
    same bools c v.sortKeys = same bools c v
  | c, null, _ | c, bool _, _ | c, int _, _ | c, float _, _ | c, decimal _, _ | c, str _, _ => rfl
  | null, arr _, _ | bool _, arr _, _ | int _, arr _, _ | float _, arr _, _ | decimal _, arr _, _
  | str _, arr _, _ | obj _, arr _, _ => by rw [sortKeys, same_arr (by simp), same_arr (by simp)]
  | null, obj _, _ | bool _, obj _, _ | int _, obj _, _ | float _, obj _, _ | decimal _, obj _, _
  | str _, obj _, _ | arr _, obj _, _ => by rw [sortKeys, same_obj (by simp), same_obj (by simp)]
  | arr cs, arr vs, h => sameList_sortKeys_right cs vs h
  | obj cs, obj vs, h => by
    rw [sortKeys, same, same, length_sorted, sameMembers_sortKeys_right cs vs h]

/-- `same_sortKeys_right`, of the elements of an array. -/
theorem sameList_sortKeys_right : ∀ (cs vs : List Json), StorableItems d vs →
    sameList bools cs (sortKeysList vs) = sameList bools cs vs
  | [], [], _ | [], _ :: _, _ | _ :: _, [], _ => rfl
  | c :: cs, v :: vs, h => by
    rw [sortKeysList, sameList, sameList, same_sortKeys_right c v h.1,
      sameList_sortKeys_right cs vs h.2]

/-- `same_sortKeys_right`, of the members of an object. -/
theorem sameMembers_sortKeys_right : ∀ (cs vs : List (Text × Json)), Storable d (obj vs) →
    sameMembers bools cs (sortMembers (sortKeysMembers vs)) = sameMembers bools cs vs
  | [], _, _ => rfl
  | (k, c) :: cs, vs, h => by
    rw [sameMembers, sameMembers, sameMembers_sortKeys_right cs vs h, lookup_sorted h.1]
    cases hlookup : lookup k vs with
    | none => rfl
    | some v =>
      have hv := same_sortKeys_right c v (storable_lookup h.2 hlookup)
      simp only [Option.map_some, hv]

end

mutual

/-- Ordering the keys of the first value changes nothing. -/
theorem same_sortKeys_left : ∀ (v c : Json), Storable d v →
    same bools v.sortKeys c = same bools v c
  | null, _, _ | bool _, _, _ | int _, _, _ | float _, _, _ | decimal _, _, _ | str _, _, _ => rfl
  | arr vs, arr cs, h => sameList_sortKeys_left vs cs h
  | obj vs, obj cs, h => by
    have hmembers := sameMembers_sortKeys_left vs cs h.2
    rw [sortKeys, same, same, length_sorted, sameMembers_eq, all_sorted, ← hmembers]
  | arr _, null, _ | arr _, bool _, _ | arr _, int _, _ | arr _, float _, _ | arr _, decimal _, _
  | arr _, str _, _ | arr _, obj _, _ => rfl
  | obj _, null, _ | obj _, bool _, _ | obj _, int _, _ | obj _, float _, _ | obj _, decimal _, _
  | obj _, str _, _ | obj _, arr _, _ => rfl

/-- `same_sortKeys_left`, of the elements of an array. -/
theorem sameList_sortKeys_left : ∀ (vs cs : List Json), StorableItems d vs →
    sameList bools (sortKeysList vs) cs = sameList bools vs cs
  | [], _, _ | _ :: _, [], _ => rfl
  | v :: vs, c :: cs, h => by
    rw [sortKeysList, sameList, sameList, same_sortKeys_left v c h.1,
      sameList_sortKeys_left vs cs h.2]

/-- `same_sortKeys_left`, of the members of an object. -/
theorem sameMembers_sortKeys_left : ∀ (vs cs : List (Text × Json)), StorableMembers d vs →
    (vs.all fun p =>
      match lookup p.1 cs with
      | some c => same bools p.2.sortKeys c
      | none => false) = sameMembers bools vs cs
  | [], _, _ => rfl
  | (k, v) :: vs, cs, h => by
    rw [List.all_cons, sameMembers_sortKeys_left vs cs h.2.2, sameMembers]
    cases lookup k cs with
    | none => rfl
    | some c => simp only [same_sortKeys_left v c h.2.1]

end

mutual

/-- A value is equal to itself. -/
theorem same_refl : ∀ v : Json, Storable d v → same bools v v = true
  | null, _ => by cases bools <;> rfl
  | bool b, _ => by cases bools <;> simp [same, sameScalar, number, unboxed]
  | int _, _ | str _, _ => by simp [same, sameScalar, number, unboxed]
  | float f, _ => by cases f <;> simp [same, sameScalar, number, unboxed]
  | decimal x, _ => by cases x <;> simp [same, sameScalar, number, unboxed]
  | arr vs, h => sameList_refl vs h
  | obj kvs, h => by
    rw [same, sameMembers_refl kvs kvs h.1 (fun _ hp => hp) h.2]
    simp

/-- `same_refl`, of the elements of an array. -/
theorem sameList_refl : ∀ vs : List Json, StorableItems d vs → sameList bools vs vs = true
  | [], _ => rfl
  | v :: vs, h => by
    rw [sameList, same_refl v h.1, sameList_refl vs h.2]
    rfl

/-- `same_refl`, of some of the members of an object. -/
theorem sameMembers_refl : ∀ as kvs : List (Text × Json), (kvs.map Prod.fst).Nodup →
    (∀ p ∈ as, p ∈ kvs) → StorableMembers d as → sameMembers bools as kvs = true
  | [], _, _, _, _ => rfl
  | (k, v) :: as, kvs, hnodup, hsub, h => by
    rw [sameMembers, lookup_of_mem hnodup (hsub (k, v) List.mem_cons_self),
      sameMembers_refl as kvs hnodup (fun p hp => hsub p (List.mem_cons_of_mem _ hp)) h.2.2]
    simp only [same_refl v h.2.1, Bool.and_self]

end

/-- Equality does not look at the order of keys. -/
theorem same_of_sortKeys_eq {a b : Json} (ha : Storable d a) (hb : Storable d b)
    (h : a.sortKeys = b.sortKeys) : same bools a b = true := by
  rw [← same_sortKeys_left a b ha, h, same_sortKeys_left b b hb, same_refl b hb]

/-! ## Validity -/

/-- The order of the keys makes no elements equal that were not. -/
theorem distinct_sortKeysList {vs : List Json} (h : StorableItems d vs) :
    distinct (sortKeysList vs) = distinct vs := by
  induction vs with
  | nil => rfl
  | cons v vs ih =>
    have hany : (sortKeysList vs).any (same false v.sortKeys) = vs.any (same false v) := by
      rw [sortKeysList_eq, List.any_map]
      refine any_congr_mem fun w hw => ?_
      have hstorable := storableItems_iff.mp h.2 w hw
      rw [Function.comp_apply, same_sortKeys_left v _ h.1, same_sortKeys_right v w hstorable]
    rw [sortKeysList, distinct, distinct, ih h.2, hany]

end Json

namespace Schema

open Json

variable {d : Decoder}

/-- A value keeps its type when its keys are sorted. -/
theorem hasType_sortKeys (v : Json) (t : JsonType) : v.sortKeys.hasType t = v.hasType t := by
  cases v <;> cases t <;> rfl

/-- An object keeps its keys. -/
theorem hasKey_sorted {kvs : List (Text × Json)} (hnodup : (kvs.map Prod.fst).Nodup) (k : Text) :
    hasKey (sortMembers (sortKeysMembers kvs)) k = hasKey kvs k := by
  rw [hasKey, lookup_sorted hnodup, Option.isSome_map]
  rfl

mutual

/-- **Validity does not look at the order of keys.** -/
theorem accepts_sortKeys : ∀ (s : Schema) (v : Json), Storable d v →
    s.accepts v.sortKeys = s.accepts v
  | any, _, _ | never, _, _ => rfl
  | type ts, v, _ => by
    rw [accepts, accepts]
    exact any_congr_mem fun t _ => hasType_sortKeys v t
  | const c, v, h => same_sortKeys_right c v h
  | enum cs, v, h => by
    rw [accepts, accepts]
    exact any_congr_mem fun c _ => same_sortKeys_right c v h
  | minLength _, v, _ | maxLength _, v, _ | pattern _, v, _ | minimum _, v, _
  | exclusiveMinimum _, v, _ | maximum _, v, _ => by cases v <;> rfl
  | minItems n, v, _ => by
    cases v with
    | arr vs =>
      simp only [accepts, sortKeys, onArray, sortKeysList_eq, List.length_map]
    | _ => rfl
  | uniqueItems, v, h => by
    cases v with
    | arr vs => exact distinct_sortKeysList h
    | _ => rfl
  | items s, v, h => by
    cases v with
    | arr vs =>
      have hall : ∀ w ∈ vs, s.accepts w.sortKeys = s.accepts w := fun w hw =>
        accepts_sortKeys s w (storableItems_iff.mp h w hw)
      simp only [accepts, sortKeys, onArray, sortKeysList_eq, List.all_map]
      exact all_congr_mem fun w hw => hall w hw
    | _ => rfl
  -- from here on an object is looked at by its keys, wherever they stand
  | required ks, v, h => by
    cases v with
    | obj kvs =>
      simp only [accepts, sortKeys, onObject]
      exact all_congr_mem fun k _ => hasKey_sorted h.1 k
    | _ => rfl
  | dependentRequired k ks, v, h => by
    cases v with
    | obj kvs =>
      have hkeys : ks.all (hasKey (sortMembers (sortKeysMembers kvs))) = ks.all (hasKey kvs) :=
        all_congr_mem fun k _ => hasKey_sorted h.1 k
      simp only [accepts, sortKeys, onObject, hasKey_sorted h.1, hkeys]
    | _ => rfl
  | properties ps additional, v, h => by
    cases v with
    | obj kvs =>
      have hadditional : ∀ p ∈ kvs, additional.accepts p.2.sortKeys = additional.accepts p.2 :=
        fun p hp => accepts_sortKeys additional p.2 (storableMembers_iff.mp h.2 p hp).2
      have hrest : ((sortMembers (sortKeysMembers kvs)).all fun kv =>
            ps.any (fun p => p.1 == kv.1) || accepts additional kv.2) =
          kvs.all fun kv => ps.any (fun p => p.1 == kv.1) || accepts additional kv.2 := by
        rw [all_sorted]
        exact all_congr_mem fun p hp => by rw [hadditional p hp]
      simp only [accepts, sortKeys, onObject, acceptsMembers_sorted ps kvs h, hrest]
    | _ => rfl
  | propertyNames s, v, h => by
    cases v with
    | obj kvs => simp only [accepts, sortKeys, onObject, all_sorted]
    | _ => rfl
  | allOf ss, v, h => acceptsAll_sortKeys ss v h
  | anyOf ss, v, h => by rw [accepts, accepts, acceptsCount_sortKeys ss v h]
  | oneOf ss, v, h => by rw [accepts, accepts, acceptsCount_sortKeys ss v h]
  | ifThen s t, v, h => by
    rw [accepts, accepts, accepts_sortKeys s v h, accepts_sortKeys t v h]

/-- `accepts_sortKeys`, of the properties of an object. -/
theorem acceptsMembers_sorted : ∀ (ps : List (Text × Schema)) (kvs : List (Text × Json)),
    Storable d (.obj kvs) →
    acceptsMembers ps (sortMembers (sortKeysMembers kvs)) = acceptsMembers ps kvs
  | [], _, _ => rfl
  | (k, s) :: ps, kvs, h => by
    rw [acceptsMembers, acceptsMembers, acceptsMembers_sorted ps kvs h, lookup_sorted h.1]
    cases hlookup : lookup k kvs with
    | none => rfl
    | some v =>
      have hv := accepts_sortKeys s v (storable_lookup h.2 hlookup)
      simp only [Option.map_some, hv]

/-- `accepts_sortKeys`, of all of some schemas. -/
theorem acceptsAll_sortKeys : ∀ (ss : List Schema) (v : Json), Storable d v →
    acceptsAll ss v.sortKeys = acceptsAll ss v
  | [], _, _ => rfl
  | s :: ss, v, h => by
    rw [acceptsAll, acceptsAll, accepts_sortKeys s v h, acceptsAll_sortKeys ss v h]

/-- `accepts_sortKeys`, of the number of schemas that accept. -/
theorem acceptsCount_sortKeys : ∀ (ss : List Schema) (v : Json), Storable d v →
    acceptsCount ss v.sortKeys = acceptsCount ss v
  | [], _, _ => rfl
  | s :: ss, v, h => by
    rw [acceptsCount, acceptsCount, accepts_sortKeys s v h, acceptsCount_sortKeys ss v h]

end

end Schema

namespace Json

variable {d : Decoder}

/-! ## Changed members -/

/-- The members of a dict that was written and read back. -/
def ordered (kvs : List (Text × Json)) : List (Text × Json) := sortMembers (sortKeysMembers kvs)

theorem sortKeys_obj (kvs : List (Text × Json)) : (obj kvs).sortKeys = obj (ordered kvs) := rfl

/-- Members in order can be stored where the members can. -/
theorem storable_ordered {kvs : List (Text × Json)} (h : Storable d (obj kvs)) :
    Storable d (obj (ordered kvs)) := Storable.sortKeys (obj kvs) h

/-- Setting a key adds no other member. -/
theorem mem_setKey {key : Text} {v : Json} {kvs : List (Text × Json)} {p : Text × Json}
    (h : p ∈ setKey key v kvs) : p = (key, v) ∨ p ∈ kvs := by
  induction kvs with
  | nil => exact .inl (List.mem_singleton.mp h)
  | cons q kvs ih =>
    obtain ⟨k, w⟩ := q
    rw [setKey] at h
    split at h
    · next hk =>
      rcases List.mem_cons.mp h with rfl | h
      · exact .inl (by rw [hk])
      · exact .inr (List.mem_cons_of_mem _ h)
    · rcases List.mem_cons.mp h with rfl | h
      · exact .inr List.mem_cons_self
      · rcases ih h with h | h
        · exact .inl h
        · exact .inr (List.mem_cons_of_mem _ h)

/-- A key that is there keeps its place, a new one goes last. -/
theorem keys_setKey (key : Text) (v : Json) (kvs : List (Text × Json)) :
    (setKey key v kvs).map Prod.fst =
      if key ∈ kvs.map Prod.fst then kvs.map Prod.fst else kvs.map Prod.fst ++ [key] := by
  by_cases hmem : key ∈ kvs.map Prod.fst
  · rw [if_pos hmem]
    induction kvs with
    | nil => cases hmem
    | cons q kvs ih =>
      obtain ⟨k, w⟩ := q
      rw [setKey]
      split
      · rfl
      · next hk =>
        have hrest : key ∈ kvs.map Prod.fst := by
          rcases List.mem_cons.mp hmem with heq | hrest
          · exact absurd heq.symm hk
          · exact hrest
        rw [List.map_cons, ih hrest, List.map_cons]
  · rw [if_neg hmem, setKey_of_not_mem hmem, List.map_append]
    rfl

/-- Setting a key leaves each key once. -/
theorem nodup_setKey {key : Text} {v : Json} {kvs : List (Text × Json)}
    (h : (kvs.map Prod.fst).Nodup) : ((setKey key v kvs).map Prod.fst).Nodup := by
  rw [keys_setKey]
  split
  · exact h
  · next hmem =>
    rw [List.nodup_append]
    refine ⟨h, List.nodup_singleton _, ?_⟩
    rintro a ha b hb rfl
    exact hmem (List.mem_singleton.mp hb ▸ ha)

/-- A storable value may be set under any key of code points. -/
theorem storable_setKey {key : Text} {v : Json} {kvs : List (Text × Json)} (hkey : IsUnicode key)
    (hv : Storable d v) (h : Storable d (obj kvs)) : Storable d (obj (setKey key v kvs)) := by
  refine ⟨nodup_setKey h.1, storableMembers_iff.mpr fun p hp => ?_⟩
  rcases mem_setKey hp with rfl | hp
  · exact ⟨hkey, hv⟩
  · exact storableMembers_iff.mp h.2 p hp

/-- A key that is set is found. -/
theorem lookup_setKey_self (key : Text) (v : Json) (kvs : List (Text × Json)) :
    lookup key (setKey key v kvs) = some v := by
  induction kvs with
  | nil => simp [setKey]
  | cons q kvs ih =>
    obtain ⟨k, w⟩ := q
    rw [setKey]
    split
    · next hk => simp [hk]
    · next hk => rw [lookup_cons, if_neg hk, ih]

/-- Setting a key leaves what is found under another. -/
theorem lookup_setKey_ne {key k : Text} {v : Json} {kvs : List (Text × Json)} (h : k ≠ key) :
    lookup k (setKey key v kvs) = lookup k kvs := by
  induction kvs with
  | nil => simp [setKey, Ne.symm h]
  | cons q kvs ih =>
    obtain ⟨l, w⟩ := q
    rw [setKey]
    split
    · next hl =>
      have hne : l ≠ k := by
        rintro rfl
        exact h hl
      rw [lookup_cons, if_neg hne, lookup_cons, if_neg hne]
    · rw [lookup_cons, lookup_cons, ih]

/-- Where both find the same under every key, two dicts are the same in order. -/
theorem ordered_eq_of_lookup {as bs : List (Text × Json)} (has : (as.map Prod.fst).Nodup)
    (hbs : (bs.map Prod.fst).Nodup)
    (h : ∀ k, (lookup k as).map sortKeys = (lookup k bs).map sortKeys) : ordered as = ordered bs := by
  refine sortMembers_perm_eq ?_ (by rwa [keys_sortKeysMembers])
  have hmem : ∀ (p : Text × Json) (xs ys : List (Text × Json)), (xs.map Prod.fst).Nodup →
      (ys.map Prod.fst).Nodup → (∀ k, (lookup k xs).map sortKeys = (lookup k ys).map sortKeys) →
      p ∈ sortKeysMembers xs → p ∈ sortKeysMembers ys := by
    rintro ⟨k, v⟩ xs ys hxs hys hxy hp
    have hfound := lookup_of_mem (by rwa [keys_sortKeysMembers]) hp
    rw [lookup_sortKeysMembers, hxy, ← lookup_sortKeysMembers] at hfound
    exact mem_of_lookup hfound
  have hnodup : ∀ kvs : List (Text × Json), (kvs.map Prod.fst).Nodup →
      (sortKeysMembers kvs).Nodup := fun kvs hkvs =>
    List.Nodup.of_map Prod.fst (by rwa [keys_sortKeysMembers])
  rw [List.perm_ext_iff_of_nodup (hnodup as has) (hnodup bs hbs)]
  exact fun p => ⟨hmem p as bs has hbs h, hmem p bs as hbs has fun k => (h k).symm⟩

mutual

/-- Keys in order stay in order. -/
theorem sortKeys_sortKeys : ∀ v : Json, Storable d v → v.sortKeys.sortKeys = v.sortKeys
  | null, _ | bool _, _ | int _, _ | float _, _ | decimal _, _ | str _, _ => rfl
  | arr vs, h => by rw [sortKeys, sortKeys, sortKeysList_sortKeysList vs h]
  | obj kvs, h => by
    have hvalues := sortKeysMembers_sortKeysMembers kvs h.2
    have hordered : ordered (ordered kvs) = ordered kvs := by
      refine ordered_eq_of_lookup (storable_ordered h).1 h.1 fun k => ?_
      have hperm : lookup k (ordered kvs) = lookup k (sortKeysMembers kvs) := by
        rw [ordered, lookup_sorted h.1, lookup_sortKeysMembers]
      rw [hperm, ← lookup_sortKeysMembers, hvalues, lookup_sortKeysMembers]
    rw [sortKeys_obj, sortKeys_obj, hordered]

/-- Elements are sorted once. -/
theorem sortKeysList_sortKeysList : ∀ vs : List Json, StorableItems d vs →
    sortKeysList (sortKeysList vs) = sortKeysList vs
  | [], _ => rfl
  | v :: vs, h => by
    rw [sortKeysList, sortKeysList, sortKeys_sortKeys v h.1, sortKeysList_sortKeysList vs h.2]

/-- The values of members are sorted once. -/
theorem sortKeysMembers_sortKeysMembers : ∀ kvs : List (Text × Json), StorableMembers d kvs →
    sortKeysMembers (sortKeysMembers kvs) = sortKeysMembers kvs
  | [], _ => rfl
  | (_, v) :: kvs, h => by
    rw [sortKeysMembers, sortKeysMembers, sortKeys_sortKeys v h.2.1,
      sortKeysMembers_sortKeysMembers kvs h.2.2]

end

end Json

end RunpodJobrunner
