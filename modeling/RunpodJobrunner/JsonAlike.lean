import RunpodJobrunner.JsonLoaded
import RunpodJobrunner.JsonScalars

/-!
# Numbers of one kind

For Python `True`, `1` and `1.0` are equal, and so are `0.0` and `-0.0`, but JSON writes
each of them differently. Two equal values are written alike when each number of the one
is of the same kind as the number at the same place in the other.
-/

namespace RunpodJobrunner

namespace Json

/-- The same kind of number, with the same sign where it is a float; or one value. -/
def alikeScalar : Json → Json → Bool
  | bool _, bool _ | int _, int _ => true
  | float (.literal l), float (.literal l') => l.neg == l'.neg
  | a, b => a == b

mutual

/-- Numbers at the same place are of the same kind. -/
def alike : Json → Json → Bool
  | arr as, arr bs => alikeItems as bs
  | obj as, obj bs => alikeMembers as bs
  | a, b => alikeScalar a b

/-- Element by element. -/
def alikeItems : List Json → List Json → Bool
  | [], [] => true
  | a :: as, b :: bs => alike a b && alikeItems as bs
  | _, _ => false

/-- Under every key of the first object. -/
def alikeMembers : List (Text × Json) → List (Text × Json) → Bool
  | [], _ => true
  | (k, a) :: as, bs =>
    (match lookup k bs with
      | some b => alike a b
      | none => false) && alikeMembers as bs

end

/-- A float is known by the number it is and its sign. -/
def Decoder.ByValue (d : Decoder) : Prop :=
  ∀ l l' : FloatLiteral, l.value = l'.value → l.neg = l'.neg → d.floatOf l = d.floatOf l'

section

variable {d : Decoder} {a b : Json} {as bs : List Json} {kas kbs : List (Text × Json)}

theorem alikeItems_iff :
    alikeItems as bs = true ↔ List.Forall₂ (fun a b => alike a b = true) as bs := by
  induction as generalizing bs with
  | nil => cases bs <;> simp [alikeItems]
  | cons a as ih => cases bs <;> simp [alikeItems, ih]

theorem sameList_iff {bools : Bool} :
    sameList bools as bs = true ↔ List.Forall₂ (fun a b => same bools a b = true) as bs := by
  induction as generalizing bs with
  | nil => cases bs <;> simp [sameList]
  | cons a as ih => cases bs <;> simp [sameList, ih]

theorem alikeMembers_iff :
    alikeMembers kas kbs = true ↔ ∀ p ∈ kas, ∃ b, lookup p.1 kbs = some b ∧ alike p.2 b = true := by
  induction kas with
  | nil => simp [alikeMembers]
  | cons p kas ih =>
    rw [alikeMembers, Bool.and_eq_true, ih, List.forall_mem_cons]
    refine and_congr ?_ .rfl
    split
    · next b hb => simp [hb]
    · next hb => simp [hb]

theorem sameMembers_iff {bools : Bool} :
    sameMembers bools kas kbs = true ↔
      ∀ p ∈ kas, ∃ b, lookup p.1 kbs = some b ∧ same bools p.2 b = true := by
  rw [sameMembers_eq, List.all_eq_true]
  refine forall₂_congr fun p hp => ?_
  cases lookup p.1 kbs <;> simp

theorem alike_scalar (ha : a.IsScalar) : alike a b = alikeScalar a b := by
  cases a with
  | arr | obj => cases ha
  | _ => rfl

/-- Equal scalars of one kind are one value. -/
theorem eq_of_alikeScalar (hd : d.ByValue) (hsa : a.IsScalar) (ha : Storable d a) (hb : Storable d b)
    (hsame : same true a b = true) (halike : alikeScalar a b = true) : a = b := by
  unfold alikeScalar at halike
  split at halike
  · next x y =>
    cases x <;> cases y <;> simp_all [same, sameScalar, unboxed, number]
  · next x y =>
    simpa [same, sameScalar, unboxed, number] using hsame
  · next l l' =>
    have hvalue : l.value = l'.value := by
      simpa [same, sameScalar, unboxed, number] using hsame
    have hfloat := hd l l' hvalue (by simpa using halike)
    rw [ha.1, hb.1] at hfloat
    exact congrArg float hfloat
  · exact eq_of_beq halike

/-- Keys in one dict that are all in another of the same size are its keys. -/
theorem keys_perm (hnodup : (kas.map Prod.fst).Nodup) (hlength : kas.length = kbs.length)
    (hsub : ∀ p ∈ kas, ∃ b, lookup p.1 kbs = some b) :
    (kas.map Prod.fst).Perm (kbs.map Prod.fst) := by
  refine (List.subperm_of_subset hnodup ?_).perm_of_length_le (by simp [hlength])
  intro k hk
  obtain ⟨p, hp, rfl⟩ := List.mem_map.mp hk
  obtain ⟨b, hb⟩ := hsub p hp
  exact List.mem_map.mpr ⟨(p.1, b), mem_of_lookup hb, rfl⟩

/-- **Equal values of one kind are one value, but for the order of keys.** -/
theorem sortKeys_eq_of_alike (hd : d.ByValue) (a b : Json) (ha : Storable d a) (hb : Storable d b)
    (hsame : same true a b = true) (halike : alike a b = true) : a.sortKeys = b.sortKeys := by
  induction a using induct generalizing b with
  | scalar a hs =>
    have hbs : b.IsScalar := by
      cases b with
      | arr bs =>
        rw [same_arr (by rintro cs rfl; cases hs)] at hsame
        cases hsame
      | obj kbs =>
        rw [same_obj (by rintro cs rfl; cases hs)] at hsame
        cases hsame
      | _ => trivial
    rw [alike_scalar hs] at halike
    rw [eq_of_alikeScalar hd hs ha hb hsame halike]
  | arr as ih =>
    cases b with
    | arr bs =>
      have hsames := sameList_iff.mp hsame
      have halikes := alikeItems_iff.mp halike
      have hbs := storableItems_iff.mp hb
      rw [sortKeys, sortKeys, sortKeysList_eq, sortKeysList_eq, Json.arr.injEq]
      clear hsame halike hb
      induction hsames with
      | nil => rfl
      | @cons a b as bs h _ ih' =>
        obtain ⟨halike, halikes⟩ := List.forall₂_cons.mp halikes
        have hhead := ih a List.mem_cons_self b ha.1 (hbs b List.mem_cons_self) h halike
        have htail := ih' (fun c hc => ih c (List.mem_cons_of_mem _ hc)) ha.2 halikes
          fun c hc => hbs c (List.mem_cons_of_mem _ hc)
        rw [List.map_cons, List.map_cons, hhead, htail]
    | _ => cases hsame
  | obj kas ih =>
    cases b with
    | obj kbs =>
      rw [same, Bool.and_eq_true, beq_iff_eq, sameMembers_iff] at hsame
      have halikes := alikeMembers_iff.mp halike
      have hperm := keys_perm ha.1 hsame.1 fun p hp => (hsame.2 p hp).imp fun _ h => h.1
      rw [sortKeys_obj, sortKeys_obj]
      refine congrArg obj (ordered_eq_of_lookup ha.1 hb.1 fun k => ?_)
      cases hk : lookup k kas with
      | none =>
        rw [lookup_eq_none_iff, hperm.mem_iff, ← lookup_eq_none_iff] at hk
        rw [hk]
      | some v =>
        have hmem := mem_of_lookup hk
        obtain ⟨w, hw, hvw⟩ := hsame.2 _ hmem
        obtain ⟨w', hw', halike⟩ := halikes _ hmem
        obtain rfl : w = w' := Option.some.inj (hw.symm.trans hw')
        rw [hw, Option.map_some, Option.map_some,
          ih _ hmem w (storable_lookup ha.2 hk) (storable_lookup hb.2 hw) hvw halike]
    | _ => cases hsame

/-- What is one value but for the order of keys is of one kind. -/
theorem alike_of_sortKeys_eq (a b : Json) (ha : Storable d a) (hb : Storable d b)
    (h : a.sortKeys = b.sortKeys) : alike a b = true := by
  induction a using induct generalizing b with
  | scalar a hs =>
    have hbs : b.IsScalar := by
      rw [sortKeys_scalar hs] at h
      subst h
      cases b with
      | arr | obj => cases hs
      | _ => trivial
    rw [sortKeys_scalar hs, sortKeys_scalar hbs] at h
    subst h
    rw [alike_scalar hs]
    unfold alikeScalar
    split <;> simp
  | arr as ih =>
    cases b with
    | arr bs =>
      rw [sortKeys, sortKeys, sortKeysList_eq, sortKeysList_eq, Json.arr.injEq,
        ← List.forall₂_eq_eq_eq, List.forall₂_map_left_iff, List.forall₂_map_right_iff] at h
      have hbs := storableItems_iff.mp hb
      refine alikeItems_iff.mpr ?_
      clear hb
      induction h with
      | nil => exact .nil
      | @cons a b as bs h _ ih' =>
        refine .cons (ih a List.mem_cons_self b ha.1 (hbs b List.mem_cons_self) h) ?_
        exact ih' (fun c hc => ih c (List.mem_cons_of_mem _ hc)) ha.2 fun c hc =>
          hbs c (List.mem_cons_of_mem _ hc)
    | _ => cases h
  | obj kas ih =>
    cases b with
    | obj kbs =>
      have hordered := Json.obj.inj h
      refine alikeMembers_iff.mpr fun p hp => ?_
      have hk := lookup_of_mem ha.1 hp
      have hlookup := congrArg (lookup p.1) hordered
      rw [lookup_sorted ha.1, lookup_sorted hb.1, hk] at hlookup
      obtain ⟨w, hw, hvw⟩ := Option.map_eq_some_iff.mp hlookup.symm
      exact ⟨w, hw, ih p hp w (storable_lookup ha.2 hk) (storable_lookup hb.2 hw) hvw.symm⟩
    | _ => cases h

end

end Json

end RunpodJobrunner
