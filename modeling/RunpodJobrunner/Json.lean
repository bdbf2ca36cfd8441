import Mathlib.Data.List.Sort
import RunpodJobrunner.Decimal

/-!
# JSON values

The values `json.loads` returns and `json.dumps` accepts. An integer is exact. A
finite float is carried as the literal `float.__repr__` writes, which Python
reads back to the same float; `NaN` and the infinities, which `json.loads` also
accepts, are constants; an exact decimal is what a loader with
`parse_float=Decimal` returns for the same token. An object is its list of
members; the objects a Python dict can be are the ones with distinct keys.
-/

namespace RunpodJobrunner

/-- A decimal literal of a finite float: `-?whole(.frac)?([eE][+-]?digits)?` with
a fraction or an exponent. Digits are kept as they are written. -/
structure FloatLiteral where
  neg : Bool
  whole : ℕ
  /-- the digits after the point, `[]` when there is no point -/
  frac : Text
  /-- the exponent marker, the sign (or nothing) and the digits -/
  exp : Option (ℕ × Text × Text)
  frac_digits : ∀ c ∈ frac, isDigit c = true
  exp_wf : ∀ m s d, exp = some (m, s, d) →
    (m = 101 ∨ m = 69) ∧ (s = [] ∨ s = [43] ∨ s = [45]) ∧ d ≠ [] ∧ ∀ c ∈ d, isDigit c = true
  isFloat : frac ≠ [] ∨ exp.isSome = true
  deriving DecidableEq

/-- There is nothing to check of an exponent that is left out. -/
theorem FloatLiteral.exp_none : ∀ (m : ℕ) (s d : Text), none = some (m, s, d) →
    (m = 101 ∨ m = 69) ∧ (s = [] ∨ s = [43] ∨ s = [45]) ∧ d ≠ [] ∧ ∀ c ∈ d, isDigit c = true := by
  rintro _ _ _ ⟨⟩

/-- The rational number a float literal denotes. -/
def FloatLiteral.value (l : FloatLiteral) : ℚ :=
  let e : ℤ :=
    match l.exp with
    | none => 0
    | some (_, sign, digits) => if sign = [45] then -(digitsValue digits : ℤ) else digitsValue digits
  (if l.neg then -1 else 1) * (digitsValue (natText l.whole ++ l.frac) : ℚ) *
    (10 : ℚ) ^ (e - l.frac.length)

/-- The floats `json.loads` can return. -/
inductive JsonFloat : Type where
  | literal : FloatLiteral → JsonFloat
  | nan : JsonFloat
  | infinity : (neg : Bool) → JsonFloat
  deriving DecidableEq

/-- JSON values. -/
inductive Json : Type where
  | null : Json
  | bool : Bool → Json
  | int : ℤ → Json
  | float : JsonFloat → Json
  | decimal : Decimal → Json
  | str : Text → Json
  | arr : List Json → Json
  | obj : List (Text × Json) → Json

namespace Json

/-! ## Equality -/

mutual

/-- Structural equality of values. -/
def beq : Json → Json → Bool
  | null, null => true
  | bool a, bool b => a == b
  | int a, int b => a == b
  | float a, float b => decide (a = b)
  | decimal a, decimal b => decide (a = b)
  | str a, str b => a == b
  | arr as, arr bs => beqList as bs
  | obj as, obj bs => beqMembers as bs
  | _, _ => false

/-- Equality of arrays, element by element. -/
def beqList : List Json → List Json → Bool
  | [], [] => true
  | a :: as, b :: bs => beq a b && beqList as bs
  | _, _ => false

/-- Equality of member lists, member by member. -/
def beqMembers : List (Text × Json) → List (Text × Json) → Bool
  | [], [] => true
  | (k, a) :: as, (l, b) :: bs => k == l && (beq a b && beqMembers as bs)
  | _, _ => false

end

mutual

/-- The Boolean comparison decides equality. -/
theorem beq_iff : ∀ a b : Json, beq a b = true ↔ a = b
  | null, b => by cases b <;> simp [beq]
  | bool x, b => by cases b <;> simp [beq]
  | int x, b => by cases b <;> simp [beq]
  | float x, b => by cases b <;> simp [beq]
  | decimal x, b => by cases b <;> simp [beq]
  | str x, b => by cases b <;> simp [beq]
  | arr xs, b => by cases b <;> simp [beq, beqList_iff xs]
  | obj xs, b => by cases b <;> simp [beq, beqMembers_iff xs]

/-- `beq_iff`, of the elements of an array. -/
theorem beqList_iff : ∀ as bs : List Json, beqList as bs = true ↔ as = bs
  | [], bs => by cases bs <;> simp [beqList]
  | a :: as, bs => by cases bs <;> simp [beqList, beq_iff a, beqList_iff as]

/-- `beq_iff`, of the members of an object. -/
theorem beqMembers_iff : ∀ as bs : List (Text × Json), beqMembers as bs = true ↔ as = bs
  | [], bs => by cases bs <;> simp [beqMembers]
  | (k, a) :: as, bs => by
    cases bs with
    | nil => simp [beqMembers]
    | cons b bs => simp [beqMembers, beq_iff a, beqMembers_iff as, Prod.ext_iff, and_assoc]

end

instance : DecidableEq Json := fun a b => decidable_of_iff _ (beq_iff a b)

/-! ## Members -/

/-- `members.get(key)`: the value under a key. -/
def lookup (key : Text) : List (Text × Json) → Option Json
  | [] => none
  | (k, v) :: rest => if k = key then some v else lookup key rest

/-- `value.get(key)` when the value is an object, nothing otherwise. -/
def get? (key : Text) : Json → Option Json
  | obj kvs => lookup key kvs
  | _ => none

/-- `members[key] = value`: in place when the key is there, last otherwise. -/
def setKey (key : Text) (value : Json) : List (Text × Json) → List (Text × Json)
  | [] => [(key, value)]
  | (k, v) :: rest => if k = key then (k, value) :: rest else (k, v) :: setKey key value rest

@[simp] theorem lookup_nil (key : Text) : lookup key [] = none := rfl

@[simp] theorem lookup_cons (key k : Text) (v : Json) (rest : List (Text × Json)) :
    lookup key ((k, v) :: rest) = if k = key then some v else lookup key rest := rfl

/-- A key is looked up in the first members, then in the others. -/
theorem lookup_append (key : Text) (as bs : List (Text × Json)) :
    lookup key (as ++ bs) = (lookup key as).or (lookup key bs) := by
  induction as with
  | nil => simp
  | cons a as ih =>
    obtain ⟨k, v⟩ := a
    by_cases h : k = key <;> simp [h, ih]

/-- A key that none of the members has is not found. -/
theorem lookup_eq_none {key : Text} {kvs : List (Text × Json)} (h : ∀ p ∈ kvs, p.1 ≠ key) :
    lookup key kvs = none := by
  induction kvs with
  | nil => rfl
  | cons p kvs ih =>
    obtain ⟨k, v⟩ := p
    rw [lookup_cons, if_neg (h (k, v) List.mem_cons_self)]
    exact ih fun q hq => h q (List.mem_cons_of_mem _ hq)

/-! ## Written and read back -/

/-- A surrogate pair as the one character that JSON escapes write the same way. -/
def joinSurrogates : Text → Text
  | h :: l :: t =>
    if 0xD800 ≤ h && h < 0xDC00 && 0xDC00 ≤ l && l < 0xE000 then
      (0x10000 + (h - 0xD800) * 0x400 + (l - 0xDC00)) :: joinSurrogates t
    else h :: joinSurrogates (l :: t)
  | t => t

/-- The members in the order of their keys. -/
def sortMembers (kvs : List (Text × Json)) : List (Text × Json) :=
  kvs.insertionSort fun p q => textLe p.1 q.1 = true

/-- The dict that decoding members in this order gives. -/
def ofMembers (kvs : List (Text × Json)) : List (Text × Json) :=
  kvs.foldl (fun d p => setKey (joinSurrogates p.1) p.2 d) []

mutual

/-- `json.loads(json.dumps(value, sort_keys=True))`. -/
def reload : Json → Json
  | str t => str (joinSurrogates t)
  | arr vs => arr (reloadList vs)
  | obj kvs => obj (ofMembers (sortMembers (reloadMembers kvs)))
  | v => v

/-- The elements of an array, each read back. -/
def reloadList : List Json → List Json
  | [] => []
  | v :: vs => reload v :: reloadList vs

/-- The members of an object under their own keys, each value read back. -/
def reloadMembers : List (Text × Json) → List (Text × Json)
  | [] => []
  | (k, v) :: kvs => (k, reload v) :: reloadMembers kvs

end

theorem reloadMembers_eq (kvs : List (Text × Json)) :
    reloadMembers kvs = kvs.map fun p => (p.1, reload p.2) := by
  induction kvs with
  | nil => rfl
  | cons p kvs ih => rw [reloadMembers, ih, List.map_cons]

/-- A key is not found where it is no key. -/
theorem lookup_eq_none_iff {key : Text} {kvs : List (Text × Json)} :
    lookup key kvs = none ↔ key ∉ kvs.map Prod.fst := by
  induction kvs with
  | nil => simp
  | cons p kvs ih =>
    obtain ⟨k, v⟩ := p
    by_cases h : k = key
    · simp [h]
    · simp [h, ih, Ne.symm h]

/-- A key found is a member. -/
theorem mem_of_lookup {key : Text} {v : Json} {kvs : List (Text × Json)}
    (h : lookup key kvs = some v) : (key, v) ∈ kvs := by
  induction kvs with
  | nil => cases h
  | cons p kvs ih =>
    obtain ⟨k, w⟩ := p
    rw [lookup_cons] at h
    split at h
    · rename_i hk
      cases h
      exact hk ▸ List.mem_cons_self
    · exact List.mem_cons_of_mem _ (ih h)

/-- A member is found under its key, where each key is there once. -/
theorem lookup_of_mem {key : Text} {v : Json} {kvs : List (Text × Json)}
    (hnodup : (kvs.map Prod.fst).Nodup) (h : (key, v) ∈ kvs) : lookup key kvs = some v := by
  induction kvs with
  | nil => cases h
  | cons p kvs ih =>
    obtain ⟨k, w⟩ := p
    rw [List.map_cons, List.nodup_cons] at hnodup
    rcases List.mem_cons.mp h with heq | h
    · cases heq
      simp
    · have hne : k ≠ key := by
        rintro rfl
        exact hnodup.1 (List.mem_map.mpr ⟨_, h, rfl⟩)
      rw [lookup_cons, if_neg hne]
      exact ih hnodup.2 h

/-- A new key goes last. -/
theorem setKey_of_not_mem {key : Text} {v : Json} {kvs : List (Text × Json)}
    (h : key ∉ kvs.map Prod.fst) : setKey key v kvs = kvs ++ [(key, v)] := by
  induction kvs with
  | nil => rfl
  | cons p kvs ih =>
    obtain ⟨k, w⟩ := p
    rw [List.map_cons, List.mem_cons, not_or] at h
    rw [setKey, if_neg (Ne.symm h.1), ih h.2, List.cons_append]

/-- Members with distinct keys and no surrogate pairs in them are a dict. -/
theorem ofMembers_eq {kvs : List (Text × Json)} (hnodup : (kvs.map Prod.fst).Nodup)
    (hkeys : ∀ p ∈ kvs, joinSurrogates p.1 = p.1) : ofMembers kvs = kvs := by
  induction kvs using List.reverseRecOn with
  | nil => rfl
  | append_singleton kvs p ih =>
    rw [List.map_append, List.nodup_append] at hnodup
    have hinit := ih hnodup.1 fun q hq => hkeys q (List.mem_append_left _ hq)
    have hnew : p.1 ∉ kvs.map Prod.fst := fun hmem =>
      hnodup.2.2 p.1 hmem p.1 (by simp) rfl
    rw [ofMembers] at hinit ⊢
    rw [List.foldl_append, hinit, List.foldl_cons, List.foldl_nil, hkeys p (by simp),
      setKey_of_not_mem hnew]

/-- Text without surrogates is read back as it is. -/
theorem joinSurrogates_eq {t : Text} (h : ∀ c ∈ t, c < 0xD800) : joinSurrogates t = t := by
  induction t with
  | nil => rfl
  | cons c t ih =>
    have htail := ih fun d hd => h d (List.mem_cons_of_mem _ hd)
    cases t with
    | nil => rfl
    | cons d t =>
      have hc := h c List.mem_cons_self
      rw [joinSurrogates, if_neg, htail]
      simp only [Bool.and_eq_true, decide_eq_true_eq, not_and]
      omega

end Json

end RunpodJobrunner
