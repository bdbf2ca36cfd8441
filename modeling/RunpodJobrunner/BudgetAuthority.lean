import RunpodJobrunner.BudgetLedger

/-!
# The authority of a budget scope

`Ledger` is what a ledger file says: a total and the caps of the runs, each an
amount with the number its text denotes. A call either leaves the ledger or adds
one cap (`Charged`), and in the default decimal context it decides by exact sums
when the caps and the total leave it the digits for that (`Conforms`).
-/

namespace RunpodJobrunner

namespace BudgetLedger

open Relation

/-! ## Amounts -/

/-- An amount of the ledger: plain text and the positive number it denotes. -/
structure Amount where
  text : Text
  number : Number
  reads : Decimal.ofText text = some number.toDecimal
  nonneg : number.neg = false
  nonzero : number.coeff ≠ 0
  plain : ∀ c ∈ text, Decimal.IsPlainChar c

/-- `_positive` passes the finite numbers above zero. -/
theorem positive_eq_ok {name : String} {d : Decimal} {n : Number} :
    positive name d = .ok n ↔ d = n.toDecimal ∧ n.neg = false ∧ n.coeff ≠ 0 := by
  constructor
  · intro h
    unfold positive at h
    split at h
    · cases h
      exact ⟨rfl, rfl, Nat.succ_ne_zero _⟩
    · cases h
  · rintro ⟨rfl, hneg, hcoeff⟩
    obtain ⟨neg, coeff, exp⟩ := n
    obtain ⟨k, rfl⟩ := Nat.exists_eq_succ_of_ne_zero hcoeff
    subst hneg
    rfl

/-- The text of an amount is read as its number. -/
@[simp] theorem moneyText_amount (name : String) (a : Amount) :
    moneyText name a.text = .ok a.number := by
  rw [moneyText, a.reads]
  exact positive_eq_ok.mpr ⟨rfl, a.nonneg, a.nonzero⟩

/-- A number that is read has an exponent in the range of the context. -/
theorem readFinite_inRange {t : Text} {neg neg' : Bool} {coeff : ℕ} {exp : ℤ}
    (h : Decimal.readFinite neg' t = some (.finite neg coeff exp)) : Decimal.InRange coeff exp := by
  rw [Decimal.readFinite] at h
  split at h
  split_ifs at h
  split at h
  · cases h
  · simp only at h
    split_ifs at h with hrange
    cases h
    exact hrange

/-- `Decimal` of a text is in the range of the context. -/
theorem ofText_inRange {t : Text} {neg : Bool} {coeff : ℕ} {exp : ℤ}
    (h : Decimal.ofText t = some (.finite neg coeff exp)) : Decimal.InRange coeff exp := by
  rw [Decimal.ofText] at h
  simp only at h
  split_ifs at h <;> try cases h
  exact readFinite_inRange h

/-- An amount accepted as an argument is a positive number within the bounds. -/
theorem money_eq_ok {name : String} {x : Text ⊕ ExactDecimal} {n : Number}
    (h : money name x = .ok n) : n.neg = false ∧ n.coeff ≠ 0 ∧ Decimal.InRange n.coeff n.exp := by
  cases x with
  | inl t =>
    rw [money, moneyText] at h
    split at h
    · cases h
    · rename_i d hd
      obtain ⟨rfl, hneg, hcoeff⟩ := positive_eq_ok.mp h
      exact ⟨hneg, hcoeff, ofText_inRange hd⟩
  | inr d =>
    obtain ⟨hd, hneg, hcoeff⟩ := positive_eq_ok.mp h
    exact ⟨hneg, hcoeff, d.property _ _ _ hd⟩

/-- The amount that writing a number makes. -/
def Amount.write (n : Number) (hneg : n.neg = false) (hcoeff : n.coeff ≠ 0)
    (hrange : Decimal.InRange n.coeff n.exp) : Amount where
  text := format n
  number := ⟨false, n.coeff * 10 ^ n.exp.toNat, min n.exp 0⟩
  reads := by
    rw [format, Number.toDecimal, hneg, Decimal.formatF, if_neg hcoeff]
    exact Decimal.ofText_plainText (Nat.pos_of_ne_zero hcoeff) hrange
  nonneg := rfl
  nonzero := Nat.mul_ne_zero hcoeff (by positivity)
  plain := by
    rw [format, Number.toDecimal, hneg, Decimal.formatF, if_neg hcoeff]
    exact Decimal.plainText_plain _ _

/-- An amount that is written has the magnitude of its number. -/
theorem Amount.write_magnitude {n : Number} {hneg : n.neg = false} {hcoeff : n.coeff ≠ 0}
    {hrange : Decimal.InRange n.coeff n.exp} :
    (Amount.write n hneg hcoeff hrange).number.magnitude = n.magnitude := by
  have hpow : (10 : ℚ) ^ n.exp.toNat * 10 ^ min n.exp 0 = 10 ^ n.exp := by
    rw [← zpow_natCast, ← zpow_add₀ (by norm_num)]
    congr 1
    omega
  simp only [Amount.write, Number.magnitude]
  push_cast
  rw [mul_assoc, hpow]

/-! ## Ledgers -/

/-- What a ledger file says. -/
structure Ledger where
  scope : Text
  total : Amount
  caps : List (Text × Amount)
  nodup : (caps.map Prod.fst).Nodup
  joined : ∀ p ∈ caps, Json.joinSurrogates p.1 = p.1

namespace Ledger

/-- The reservations as the file has them. -/
def reservations (l : Ledger) : List (Text × Json) := l.caps.map fun p => (p.1, .str p.2.text)

/-- The reserved numbers. -/
def numbers (l : Ledger) : List Number := l.caps.map fun p => p.2.number

/-- The exact sum of the caps. -/
def spent (l : Ledger) : ℚ := Context.total l.numbers

/-- The members of a ledger file, in the order of their keys. -/
def fileState (l : Ledger) : List (Text × Json) :=
  [(txt "protocol", .str <| txt "budget-ledger/1"), (txt "reservations", .obj l.reservations),
    (txt "scope", .str l.scope), (txt "total_authorized_usd", .str l.total.text)]

/-- The ledger in a file or in the memory of a call. -/
def IsState (l : Ledger) (state : List (Text × Json)) : Prop :=
  state = l.fileState ∨ state = newState l.scope l.total.text l.reservations

/-- The same ledger, its caps in another order. -/
def Same (l l' : Ledger) : Prop :=
  l.scope = l'.scope ∧ l.total = l'.total ∧ l.caps.Perm l'.caps

variable {l l' : Ledger} {state : List (Text × Json)}

theorem IsState.protocol (h : l.IsState state) :
    Json.lookup (txt "protocol") state = some (.str <| txt "budget-ledger/1") := by
  rcases h with rfl | rfl <;> rfl

theorem IsState.scope (h : l.IsState state) :
    Json.lookup (txt "scope") state = some (.str l.scope) := by
  rcases h with rfl | rfl <;> rfl

theorem IsState.total (h : l.IsState state) :
    Json.lookup (txt "total_authorized_usd") state = some (.str l.total.text) := by
  rcases h with rfl | rfl <;> rfl

theorem IsState.reservations (h : l.IsState state) :
    Json.lookup (txt "reservations") state = some (.obj l.reservations) := by
  rcases h with rfl | rfl <;> rfl

/-- The reservations are summed as the numbers of the ledger's caps. -/
theorem sumMoney_reservations (l : Ledger) :
    sumMoney (l.reservations.map Prod.snd) =
      (match defaultContext.sum l.numbers with
      | none => .error .overflow
      | some reserved => .ok reserved) := by
  have hfold : ∀ (caps : List (Text × Amount)) (start : Number),
      (caps.map fun p => Json.str p.2.text).foldlM (fun reserved value => do
        let amount ← moneyJson "stored run reservation" (some value)
        match defaultContext.add reserved amount with
        | none => .error BudgetError.overflow
        | some sum => .ok sum) start =
      (match (caps.map fun p => p.2.number).foldlM defaultContext.add start with
      | none => .error .overflow
      | some reserved => .ok reserved) := by
    intro caps
    induction caps with
    | nil => exact fun _ => rfl
    | cons p caps ih =>
      intro start
      have hmoney : moneyJson "stored run reservation" (some (.str p.2.text)) = .ok p.2.number :=
        moneyText_amount _ _
      simp only [List.map_cons, List.foldlM_cons, hmoney]
      cases hadd : defaultContext.add start p.2.number with
      | none => simp [hadd, bind, Except.bind]
      | some sum => simpa [hadd, bind, Except.bind] using ih sum
  rw [sumMoney, reservations, List.map_map]
  exact hfold l.caps _

/-- The projection of a ledger's state, by its sums. -/
theorem projection_eq (h : l.IsState state) :
    projection state =
      (match defaultContext.sum l.numbers with
      | none => .error .overflow
      | some reserved =>
        match defaultContext.sub l.total.number reserved with
        | none => .error .overflow
        | some remaining =>
          .ok ⟨some (.str l.scope), l.total.text, format reserved, format remaining,
            l.reservations⟩) := by
  have htotal : moneyJson "stored total authorization" (some (.str l.total.text)) =
      .ok l.total.number := moneyText_amount _ _
  simp only [projection, h.protocol, h.total, h.reservations, h.scope, htotal,
    sumMoney_reservations]
  cases defaultContext.sum l.numbers with
  | none => rfl
  | some reserved => rfl

/-- The sums of the ledger are formed without rounding. -/
structure Exact (l : Ledger) : Prop where
  sums : ∃ e, defaultContext.MultiplesOf e l.numbers ∧
    l.spent < 10 ^ ((defaultContext.prec : ℤ) + e)
  within : l.spent ≤ l.total.number.magnitude
  largest : l.total.number.magnitude ≤ defaultContext.largest

/-- The projection of a ledger does not depend on the order of its caps. -/
theorem Exact.projection_same {state' : List (Text × Json)} (h : l.Exact) (hsame : l.Same l')
    (hstate : l.IsState state) (hstate' : l'.IsState state') :
    ∃ p p', projection state = .ok p ∧ projection state' = .ok p' ∧ p'.Same p := by
  obtain ⟨hscope, htotal, hperm⟩ := hsame
  obtain ⟨e, hmul, hroom⟩ := h.sums
  have hsums : defaultContext.sum l.numbers = defaultContext.sum l'.numbers :=
    Context.sum_perm (hperm.map _) hmul hroom
  obtain ⟨reserved, hreserved, hneg, hmag, -⟩ := Context.sum_exact hmul hroom
  have hremaining := Context.sub_isSome l.total.nonneg hneg
    (by rw [hmag]; exact h.within) h.largest
  obtain ⟨remaining, hremaining⟩ := Option.isSome_iff_exists.mp hremaining
  rw [projection_eq hstate, projection_eq hstate', ← hsums, hreserved, ← htotal]
  simp only [hremaining]
  exact ⟨_, _, rfl, rfl, by rw [hscope], rfl, rfl, rfl, (hperm.map _).symm⟩

/-! ### In the file -/

/-- The ledger with its caps in the order of the file. -/
def sorted (l : Ledger) : Ledger where
  scope := l.scope
  total := l.total
  caps := l.caps.insertionSort fun p q => textLe p.1 q.1 = true
  nodup := ((List.perm_insertionSort _ _).map _).nodup_iff.mpr l.nodup
  joined := fun p hp => l.joined p ((List.perm_insertionSort _ _).mem_iff.mp hp)

/-- Sorting a ledger leaves its caps. -/
theorem same_sorted (l : Ledger) : l.Same l.sorted :=
  ⟨rfl, rfl, (List.perm_insertionSort _ _).symm⟩

/-- A run has one reservation. -/
theorem reservations_nodup (l : Ledger) : (l.reservations.map Prod.fst).Nodup := by
  rw [reservations, List.map_map]
  exact l.nodup

/-- Reservations that are written with sorted keys are read back sorted. -/
theorem reload_reservations (l : Ledger) :
    (Json.obj l.reservations).reload = .obj l.sorted.reservations := by
  have hplain : Json.reloadMembers l.reservations = l.reservations := by
    rw [Json.reloadMembers_eq]
    refine (List.map_congr_left fun p hp => ?_).trans (List.map_id _)
    obtain ⟨q, -, rfl⟩ := List.mem_map.mp hp
    have hjoin : Json.joinSurrogates q.2.text = q.2.text :=
      Json.joinSurrogates_eq fun c hc => by
        have := (q.2.plain c hc).bounds
        omega
    rw [Json.reload, hjoin]
    rfl
  have hsort : Json.sortMembers l.reservations = l.sorted.reservations := by
    rw [Json.sortMembers, reservations, sorted, reservations]
    exact (List.map_insertionSort (fun p q : Text × Amount => textLe p.1 q.1 = true) _ _ l.caps
      fun p _ q _ => Iff.rfl).symm
  rw [Json.reload, hplain, hsort, Json.ofMembers_eq (reservations_nodup _) fun p hp => ?_]
  obtain ⟨q, hq, rfl⟩ := List.mem_map.mp hp
  exact l.sorted.joined q hq

/-- A scope has no surrogates to join. -/
theorem isScope_join {t : Text} (h : isScope t = true) : Json.joinSurrogates t = t := by
  refine Json.joinSurrogates_eq fun c hc => ?_
  have halnum : ∀ d, isAlnum d = true → d < 0xD800 := by
    intro d hd
    simp only [isAlnum, isDigit, isAlpha, Bool.or_eq_true, Bool.and_eq_true,
      decide_eq_true_eq] at hd
    omega
  cases t with
  | nil => cases hc
  | cons d t =>
    simp only [isScope, Bool.and_eq_true, List.all_eq_true] at h
    obtain ⟨⟨hd, -⟩, ht⟩ := h
    rcases List.mem_cons.mp hc with rfl | hc
    · exact halnum _ hd
    · have := ht c hc
      simp only [Bool.or_eq_true, decide_eq_true_eq] at this
      rcases this with ((h | rfl) | rfl) | rfl
      · exact halnum _ h
      all_goals decide

/-- **Written and read back**, a ledger has its caps in order. -/
theorem reload_state (hscope : isScope l.scope = true) (h : l.IsState state) :
    (Json.obj state).reload = .obj l.sorted.fileState := by
  have htotal : Json.joinSurrogates l.total.text = l.total.text :=
    Json.joinSurrogates_eq fun c hc => by
      have := (l.total.plain c hc).bounds
      omega
  have hprotocol : Json.joinSurrogates (txt "budget-ledger/1") = txt "budget-ledger/1" := by decide
  rcases h with rfl | rfl
  · rw [fileState, Json.reload]
    simp only [Json.reloadMembers, reload_reservations]
    simp only [Json.reload, hprotocol, isScope_join hscope, htotal]
    rfl
  · rw [newState, Json.reload]
    simp only [Json.reloadMembers, reload_reservations]
    simp only [Json.reload, hprotocol, isScope_join hscope, htotal]
    rfl

/-! ### Charging -/

/-- The ledger in its file. -/
def file (l : Ledger) : Option Json := some (.obj l.fileState)

/-- The value of an amount's text is the magnitude of its number. -/
theorem amountValue_text (a : Amount) : amountValue (.str a.text) = a.number.magnitude := by
  simp [amountValue, a.reads, Decimal.value, Number.toDecimal, Number.magnitude, a.nonneg]

/-- The values of the reservations are the magnitudes of the caps. -/
theorem reservations_value (l : Ledger) :
    l.reservations.map (fun p => amountValue p.2) = l.numbers.map Number.magnitude := by
  simp [reservations, numbers, amountValue_text]

/-- The reservations add up to what the ledger has spent. -/
theorem sum_reservations (l : Ledger) :
    (l.reservations.map fun p => amountValue p.2).sum = l.spent := by
  rw [reservations_value]
  rfl

theorem storedReservations_file (l : Ledger) : storedReservations l.file = l.reservations := rfl

theorem storedTotal_file (l : Ledger) : storedTotal l.file = some (.str l.total.text) := rfl

/-- A cap is found under its run. -/
theorem lookup_of_cap {id : Text} {a : Amount} (h : (id, a) ∈ l.caps) :
    Json.lookup id l.reservations = some (.str a.text) :=
  Json.lookup_of_mem l.reservations_nodup (List.mem_map.mpr ⟨_, h, rfl⟩)

/-- A run has no reservation, or that of its cap. -/
theorem lookup_cases (l : Ledger) (id : Text) :
    (id ∉ l.caps.map Prod.fst ∧ Json.lookup id l.reservations = none) ∨
      ∃ a, (id, a) ∈ l.caps ∧ Json.lookup id l.reservations = some (.str a.text) := by
  by_cases h : id ∈ l.caps.map Prod.fst
  · obtain ⟨p, hp, rfl⟩ := List.mem_map.mp h
    exact .inr ⟨p.2, hp, lookup_of_cap hp⟩
  · refine .inl ⟨h, Json.lookup_eq_none_iff.mpr ?_⟩
    rwa [reservations, List.map_map]

/-- The ledger with one more cap. -/
def charge (l : Ledger) (id : Text) (a : Amount) (hid : id ∉ l.caps.map Prod.fst)
    (hjoined : Json.joinSurrogates id = id) : Ledger where
  scope := l.scope
  total := l.total
  caps := l.caps ++ [(id, a)]
  nodup := by
    rw [List.map_append, List.nodup_append]
    refine ⟨l.nodup, List.nodup_singleton _, ?_⟩
    rintro k hk k' hk' rfl
    obtain rfl : k = id := List.mem_singleton.mp hk'
    exact hid hk
  joined := by
    intro p hp
    rcases List.mem_append.mp hp with hp | hp
    · exact l.joined p hp
    · rw [List.mem_singleton.mp hp]
      exact hjoined

/-- The state with one more reservation is that of the charged ledger. -/
theorem charge_isState {id : Text} {a : Amount} {hid : id ∉ l.caps.map Prod.fst}
    {hjoined : Json.joinSurrogates id = id} (h : l.IsState state) :
    (l.charge id a hid hjoined).IsState (Json.setKey (txt "reservations")
      (.obj (Json.setKey id (.str a.text) l.reservations)) state) := by
  have hset : Json.setKey id (.str a.text) l.reservations =
      (l.charge id a hid hjoined).reservations := by
    rw [Json.setKey_of_not_mem (by rwa [reservations, List.map_map])]
    simp [charge, reservations]
  rw [hset]
  rcases h with rfl | rfl
  · exact .inl rfl
  · exact .inr rfl

/-- Charging a ledger adds one number. -/
theorem charge_numbers {id : Text} {a : Amount} {hid : id ∉ l.caps.map Prod.fst}
    {hjoined : Json.joinSurrogates id = id} :
    (l.charge id a hid hjoined).numbers = l.numbers ++ [a.number] := by
  simp [charge, numbers]

end Ledger

/-! ## Calls -/

/-- What the file of a scope can say: nothing yet, or a ledger within its total. -/
inductive InFile (scope : Text) : Option Json → Prop where
  | absent : InFile scope none
  | ledger {l : Ledger} : l.scope = scope → l.spent ≤ l.total.number.magnitude →
      InFile scope l.file

/-- The ledger has the reservation that a call asked for. -/
structure Holds (l : Ledger) (total cap : Number) (runId : Text) : Prop where
  total : l.total.number.magnitude = total.magnitude
  cap : ∃ a, (runId, a) ∈ l.caps ∧ a.number.magnitude = cap.magnitude
  exact : l.Exact

/-- Sorting a ledger leaves what it holds. -/
theorem Holds.sorted {l : Ledger} {total cap : Number} {runId : Text}
    (h : Holds l total cap runId) : Holds l.sorted total cap runId := by
  obtain ⟨-, -, hperm⟩ := l.same_sorted
  obtain ⟨a, ha, hcap⟩ := h.cap
  obtain ⟨e, hmul, hroom⟩ := h.exact.sums
  have hspent : l.sorted.spent = l.spent := ((hperm.map _).map _).sum_eq.symm
  refine ⟨h.total, ⟨a, hperm.subset ha, hcap⟩, ⟨e, hmul.mono (hperm.map _).symm.subset, ?_⟩, ?_,
    h.exact.largest⟩
  · rwa [hspent]
  · rw [hspent]
    exact h.exact.within

section

variable {scope runId : Text} {total cap : Number} {file : Option Json}

/-- The state a call decides on is the ledger of the file, or a new one. -/
theorem openState_cases (hfile : InFile scope file) (hneg : total.neg = false)
    (hcoeff : total.coeff ≠ 0) (hrange : Decimal.InRange total.coeff total.exp) :
    (∃ e, openState scope total file = .error e) ∨
      ∃ (l : Ledger) (state : List (Text × Json)), openState scope total file = .ok state ∧
        l.IsState state ∧ l.scope = scope ∧ l.total.number.magnitude = total.magnitude ∧
        l.spent ≤ l.total.number.magnitude ∧ storedReservations file = l.reservations ∧
        (file = none ∨ file = l.file ∧ state = l.fileState) := by
  cases hfile with
  | absent =>
    let amount := Amount.write total hneg hcoeff hrange
    have hmagnitude : amount.number.magnitude = total.magnitude := Amount.write_magnitude
    exact .inr ⟨⟨scope, amount, [], List.nodup_nil, nofun⟩, _, rfl, .inr rfl, rfl, hmagnitude,
      Number.magnitude_nonneg _, rfl, .inl rfl⟩
  | @ledger l hscope hspent =>
    have htotal : moneyJson "stored total authorization"
        (Json.lookup (txt "total_authorized_usd") l.fileState) = .ok l.total.number := by
      rw [Ledger.IsState.total (.inl rfl)]
      exact moneyText_amount _ _
    have hopen : openState scope total l.file =
        if l.total.number.same total then .ok l.fileState else .error .totalChanged := by
      rw [Ledger.file, openState, htotal]
      rfl
    by_cases hsame : l.total.number.same total = true
    · refine .inr ⟨l, l.fileState, by rw [hopen, if_pos hsame], .inl rfl, hscope, ?_, hspent, rfl,
        .inr ⟨rfl, rfl⟩⟩
      have := (Number.same_iff _ _).mp hsame
      rwa [Number.value_of_nonneg l.total.nonneg, Number.value_of_nonneg hneg] at this
    · exact .inl ⟨_, by rw [hopen, if_neg hsame]⟩

/-- How a call goes on once it has read the file: it raises, it finds its
reservation, or it records a ledger that has one more cap. -/
inductive Continues (scope : Text) (total cap : Number) (runId : Text) (file : Option Json) :
    BudgetProcess Projection → Prop where
  | raises (e : BudgetError) : Continues scope total cap runId file (.raise e)
  | found {l : Ledger} {p : Projection} : l.scope = scope → file = l.file →
      Holds l total cap runId → projection l.fileState = .ok p →
      Continues scope total cap runId file (.done p)
  | records {l : Ledger} {state : List (Text × Json)} {p : Projection} : l.scope = scope →
      l.IsState state → Holds l total cap runId → Extends file l.sorted.file →
      projection state = .ok p → Continues scope total cap runId file (record state)

/-- A ledger whose caps fit the context has exact sums. -/
theorem exact_of_fits {l : Ledger} (hwithin : l.spent ≤ l.total.number.magnitude)
    (htotal : l.total.number.magnitude = total.magnitude)
    (hfits : FitsContext total.magnitude (l.numbers.map Number.magnitude)) : l.Exact := by
  obtain ⟨hlargest, e, hlow, hhigh, hunits, hroom⟩ := hfits
  refine ⟨⟨e, ⟨hlow, hhigh, ?_, ?_, fun x hx => hunits _ (List.mem_map_of_mem hx)⟩, ?_⟩, hwithin,
    htotal ▸ hlargest⟩
  · rintro x hx
    obtain ⟨p, -, rfl⟩ := List.mem_map.mp hx
    exact p.2.nonneg
  · rintro x hx
    obtain ⟨p, -, rfl⟩ := List.mem_map.mp hx
    exact p.2.nonzero
  · rcases hroom with hroom | hroom
    · exact (hwithin.trans_eq htotal).trans_lt hroom
    · exact hroom

/-- **Admission.** Where the caps after the call fit the context, a sum that is
not above the total is exact, and one that is above it is refused. -/
theorem charge_of_fits {l : Ledger} {a : Amount} {hid : runId ∉ l.caps.map Prod.fst}
    {hjoined : Json.joinSurrogates runId = runId} (hneg : total.neg = false)
    (hcap : cap.neg = false) (hcoeff : cap.coeff ≠ 0) (hacap : a.number.magnitude = cap.magnitude)
    (htotal : l.total.number.magnitude = total.magnitude)
    (hwithin : l.spent ≤ l.total.number.magnitude)
    (hfits : FitsContext total.magnitude (l.numbers.map Number.magnitude ++ [cap.magnitude]))
    {reserved sum : Number} (hreserved : defaultContext.sum l.numbers = some reserved)
    (hsum : defaultContext.add reserved cap = some sum) (hle : total.lt sum = false) :
    (l.charge runId a hid hjoined).Exact := by
  have hnumbers : (l.charge runId a hid hjoined).numbers.map Number.magnitude =
      l.numbers.map Number.magnitude ++ [cap.magnitude] := by
    rw [Ledger.charge_numbers, List.map_append, List.map_singleton, hacap]
  refine exact_of_fits ?_ htotal (hnumbers ▸ hfits)
  change ((l.charge runId a hid hjoined).numbers.map Number.magnitude).sum ≤
    l.total.number.magnitude
  rw [hnumbers, List.sum_append, List.sum_singleton]
  obtain ⟨-, e, hlow, hhigh, hunits, hroom⟩ := hfits
  have hmul : defaultContext.MultiplesOf e (l.numbers ++ [cap]) := by
    refine ⟨hlow, hhigh, fun x hx => ?_, fun x hx => ?_, fun x hx => hunits _ ?_⟩
    · rcases List.mem_append.mp hx with hx | hx
      · obtain ⟨p, -, rfl⟩ := List.mem_map.mp hx
        exact p.2.nonneg
      · rwa [List.mem_singleton.mp hx]
    · rcases List.mem_append.mp hx with hx | hx
      · obtain ⟨p, -, rfl⟩ := List.mem_map.mp hx
        exact p.2.nonzero
      · rwa [List.mem_singleton.mp hx]
    · rw [← List.map_singleton (f := Number.magnitude), ← List.map_append]
      exact List.mem_map_of_mem hx
  rw [List.sum_append, List.sum_singleton] at hroom
  change total.magnitude < _ ∨ l.spent + cap.magnitude < _ at hroom
  change l.spent + cap.magnitude ≤ _
  have hcappos := Number.magnitude_nonneg cap
  have hspent : l.spent < 10 ^ ((defaultContext.prec : ℤ) + e) := by
    rcases hroom with hroom | hroom
    · exact (hwithin.trans_eq htotal).trans_lt hroom
    · linarith
  obtain ⟨r, hr, hrneg, hrmag, -⟩ :=
    Context.sum_exact (hmul.mono fun x hx => List.mem_append_left _ hx) hspent
  obtain rfl : reserved = r := Option.some.inj (hreserved.symm.trans hr)
  have hnotlt : sum.value ≤ total.value := by
    by_contra hlt
    rw [(Number.lt_iff _ _).mpr (not_le.mp hlt)] at hle
    cases hle
  rw [Number.value_of_nonneg hneg, ← htotal] at hnotlt
  by_cases hexact : l.spent + cap.magnitude < 10 ^ ((defaultContext.prec : ℤ) + e)
  · obtain ⟨s, hs, hsneg, hsmag, -⟩ := Context.sum_exact hmul
      (by rw [Context.total_append_one]; exact hexact)
    rw [Context.sum_append_one, hr] at hs
    obtain rfl : sum = s := Option.some.inj (hsum.symm.trans hs)
    rw [Number.value_of_nonneg hsneg, hsmag, Context.total_append_one] at hnotlt
    exact hnotlt
  · -- the sum is beyond the precision, and so beyond the total
    have htotalroom : total.magnitude < 10 ^ ((defaultContext.prec : ℤ) + e) :=
      hroom.resolve_right hexact
    have hlowroom : defaultContext.etiny ≤ (defaultContext.prec : ℤ) + e := by omega
    obtain ⟨hsneg, hslarge⟩ := Context.add_large hrneg hcap hlowroom
      (by rw [hrmag]; exact not_lt.mp hexact) hsum
    rw [Number.value_of_nonneg hsneg, htotal] at hnotlt
    linarith

/-- What the file keeps when a cap is added to its ledger. -/
theorem extends_charge {l : Ledger} {a : Amount} {hid : runId ∉ l.caps.map Prod.fst}
    {hjoined : Json.joinSurrogates runId = runId}
    (hstored : storedReservations file = l.reservations) (hfile : file = none ∨ file = l.file) :
    Extends file (l.charge runId a hid hjoined).sorted.file := by
  constructor
  · rintro t ht
    rcases hfile with rfl | rfl
    · cases ht
    · exact ht
  · intro id v hv
    rw [hstored] at hv
    obtain ⟨p, hp, heq⟩ := List.mem_map.mp (Json.mem_of_lookup hv)
    obtain ⟨rfl, rfl⟩ := Prod.mk.inj heq
    obtain ⟨-, -, hperm⟩ := (l.charge runId a hid hjoined).same_sorted
    exact Ledger.lookup_of_cap (hperm.subset (List.mem_append_left _ hp))

/-- **A conforming call** raises, finds its reservation or records its cap. -/
theorem reserveFrom_continues (hfile : InFile scope file) (hneg : total.neg = false)
    (hcoeff : total.coeff ≠ 0) (hrange : Decimal.InRange total.coeff total.exp)
    (hcap : cap.neg = false) (hcapcoeff : cap.coeff ≠ 0)
    (hcaprange : Decimal.InRange cap.coeff cap.exp) (hjoined : Json.joinSurrogates runId = runId)
    (hfits : FitsContext total.magnitude (capsAfter file runId cap.magnitude)) :
    Continues scope total cap runId file (reserveFrom scope total cap runId file) := by
  rcases openState_cases hfile hneg hcoeff hrange with
    ⟨e, he⟩ | ⟨l, state, hopen, hstate, hscope, htotal, hwithin, hstored, hfileState⟩
  · simp only [reserveFrom, he, lift, Process.raise_bind]
    exact .raises e
  · rw [capsAfter, storedCaps, hstored, Ledger.reservations_value] at hfits
    simp only [reserveFrom, hopen, lift, Process.done_bind, admitCap, hstate.reservations]
    rcases l.lookup_cases runId with ⟨hid, hlookup⟩ | ⟨a, ha, hlookup⟩
    · simp only [hlookup, Option.isSome_none, Bool.false_eq_true, if_false] at hfits
      simp only [hlookup, Ledger.sumMoney_reservations]
      cases hreserved : defaultContext.sum l.numbers with
      | none => exact .raises _
      | some reserved =>
        cases hsum : defaultContext.add reserved cap with
        | none => simpa [hsum, bind, Except.bind] using .raises _
        | some sum =>
          cases hlt : total.lt sum with
          | true => simpa [hsum, hlt, bind, Except.bind] using .raises _
          | false =>
            simp only [bind, Except.bind, hsum, hlt]
            let amount := Amount.write cap hcap hcapcoeff hcaprange
            have hamount : amount.number.magnitude = cap.magnitude := Amount.write_magnitude
            have hexact : (l.charge runId amount hid hjoined).Exact :=
              charge_of_fits hneg hcap hcapcoeff hamount htotal hwithin hfits hreserved hsum hlt
            have hstate' : (l.charge runId amount hid hjoined).IsState _ :=
              Ledger.charge_isState hstate
            obtain ⟨p, _, hp, -, -⟩ := hexact.projection_same
              (l.charge runId amount hid hjoined).same_sorted hstate' (.inl rfl)
            refine .records (l := l.charge runId amount hid hjoined) hscope hstate'
              ⟨htotal, ⟨amount, List.mem_append_right _ (List.mem_singleton_self _), hamount⟩,
                hexact⟩ (extends_charge hstored (hfileState.imp_right And.left)) hp
    · simp only [hlookup, Option.isSome_some, if_true] at hfits
      have hexact := exact_of_fits hwithin htotal hfits
      have hamount : moneyJson "stored run reservation" (some (.str a.text)) = .ok a.number :=
        moneyText_amount _ _
      simp only [hlookup, hamount]
      cases hsame : a.number.same cap with
      | false => simpa [hsame, bind, Except.bind] using .raises _
      | true =>
        have hvalue := (Number.same_iff _ _).mp hsame
        rw [Number.value_of_nonneg a.nonneg, Number.value_of_nonneg hcap] at hvalue
        rcases hfileState with rfl | ⟨rfl, rfl⟩
        · rw [← hstored] at hlookup
          cases hlookup
        · obtain ⟨p, _, hp, -, -⟩ := hexact.projection_same l.same_sorted hstate (.inl rfl)
          simp only [bind, Except.bind, hsame, if_true, hp]
          exact .found hscope rfl ⟨htotal, ⟨a, ha, hvalue⟩, hexact⟩ hp

/-- A call whose reservation is in the file only projects the ledger. -/
theorem reserveFrom_again {l : Ledger} (hneg : total.neg = false) (hcap : cap.neg = false)
    (h : Holds l total cap runId) :
    reserveFrom scope total cap runId l.file = lift (projection l.fileState) := by
  have hstate : l.IsState l.fileState := .inl rfl
  have htotal : moneyJson "stored total authorization"
      (Json.lookup (txt "total_authorized_usd") l.fileState) = .ok l.total.number := by
    rw [hstate.total]
    exact moneyText_amount _ _
  have hsame : l.total.number.same total = true := by
    rw [Number.same_iff, Number.value_of_nonneg l.total.nonneg, Number.value_of_nonneg hneg, h.total]
  obtain ⟨a, ha, hvalue⟩ := h.cap
  have hcapsame : a.number.same cap = true := by
    rw [Number.same_iff, Number.value_of_nonneg a.nonneg, Number.value_of_nonneg hcap, hvalue]
  have hamount : moneyJson "stored run reservation" (some (.str a.text)) = .ok a.number :=
    moneyText_amount _ _
  simp only [reserveFrom, Ledger.file, openState, htotal, admitCap, hstate.reservations,
    Ledger.lookup_of_cap ha, hamount, bind, Except.bind, hsame, hcapsame, if_true, lift,
    Process.bind]

end

/-! ## Runs -/

section

variable {scope : Text} {r : Reservation} {file : Option Json}

/-- A call whose arguments are accepted reads the file and goes on from it. -/
theorem reserve_eq {total cap : Number} (hscope : isScope scope = true)
    (htotal : money "total authorization" r.total = .ok total)
    (hcap : money "run cap" r.cap = .ok cap) :
    reserve scope r = .call .read fun (answer : Option (Option Json)) =>
      match answer with
      | none => .raise .unavailable
      | some file => reserveFrom scope total cap r.runId file := by
  simp only [reserve, hscope, htotal, hcap, lift]
  rfl

/-- `reserve` raises an error, or has a scope and two sums of money. -/
theorem reserve_cases (scope : Text) (r : Reservation) :
    (∃ e, reserve scope r = .raise e) ∨
      ∃ total cap, isScope scope = true ∧ money "total authorization" r.total = .ok total ∧
        money "run cap" r.cap = .ok cap := by
  cases hscope : isScope scope with
  | false => exact .inl ⟨.scope, by simp [reserve, hscope]⟩
  | true =>
    cases htotal : money "total authorization" r.total with
    | error e => exact .inl ⟨e, by simp [reserve, hscope, htotal, lift]⟩
    | ok total =>
      cases hcap : money "run cap" r.cap with
      | error e => exact .inl ⟨e, by simp [reserve, hscope, htotal, hcap, lift]⟩
      | ok cap => exact .inr ⟨total, cap, rfl, rfl, rfl⟩

/-- The arguments of a conforming call go on as `Continues` says. -/
theorem Conforms.continues {total cap : Number} (hfile : InFile scope file)
    (hconforms : Conforms file r) (htotal : money "total authorization" r.total = .ok total)
    (hcap : money "run cap" r.cap = .ok cap) :
    Continues scope total cap r.runId file (reserveFrom scope total cap r.runId file) := by
  obtain ⟨hneg, hcoeff, hrange⟩ := money_eq_ok htotal
  obtain ⟨hcapneg, hcapcoeff, hcaprange⟩ := money_eq_ok hcap
  have hfits := hconforms.digits total cap htotal hcap
  rw [Number.value_of_nonneg hneg, Number.value_of_nonneg hcapneg] at hfits
  exact reserveFrom_continues hfile hneg hcoeff hrange hcapneg hcapcoeff hcaprange
    hconforms.runId hfits

/-- What a call leaves: the file it found, or a ledger that extends it. -/
def Leaves (scope : Text) (file file' : Option Json) : Prop := InFile scope file' ∧ Extends file file'

theorem Extends.refl (file : Option Json) : Extends file file := ⟨fun _ h => h, fun _ _ h => h⟩

theorem Extends.trans {a b c : Option Json} (hab : Extends a b) (hbc : Extends b c) : Extends a c :=
  ⟨fun t ht => hbc.1 t (hab.1 t ht), fun id v hv => hbc.2 id v (hab.2 id v hv)⟩

/-- A call that returns leaves a ledger that has its reservation, and returns its
projection. -/
def Accepted (scope : Text) (r : Reservation) (p : Projection) (file : Option Json) : Prop :=
  ∃ (l : Ledger) (total cap : Number) (p' : Projection), isScope scope = true ∧
    money "total authorization" r.total = .ok total ∧ money "run cap" r.cap = .ok cap ∧
    file = l.file ∧ Holds l total cap r.runId ∧ projection l.fileState = .ok p' ∧ p'.Same p

theorem Projection.Same.refl (p : Projection) : p.Same p := ⟨rfl, rfl, rfl, rfl, .refl _⟩

theorem Projection.Same.trans {p q t : Projection} (hpq : p.Same q) (hqt : q.Same t) : p.Same t :=
  ⟨hpq.1.trans hqt.1, hpq.2.1.trans hqt.2.1, hpq.2.2.1.trans hqt.2.2.1,
    hpq.2.2.2.1.trans hqt.2.2.2.1, hpq.2.2.2.2.trans hqt.2.2.2.2⟩

/-- **A conforming call** leaves the file or extends it, returns only with its
reservation in the file, and raises only with the file as it was. -/
theorem Conforms.keeps (hfile : InFile scope file) (hconforms : Conforms file r) :
    Keeps (budgetMachine False) (Leaves scope file) (Accepted scope r) (fun _ w => w = file)
      (reserve scope r) file := by
  have hstay : Leaves scope file file := ⟨hfile, .refl _⟩
  rcases reserve_cases scope r with ⟨e, he⟩ | ⟨total, cap, hscope, htotal, hcap⟩
  · rw [he]
    rfl
  · have hcontinues := hconforms.continues hfile htotal hcap
    rw [reserve_eq hscope htotal hcap]
    refine ⟨fun w hw => hw ▸ hstay, fun answer w ⟨hw, ha⟩ => ⟨hw ▸ hstay, ?_⟩⟩
    subst hw
    rcases ha with rfl | rfl
    · change Keeps _ _ _ _ (reserveFrom scope total cap r.runId w) w
      generalize reserveFrom scope total cap r.runId w = process at hcontinues ⊢
      cases hcontinues with
      | raises e => rfl
      | @found l p hl hw hholds hp =>
        exact ⟨l, total, cap, p, hscope, htotal, hcap, hw, hholds, hp, .refl p⟩
      | @records l state p hl hstate hholds hextends hp =>
        have hreload : some (Json.reload (.obj state)) = l.sorted.file := by
          rw [Ledger.reload_state (hl ▸ hscope) hstate]
          rfl
        have hsorted := hholds.sorted
        have hleaves : Leaves scope w l.sorted.file := ⟨.ledger hl hsorted.exact.within, hextends⟩
        obtain ⟨q, p', hq, hp', hsame⟩ :=
          hholds.exact.projection_same l.same_sorted hstate (.inl rfl)
        obtain rfl : p = q := by
          rw [hp] at hq
          injection hq
        have haccepted : Accepted scope r p l.sorted.file :=
          ⟨l.sorted, total, cap, p', hscope, htotal, hcap, rfl, hsorted, hp', hsame⟩
        refine ⟨?_, ?_⟩
        · rintro v (rfl | rfl)
          · exact hstay
          · rw [hreload]
            exact hleaves
        · rintro replaced v (⟨rfl, rfl⟩ | ⟨rfl, rfl⟩)
          · rw [hreload]
            refine ⟨hleaves, fun v hv => hv ▸ hleaves, fun synced v hsync => ?_⟩
            obtain ⟨rfl, rfl | hfail⟩ := hsync
            · rw [hp]
              exact ⟨hleaves, haccepted⟩
            · exact hfail.elim
          · exact ⟨hstay, rfl⟩
    · rfl

/-- Every command of a conforming call extends the file or leaves it. -/
theorem Conforms.transitions (hfile : InFile scope file) (hconforms : Conforms file r) :
    Issues (budgetMachine False)
      (fun _ c v => (∀ a v', (budgetMachine False).exec v c a v' → Extends v v') ∧
        ∀ v', (budgetMachine False).die v c v' → Extends v v') [] (reserve scope r) file := by
  rcases reserve_cases scope r with ⟨e, he⟩ | ⟨total, cap, hscope, htotal, hcap⟩
  · rw [he]
    trivial
  · have hcontinues := hconforms.continues hfile htotal hcap
    rw [reserve_eq hscope htotal hcap]
    refine ⟨⟨fun a v ⟨hv, _⟩ => hv ▸ .refl _, fun v hv => hv ▸ .refl _⟩, fun answer w ⟨hw, ha⟩ => ?_⟩
    subst hw
    rcases ha with rfl | rfl
    · change Issues _ _ _ (reserveFrom scope total cap r.runId w) w
      generalize reserveFrom scope total cap r.runId w = process at hcontinues ⊢
      cases hcontinues with
      | raises e => trivial
      | found _ _ _ _ => trivial
      | @records l state p hl hstate hholds hextends hp =>
        have hreload : some (Json.reload (.obj state)) = l.sorted.file := by
          rw [Ledger.reload_state (hl ▸ hscope) hstate]
          rfl
        refine ⟨⟨?_, ?_⟩, ?_⟩
        · rintro replaced v (⟨-, rfl⟩ | ⟨-, rfl⟩)
          · rwa [hreload]
          · exact .refl _
        · rintro v (rfl | rfl)
          · exact .refl _
          · rwa [hreload]
        · rintro replaced v (⟨rfl, -⟩ | ⟨rfl, -⟩)
          · refine ⟨⟨fun a v' ⟨hv, _⟩ => hv ▸ .refl _, fun v' hv => hv ▸ .refl _⟩,
              fun a v' hsync => ?_⟩
            obtain ⟨-, rfl | hfail⟩ := hsync
            · rw [hp]
              trivial
            · exact hfail.elim
          · trivial
    · trivial

/-- Asked again, a call that was accepted leaves the file and returns the same. -/
theorem Accepted.again {p : Projection} {syncFails : Prop} (h : Accepted scope r p file) :
    Keeps (budgetMachine syncFails) (fun w => w = file) (fun p' w => w = file ∧ p'.Same p)
      (fun e w => w = file ∧ e = .unavailable) (reserve scope r) file := by
  obtain ⟨l, total, cap, p', hscope, htotal, hcap, rfl, hholds, hp, hsame⟩ := h
  rw [reserve_eq hscope htotal hcap]
  refine ⟨fun w hw => hw, fun answer w ⟨hw, ha⟩ => ⟨hw, ?_⟩⟩
  subst hw
  rcases ha with rfl | rfl
  · change Keeps _ _ _ _ (reserveFrom scope total cap r.runId l.file) _
    rw [reserveFrom_again (money_eq_ok htotal).1 (money_eq_ok hcap).1 hholds, hp]
    exact ⟨rfl, hsame⟩
  · exact ⟨rfl, rfl⟩

/-- What a ledger's file holds is within the authority. -/
theorem InFile.within (h : InFile scope file) : WithinAuthority file := by
  cases h with
  | absent => nofun
  | @ledger l hl hwithin =>
    intro json _
    refine ⟨_, l.storedTotal_file, ?_⟩
    rw [storedCaps, l.storedReservations_file, l.sum_reservations, Ledger.amountValue_text]
    exact hwithin

variable {s : BudgetState}

/-- Interleaved conforming calls keep the ledger a ledger. -/
theorem inFile_of_steps (h : ReflTransGen (BudgetStep scope False Conforms) ⟨none, none⟩ s) :
    InFile scope s.world := by
  refine lock_invariant (fun v p o v' hv hp hr => ?_) (fun _ _ _ hout => hout.elim) .absent h
  obtain ⟨r, hconforms, rfl⟩ := hp
  exact ((hconforms.keeps hv).sound (runs_alone hr) ⟨hv, .refl _⟩).1.1

/-- What the ledger of a scope promises at a moment of an interleaving. -/
structure KeepsAuthority (scope : Text) (syncFails : Prop) (P : Option Json → Reservation → Prop)
    (s : BudgetState) : Prop where
  /-- the exact sum of the caps is at most the total -/
  within : WithinAuthority s.world
  /-- the total and every cap are there at every later moment -/
  persists : ∀ s', ReflTransGen (BudgetStep scope syncFails P) s s' → Extends s.world s'.world
  /-- a call that raises leaves the file -/
  raises : ∀ r e file, P s.world r →
    Runs (budgetMachine syncFails) (reserve scope r) s.world (.raised e) file → file = s.world
  /-- repeating an accepted call leaves the file and returns the same projection,
  unless the file cannot be read -/
  repeats : ∀ r p file, P s.world r →
    Runs (budgetMachine syncFails) (reserve scope r) s.world (.returned p) file →
    ∀ o file', Runs (budgetMachine syncFails) (reserve scope r) file o file' →
      file' = file ∧ (∀ p', o = .returned p' → p'.Same p) ∧ ∀ e, o = .raised e → e = .unavailable

/-- **The authority is never exceeded.** Calls of any number of processes, each of
which decides by exact sums and does not fail to sync the directory, keep the
promises of the ledger at every moment. -/
theorem authority_never_exceeded
    (h : ReflTransGen (BudgetStep scope False Conforms) ⟨none, none⟩ s) :
    KeepsAuthority scope False Conforms s := by
  have hfile := inFile_of_steps h
  refine ⟨hfile.within, fun s' hs' => ?_, fun r e file hconforms hr => ?_,
    fun r p file hconforms hr o file' hr' => ?_⟩
  · induction hs' with
    | refl => exact .refl _
    | tail hs hstep ih =>
      refine ih.trans (lock_transition .refl (fun v p hv hp => ?_) (h.trans hs) hstep)
      obtain ⟨r, hconforms, rfl⟩ := hp
      exact hconforms.transitions (inFile_of_steps hv)
  · exact ((hconforms.keeps hfile).sound hr ⟨hfile, .refl _⟩).2.2 e rfl
  · have haccepted := ((hconforms.keeps hfile).sound hr ⟨hfile, .refl _⟩).2.1 p rfl
    obtain ⟨hsame, hreturned, hraised⟩ := haccepted.again.sound hr' rfl
    exact ⟨hsame, fun p' hp' => (hreturned p' hp').2, fun e he => (hraised e he).2⟩

end

/-! ## Played calls -/

/-- Every command succeeds. -/
def succeed (w : Option Json) : (c : BudgetCommand) → BudgetAnswer c × Option Json × Bool
  | .read => (some w, w, true)
  | .replace state => (true, some state.reload, true)
  | .sync => (true, w, true)

/-- The file after a call that nothing interrupts. -/
def fileAfter (scope : Text) (r : Reservation) (file : Option Json) : Option Json :=
  ((reserve scope r).interpret succeed file).world

/-- A call that the store serves is a step of the budget. -/
theorem step_of_call (scope : Text) (P : Option Json → Reservation → Prop) (r : Reservation)
    (file : Option Json) (hP : P file r)
    (hallowed : ((reserve scope r).interpret succeed file).allowed = true) :
    ReflTransGen (BudgetStep scope False P) ⟨file, none⟩ ⟨fileAfter scope r file, none⟩ := by
  refine lock_run ⟨r, hP, rfl⟩ (Process.runs_interpret (fun w c _ => ?_) hallowed)
  cases c with
  | read => exact ⟨rfl, .inl rfl⟩
  | replace state => exact .inl ⟨rfl, rfl⟩
  | sync => exact ⟨rfl, .inl rfl⟩

/-- A call with text amounts. -/
def asks (total runId cap : String) : Reservation := ⟨.inl <| txt total, txt runId, .inl <| txt cap⟩

/-- A call in cents conforms where the ledger is in cents. -/
theorem conforms_of_cents {file : Option Json} {total runId cap : String} {t c : ℕ}
    (hrun : Json.joinSurrogates (txt runId) = txt runId)
    (htotal : money "total authorization" (.inl (txt total)) = .ok ⟨false, t, -2⟩)
    (hcap : money "run cap" (.inl (txt cap)) = .ok ⟨false, c, -2⟩) (hsmall : t < 10 ^ 28)
    (hcaps : ∀ x ∈ storedCaps file, ∃ k : ℕ, x = k * (10 : ℚ) ^ (-2 : ℤ)) :
    Conforms file (asks total runId cap) := by
  refine ⟨hrun, fun total' cap' htotal' hcap' => ?_⟩
  obtain rfl : total' = ⟨false, t, -2⟩ := Except.ok.inj (htotal'.symm.trans htotal)
  obtain rfl : cap' = ⟨false, c, -2⟩ := Except.ok.inj (hcap'.symm.trans hcap)
  have hvalue : ∀ n : ℕ, (⟨false, n, -2⟩ : Number).value = n * (10 : ℚ) ^ (-2 : ℤ) := fun n => rfl
  have hcents : (t : ℚ) < 10 ^ 28 := by exact_mod_cast hsmall
  rw [hvalue, hvalue]
  refine ⟨?_, -2, by decide, by decide, ?_, .inl ?_⟩
  · have hone : (1 : ℚ) ≤ 10 ^ defaultContext.etop := one_le_zpow₀ (by norm_num) (by decide)
    calc (t : ℚ) * 10 ^ (-2 : ℤ) ≤ (10 ^ defaultContext.prec - 1) * 1 := by
          norm_num [defaultContext]
          linarith
      _ ≤ defaultContext.largest := mul_le_mul_of_nonneg_left hone (by norm_num [defaultContext])
  · intro x hx
    rw [capsAfter] at hx
    split at hx
    · exact hcaps x hx
    · rcases List.mem_append.mp hx with hx | hx
      · exact hcaps x hx
      · exact ⟨c, List.mem_singleton.mp hx⟩
  · norm_num [defaultContext]
    linarith

/-- Two runs reserve under one authority, and both caps are in its sum. -/
theorem authority_never_exceeded_sample :
    ∃ s, ReflTransGen (BudgetStep (txt "scope") False Conforms) ⟨none, none⟩ s ∧
      storedCaps s.world = [1.25, 0.75] ∧ KeepsAuthority (txt "scope") False Conforms s := by
  have hfirst : Conforms none (asks "50.00" "run-a" "1.25") :=
    conforms_of_cents (t := 5000) (c := 125) (by decide) (by decide +kernel) (by decide +kernel)
      (by decide) nofun
  have hquarters : Decimal.ofText (txt "1.25") = some (.finite false 125 (-2)) := by decide +kernel
  have hrest : Decimal.ofText (txt "0.75") = some (.finite false 75 (-2)) := by decide +kernel
  have hreservations :
      storedReservations (fileAfter (txt "scope") (asks "50.00" "run-a" "1.25") none) =
        [(txt "run-a", .str <| txt "1.25")] := by decide +kernel
  have hsecond : Conforms (fileAfter (txt "scope") (asks "50.00" "run-a" "1.25") none)
      (asks "50.00" "run-b" "0.75") := by
    refine conforms_of_cents (t := 5000) (c := 75) (by decide) (by decide +kernel)
      (by decide +kernel) (by decide) ?_
    rw [storedCaps, hreservations]
    refine List.forall_mem_singleton.mpr ⟨125, ?_⟩
    simp only [amountValue, hquarters, Option.elim_some, Decimal.value]
    norm_num
  have hsteps := (step_of_call (txt "scope") Conforms _ none hfirst (by decide +kernel)).trans
    (step_of_call (txt "scope") Conforms _ _ hsecond (by decide +kernel))
  refine ⟨_, hsteps, ?_, authority_never_exceeded hsteps⟩
  have hboth : storedReservations (fileAfter (txt "scope") (asks "50.00" "run-b" "0.75")
      (fileAfter (txt "scope") (asks "50.00" "run-a" "1.25") none)) =
        [(txt "run-a", .str <| txt "1.25"), (txt "run-b", .str <| txt "0.75")] := by decide +kernel
  simp only [storedCaps, hboth, List.map_cons, List.map_nil, amountValue, hquarters, hrest,
    Option.elim_some, Decimal.value]
  norm_num

/-- An authority of `1e28` that one run has used up still admits a cap of `0.4`:
the sum is rounded to 28 digits before it is compared. -/
theorem rounding_exceeds_authority :
    ¬ ∀ s, ReflTransGen (BudgetStep (txt "scope") False fun _ _ => True) ⟨none, none⟩ s →
      KeepsAuthority (txt "scope") False (fun _ _ => True) s := by
  intro hclaim
  have hfirst := step_of_call (txt "scope") (fun _ _ => True) (asks "1e28" "run-a" "1e28") none
    trivial (by decide +kernel)
  have hsecond := step_of_call (txt "scope") (fun _ _ => True) (asks "1e28" "run-b" "0.4")
    (fileAfter (txt "scope") (asks "1e28" "run-a" "1e28") none) trivial (by decide +kernel)
  have hwithin := (hclaim _ (hfirst.trans hsecond)).within
  set file := fileAfter (txt "scope") (asks "1e28" "run-b" "0.4")
    (fileAfter (txt "scope") (asks "1e28" "run-a" "1e28") none)
  have hreservations : storedReservations file =
      [(txt "run-a", .str <| txt "10000000000000000000000000000"),
        (txt "run-b", .str <| txt "0.4")] := by decide +kernel
  have htotal : storedTotal file = some (.str <| txt "10000000000000000000000000000") := by
    decide +kernel
  have hlarge : Decimal.ofText (txt "10000000000000000000000000000") =
      some (.finite false (10 ^ 28) 0) := by decide +kernel
  have hsmall : Decimal.ofText (txt "0.4") = some (.finite false 4 (-1)) := by decide +kernel
  obtain ⟨json, hjson⟩ := Option.isSome_iff_exists.mp (by decide +kernel : file.isSome = true)
  obtain ⟨total, htotal', hsum⟩ := hwithin json hjson
  obtain rfl : Json.str (txt "10000000000000000000000000000") = total :=
    Option.some.inj (htotal.symm.trans htotal')
  simp only [storedCaps, hreservations, List.map_cons, List.map_nil, amountValue, hlarge, hsmall,
    Option.elim_some, Decimal.value, List.sum_cons, List.sum_nil] at hsum
  norm_num at hsum

end BudgetLedger

end RunpodJobrunner
