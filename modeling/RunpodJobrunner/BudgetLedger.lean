import RunpodJobrunner.DecimalArithmetic
import RunpodJobrunner.Json
import RunpodJobrunner.Locking

/-!
# The budget ledger

`BudgetLedger.reserve` reserves the full cap of a run against the authority of
its scope. The ledger of a scope is one JSON file that is replaced atomically,
and a call holds the lock of the scope from before it reads the file. Amounts
are decimal text; sums are formed in the default decimal context.
-/

namespace RunpodJobrunner

/-- The number as a decimal. -/
def Number.toDecimal (n : Number) : Decimal := .finite n.neg n.coeff n.exp

namespace BudgetLedger

/-! ## Amounts -/

/-- What `reserve` raises. -/
inductive BudgetError : Type where
  /-- `budget scope must be a safe identifier` -/
  | scope : BudgetError
  /-- `{name} must be a Decimal or decimal string` -/
  | type : (name : String) → BudgetError
  /-- `{name} is invalid` -/
  | invalid : (name : String) → BudgetError
  /-- `{name} must be positive and finite` -/
  | notPositive : (name : String) → BudgetError
  /-- `budget ledger is unavailable or corrupt` -/
  | unavailable : BudgetError
  /-- `budget ledger is corrupt` -/
  | corrupt : BudgetError
  /-- `budget reservations are corrupt` -/
  | reservationsCorrupt : BudgetError
  /-- `unsupported budget ledger protocol` -/
  | protocol : BudgetError
  /-- `budget total authority cannot change in place` -/
  | totalChanged : BudgetError
  /-- `run already reserved with a different cap` -/
  | capChanged : BudgetError
  /-- `run cap {cap} would exceed aggregate authority {total}` -/
  | exceeds : BudgetError
  /-- `decimal.Overflow` -/
  | overflow : BudgetError
  /-- `OSError` -/
  | os : BudgetError
  deriving DecidableEq

/-- A `Decimal` instance: its exponent is within the bounds of exact decimals. -/
abbrev ExactDecimal := { d : Decimal // ∀ neg coeff exp, d = .finite neg coeff exp →
  Decimal.InRange coeff exp }

/-- The check of `_money` on a decimal. -/
def positive (name : String) : Decimal → Except BudgetError Number
  | .finite false (coeff + 1) exp => .ok ⟨false, coeff + 1, exp⟩
  | _ => .error (.notPositive name)

/-- `_money` of a string. -/
def moneyText (name : String) (text : Text) : Except BudgetError Number :=
  match Decimal.ofText text with
  | none => .error (.invalid name)
  | some d => positive name d

/-- `_money` of an argument. -/
def money (name : String) : Text ⊕ ExactDecimal → Except BudgetError Number
  | .inl text => moneyText name text
  | .inr d => positive name d.val

/-- `_money` of a value in the file, which is never a `Decimal`. -/
def moneyJson (name : String) : Option Json → Except BudgetError Number
  | some (.str text) => moneyText name text
  | _ => .error (.type name)

/-- `format(amount, "f")`. -/
def format (n : Number) : Text := n.toDecimal.formatF

/-- `sum((_money(value, "stored run reservation") for value in values), Decimal("0"))`. -/
def sumMoney (values : List Json) : Except BudgetError Number :=
  values.foldlM (fun reserved value => do
    let amount ← moneyJson "stored run reservation" (some value)
    match defaultContext.add reserved amount with
    | none => .error .overflow
    | some sum => .ok sum) ⟨false, 0, 0⟩

/-! ## The projection -/

/-- What `reserve` returns. -/
structure Projection where
  scope : Option Json
  total : Text
  reserved : Text
  remaining : Text
  reservations : List (Text × Json)

/-- `==` of two projections: a dict has no order. -/
def Projection.Same (p q : Projection) : Prop :=
  p.scope = q.scope ∧ p.total = q.total ∧ p.reserved = q.reserved ∧ p.remaining = q.remaining ∧
    p.reservations.Perm q.reservations

/-- `_projection`. -/
def projection (state : List (Text × Json)) : Except BudgetError Projection := do
  if Json.lookup (txt "protocol") state ≠ some (.str <| txt "budget-ledger/1") then
    .error .protocol
  let total ← moneyJson "stored total authorization"
    (Json.lookup (txt "total_authorized_usd") state)
  match Json.lookup (txt "total_authorized_usd") state, Json.lookup (txt "reservations") state with
  | some (.str text), some (.obj reservations) =>
    let reserved ← sumMoney (reservations.map Prod.snd)
    match defaultContext.sub total reserved with
    | none => .error .overflow
    | some remaining =>
      .ok ⟨Json.lookup (txt "scope") state, text, format reserved, format remaining, reservations⟩
  | _, _ => .error .reservationsCorrupt

/-! ## Reserving -/

/-- What a call asks of the file system under the lock. -/
inductive BudgetCommand : Type where
  /-- `path.exists()` and `_read`'s `path.read_text()` -/
  | read : BudgetCommand
  /-- everything of `_atomic_json` up to `os.replace` -/
  | replace : (state : Json) → BudgetCommand
  /-- `os.fsync` of the directory -/
  | sync : BudgetCommand

/-- The answers: reading fails, or there is a file or not; the others succeed or raise. -/
def BudgetAnswer : BudgetCommand → Type
  | .read => Option (Option Json)
  | .replace _ => Bool
  | .sync => Bool

/-- A call or a part of one. -/
abbrev BudgetProcess (α : Type) := Process BudgetCommand BudgetAnswer BudgetError α

/-- A computation without commands. -/
def lift {α : Type} : Except BudgetError α → BudgetProcess α
  | .ok a => .done a
  | .error e => .raise e

/-- The state of a new ledger. -/
def newState (scope total : Text) (reservations : List (Text × Json)) : List (Text × Json) :=
  [(txt "protocol", .str <| txt "budget-ledger/1"), (txt "scope", .str scope),
    (txt "total_authorized_usd", .str total), (txt "reservations", .obj reservations)]

/-- The state a call starts from: the one in the file, whose total must be the
same, or a new one. -/
def openState (scope : Text) (total : Number) : Option Json → Except BudgetError (List (Text × Json))
  | some (.obj state) => do
    let existing ← moneyJson "stored total authorization"
      (Json.lookup (txt "total_authorized_usd") state)
    if existing.same total then .ok state else .error .totalChanged
  | some _ => .error .corrupt
  | none => .ok (newState scope (format total) [])

/-- The decision: the run has its reservation (`none`), or the state with it. -/
def admitCap (total : Number) (runId : Text) (cap : Number) (state : List (Text × Json)) :
    Except BudgetError (Option (List (Text × Json))) :=
  match Json.lookup (txt "reservations") state with
  | some (.obj reservations) =>
    match Json.lookup runId reservations with
    -- `reservations.get` does not tell `null` from no reservation
    | some .null | none => do
      let reserved ← sumMoney (reservations.map Prod.snd)
      match defaultContext.add reserved cap with
      | none => .error .overflow
      | some sum =>
        if total.lt sum then .error .exceeds
        else
          .ok (some (Json.setKey (txt "reservations")
            (.obj (Json.setKey runId (.str (format cap)) reservations)) state))
    -- a repeated call adds nothing
    | some existing => do
      let amount ← moneyJson "stored run reservation" (some existing)
      if amount.same cap then .ok none else .error .capChanged
  | _ => .error .reservationsCorrupt

/-- `_SCOPE.fullmatch`. -/
def isScope : Text → Bool
  | c :: t => isAlnum c && t.length ≤ 127 && t.all fun c => isAlnum c || c = 46 || c = 95 || c = 45
  | [] => false

/-- The arguments of a call, its scope apart. -/
structure Reservation where
  total : Text ⊕ ExactDecimal
  runId : Text
  cap : Text ⊕ ExactDecimal

/-- `_atomic_json` and the projection of what it wrote. -/
def record (state : List (Text × Json)) : BudgetProcess Projection :=
  .call (.replace (.obj state)) fun (replaced : Bool) =>
    if replaced then
      .call .sync fun (synced : Bool) => if synced then lift (projection state) else .raise .os
    else .raise .os

/-- The rest of `reserve` once it has the contents of the file. -/
def reserveFrom (scope : Text) (total cap : Number) (runId : Text) (file : Option Json) :
    BudgetProcess Projection := do
  let state ← lift (openState scope total file)
  match ← lift (admitCap total runId cap state) with
  | none => lift (projection state)
  | some state => record state

/-- `BudgetLedger.reserve`. -/
def reserve (scope : Text) (r : Reservation) : BudgetProcess Projection := do
  if !isScope scope then .raise .scope
  let total ← lift (money "total authorization" r.total)
  let cap ← lift (money "run cap" r.cap)
  .call .read fun (answer : Option (Option Json)) =>
    match answer with
    | none => .raise .unavailable
    | some file => reserveFrom scope total cap r.runId file

/-- The file system: a replacement is atomic, a failed one leaves the file, and
`syncFails` says whether the directory may fail to sync after one. -/
def budgetMachine (syncFails : Prop) : Machine (Option Json) BudgetCommand BudgetAnswer where
  exec
    | w, .read, a, w' => w' = w ∧ (a = some w ∨ a = none)
    | w, .replace state, a, w' => (a = true ∧ w' = some state.reload) ∨ (a = false ∧ w' = w)
    | w, .sync, a, w' => w' = w ∧ (a = true ∨ syncFails)
  die
    | w, .replace state, w' => w' = w ∨ w' = some state.reload
    | w, _, w' => w' = w

/-- A process takes the lock of the scope with a call that `P` allows. -/
def Calls (scope : Text) (P : Option Json → Reservation → Prop) (file : Option Json)
    (p : BudgetProcess Projection) : Prop :=
  ∃ r, P file r ∧ p = reserve scope r

/-- The file of a scope and the call that holds its lock. -/
abbrev BudgetState := Locked (Option Json) BudgetCommand BudgetAnswer BudgetError Projection

/-- One step of any number of processes that call `reserve` on the scope. -/
def BudgetStep (scope : Text) (syncFails : Prop) (P : Option Json → Reservation → Prop) :
    BudgetState → BudgetState → Prop :=
  LockStep (budgetMachine syncFails) (Calls scope P) fun _ _ => False

/-! ## What a file says -/

/-- The stored total, as it is written. -/
def storedTotal (file : Option Json) : Option Json :=
  file.bind (Json.get? <| txt "total_authorized_usd")

/-- The stored reservations. -/
def storedReservations (file : Option Json) : List (Text × Json) :=
  match file.bind (Json.get? <| txt "reservations") with
  | some (.obj reservations) => reservations
  | _ => []

/-- The rational number an amount in the file denotes. -/
def amountValue : Json → ℚ
  | .str text => (Decimal.ofText text).elim 0 Decimal.value
  | _ => 0

/-- The stored caps as rational numbers. -/
def storedCaps (file : Option Json) : List ℚ := (storedReservations file).map fun p => amountValue p.2

/-- The exact sum of the caps is at most the total. -/
def WithinAuthority (file : Option Json) : Prop :=
  ∀ json, file = some json →
    ∃ total, storedTotal file = some total ∧ (storedCaps file).sum ≤ amountValue total

/-- The total and every cap of the first file are in the second. -/
def Extends (file file' : Option Json) : Prop :=
  (∀ total, storedTotal file = some total → storedTotal file' = some total) ∧
    ∀ id cap, Json.lookup id (storedReservations file) = some cap →
      Json.lookup id (storedReservations file') = some cap

/-- The caps the ledger holds once the run has one. -/
def capsAfter (file : Option Json) (runId : Text) (cap : ℚ) : List ℚ :=
  if (Json.lookup runId (storedReservations file)).isSome then storedCaps file
  else storedCaps file ++ [cap]

/-- The caps are multiples of a power of ten that leaves their sum, or the total
that bounds it, no more digits than the context has, and the total is not above
the largest number of the context. -/
def FitsContext (total : ℚ) (caps : List ℚ) : Prop :=
  total ≤ defaultContext.largest ∧
    ∃ e : ℤ, defaultContext.etiny ≤ e ∧ e ≤ defaultContext.etop ∧
      (∀ c ∈ caps, ∃ k : ℕ, c = k * (10 : ℚ) ^ e) ∧
      (total < 10 ^ ((defaultContext.prec : ℤ) + e) ∨
        caps.sum < 10 ^ ((defaultContext.prec : ℤ) + e))

/-- A call that decides by exact sums, under a run id that the file can keep. -/
structure Conforms (file : Option Json) (r : Reservation) : Prop where
  runId : Json.joinSurrogates r.runId = r.runId
  digits : ∀ total cap, money "total authorization" r.total = .ok total →
    money "run cap" r.cap = .ok cap →
    FitsContext total.value (capsAfter file r.runId cap.value)

end BudgetLedger

end RunpodJobrunner
