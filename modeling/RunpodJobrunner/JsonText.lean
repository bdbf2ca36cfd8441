import Mathlib.Data.List.Duplicate
import RunpodJobrunner.Json

/-!
# JSON text

`json.dumps` with sorted keys and without spaces, and `json.loads` as CPython's C
scanner reads. A decode error is its message and the text from its position on,
which is what a reader of cut records looks at. A scanner has fuel for two steps a
character, and every two steps take some of the text.
-/

namespace RunpodJobrunner

namespace Json

/-! ## Writing -/

/-- The options of `json.dumps` that the program varies. -/
structure DumpOptions where
  ensureAscii : Bool
  allowNan : Bool

/-- The longest integer that is converted to or from decimal digits. -/
def maxStrDigits : ℕ := 4300

/-- A hexadecimal digit, in lower case. -/
def hexDigit (n : ℕ) : ℕ := if n < 10 then 48 + n else 87 + n

/-- `\uXXXX`. -/
def unicodeEscape (c : ℕ) : Text :=
  [92, 117, hexDigit (c / 4096 % 16), hexDigit (c / 256 % 16), hexDigit (c / 16 % 16),
    hexDigit (c % 16)]

/-- A character in a string. -/
def escapeChar (ascii : Bool) (c : ℕ) : Text :=
  if c = 34 then [92, 34]
  else if c = 92 then [92, 92]
  else if c = 8 then [92, 98]
  else if c = 9 then [92, 116]
  else if c = 10 then [92, 110]
  else if c = 12 then [92, 102]
  else if c = 13 then [92, 114]
  else if c < 32 then unicodeEscape c
  else if ascii = false ∨ c < 127 then [c]
  else if c < 0x10000 then unicodeEscape c
  else
    unicodeEscape (0xD800 + (c - 0x10000) / 0x400) ++ unicodeEscape (0xDC00 + (c - 0x10000) % 0x400)

/-- The characters of a string, and the closing quote. -/
def stringTail (ascii : Bool) : Text → Text
  | [] => [34]
  | c :: t => escapeChar ascii c ++ stringTail ascii t

/-- A string in its quotes. -/
def stringText (ascii : Bool) (t : Text) : Text := 34 :: stringTail ascii t

/-- `int.__repr__`; `none` where it raises. -/
def intText (n : ℤ) : Option Text :=
  let digits := natText n.natAbs
  if digits.length ≤ maxStrDigits then some (if n < 0 then 45 :: digits else digits) else none

/-- The exponent of a literal. -/
def exponentText : Option (ℕ × Text × Text) → Text
  | none => []
  | some (marker, sign, digits) => marker :: (sign ++ digits)

/-- `float.__repr__` of a finite float. -/
def literalText (l : FloatLiteral) : Text :=
  (if l.neg then [45] else []) ++ natText l.whole ++ (if l.frac = [] then [] else 46 :: l.frac) ++
    exponentText l.exp

/-- A float; `none` where `allow_nan` refuses it. -/
def floatText (o : DumpOptions) : JsonFloat → Option Text
  | .literal l => some (literalText l)
  | .nan => if o.allowNan then some (txt "NaN") else none
  | .infinity neg =>
    if o.allowNan then some (if neg then txt "-Infinity" else txt "Infinity") else none

mutual

/-- The text of a value, its members in the order they are in. -/
def write (o : DumpOptions) : Json → Option Text
  | null => some (txt "null")
  | bool b => some (if b then txt "true" else txt "false")
  | int n => intText n
  | float f => floatText o f
  | decimal _ => none
  | str t => some (stringText o.ensureAscii t)
  | arr vs => (writeItems o vs).map fun t => 91 :: t
  | obj kvs => (writeMembers o kvs).map fun t => 123 :: t

/-- The elements of an array, and the closing bracket. -/
def writeItems (o : DumpOptions) : List Json → Option Text
  | [] => some [93]
  | v :: vs =>
    match write o v, writeItems o vs with
    | some t, some u => some (t ++ (if vs.isEmpty then u else 44 :: u))
    | _, _ => none

/-- The members of an object, and the closing brace. -/
def writeMembers (o : DumpOptions) : List (Text × Json) → Option Text
  | [] => some [125]
  | (k, v) :: kvs =>
    match write o v, writeMembers o kvs with
    | some t, some u =>
      some (stringText o.ensureAscii k ++ 58 :: t ++ (if kvs.isEmpty then u else 44 :: u))
    | _, _ => none

end

mutual

/-- The value with the members of every object in the order of their keys. -/
def sortKeys : Json → Json
  | arr vs => arr (sortKeysList vs)
  | obj kvs => obj (sortMembers (sortKeysMembers kvs))
  | v => v

/-- The elements of an array, each with its keys in order. -/
def sortKeysList : List Json → List Json
  | [] => []
  | v :: vs => sortKeys v :: sortKeysList vs

/-- The members of an object, each value with its keys in order. -/
def sortKeysMembers : List (Text × Json) → List (Text × Json)
  | [] => []
  | (k, v) :: kvs => (k, sortKeys v) :: sortKeysMembers kvs

end

/-- `json.dumps(value, sort_keys=True, separators=(",", ":"), ...)`; `none` where it raises. -/
def dumps (o : DumpOptions) (v : Json) : Option Text := write o (sortKeys v)

/-! ## Errors -/

/-- The messages of `json.JSONDecodeError`. -/
inductive DecodeMessage : Type where
  | expectingValue
  | expectingPropertyName
  | expectingColon
  | expectingComma
  /-- `Unterminated string starting at` -/
  | unterminatedString
  /-- `Invalid \uXXXX escape` -/
  | invalidUnicodeEscape
  /-- `Invalid \escape` -/
  | invalidEscape
  /-- `Invalid control character at` -/
  | invalidControl
  | extraData
  /-- `Unexpected UTF-8 BOM` -/
  | unexpectedBom
  deriving DecidableEq

/-- A `json.JSONDecodeError`: its message, and the text from its position on. -/
structure DecodeError where
  message : DecodeMessage
  rest : Text
  deriving DecidableEq

/-- What `json.loads` raises. -/
inductive LoadsError : Type where
  | decode : DecodeError → LoadsError
  /-- `ValueError` of `int` on too many digits -/
  | digits : LoadsError
  /-- an exception of `object_pairs_hook`, on an object with these keys -/
  | hook : (keys : List Text) → LoadsError
  deriving DecidableEq

/-- A scanner's result: what it read, and the text after it. -/
abbrev Scan (α : Type) := Except LoadsError (α × Text)

/-- A sequence returns where both of its parts do. -/
theorem bind_ok_iff {ε α β : Type} {x : Except ε α} {f : α → Except ε β} {b : β} :
    (x >>= f) = .ok b ↔ ∃ a, x = .ok a ∧ f a = .ok b := by
  cases x with
  | error e => exact iff_of_false nofun nofun
  | ok a =>
    refine ⟨fun h => ⟨a, rfl, h⟩, ?_⟩
    rintro ⟨_, ⟨⟩, h⟩
    exact h

theorem map_ok_iff {ε α β : Type} {f : α → β} {x : Except ε α} {b : β} :
    x.map f = .ok b ↔ ∃ a, x = .ok a ∧ f a = b := by
  cases x with
  | error e => exact iff_of_false nofun nofun
  | ok a =>
    refine ⟨fun h => ⟨a, rfl, Except.ok.inj h⟩, ?_⟩
    rintro ⟨_, ⟨⟩, rfl⟩
    rfl

/-- A check that raises is passed where what follows it returns. -/
theorem ite_error_iff {ε α : Type} {p : Prop} [Decidable p] {e : ε} {r : Except ε α} {a : α} :
    (if p then .error e else r) = .ok a ↔ ¬p ∧ r = .ok a := by
  split
  · next hp => exact iff_of_false nofun fun h => h.1 hp
  · next hp => exact ⟨fun h => ⟨hp, h⟩, fun h => h.2⟩

/-- A decode error. -/
def failAt {α : Type} (message : DecodeMessage) (rest : Text) : Except LoadsError α :=
  .error (.decode ⟨message, rest⟩)

/-! ## Strings -/

/-- The value of a hexadecimal digit. -/
def hexValue (c : ℕ) : Option ℕ :=
  if isDigit c then some (c - 48)
  else if 97 ≤ c ∧ c ≤ 102 then some (c - 87)
  else if 65 ≤ c ∧ c ≤ 70 then some (c - 55)
  else none

/-- The value of four of them. -/
def hexValue4 (a b c d : ℕ) : Option ℕ :=
  match hexValue a, hexValue b, hexValue c, hexValue d with
  | some a, some b, some c, some d => some (((a * 16 + b) * 16 + c) * 16 + d)
  | _, _, _, _ => none

/-- The escapes of one character. -/
def simpleEscape (c : ℕ) : Option ℕ :=
  if c = 34 ∨ c = 92 ∨ c = 47 then some c
  else if c = 98 then some 8
  else if c = 102 then some 12
  else if c = 110 then some 10
  else if c = 114 then some 13
  else if c = 116 then some 9
  else none

/-- One more character in front of what was read. -/
def push (c : ℕ) (s : Scan Text) : Scan Text := s.map fun p => (c :: p.1, p.2)

/-- The low surrogate that the escape at the front writes, if it does. -/
def lowSurrogate : Text → Except LoadsError (Option ℕ)
  | p :: q :: a :: b :: c :: d :: t =>
    if p = 92 ∧ q = 117 ∧ t ≠ [] then
      match hexValue4 a b c d with
      | none => failAt .invalidUnicodeEscape (q :: a :: b :: c :: d :: t)
      | some y => .ok (if 0xDC00 ≤ y ∧ y < 0xE000 then some y else none)
    else .ok none
  | _ => .ok none

/-- The characters of a string after its opening quote. `start` is the text from that
quote on. An escape `\uXXXX` is read where at least one more character follows it. -/
def scanString (start : Text) : Text → Scan Text
  | [] => failAt .unterminatedString start
  | c :: t =>
    if c = 34 then .ok ([], t)
    else if c = 92 then
      match t with
      | [] => failAt .unterminatedString start
      | e :: u =>
        if e = 117 then
          match u with
          | a :: b :: c' :: d :: v =>
            if v = [] then failAt .invalidUnicodeEscape (e :: u)
            else
              match hexValue4 a b c' d with
              | none => failAt .invalidUnicodeEscape (e :: u)
              | some x =>
                if 0xD800 ≤ x ∧ x < 0xDC00 then
                  match lowSurrogate v with
                  | .error error => .error error
                  | .ok none => push x (scanString start v)
                  | .ok (some y) =>
                    match v with
                    | _ :: _ :: _ :: _ :: _ :: _ :: w =>
                      push (0x10000 + (x - 0xD800) * 0x400 + (y - 0xDC00)) (scanString start w)
                    | _ => failAt .unterminatedString start
                else push x (scanString start v)
          | _ => failAt .invalidUnicodeEscape (e :: u)
        else
          match simpleEscape e with
          | some x => push x (scanString start u)
          | none => failAt .invalidEscape (c :: t)
    else if c < 32 then failAt .invalidControl (c :: t)
    else push c (scanString start t)

/-! ## Numbers -/

/-- What follows a decimal point, if a digit does. -/
def scanFraction : Text → Text × Text
  | p :: c :: t =>
    if p = 46 ∧ isDigit c = true then (c :: t.takeWhile isDigit, t.dropWhile isDigit)
    else ([], p :: c :: t)
  | t => ([], t)

/-- A sign that something follows. -/
def scanSign : Text → Text × Text
  | s :: c :: t => if s = 43 ∨ s = 45 then ([s], c :: t) else ([], s :: c :: t)
  | t => ([], t)

/-- An exponent, if there are digits in it. -/
def scanExponent : Text → Option (ℕ × Text × Text) × Text
  | m :: c :: t =>
    if m = 101 ∨ m = 69 then
      let signed := scanSign (c :: t)
      let digits := signed.2.takeWhile isDigit
      if digits = [] then (none, m :: c :: t)
      else (some (m, signed.1, digits), signed.2.dropWhile isDigit)
    else (none, m :: c :: t)
  | t => (none, t)

/-- The parts of an exponent are what they have to be. -/
def IsExponent (e : ℕ × Text × Text) : Prop :=
  (e.1 = 101 ∨ e.1 = 69) ∧ (e.2.1 = [] ∨ e.2.1 = [43] ∨ e.2.1 = [45]) ∧ e.2.2 ≠ [] ∧
    ∀ c ∈ e.2.2, isDigit c = true

instance : DecidablePred IsExponent := fun _ =>
  inferInstanceAs (Decidable (_ ∧ _ ∧ _ ∧ _))

/-- The literal with a fraction or an exponent. -/
def literalOf (neg : Bool) (whole : ℕ) (frac : Text) (exp : Option (ℕ × Text × Text)) :
    Option FloatLiteral :=
  if h : (∀ c ∈ frac, isDigit c = true) ∧ (∀ e ∈ exp, IsExponent e) ∧
      (frac ≠ [] ∨ exp.isSome = true) then
    some ⟨neg, whole, frac, exp, h.1, fun _ _ _ he => h.2.1 _ (Option.mem_def.mpr he), h.2.2⟩
  else none

/-- What `json.loads` is called with: `float` of a literal, and the hook that makes the
dict of an object. -/
structure Decoder where
  floatOf : FloatLiteral → JsonFloat
  pairs : List (Text × Json) → Option (List (Text × Json))

/-- The number with those parts. -/
def numberOf (d : Decoder) (neg : Bool) (whole frac : Text) (exp : Option (ℕ × Text × Text)) :
    Except LoadsError Json :=
  match literalOf neg (digitsValue whole) frac exp with
  | some l => .ok (.float (d.floatOf l))
  | none =>
    if whole.length ≤ maxStrDigits then
      .ok (.int (if neg then -(digitsValue whole : ℤ) else digitsValue whole))
    else .error .digits

/-- The rest of a number after its whole part. -/
def scanNumberTail (d : Decoder) (neg : Bool) (whole t : Text) : Scan Json :=
  let fraction := scanFraction t
  let exponent := scanExponent fraction.2
  (numberOf d neg whole fraction.1 exponent.1).map fun v => (v, exponent.2)

/-- The digits of a number. `start` is the text from its first character on. -/
def scanDigits (d : Decoder) (start : Text) (neg : Bool) : Text → Scan Json
  | [] => failAt .expectingValue start
  | c :: t =>
    if c = 48 then scanNumberTail d neg [48] t
    else if isDigit c then
      scanNumberTail d neg (c :: t.takeWhile isDigit) (t.dropWhile isDigit)
    else failAt .expectingValue start

/-- A number. -/
def scanNumber (d : Decoder) (t : Text) : Scan Json :=
  match t with
  | 45 :: u => scanDigits d t true u
  | _ => scanDigits d t false t

/-! ## Values -/

/-- JSON white space. -/
def isJsonSpace (c : ℕ) : Bool := c == 32 || c == 9 || c == 10 || c == 13

/-- The text after leading white space. -/
def skipSpace (t : Text) : Text := t.dropWhile isJsonSpace

/-- The named constants. -/
def constants : List (Text × Json) :=
  [(txt "null", .null), (txt "true", .bool true), (txt "false", .bool false),
    (txt "NaN", .float .nan), (txt "Infinity", .float (.infinity false)),
    (txt "-Infinity", .float (.infinity true))]

/-- A named constant at the front, and the text after it. -/
def scanConstant (t : Text) : Option (Json × Text) :=
  (constants.find? fun p => p.1.isPrefixOf t).map fun p => (p.2, t.drop p.1.length)

/-- The dict of an object. -/
def dictOf (d : Decoder) (kvs : List (Text × Json)) : Except LoadsError Json :=
  match d.pairs kvs with
  | some kvs => .ok (.obj kvs)
  | none => .error (.hook (kvs.map Prod.fst))

mutual

/-- `scan_once`. -/
def scanOnce (d : Decoder) : ℕ → Text → Scan Json
  | 0, t => failAt .expectingValue t
  | n + 1, t =>
    match t with
    | [] => failAt .expectingValue []
    | c :: u =>
      if c = 34 then (scanString t u).map fun p => (str p.1, p.2)
      else if c = 123 then
        match skipSpace u with
        | 125 :: v => (dictOf d []).map fun j => (j, v)
        | v =>
          match scanMembers d n v with
          | .ok (kvs, w) => (dictOf d kvs).map fun j => (j, w)
          | .error e => .error e
      else if c = 91 then
        match skipSpace u with
        | 93 :: v => .ok (arr [], v)
        | v => (scanItems d n v).map fun p => (arr p.1, p.2)
      else
        match scanConstant t with
        | some p => .ok p
        | none => scanNumber d t

/-- The elements of an array up to its closing bracket. -/
def scanItems (d : Decoder) : ℕ → Text → Scan (List Json)
  | 0, t => failAt .expectingValue t
  | n + 1, t =>
    match scanOnce d n t with
    | .error e => .error e
    | .ok (v, u) =>
      match skipSpace u with
      | 93 :: w => .ok ([v], w)
      | 44 :: w => (scanItems d n (skipSpace w)).map fun p => (v :: p.1, p.2)
      | w => failAt .expectingComma w

/-- The members of an object up to its closing brace. -/
def scanMembers (d : Decoder) : ℕ → Text → Scan (List (Text × Json))
  | 0, t => failAt .expectingPropertyName t
  | n + 1, t =>
    match t with
    | 34 :: u =>
      match scanString t u with
      | .error e => .error e
      | .ok (k, v) =>
        match skipSpace v with
        | 58 :: w =>
          match scanOnce d n (skipSpace w) with
          | .error e => .error e
          | .ok (j, x) =>
            match skipSpace x with
            | 125 :: y => .ok ([(k, j)], y)
            | 44 :: y => (scanMembers d n (skipSpace y)).map fun p => ((k, j) :: p.1, p.2)
            | y => failAt .expectingComma y
        | w => failAt .expectingColon w
    | t => failAt .expectingPropertyName t

end

/-- `json.loads` of a string. -/
def loads (d : Decoder) (t : Text) : Except LoadsError Json :=
  if t.head? = some 0xFEFF then failAt .unexpectedBom t
  else
    match scanOnce d (2 * t.length) (skipSpace t) with
    | .error e => .error e
    | .ok (v, u) => if skipSpace u = [] then .ok v else failAt .extraData (skipSpace u)

/-- The dict of pairs that may repeat a key: the last value, in the first place. -/
def lastWins (kvs : List (Text × Json)) : Option (List (Text × Json)) :=
  some (kvs.foldl (fun d p => setKey p.1 p.2 d) [])

/-- A decoder that keeps the literals of floats, and the dicts of `json.loads`. -/
def literalDecoder : Decoder := ⟨.literal, lastWins⟩

/-- The hooks that refuse a repeated key. -/
def noRepeats (kvs : List (Text × Json)) : Option (List (Text × Json)) :=
  if (kvs.map Prod.fst).Nodup then some kvs else none

/-- The key they name, the first that stands after itself; `seen` are the keys before. -/
def repeatedKey (seen : List Text) : List Text → Text
  | [] => []
  | key :: keys => if key ∈ seen then key else repeatedKey (key :: seen) keys

/-- The key that is named is one of the keys, and is there twice. -/
theorem repeatedKey_duplicate {keys : List Text} : ∀ {seen : List Text}, seen.Nodup →
    ¬(seen.reverse ++ keys).Nodup → List.Duplicate (repeatedKey seen keys)
    (seen.reverse ++ keys) := by
  induction keys with
  | nil =>
    intro seen hseen hrepeats
    exact absurd (by simpa using hseen) hrepeats
  | cons key keys ih =>
    intro seen hseen hrepeats
    rw [repeatedKey]
    split
    · next hmem =>
      have hkey : List.Sublist [key, key] (seen.reverse ++ key :: keys) :=
        (List.singleton_sublist.mpr (List.mem_reverse.mpr hmem)).append
          (List.singleton_sublist.mpr List.mem_cons_self)
      exact List.duplicate_iff_sublist.mpr hkey
    · next hmem =>
      have hmoved : (key :: seen).reverse ++ keys = seen.reverse ++ key :: keys := by simp
      have htail := ih (List.nodup_cons.mpr ⟨hmem, hseen⟩) (by rwa [hmoved])
      rwa [hmoved] at htail

end Json

end RunpodJobrunner
