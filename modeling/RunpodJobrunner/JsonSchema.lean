import RunpodJobrunner.Json
import RunpodJobrunner.Regex

/-!
# JSON Schema

The keywords of draft 2020-12 the packaged schemas use, and the validity of a
value under them. A schema is a conjunction of keywords, a reference is the
schema it refers to, and `format` is not checked (the validator is built without
a format checker), so it is not a keyword here. A keyword says nothing about a
value of a type it does not apply to.
-/

namespace RunpodJobrunner

/-- The `type` names. -/
inductive JsonType : Type where
  | null | boolean | integer | number | string | array | object
  deriving DecidableEq

namespace Json

/-- The rational number a value is, if it is one. Booleans are not numbers. -/
def number : Json → Option ℚ
  | int n => some n
  | float (.literal l) => some l.value
  | decimal (.finite neg coeff exp) => some (Decimal.finite neg coeff exp).value
  | _ => none

/-- Whether a value is an infinity, and which. -/
def infinite : Json → Option Bool
  | float (.infinity neg) => some neg
  | decimal (.infinity neg) => some neg
  | _ => none

/-- A comparison of a number with a bound: `p` on rationals, and what it is on
the two infinities. A NaN and anything that is not a number passes. -/
def bounded (v : Json) (p : ℚ → Bool) (onNegative onPositive : Bool) : Bool :=
  match v.infinite, v.number with
  | some neg, _ => if neg then onNegative else onPositive
  | none, some q => p q
  | none, none => true

/-- Whether a value has a type. A float with an integral value is an integer, a
`Decimal` is not. -/
def hasType (v : Json) : JsonType → Bool
  | .null => v == null
  | .boolean => match v with | bool _ => true | _ => false
  | .integer =>
    match v with
    | int _ => true
    | float (.literal l) => l.value.den == 1
    | _ => false
  | .number => match v with | int _ | float _ | decimal _ => true | _ => false
  | .string => match v with | str _ => true | _ => false
  | .array => match v with | arr _ => true | _ => false
  | .object => match v with | obj _ => true | _ => false

/-- Python's number for a boolean, when booleans count as numbers. -/
def unboxed (bools : Bool) (v : Json) : Json :=
  match v with
  | bool b => if bools then int b.toNat else v
  | _ => v

/-- Scalar equality in which `1` and `1.0` are one number. -/
def sameScalar (bools : Bool) (a b : Json) : Bool :=
  match number (unboxed bools a), number (unboxed bools b) with
  | some x, some y => x == y
  | none, none => a == b
  | _, _ => false

mutual

/-- Equality of Python values: arrays by element, objects by key, numbers by
value. With `bools`, it is `==`, where `True` is `1`; without, it is the
validator's, where no boolean is a number. -/
def same (bools : Bool) : Json → Json → Bool
  | arr as, arr bs => sameList bools as bs
  | obj as, obj bs => as.length == bs.length && sameMembers bools as bs
  | arr _, _ => false
  | obj _, _ => false
  | a, b => sameScalar bools a b

/-- Equal arrays. -/
def sameList (bools : Bool) : List Json → List Json → Bool
  | [], [] => true
  | a :: as, b :: bs => same bools a b && sameList bools as bs
  | _, _ => false

/-- Every member of the first object has an equal one in the second. -/
def sameMembers (bools : Bool) : List (Text × Json) → List (Text × Json) → Bool
  | [], _ => true
  | (k, a) :: as, bs =>
    (match lookup k bs with
      | some b => same bools a b
      | none => false) && sameMembers bools as bs

end

/-- `uniqueItems`: no element is equal to a later one. -/
def distinct : List Json → Bool
  | [] => true
  | a :: as => !as.any (same false a) && distinct as

end Json

/-- Schemas: one keyword, or a combination. -/
inductive Schema : Type where
  | any : Schema
  | never : Schema
  | type : List JsonType → Schema
  | const : Json → Schema
  | enum : List Json → Schema
  | minLength : ℕ → Schema
  | maxLength : ℕ → Schema
  | pattern : Regex → Schema
  | minimum : ℚ → Schema
  | exclusiveMinimum : ℚ → Schema
  | maximum : ℚ → Schema
  | minItems : ℕ → Schema
  | uniqueItems : Schema
  | items : Schema → Schema
  | required : List Text → Schema
  | dependentRequired : Text → List Text → Schema
  /-- `properties`, and `additionalProperties` for the members it does not name -/
  | properties : List (Text × Schema) → (additional : Schema) → Schema
  | propertyNames : Schema → Schema
  | allOf : List Schema → Schema
  | anyOf : List Schema → Schema
  | oneOf : List Schema → Schema
  | ifThen : Schema → Schema → Schema

namespace Schema

/-- A condition on the length of a string. -/
def onString (v : Json) (p : Text → Bool) : Bool :=
  match v with
  | .str t => p t
  | _ => true

/-- A condition on an array. -/
def onArray (v : Json) (p : List Json → Bool) : Bool :=
  match v with
  | .arr xs => p xs
  | _ => true

/-- A condition on an object. -/
def onObject (v : Json) (p : List (Text × Json) → Bool) : Bool :=
  match v with
  | .obj kvs => p kvs
  | _ => true

/-- A key an object has. -/
def hasKey (kvs : List (Text × Json)) (k : Text) : Bool := (Json.lookup k kvs).isSome

mutual

/-- Validity of a value under a schema. -/
def accepts : Schema → Json → Bool
  | any, _ => true
  | never, _ => false
  | type ts, v => ts.any v.hasType
  | const c, v => Json.same false c v
  | enum cs, v => cs.any fun c => Json.same false c v
  | minLength n, v => onString v fun t => n ≤ t.length
  | maxLength n, v => onString v fun t => t.length ≤ n
  | pattern r, v => onString v r.search
  | minimum q, v => v.bounded (fun x => q ≤ x) false true
  | exclusiveMinimum q, v => v.bounded (fun x => q < x) false true
  | maximum q, v => v.bounded (fun x => x ≤ q) true false
  | minItems n, v => onArray v fun xs => n ≤ xs.length
  | uniqueItems, v => onArray v Json.distinct
  | items s, v => onArray v fun xs => xs.all (accepts s)
  | required ks, v => onObject v fun kvs => ks.all (hasKey kvs)
  | dependentRequired k ks, v => onObject v fun kvs => !hasKey kvs k || ks.all (hasKey kvs)
  | properties ps additional, v =>
    onObject v fun kvs =>
      acceptsMembers ps kvs &&
        kvs.all fun kv => ps.any (fun p => p.1 == kv.1) || accepts additional kv.2
  | propertyNames s, v => onObject v fun kvs => kvs.all fun kv => accepts s (.str kv.1)
  | allOf ss, v => acceptsAll ss v
  | anyOf ss, v => 0 < acceptsCount ss v
  | oneOf ss, v => acceptsCount ss v == 1
  | ifThen s t, v => !accepts s v || accepts t v

/-- Every named member that is there is valid. -/
def acceptsMembers : List (Text × Schema) → List (Text × Json) → Bool
  | [], _ => true
  | (k, s) :: ps, kvs =>
    (match Json.lookup k kvs with
      | some v => accepts s v
      | none => true) && acceptsMembers ps kvs

/-- Valid under every schema of a list. -/
def acceptsAll : List Schema → Json → Bool
  | [], _ => true
  | s :: ss, v => accepts s v && acceptsAll ss v

/-- How many schemas of a list a value is valid under. -/
def acceptsCount : List Schema → Json → ℕ
  | [], _ => 0
  | s :: ss, v => (if accepts s v then 1 else 0) + acceptsCount ss v

end

end Schema

end RunpodJobrunner
