import RunpodJobrunner.DecimalNormalize
import RunpodJobrunner.JsonScalars

/-!
# Canonical JSON

`canonical_json` writes what is hashed: keys in order, no white space, and decimals as
numbers. A decimal is normalised on the way, in the default context of 28 digits: so
what comes back is the value that was encoded exactly when no decimal of it has more
significant digits, and no integer more than Python converts.
-/

namespace RunpodJobrunner

open Json

/-! ## The encoder -/

/-- `str.rstrip` of one character. -/
def rstrip (c : ℕ) (t : Text) : Text := (t.reverse.dropWhile (· == c)).reverse

/-- `_decimal_text`; `none` where it raises. -/
def decimalText : Decimal → Option Text
  | .finite neg coeff exp =>
    if coeff = 0 then some (txt "0")
    else
      (defaultContext.normalize ⟨neg, coeff, exp⟩).map fun n =>
        let text := (Decimal.finite n.neg n.coeff n.exp).formatF
        if 46 ∈ text then rstrip 46 (rstrip 48 text) else text
  | .infinity _ | .nan _ => none

mutual

/-- `encode`, of a value whose keys are in order; `none` where it raises. -/
def encode : Json → Option Text
  | .null => some (txt "null")
  | .bool b => some (if b then txt "true" else txt "false")
  | .int n => intText n
  | .decimal d => decimalText d
  | .float _ => none
  | .str t => some (stringText false t)
  | .arr vs => (encodeItems vs).map fun t => 91 :: t
  | .obj kvs => (encodeMembers kvs).map fun t => 123 :: t

/-- The elements of a sequence, and the closing bracket. -/
def encodeItems : List Json → Option Text
  | [] => some [93]
  | v :: vs =>
    match encode v, encodeItems vs with
    | some t, some u => some (t ++ (if vs.isEmpty then u else 44 :: u))
    | _, _ => none

/-- The members of a mapping, and the closing brace. -/
def encodeMembers : List (Text × Json) → Option Text
  | [] => some [125]
  | (k, v) :: kvs =>
    match encode v, encodeMembers kvs with
    | some t, some u =>
      some (stringText false k ++ 58 :: t ++ (if kvs.isEmpty then u else 44 :: u))
    | _, _ => none

end

/-- `canonical_json`; `none` where it raises. -/
def canonicalJson (v : Json) : Option Bytes := (encode v.sortKeys).bind encodeUtf8

/-! ## Loading with exact decimals -/

mutual

/-- `parse_float=Decimal`, of the literals that were kept. -/
def parseFloats : Json → Option Json
  | .float (.literal l) => (Decimal.ofText (literalText l)).map .decimal
  | .arr vs => (parseFloatItems vs).map .arr
  | .obj kvs => (parseFloatMembers kvs).map .obj
  | v => some v

/-- In every element. -/
def parseFloatItems : List Json → Option (List Json)
  | [] => some []
  | v :: vs =>
    match parseFloats v, parseFloatItems vs with
    | some u, some us => some (u :: us)
    | _, _ => none

/-- In every member. -/
def parseFloatMembers : List (Text × Json) → Option (List (Text × Json))
  | [] => some []
  | (k, v) :: kvs =>
    match parseFloats v, parseFloatMembers kvs with
    | some u, some us => some ((k, u) :: us)
    | _, _ => none

end

/-- `json.loads(data, parse_float=Decimal)` of UTF-8; `none` where it raises. -/
def loadsDecimal (data : Bytes) : Option Json :=
  match decodeUtf8 data with
  | .error _ => none
  | .ok text =>
    match loads literalDecoder text with
    | .error _ => none
    | .ok v => parseFloats v

/-- The canonical records a `JobBundle` keeps. -/
structure JobBundle where
  jobSpecJson : Bytes
  inputManifestJson : Bytes

namespace JobBundle

/-- The records of `check_bundle`; `none` where `canonical_json` raises. -/
def ofRecords (spec manifest : List (Text × Json)) : Option JobBundle :=
  match canonicalJson (.obj spec), canonicalJson (.obj manifest) with
  | some jobSpecJson, some inputManifestJson => some ⟨jobSpecJson, inputManifestJson⟩
  | _, _ => none

/-- `JobBundle.job_spec`. -/
def jobSpec (b : JobBundle) : Option Json := loadsDecimal b.jobSpecJson

/-- `JobBundle.input_manifest`. -/
def inputManifest (b : JobBundle) : Option Json := loadsDecimal b.inputManifestJson

end JobBundle

end RunpodJobrunner
