import RunpodJobrunner.Base64
import RunpodJobrunner.IncrementalManifest
import RunpodJobrunner.JsonSchema
import RunpodJobrunner.Words

/-!
# Acknowledgements

`sign_ack` and `verify_ack`: a statement is signed over its canonical JSON, and a signed
one is decoded, compared with what is expected and checked over the canonical JSON of what
was decoded. The digest and `ssh-keygen` are parameters; a call of `ssh-keygen -Y verify` is
data, so that what was checked can be said.
-/

namespace RunpodJobrunner

open Json Executor

namespace IncrementalAck

/-- `ACK_PROTOCOL`. -/
def ackProtocol : Text := txt "incremental-mirror-ack/1"

/-- `ACK_NAMESPACE`. -/
def ackNamespace : Text := txt "runpod-jobrunner-incremental-mirror"

/-- What the functions raise. -/
inductive AckError : Type where
  /-- `IncrementalAckError`, and its text -/
  | ack : Text → AckError
  /-- `IncrementalAckError`, whose text ends in the `repr` of a value -/
  | quoting : (text value : Text) → AckError
  /-- an exception of another class -/
  | foreign : AckError
  deriving DecidableEq

/-! ## `ssh-keygen` -/

/-- `ssh-keygen -Y sign -f key -n namespace statement`. -/
structure SignCall where
  privateKey : Text
  signNamespace : Text
  statement : Bytes

/-- `ssh-keygen -Y verify -f allowed_signers -I identity -n namespace -s signature`, with the
statement on its standard input. -/
structure VerifyCall where
  allowedSigners : Bytes
  identity : Text
  signNamespace : Text
  signature : Bytes
  statement : Bytes

/-- The program. A call is `none` where it cannot be started. -/
structure SshKeygen where
  /-- the signature, `none` where the program fails or leaves none -/
  sign : SignCall → Option (Option Bytes)
  /-- the return code -/
  verify : VerifyCall → Option ℤ

/-! ## Keys -/

/-- `AckSigner`. -/
structure AckSigner where
  privateKey : Text
  publicKey : Text
  keyId : Text
  identity : Text
  signNamespace : Text
  deriving DecidableEq

/-- `AckSigner.public_fields`. -/
def AckSigner.publicFields (s : AckSigner) : Members :=
  [(txt "algorithm", .str (txt "ssh-ed25519")), (txt "identity", .str s.identity),
    (txt "key_id", .str s.keyId), (txt "namespace", .str s.signNamespace),
    (txt "public_key", .str s.publicKey)]

/-- `str.split()`. -/
def splitSpace (t : Text) : List Text := Words.words (fun c => !isSpace c) t

/-- `_normalized_public_key`. Stripping the value first does not change its words. -/
def normalizedPublicKey (value : Text) : Except AckError Text :=
  match splitSpace value with
  | algorithm :: encoded :: _ =>
    if algorithm ≠ txt "ssh-ed25519" then
      .error (.ack (txt "acknowledgement public key must be Ed25519"))
    else
      match Base64.decode encoded with
      | none => .error (.ack (txt "acknowledgement public key is malformed"))
      | some _ => .ok (txt "ssh-ed25519 " ++ encoded)
  | _ => .error (.ack (txt "acknowledgement public key must be Ed25519"))

section

variable (sha256 : Bytes → Bytes) (floatOf : FloatLiteral → JsonFloat) (ssh : SshKeygen)

/-- `_public_key_id`. -/
def publicKeyId (publicKey : Text) : Except AckError Text :=
  match splitSpace publicKey with
  | _ :: encoded :: _ =>
    match Base64.decode encoded with
    | none => .error .foreign
    | some keyBlob => .ok (txt "SHA256:" ++ Words.rstrip Base64.pad (Base64.encode (sha256 keyBlob)))
  | _ => .error .foreign

/-- `load_ack_signer`, from what it reads out of `key.pub`. -/
def loadAckSigner (privateKey publicText runId : Text) : Except AckError AckSigner := do
  let publicKey ← normalizedPublicKey publicText
  let keyId ← publicKeyId sha256 publicKey
  .ok ⟨privateKey, publicKey, keyId, txt "runpod-jobrunner:" ++ runId, ackNamespace⟩

/-- `_validated_signer_fields`. -/
def validatedSignerFields (signer : Members) : Except AckError (Text × Text) :=
  if lookup (txt "algorithm") signer ≠ some (.str (txt "ssh-ed25519")) ∨
      lookup (txt "namespace") signer ≠ some (.str ackNamespace) then
    .error (.ack (txt "acknowledgement signer algorithm is unsupported"))
  else
    match lookup (txt "public_key") signer, lookup (txt "identity") signer with
    | some (.str publicValue), some (.str identity) => do
      let publicKey ← normalizedPublicKey publicValue
      let keyId ← publicKeyId sha256 publicKey
      if lookup (txt "key_id") signer ≠ some (.str keyId) then
        .error (.ack (txt "acknowledgement signer key ID mismatch"))
      else .ok (publicKey, identity)
    | _, _ => .error (.ack (txt "acknowledgement signer identity is malformed"))

/-! ## Statements -/

/-- The bytes of `_canonical`; `none` where it raises. -/
def canonicalBytes (value : Members) : Option Bytes :=
  (dumps ⟨false, false⟩ (.obj value)).bind encodeUtf8

/-- `_canonical`. -/
def canonical (value : Members) : Except AckError Bytes :=
  match canonicalBytes value with
  | some data => .ok data
  | none => .error (.ack (txt "acknowledgement is not canonically encodable"))

/-- Whether a value is a dict equal to these members. -/
def isDict (value : Option Json) (members : Members) : Bool :=
  match value with
  | some v => same true v (.obj members)
  | none => false

/-- `sign_ack`. -/
def signAck (unsigned : Members) (signer : AckSigner) : Except AckError Bytes :=
  if lookup (txt "protocol") unsigned ≠ some (.str ackProtocol) ∨
      (lookup (txt "signature") unsigned).isSome = true then
    .error (.ack (txt "acknowledgement statement is malformed"))
  else if isDict (lookup (txt "signer") unsigned) signer.publicFields = false then
    .error (.ack (txt "acknowledgement signer fields do not match the local key"))
  else do
    let statement ← canonical unsigned
    match ssh.sign ⟨signer.privateKey, ackNamespace, statement⟩ with
    | none => .error (.ack (txt "ssh-keygen is required to sign the acknowledgement"))
    | some none => .error (.ack (txt "could not sign the incremental mirror acknowledgement"))
    | some (some signature) => do
      let data ← canonical (setKey (txt "signature") (.str (Base64.encode signature)) unsigned)
      .ok (data ++ [10])

/-- The decoder of acknowledgements. -/
def ackDecoder : Decoder := ⟨floatOf, noRepeats⟩

/-- The value of an acknowledgement. -/
def decodeAck (encoded : Bytes) : Except AckError Json :=
  match decodeJsonBytes encoded with
  | none => .error (.ack (txt "acknowledgement is not valid JSON"))
  | some text =>
    match loads (ackDecoder floatOf) text with
    | .ok v => .ok v
    | .error (.decode _) => .error (.ack (txt "acknowledgement is not valid JSON"))
    | .error (.hook keys) =>
      .error (.quoting (txt "acknowledgement contains duplicate key ") (repeatedKey [] keys))
    | .error .digits => .error .foreign

/-- The members without one: `dict.pop`. -/
def withoutKey (key : Text) (members : Members) : Members := members.filter fun p => p.1 != key

/-- The record of an acknowledgement, and its signature. -/
def recordOf (encoded : Bytes) : Except AckError (Members × Text) := do
  match ← decodeAck floatOf encoded with
  | .obj members =>
    match lookup (txt "signature") members with
    | some (.str signature) => .ok (withoutKey (txt "signature") members, signature)
    | _ => .error (.ack (txt "acknowledgement signature is absent"))
  | _ => .error (.ack (txt "acknowledgement must be an object"))

/-- `text.encode("ascii")`. -/
def encodeAscii (t : Text) : Option Bytes := if t.all (· < 128) then some t else none

/-- `verify_ack` up to the call of `ssh-keygen`: the record it returns, and the call. -/
def verification (encoded : Bytes) (expected signer : Members) :
    Except AckError (Members × VerifyCall) := do
  let (record, signatureValue) ← recordOf floatOf encoded
  -- a NaN, which Python holds unequal to itself, is refused below, where it is written
  if same true (.obj record) (.obj expected) = false then
    .error (.ack (txt "acknowledgement authority binding mismatch"))
  else do
    let (publicKey, identity) ← validatedSignerFields sha256 signer
    if isDict (lookup (txt "signer") record) signer = false then
      .error (.ack (txt "acknowledgement signer binding mismatch"))
    else
      match Base64.decode signatureValue with
      | none => .error (.ack (txt "acknowledgement signature encoding is invalid"))
      | some signature =>
        match encodeAscii (identity ++ 32 :: publicKey ++ [10]) with
        | none => .error .foreign
        | some allowedSigners => do
          let statement ← canonical record
          .ok (record, ⟨allowedSigners, identity, ackNamespace, signature, statement⟩)

/-- `verify_ack`. -/
def verifyAck (encoded : Bytes) (expected signer : Members) : Except AckError Members := do
  let (record, call) ← verification sha256 floatOf encoded expected signer
  match ssh.verify call with
  | none => .error (.ack (txt "ssh-keygen is required to verify the acknowledgement"))
  | some returncode =>
    if returncode ≠ 0 then .error (.ack (txt "acknowledgement signature verification failed"))
    else .ok record

end

end IncrementalAck

end RunpodJobrunner
