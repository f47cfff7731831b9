import Zucrypt.CryptKeys

/-! # Signatures in R

`crypt_signature_create` and `crypt_signature_verify` of `R/sign.R`, and the entry points under
them.  What is signed is a digest: of `data`, if there is a digest function, or `data` itself.

The two share their argument checks, each of which raises its own condition: `signatureDigest` makes
the digest, `signatureScheme` knows which scheme a key and `pss` come to.  An ECDSA signature is an
encoding in R and a pair of fixed width below; `signatureInput` is where one becomes the other.  Of
a signature that is wrong the value is `FALSE`, and anything else that is wrong is a condition. -/
namespace Zucrypt
open Effects ByteMemory

variable {O : Objects}

/-! ### Arguments -/

/-- What a function takes as `hash`. -/
inductive HashArgument (O : Objects) where
  | null
  | function (f : Sexp → RFun O Sexp)
  | other

/-- `as.vector(unclass(x))`, of a digest. -/
def Sexp.plain : Sexp → Sexp
  | .raw ptr len _ => .raw ptr len []
  | x => x

/-- `apply_hash`; `data` is not looked at before `hash` has been. -/
def applyHash (data : RFun O Sexp) (hash : HashArgument O) : RFun O Sexp :=
  match hash with
  | .null => data
  | .other =>
    RFun.raise (zucryptAbort "zucrypt_invalid_argument"
      "`hash` must be a digest function such as crypt_sha256, or NULL." none none)
  | .function f => do
    let x ← data
    let md ← f x
    return md.plain

/-- The table in `digest_name`. -/
def digestNames : List (Nat × String) := [(20, "sha1"), (32, "sha256"), (48, "sha384"), (64, "sha512")]

/-- `digest_name`. -/
def digestName (md : Sexp) : Except Condition String :=
  match md.isRaw, digestNames.lookup md.XLENGTH with
  | true, some name => .ok name
  | _, _ =>
    .error (zucryptAbort "zucrypt_invalid_argument"
      ("`hash` must give, or `data` be, a SHA-1 or SHA-2 digest " ++
        "(20, 32, 48 or 64 bytes).") (some "rsa") none)

/-- `check_flag`; `none` is what is neither `TRUE` nor `FALSE`. -/
def checkFlag (x : Option Bool) (arg : String) : Except Condition Bool :=
  match x with
  | some b => .ok b
  | none =>
    .error (zucryptAbort "zucrypt_invalid_argument" ("`" ++ arg ++ "` must be TRUE or FALSE.") none none)

/-- The digest to sign or verify, and what it is called. -/
def signatureDigest (data : Source) (hash : HashArgument O) : RFun O (Sexp × String) := do
  let md ← applyHash (keyInput data "data") hash
  let digest ← RFun.check (digestName md)
  return (md, digest)

/-- `signature_scheme`. -/
def signatureScheme (key : KeyObject) (pss deterministic : Bool) : Except Condition String :=
  if key.inherits "crypt_rsa" then
    if deterministic then
      .error (zucryptAbort "zucrypt_invalid_argument" "`deterministic` applies to EC keys only." none none)
    else
      .ok (if pss then "rsa-pss" else "rsa-pkcs1v15-sign")
  else if key.inherits "crypt_ecdsa" then
    if pss then
      .error (zucryptAbort "zucrypt_invalid_argument" "`pss` applies to RSA keys only." none none)
    else
      .ok (if deterministic then "ecdsa-deterministic" else "ecdsa")
  else
    .error (zucryptAbort "zucrypt_invalid_argument"
      "X25519 keys agree on secrets and do not sign; there is no Ed25519." none none)

/-- `curve_bytes`. -/
def curveBytes : ZucAlg → Option Nat
  | .ecP256 => some 32
  | .ecP384 => some 48
  | .ecP521 => some 66
  | .x25519 => some 32
  | _ => none

/-! ### The entry points -/

/-- `trimmed`. -/
def trimmed (st : ZucStatus) (buf size len : Nat) : Adapter O NativeResult := do
  if st ≠ .ok then
    zucSecureZero buf size
    return nativeResult st .null
  else
    let out ← allocRaw len
    let bytes ← readMem buf len
    writeMem out bytes
    zucSecureZero buf size
    return nativeResult st (.raw out len [])

/-- `zucrypt_pkey_sign`. -/
def zucryptPkeySign (handle : Option ZucPkey) (scheme hash : String) (digest : Sexp) :
    Adapter O NativeResult := do
  let cap := 1024
  let buf ← allocRaw cap
  match handle with
  | none => trimmed .errInvalidArgument buf cap 0
  | some key =>
    let r ← zucPkeySignHash (some key) (zucAlgByName scheme) (zucAlgByName hash) digest.RAW
      digest.XLENGTH buf cap (some 0)
    trimmed r.1 buf cap (r.2.getD 0)

/-- `zucrypt_pkey_verify`; the value is `TRUE` or `NULL`, as the status says. -/
def zucryptPkeyVerify (handle : Option ZucPkey) (scheme hash : String) (digest sig : Sexp) :
    Adapter O ZucStatus := do
  match handle with
  | none => return .errInvalidArgument
  | some key =>
    let sigLen := sig.XLENGTH
    zucPkeyVerifyHash (some key) (zucAlgByName scheme) (zucAlgByName hash) digest.RAW digest.XLENGTH
      (if sigLen ≠ 0 then sig.RAW else NULL) sigLen

/-! ### The functions -/

/-- `ecdsa_raw`, of a raw vector; one with attributes is not identical to an encoding. -/
def ecdsaRawVector (m : Memory) (sig : Sexp) (n : Nat) : Option (List Byte) :=
  match sig with
  | .raw _ _ [] => R.ecdsaRaw (sig.bytes m) n
  | _ => none

/-- The signature `crypt_signature_verify` hands to the entry point: as it is, of RSA, and of
ECDSA what is in the encoding. -/
def signatureInput (pubkey : KeyObject) (type : ZucAlg) (sig : Sexp) : RFun O Sexp :=
  if pubkey.inherits "crypt_ecdsa" then
    match curveBytes type with
    | none => RFun.raise (rError "subscript out of bounds")
    | some n => do
      let w ← RFun.native Proc.read
      match ecdsaRawVector w.mem sig n with
      | none =>
        RFun.raise (zucryptAbort "zucrypt_auth_error"
          "The signature is not a canonical DER ECDSA signature for this key." (some "ecdsa") none)
      | some bytes => RFun.native (newRaw bytes)
  else
    return sig

/-- `crypt_signature_verify`, once it has the digest, the signature and the key. -/
def verifyDigest (md : Sexp) (digest : String) (sig : Sexp) (pubkey : KeyObject) (pss : Bool) :
    RFun O Bool := do
  let info ← RFun.check (pkeyInfo pubkey.handle)
  let scheme ← RFun.check (signatureScheme pubkey pss false)
  let sig ← signatureInput pubkey info.type sig
  let status ← RFun.native (zucryptPkeyVerify pubkey.handle scheme digest md sig)
  if status ≠ .ok then
    RFun.raise (abortNative status (some scheme))
  else
    return true

/-- `crypt_signature_verify`. -/
def cryptSignatureVerify (data sig : Source) (hash : HashArgument O) (pubkey : KeyArgument)
    (pss : Option Bool) : RFun O Bool := do
  let pss ← RFun.check (checkFlag pss "pss")
  let digest ← signatureDigest data hash
  let sig ← keyInput sig "sig"
  let pubkey ← cryptReadPubkey pubkey
  verifyDigest digest.1 digest.2 sig pubkey pss

/-- `crypt_signature_create`, once it has the digest and the key. -/
def signDigest (md : Sexp) (digest : String) (key : KeyObject) (pss deterministic : Bool) :
    RFun O Sexp := do
  let _ ← RFun.check (pkeyInfo key.handle)
  let scheme ← RFun.check (signatureScheme key pss deterministic)
  let res ← RFun.native (zucryptPkeySign key.handle scheme digest md)
  if res.status ≠ .ok then
    RFun.raise (abortNative res.status (some scheme))
  else if key.inherits "crypt_ecdsa" then
    let w ← RFun.native Proc.read
    RFun.native (newRaw (R.ecdsaDer (res.value.bytes w.mem)))
  else
    return res.value

/-- `crypt_signature_create`. -/
def cryptSignatureCreate (data : Source) (hash : HashArgument O) (key : KeyArgument)
    (password : Sexp) (pss deterministic : Option Bool) : RFun O Sexp := do
  let pss ← RFun.check (checkFlag pss "pss")
  let deterministic ← RFun.check (checkFlag deterministic "deterministic")
  let digest ← signatureDigest data hash
  RFun.check (noPassword password)
  let key ← cryptReadKey key .null
  signDigest digest.1 digest.2 key pss deterministic

end Zucrypt
