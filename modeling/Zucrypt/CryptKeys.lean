import Zucrypt.PkeyOperations
import Zucrypt.RDer
import Zucrypt.RFunctions

/-! # Keys in R

`R/pkey.R`, as far as keys are read, built of integers and reduced to their public half.  A key
object is an external pointer to a handle, with a class that says which family the key is of and
whether it is private.

A function here is what the R function of that name does, checks in their order: it raises the first
condition there is, or calls the entry point, whose status is made into a condition of its own.  The
entry points are here as well (`zucryptPkeyParse`, `zucryptPkeyPublic`), each a call of the library
on what a pointer points to. -/
namespace Zucrypt
open Effects ByteMemory

variable {O : Objects}

/-- A key object: what its pointer points to, and its class. -/
structure KeyObject where
  handle : Option ZucPkey
  cls : List String
  deriving DecidableEq, Repr

/-- `inherits`. -/
def KeyObject.inherits (x : KeyObject) (what : String) : Bool := x.cls.contains what

/-- `key_families`. -/
def keyFamilies : ZucAlg → String
  | .rsa => "crypt_rsa"
  | .ecP256 => "crypt_ecdsa"
  | .ecP384 => "crypt_ecdsa"
  | .ecP521 => "crypt_ecdsa"
  | .x25519 => "crypt_x25519"
  | _ => "NA"

/-- What `zucrypt_pkey_info` returns of a handle. -/
structure PkeyInfo where
  type : ZucAlg
  bits : Nat
  isPrivate : Bool
  deriving DecidableEq, Repr

/-- `pkey_info`, of what a pointer points to. -/
def pkeyInfo (handle : Option ZucPkey) : Except Condition PkeyInfo :=
  match handle with
  | none =>
    .error (zucryptAbort "zucrypt_invalid_argument"
      ("This key object is no longer valid. Key objects do not survive saveRDS(); " ++
        "save crypt_write_pem() output instead.") none none)
  | some k => .ok ⟨zucPkeyType (some k), zucPkeyBits (some k), zucPkeyIsPrivate (some k)⟩

/-- `new_key`. -/
def newKey (handle : Option ZucPkey) : Except Condition KeyObject := do
  let info ← pkeyInfo handle
  return ⟨handle, [if info.isPrivate then "crypt_key" else "crypt_pubkey", keyFamilies info.type]⟩

/-- `zucrypt_pkey_parse`: the status, and what the pointer of the value points to. -/
def zucryptPkeyParse (data : Sexp) (privateKey : Bool) : Adapter O (ZucStatus × Option ZucPkey) :=
  zucPkeyParse data.RAW data.XLENGTH privateKey true

/-- `zucrypt_pkey_public`. -/
def zucryptPkeyPublic (handle : Option ZucPkey) : Adapter O (ZucStatus × Option ZucPkey) := do
  match handle with
  | none => return (.errInvalidArgument, none)
  | some k => zucPkeyPublic (some k) true

/-- The condition `parse_key` makes of a status. -/
def parseCondition (status : ZucStatus) (isPrivate : Bool) : Condition :=
  match status with
  | .errInvalidArgument =>
    zucryptAbort "zucrypt_invalid_argument"
      ("The input is not " ++ (if isPrivate then "an unencrypted private" else "a") ++
        " key in PEM or DER that this version can read.") (some "rsa") none
  | .errUnsupported =>
    zucryptAbort "zucrypt_unsupported_algorithm"
      "Only RSA, P-256, P-384, P-521 and X25519 keys are supported." none none
  | status => abortNative status (some "rsa")

/-- `parse_key`. -/
def parseKey (bytes : Sexp) (isPrivate : Bool) : RFun O KeyObject := do
  let res ← RFun.native (zucryptPkeyParse bytes isPrivate)
  if res.1 ≠ .ok then
    RFun.raise (parseCondition res.1 isPrivate)
  else
    RFun.check (newKey res.2)

/-- `public_of`. -/
def publicOf (key : KeyObject) : RFun O KeyObject := do
  let _ ← RFun.check (pkeyInfo key.handle)
  let res ← RFun.native (zucryptPkeyPublic key.handle)
  if res.1 ≠ .ok then
    RFun.raise (abortNative res.1 (some "rsa"))
  else
    RFun.check (newKey res.2)

/-- What a function takes as a key: a key object, or what one can be read from. -/
inductive KeyArgument where
  | object (x : KeyObject)
  | source (file : Source)

/-- `no_password`. -/
def noPassword (password : Sexp) : Except Condition Unit :=
  match password with
  | .null => .ok ()
  | _ =>
    .error (zucryptAbort "zucrypt_unsupported_algorithm"
      "Password-protected keys are not supported in this version." (some "rsa") none)

/-- `crypt_read_key`; an object of another class is not anything `key_input` reads. -/
def cryptReadKey (file : KeyArgument) (password : Sexp) : RFun O KeyObject := do
  match file with
  | .object x =>
    if x.inherits "crypt_key" then
      return x
    else
      RFun.check (noPassword password)
      let bytes ← keyInput (.sexp (.other "externalptr")) "file"
      parseKey bytes true
  | .source file =>
    RFun.check (noPassword password)
    let bytes ← keyInput file "file"
    parseKey bytes true

/-- `crypt_read_pubkey`. -/
def cryptReadPubkey (file : KeyArgument) : RFun O KeyObject := do
  match file with
  | .object x =>
    if x.inherits "crypt_pubkey" then
      return x
    else if x.inherits "crypt_key" then
      publicOf x
    else
      let bytes ← keyInput (.sexp (.other "externalptr")) "file"
      parseKey bytes false
  | .source file =>
    let bytes ← keyInput file "file"
    parseKey bytes false

/-- The optional arguments of `crypt_rsa_key`, by name. -/
def privateParts (d p q dp dq qi : Sexp) : List (String × Sexp) :=
  [("d", d), ("p", p), ("q", q), ("dp", dp), ("dq", dq), ("qi", qi)]

/-- `is.null`. -/
def Sexp.isNull : Sexp → Bool
  | .null => true
  | _ => false

/-- The checks of `crypt_rsa_key`: whether all private parts are given. -/
def checkRsaParts (n e : Sexp) (parts : List (String × Sexp)) : Except Condition Bool := do
  checkRaw n "n" (some "rsa")
  checkRaw e "e" (some "rsa")
  let given := parts.filter (fun part => part.2.isNull = false)
  if given ≠ [] ∧ given.length ≠ parts.length then
    throw (zucryptAbort "zucrypt_invalid_argument"
      ("A private key needs all of `d`, `p`, `q`, `dp`, `dq` and `qi`; a public key needs " ++
        "none of them.") (some "rsa") none)
  else
    given.forM (fun part => checkRaw part.2 part.1 (some "rsa"))
    return decide (given.length = parts.length)

/-- The encoding `crypt_rsa_key` makes of its integers. -/
def rsaKeyDer (m : Memory) (n e : Sexp) (parts : List (String × Sexp)) (all : Bool) : List Byte :=
  if all then
    R.derSequence (([0] :: n.bytes m :: e.bytes m :: parts.map (fun part => part.2.bytes m)).map
      R.derInteger)
  else
    R.derSequence ([n.bytes m, e.bytes m].map R.derInteger)

/-- `crypt_rsa_key`. -/
def cryptRsaKey (n e d p q dp dq qi : Sexp) : RFun O KeyObject := do
  let parts := privateParts d p q dp dq qi
  let all ← RFun.check (checkRsaParts n e parts)
  let w ← RFun.native Proc.read
  let der ← RFun.native (newRaw (rsaKeyDer w.mem n e parts all))
  parseKey der all

end Zucrypt
