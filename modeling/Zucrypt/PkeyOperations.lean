import Mathlib.Data.FinEnum
import Zucrypt.PkeyWrite

/-! # Using keys

The second half of `zuc_pkey.c`: signatures, encryption, raw material and key agreement.

Each operation checks its arguments, loads the key into the backend with the usage it needs
(`pkeyImport`), has the backend work on a copy of the digest or message, destroys the key and
settles the caller's buffer.  They differ in the order of their checks, in what a failure leaves in
the buffer and in `*out_len`, and in whether the library is asked about before the pointers: so each
has a body of its own.  The public functions at the end put them under the allocation watch. -/
namespace Zucrypt
open Effects ByteMemory

variable {O : Objects}

/-! ### Signatures -/

/-- The digest a scheme is given, `none` if it is not one of this build. -/
def schemeHash (hash : ZucAlg) : PsaAlg :=
  if zucIntDigestAvailable hash then zucIntPsaHash hash else .none

/-- `sign_alg`. -/
def signAlg (scheme hash : ZucAlg) : PsaAlg :=
  if schemeHash hash = .none then
    .none
  else
    match scheme with
    | .rsaPkcs1v15Sign => .rsaPkcs1v15Sign (schemeHash hash)
    | .rsaPss => .rsaPss (schemeHash hash)
    | .ecdsa => .ecdsa (schemeHash hash)
    | .ecdsaDeterministic => .deterministicEcdsa (schemeHash hash)
    | _ => .none

/-- `scheme_fits`. -/
def schemeFits (key : ZucPkey) (scheme : ZucAlg) : Bool :=
  match scheme with
  | .rsaPkcs1v15Sign => key.type = .rsa
  | .rsaPss => key.type = .rsa
  | .ecdsa => isNistCurve key.type
  | .ecdsaDeterministic => isNistCurve key.type
  | _ => false

/-- `pkey_sign_hash_impl`. -/
def pkeySignHashImpl (key : Option ZucPkey) (scheme hash : ZucAlg)
    (digest digestLen sig sigSize : Nat) (sigLen : SizeCell) : Adapter O (ZucStatus × SizeCell) := do
  let sigLen := sigLen.store 0
  match key with
  | none => return (.errInvalidArgument, sigLen)
  | some k =>
    if digest = NULL ∨ sig = NULL ∨ sigLen = none then
      return (.errInvalidArgument, sigLen)
    else
      let ready ← zucIntReady
      let alg := signAlg scheme hash
      if ready = false then
        return (.errNotReady, sigLen)
      else if k.isPrivate = false then
        return (.errInvalidArgument, sigLen)
      else if alg = .none then
        return (.errUnsupported, sigLen)
      else if schemeFits k scheme = false then
        return (.errInvalidArgument, sigLen)
      else if digestLen ≠ zucAlgSize hash ∨ sigSize < signatureSize k then
        return (.errBadLength, sigLen)
      else
        let id ← pkeyImport k alg .signHash
        if id.1 ≠ .ok then
          return (id.1, sigLen)
        else
          let bytes ← readMem digest digestLen
          let r ← psa (.signHash id.2 alg bytes sigSize)
          writeOutput sig sigSize r.2
          psa (.destroyKey id.2)
          if r.1 ≠ .success then
            zucSecureZero sig sigSize
            return (zucIntFromPsa r.1, sigLen)
          else
            return (.ok, sigLen.store r.2.len)

/-- What `pkey_verify_hash_impl` makes of the backend's answer: every argument has
been checked, so an invalid one is the signature. -/
def verifyStatus (ps : PsaStatus) : ZucStatus :=
  if ps = .errorInvalidSignature ∨ ps = .errorInvalidArgument then .errAuth else zucIntFromPsa ps

/-- The checks of `pkey_verify_hash_impl` once the library is ready. -/
def verifyArgs (key : ZucPkey) (scheme hash : ZucAlg) (digestLen sigLen : Nat) : ZucStatus :=
  if signAlg scheme hash = .none then .errUnsupported
  else if schemeFits key scheme = false then .errInvalidArgument
  else if digestLen ≠ zucAlgSize hash then .errBadLength
  else if sigLen ≠ signatureSize key then .errAuth
  else .ok

/-- `pkey_verify_hash_impl`. -/
def pkeyVerifyHashImpl (key : Option ZucPkey) (scheme hash : ZucAlg)
    (digest digestLen sig sigLen : Nat) : Adapter O ZucStatus := do
  match key with
  | none => return .errInvalidArgument
  | some k =>
    if digest = NULL ∨ (sig = NULL ∧ sigLen ≠ 0) then
      return .errInvalidArgument
    else
      let ready ← zucIntReady
      let st := verifyArgs k scheme hash digestLen sigLen
      if ready = false then
        return .errNotReady
      else if st ≠ .ok then
        return st
      else
        let alg := signAlg scheme hash
        let id ← pkeyImport k alg .verifyHash
        if id.1 ≠ .ok then
          return id.1
        else
          let bytes ← readMem digest digestLen
          let signature ← readMem sig sigLen
          let ps ← psa (.verifyHash id.2 alg bytes signature)
          psa (.destroyKey id.2)
          return verifyStatus ps

/-! ### Encryption -/

/-- `crypt_alg`. -/
def cryptAlg (scheme hash : ZucAlg) : PsaAlg :=
  match scheme with
  | .rsaOaep => if schemeHash hash = .none then .none else .rsaOaep (schemeHash hash)
  | .rsaPkcs1v15Crypt => if hash = .none then .rsaPkcs1v15Crypt else .none
  | _ => .none

/-- `pkey_encrypt_impl`. -/
def pkeyEncryptImpl (key : Option ZucPkey) (scheme hash : ZucAlg)
    (inp len out outSize : Nat) (outLen : SizeCell) : Adapter O (ZucStatus × SizeCell) := do
  let outLen := outLen.store 0
  match key with
  | none => return (.errInvalidArgument, outLen)
  | some k =>
    if (inp = NULL ∧ len ≠ 0) ∨ out = NULL ∨ outLen = none then
      return (.errInvalidArgument, outLen)
    else
      let ready ← zucIntReady
      let alg := cryptAlg scheme hash
      if ready = false then
        return (.errNotReady, outLen)
      else if alg = .none ∨ k.type ≠ .rsa then
        return (.errUnsupported, outLen)
      else if outSize < k.bits / 8 then
        return (.errBadLength, outLen)
      else
        let id ← pkeyImport k alg .encrypt
        if id.1 ≠ .ok then
          return (id.1, outLen)
        else
          let bytes ← readMem inp len
          let r ← psa (.asymmetricEncrypt id.2 alg bytes outSize)
          writeOutput out outSize r.2
          psa (.destroyKey id.2)
          if r.1 ≠ .success then
            zucSecureZero out outSize
            -- the one refusal a valid key leaves: a message that is too long
            return (if r.1 = .errorInvalidArgument then .errBadLength else zucIntFromPsa r.1, outLen)
          else
            return (.ok, outLen.store r.2.len)

/-- `pkey_decrypt_impl`. -/
def pkeyDecryptImpl (key : Option ZucPkey) (scheme hash : ZucAlg)
    (inp len out outSize : Nat) (outLen : SizeCell) : Adapter O (ZucStatus × SizeCell) := do
  let outLen := outLen.store 0
  match key with
  | none => return (.errInvalidArgument, outLen)
  | some k =>
    if inp = NULL ∨ out = NULL ∨ outLen = none then
      return (.errInvalidArgument, outLen)
    else
      let ready ← zucIntReady
      let alg := cryptAlg scheme hash
      if ready = false then
        return (.errNotReady, outLen)
      else if k.isPrivate = false then
        return (.errInvalidArgument, outLen)
      else if alg = .none ∨ k.type ≠ .rsa then
        return (.errUnsupported, outLen)
      else
        let id ← pkeyImport k alg .decrypt
        if id.1 ≠ .ok then
          return (id.1, outLen)
        else
          let bytes ← readMem inp len
          let r ← psa (.asymmetricDecrypt id.2 alg bytes outSize)
          writeOutput out outSize r.2
          psa (.destroyKey id.2)
          if r.1 ≠ .success then
            zucSecureZero out outSize
            -- one status for every failure but memory, so that it says nothing of padding
            return (if r.1 = .errorInsufficientMemory then .errMemory else .errAuth, outLen)
          else
            return (.ok, outLen.store r.2.len)

/-! ### Raw key material, and key agreement -/

/-- `pkey_export_impl`: it is the one operation, with key agreement, that asks whether
the library is ready before it looks at its pointers. -/
def pkeyExportImpl (key : Option ZucPkey) (publicOnly : Bool) (out outSize : Nat)
    (outLen : SizeCell) : Adapter O (ZucStatus × SizeCell) := do
  let outLen := outLen.store 0
  let ready ← zucIntReady
  if ready = false then
    return (.errNotReady, outLen)
  else
    match key with
    | none => return (.errInvalidArgument, outLen)
    | some k =>
      if out = NULL ∨ outLen = none then
        return (.errInvalidArgument, outLen)
      else if k.isPrivate ∧ publicOnly = false then
        if outSize < k.der.len then
          return (.errBadLength, outLen)
        else
          writeMem out k.der.bytes
          return (.ok, outLen.store k.der.len)
      else
        let der ← publicDer k
        match der with
        | .error st => return (st, outLen)
        | .ok der =>
          if outSize < der.len then
            freeBytes der.buf
            return (.errBadLength, outLen)
          else
            writeMem out der.bytes
            freeBytes der.buf
            return (.ok, outLen.store der.len)

/-- The agreement itself, in `pkey_agree_impl`: the status, and `*out_len`. -/
def agreeRun (key : ZucPkey) (point : List Byte) (out outSize : Nat) :
    Adapter O (ZucStatus × Nat) := do
  let id ← pkeyImport key .ecdh .derive
  if id.1 ≠ .ok then
    return (id.1, 0)
  else
    let r ← psa (.rawKeyAgreement .ecdh id.2 point outSize)
    writeOutput out outSize r.2
    psa (.destroyKey id.2)
    return (if r.1 = .success then .ok
      else if r.1 = .errorInsufficientMemory then .errMemory
      else .errInvalidArgument, r.2.len)

/-- `pkey_agree_impl`. -/
def pkeyAgreeImpl (key peer : Option ZucPkey) (out outSize : Nat) (outLen : SizeCell) :
    Adapter O (ZucStatus × SizeCell) := do
  let outLen := outLen.store 0
  let ready ← zucIntReady
  if ready = false then
    return (.errNotReady, outLen)
  else
    match key, peer with
    | some k, some p =>
      if out = NULL ∨ outLen = none then
        return (.errInvalidArgument, outLen)
      else if k.type = .rsa ∨ zucAlgAvailable .ecdh = false then
        return (.errUnsupported, outLen)
      else if k.isPrivate = false ∨ p.type ≠ k.type then
        return (.errInvalidArgument, outLen)
      else if outSize < ecBytes k then
        return (.errBadLength, outLen)
      else
        let point ← publicDer p
        match point with
        | .error st => return (st, outLen)
        | .ok point =>
          let r ← agreeRun k point.bytes out outSize
          freeBytes point.buf
          let secret ← readMem out r.2
          -- a low-order X25519 peer contributes nothing secret
          let st := if r.1 = .ok ∧ k.type = .x25519 ∧ ∀ b ∈ secret, b = 0 then .errInvalidArgument
            else r.1
          if st ≠ .ok then
            zucSecureZero out outSize
            return (st, outLen)
          else
            return (.ok, outLen.store r.2)
    | _, _ => return (.errInvalidArgument, outLen)

/-! ### The public entry points -/

/-- `zuc_pkey_sign_hash`. -/
def zucPkeySignHash (key : Option ZucPkey) (scheme hash : ZucAlg)
    (digest digestLen sig sigSize : Nat) (sigLen : SizeCell) : Adapter O (ZucStatus × SizeCell) :=
  watched (pkeySignHashImpl key scheme hash digest digestLen sig sigSize sigLen)

/-- `zuc_pkey_verify_hash`. -/
def zucPkeyVerifyHash (key : Option ZucPkey) (scheme hash : ZucAlg)
    (digest digestLen sig sigLen : Nat) : Adapter O ZucStatus := do
  zucIntAllocWatch
  let st ← pkeyVerifyHashImpl key scheme hash digest digestLen sig sigLen
  zucIntMemoryOr st

/-- `zuc_pkey_encrypt`. -/
def zucPkeyEncrypt (key : Option ZucPkey) (scheme hash : ZucAlg)
    (inp len out outSize : Nat) (outLen : SizeCell) : Adapter O (ZucStatus × SizeCell) :=
  watched (pkeyEncryptImpl key scheme hash inp len out outSize outLen)

/-- `zuc_pkey_decrypt`. -/
def zucPkeyDecrypt (key : Option ZucPkey) (scheme hash : ZucAlg)
    (inp len out outSize : Nat) (outLen : SizeCell) : Adapter O (ZucStatus × SizeCell) :=
  watched (pkeyDecryptImpl key scheme hash inp len out outSize outLen)

/-- `zuc_pkey_export`. -/
def zucPkeyExport (key : Option ZucPkey) (publicOnly : Bool) (out outSize : Nat)
    (outLen : SizeCell) : Adapter O (ZucStatus × SizeCell) :=
  watched (pkeyExportImpl key publicOnly out outSize outLen)

/-- `zuc_pkey_agree`. -/
def zucPkeyAgree (key peer : Option ZucPkey) (out outSize : Nat) (outLen : SizeCell) :
    Adapter O (ZucStatus × SizeCell) :=
  watched (pkeyAgreeImpl key peer out outSize outLen)

end Zucrypt
