import Zucrypt.Lifetime

/-! # Key handles

The first half of `zuc_pkey.c`: what a `zuc_pkey` holds, how one is made of a key in the backend's
store and how it is loaded there again, and the constructors.

A handle holds key material, in a block of its own.  Every operation imports it, uses it once and
destroys it.

All constructors end in `pkey_from_psa`, which exports the key through a buffer of the size that PSA
documents for its type and bits; those macros are here by their names.  A key that was parsed is
imported first, under attributes the reader of the vendored library chose, and a key that was
generated is in the store already. -/
namespace Zucrypt
open Effects ByteMemory

variable {O : Objects}

/-- `zuc_pkey_format`. -/
inductive ZucPkeyFormat where
  | pkcs1Der
  | pkcs1Pem
  | infoDer
  | infoPem
  | other (value : Int)
  deriving DecidableEq, Repr

/-- A block, and how many bytes of it are in use. -/
structure HeapBytes where
  buf : HeapBuf
  len : Nat
  deriving DecidableEq, Repr

/-- The bytes in use. -/
def HeapBytes.bytes (b : HeapBytes) : List Byte := b.buf.bytes b.len

/-- `struct zuc_pkey`, with the address it lives at; `der` is its members `der` and
`der_len`. -/
structure ZucPkey where
  self : Nat
  type : ZucAlg
  ptype : PsaKeyType
  isPrivate : Bool
  bits : Nat
  der : HeapBytes
  deriving DecidableEq, Repr

/-! ### Key types -/

/-- `PSA_KEY_TYPE_IS_RSA`. -/
def PsaKeyType.isRsa : PsaKeyType → Bool
  | .rsaKeyPair => true
  | .rsaPublicKey => true
  | _ => false

/-- `PSA_KEY_TYPE_IS_KEY_PAIR`, of the types the adapter offers. -/
def PsaKeyType.isKeyPair : PsaKeyType → Bool
  | .rsaKeyPair => true
  | .eccKeyPair _ => true
  | _ => false

/-- `PSA_KEY_TYPE_PUBLIC_KEY_OF_KEY_PAIR`, of the types the adapter offers. -/
def PsaKeyType.publicKey : PsaKeyType → PsaKeyType
  | .rsaKeyPair => .rsaPublicKey
  | .eccKeyPair family => .eccPublicKey family
  | t => t

/-- The family of an elliptic-curve key. -/
def PsaKeyType.eccFamily : PsaKeyType → Option PsaEccFamily
  | .eccKeyPair family => some family
  | .eccPublicKey family => some family
  | _ => .none

/-- `alg_of_psa`. -/
def algOfPsa (type : PsaKeyType) (bits : Nat) : ZucAlg :=
  if type.isRsa then
    .rsa
  else
    match type.eccFamily with
    | some .secpR1 =>
      if bits = 256 then .ecP256
      else if bits = 384 then .ecP384
      else if bits = 521 then .ecP521
      else .none
    | some .montgomery => if bits = 255 then .x25519 else .none
    | _ => .none

/-- `ec_pair_type`, and the bits it sets. -/
def ecPairType : ZucAlg → PsaKeyType × Nat
  | .ecP256 => (.eccKeyPair .secpR1, 256)
  | .ecP384 => (.eccKeyPair .secpR1, 384)
  | .ecP521 => (.eccKeyPair .secpR1, 521)
  | .x25519 => (.eccKeyPair .montgomery, 255)
  | _ => (.none, 0)

/-- `is_nist_curve`. -/
def isNistCurve (type : ZucAlg) : Bool := type = .ecP256 ∨ type = .ecP384 ∨ type = .ecP521

/-- `ec_bytes`. -/
def ecBytes (key : ZucPkey) : Nat := (key.bits + 7) / 8

/-- `signature_size`. -/
def signatureSize (key : ZucPkey) : Nat :=
  if key.type = .rsa then key.bits / 8 else 2 * ecBytes key

/-- `PSA_BITS_TO_BYTES`. -/
def psaBitsToBytes (bits : Nat) : Nat := (bits + 7) / 8

/-- `PSA_KEY_EXPORT_ASN1_INTEGER_MAX_SIZE`. -/
def psaKeyExportAsn1IntegerMaxSize (bits : Nat) : Nat := bits / 8 + 5

/-- `PSA_KEY_EXPORT_RSA_PUBLIC_KEY_MAX_SIZE`. -/
def psaKeyExportRsaPublicKeyMaxSize (bits : Nat) : Nat := psaKeyExportAsn1IntegerMaxSize bits + 11

/-- `PSA_KEY_EXPORT_RSA_KEY_PAIR_MAX_SIZE`. -/
def psaKeyExportRsaKeyPairMaxSize (bits : Nat) : Nat :=
  9 * psaKeyExportAsn1IntegerMaxSize (bits / 2 + 1) + 14

/-- `PSA_EXPORT_KEY_OUTPUT_SIZE`. -/
def psaExportKeyOutputSize (type : PsaKeyType) (bits : Nat) : Nat :=
  match type with
  | .rsaKeyPair => psaKeyExportRsaKeyPairMaxSize bits
  | .rsaPublicKey => psaKeyExportRsaPublicKeyMaxSize bits
  | .eccKeyPair _ => psaBitsToBytes bits
  | .eccPublicKey _ => 2 * psaBitsToBytes bits + 1
  | _ => psaBitsToBytes bits

/-- `PSA_EXPORT_PUBLIC_KEY_OUTPUT_SIZE`, of the types the adapter offers. -/
def psaExportPublicKeyOutputSize (type : PsaKeyType) (bits : Nat) : Nat :=
  if type.isRsa then psaKeyExportRsaPublicKeyMaxSize bits
  else if type.eccFamily ≠ none then 2 * psaBitsToBytes bits + 1
  else 0

/-! ### Handles -/

/-- `zuc_secure_zero`, of the first `n` bytes of a block. -/
def HeapBuf.wipe (b : HeapBuf) (n : Nat) : HeapBuf := b.store 0 (List.replicate n 0)

/-- `pkey_destroy`. -/
def pkeyDestroy (key : ZucPkey) : Adapter O Unit := do
  freeBytes (key.der.buf.wipe key.der.len)
  freeRecord .zucPkey key.self

/-- `zuc_pkey_free`. -/
def zucPkeyFree (key : Option ZucPkey) : Adapter O Unit := do
  match key with
  | none => return ()
  | some k =>
    pkeyDestroy k
    zucIntLiveAdd (-1)

/-- `zuc_pkey_type`. -/
def zucPkeyType (key : Option ZucPkey) : ZucAlg := (key.map ZucPkey.type).getD .none

/-- `zuc_pkey_bits`. -/
def zucPkeyBits (key : Option ZucPkey) : Nat := (key.map ZucPkey.bits).getD 0

/-- `zuc_pkey_is_private`. -/
def zucPkeyIsPrivate (key : Option ZucPkey) : Bool := (key.map ZucPkey.isPrivate).getD false

/-- `free`, of what an allocation returned. -/
def freeIf {α : Type} (release : α → Adapter O Unit) (p : Option α) : Adapter O Unit :=
  match p with
  | none => pure ()
  | some a => release a

/-- `pkey_from_psa`. -/
def pkeyFromPsa (id : KeyId) (wantPrivate : Bool) : Adapter O (ZucStatus × Option ZucPkey) := do
  let attr ← psa (.getKeyAttributes id)
  if attr.1 ≠ .success then
    return (zucIntFromPsa attr.1, none)
  else
    let type := attr.2.type
    let bits := attr.2.bits
    if algOfPsa type bits = .none then
      return (.errUnsupported, none)
    else
      let isPair := type.isKeyPair && wantPrivate
      let cap := if isPair then psaExportKeyOutputSize type bits
        else psaExportPublicKeyOutputSize type bits
      let self ← callocRecord .zucPkey
      let buf ← mallocBytes cap
      match self, buf with
      | some self, some buf =>
        let r ← psa (if isPair then .exportKey id cap else .exportPublicKey id cap)
        let buf := buf.store 0 (r.2.bytes.take cap)
        if r.1 ≠ .success then
          freeBytes (buf.wipe cap)
          freeRecord .zucPkey self
          return (zucIntFromPsa r.1, none)
        else
          zucIntLiveAdd 1
          return (.ok, some
            { self, type := algOfPsa type bits, ptype := if isPair then type else type.publicKey,
              isPrivate := isPair, bits, der := ⟨buf, r.2.len⟩ })
      | self, buf =>
        freeIf (freeRecord .zucPkey) self
        freeIf freeBytes buf
        return (.errMemory, none)

/-- The attributes a handle's key is imported with. -/
def pkeyAttributes (key : ZucPkey) (alg : PsaAlg) (usage : PsaKeyUsage) : PsaKeyAttributes :=
  { type := key.ptype, alg, usage := [usage] }

/-- `pkey_import`. -/
def pkeyImport (key : ZucPkey) (alg : PsaAlg) (usage : PsaKeyUsage) :
    Adapter O (ZucStatus × KeyId) := do
  let r ← psa (.importKey (pkeyAttributes key alg usage) key.der.bytes)
  return (zucIntFromPsa r.1, r.2)

/-! ### Importing, reading, generating, deriving -/

/-- `pkey_import_impl`, of bytes that are not `NULL`; `out` says whether the caller's
pointer is other than `NULL`. -/
def pkeyImportBytes (type : ZucAlg) (privateKey : Bool) (data : List Byte) :
    Adapter O (ZucStatus × Option ZucPkey) := do
  let pt : PsaKeyType × Nat := if type = .rsa then (.rsaKeyPair, 0) else ecPairType type
  if zucAlgAvailable type = false ∨ pt.1 = .none then
    return (.errUnsupported, none)
  else
    let attr : PsaKeyAttributes :=
      { type := if privateKey then pt.1 else pt.1.publicKey, bits := pt.2, usage := [.exportable] }
    let r ← psa (.importKey attr data)
    if r.1 ≠ .success then
      return (if r.1 = .errorInsufficientMemory then .errMemory else .errInvalidArgument, none)
    else
      let key ← pkeyFromPsa r.2 privateKey
      psa (.destroyKey r.2)
      return key

/-- `pkey_import_impl`. -/
def pkeyImportImpl (type : ZucAlg) (privateKey : Bool) (data len : Nat) (out : Bool) :
    Adapter O (ZucStatus × Option ZucPkey) := do
  if out = false then
    return (.errInvalidArgument, none)
  else
    let ready ← zucIntReady
    if ready = false then
      return (.errNotReady, none)
    else if data = NULL ∨ len = 0 then
      return (.errInvalidArgument, none)
    else
      let bytes ← readMem data len
      pkeyImportBytes type privateKey bytes

/-- `looks_like_pem`: leading whitespace is skipped. -/
def looksLikePem (inp : List Byte) : Bool :=
  [0x2d, 0x2d, 0x2d, 0x2d, 0x2d, 0x42, 0x45, 0x47, 0x49, 0x4e].isPrefixOf
    (inp.dropWhile (fun b => b = 0x20 ∨ b = 0x09 ∨ b = 0x0d ∨ b = 0x0a))

/-- `parse_status`. -/
def parseStatus : PsaStatus → ZucStatus
  | .errorInsufficientMemory => .errMemory
  | .errPkUnknownPkAlg => .errUnsupported
  | .errPkFeatureUnavailable => .errUnsupported
  | .errPkUnknownNamedCurve => .errUnsupported
  | _ => .errInvalidArgument

/-- The two reads of `pkey_parse_impl`: what the last one returned, the context, and
whether it holds a key pair. -/
def parseEither (src : List Byte) (privateKey : Bool) : Adapter O (PsaStatus × O.Pk × Bool) := do
  let r ← psa (.pkParseKey O.pkInit src)
  if r.1 = .success then
    return (r.1, r.2, true)
  else if privateKey then
    return (r.1, r.2, false)
  else
    psa (.pkFree r.2)
    let r' ← psa (.pkParsePublicKey O.pkInit src)
    -- of the two failures, the more specific one says more
    if r'.1 ≠ .success ∧ parseStatus r.1 = .errUnsupported then
      return (r.1, r'.2, false)
    else
      return (r'.1, r'.2, false)

/-- What `pkey_parse_impl` has the reader describe a key by: the usage, and for a key
pair that does not sign, key agreement. -/
def parseAttributes (pk : O.Pk) (isPair : Bool) : Adapter O (PsaStatus × PsaKeyAttributes) := do
  let r ← psa (.pkGetPsaAttributes pk (if isPair then .signHash else .verifyHash))
  if r.1 ≠ .success ∧ isPair then
    psa (.pkGetPsaAttributes pk .derive)
  else
    return r

/-- The end of `pkey_parse_impl`: the key is imported to be exported. -/
def parseImport (pk : O.Pk) (attr : PsaKeyAttributes) (isPair privateKey : Bool) :
    Adapter O (ZucStatus × Option ZucPkey) := do
  let r ← psa (.pkImportIntoPsa pk { attr with alg := .none, usage := [.exportable] })
  psa (.pkFree pk)
  if r.1 ≠ .success then
    return (if r.1 = .errorInsufficientMemory then .errMemory else .errInvalidArgument, none)
  else
    let key ← pkeyFromPsa r.2 (privateKey && isPair)
    psa (.destroyKey r.2)
    match key with
    | (.ok, some k) =>
      if privateKey ∧ k.isPrivate = false then
        zucPkeyFree (some k)
        return (.errInvalidArgument, none)
      else
        return key
    | key => return key

/-- The rest of `pkey_parse_impl`, once the key has been read into `pk`. -/
def parseDescribe (pk : O.Pk) (isPair privateKey : Bool) :
    Adapter O (ZucStatus × Option ZucPkey) := do
  let attr ← parseAttributes pk isPair
  if attr.1 = .success then
    parseImport pk attr.2 isPair privateKey
  else
    let x25519 ← (if isPair then return false else do
      let bits ← psa (.pkGetBitlen pk)
      return decide (bits = 255) : Adapter O Bool)
    if x25519 then
      -- a public X25519 key has no usage the reader will describe
      let raw ← psa (.pkWritePubkeyPsa pk 32)
      psa (.pkFree pk)
      if raw.1 ≠ .success ∨ raw.2.len ≠ 32 then
        return (.errUnsupported, none)
      else
        pkeyImportBytes .x25519 false (raw.2.bytes.take 32)
    else
      psa (.pkFree pk)
      return (.errUnsupported, none)

/-- `pkey_parse_impl`, from its first read on. -/
def parseSource (src : List Byte) (copy : Option HeapBytes) (privateKey : Bool) :
    Adapter O (ZucStatus × Option ZucPkey) := do
  let r ← parseEither src privateKey
  freeIf (fun c => freeBytes (c.buf.wipe c.len)) copy
  if r.1 ≠ .success then
    psa (.pkFree r.2.1)
    return (parseStatus r.1, none)
  else
    parseDescribe r.2.1 r.2.2 privateKey

/-- `pkey_parse_impl`. -/
def pkeyParseImpl (inp len : Nat) (privateKey out : Bool) :
    Adapter O (ZucStatus × Option ZucPkey) := do
  if out = false then
    return (.errInvalidArgument, none)
  else
    let ready ← zucIntReady
    if ready = false then
      return (.errNotReady, none)
    else if inp = NULL ∨ len = 0 then
      return (.errInvalidArgument, none)
    else
      let bytes ← readMem inp len
      if looksLikePem bytes then
        -- the reader takes PEM as a string that ends in a NUL, and has no other
        if (0 : Byte) ∈ bytes then
          return (.errInvalidArgument, none)
        else
          let copy ← mallocBytes (len + 1)
          match copy with
          | none => return (.errMemory, none)
          | some copy =>
            let copy : HeapBytes := ⟨(copy.store 0 bytes).store len [0], len + 1⟩
            parseSource copy.bytes (some copy) privateKey
      else
        parseSource bytes none privateKey

/-- `pkey_generate_impl`. -/
def pkeyGenerateImpl (type : ZucAlg) (bits : Nat) (out : Bool) :
    Adapter O (ZucStatus × Option ZucPkey) := do
  if out = false then
    return (.errInvalidArgument, none)
  else
    let ready ← zucIntReady
    let pt : PsaKeyType × Nat := if type = .rsa then (.rsaKeyPair, bits) else ecPairType type
    if ready = false then
      return (.errNotReady, none)
    else if zucAlgAvailable type = false then
      return (.errUnsupported, none)
    else if type = .rsa ∧ (bits < 1024 ∨ 4096 < bits) then
      return (.errBadLength, none)
    else if pt.1 = .none then
      return (.errUnsupported, none)
    else if type ≠ .rsa ∧ bits ≠ 0 ∧ bits ≠ pt.2 then
      return (.errBadLength, none)
    else
      let r ← psa (.generateKey { type := pt.1, bits := pt.2, usage := [.exportable] })
      if r.1 ≠ .success then
        return (zucIntFromPsa r.1, none)
      else
        let key ← pkeyFromPsa r.2 true
        psa (.destroyKey r.2)
        return key

/-- `pkey_public_impl`. -/
def pkeyPublicImpl (key : Option ZucPkey) (out : Bool) :
    Adapter O (ZucStatus × Option ZucPkey) := do
  if out = false then
    return (.errInvalidArgument, none)
  else
    match key with
    | none => return (.errInvalidArgument, none)
    | some k =>
      let ready ← zucIntReady
      if ready = false then
        return (.errNotReady, none)
      else
        let r ← pkeyImport k .none .exportable
        if r.1 ≠ .ok then
          return (r.1, none)
        else
          let pub ← pkeyFromPsa r.2 false
          psa (.destroyKey r.2)
          return pub

/-! ### The public entry points -/

/-- An operation under the allocation watch: a failure that followed a failed
allocation inside the backend is `ZUC_ERR_MEMORY`. -/
def watched {α : Type} (impl : Adapter O (ZucStatus × α)) : Adapter O (ZucStatus × α) := do
  zucIntAllocWatch
  let r ← impl
  let st ← zucIntMemoryOr r.1
  return (st, r.2)

/-- `zuc_pkey_parse`. -/
def zucPkeyParse (inp len : Nat) (privateKey out : Bool) :
    Adapter O (ZucStatus × Option ZucPkey) :=
  watched (pkeyParseImpl inp len privateKey out)

/-- `zuc_pkey_generate`. -/
def zucPkeyGenerate (type : ZucAlg) (bits : Nat) (out : Bool) :
    Adapter O (ZucStatus × Option ZucPkey) :=
  watched (pkeyGenerateImpl type bits out)

/-- `zuc_pkey_public`. -/
def zucPkeyPublic (key : Option ZucPkey) (out : Bool) : Adapter O (ZucStatus × Option ZucPkey) :=
  watched (pkeyPublicImpl key out)

/-- `zuc_pkey_import`. -/
def zucPkeyImport (type : ZucAlg) (privateKey : Bool) (data len : Nat) (out : Bool) :
    Adapter O (ZucStatus × Option ZucPkey) :=
  watched (pkeyImportImpl type privateKey data len out)

end Zucrypt
