import Zucrypt.PkeyHandle

/-! # Writing keys

`zuc_pkey.c`, from `public_der` to `pkey_write_impl`.  The private encodings are built here, in
a block whose size has been computed beforehand; `Cursor` is a position in such a block, and moves on
as the functions that write return how much they wrote.

The sizes and the writes are two families of functions, as in the source, and nothing makes them
agree but their being right.  That they do is `PkeyEncoding`'s.  A store that goes past the end of a
block is lost, and shows as an encoding that is not complete.

`writeEncoding` gives the encoding to the caller: DER is copied, PEM is written by
`mbedtls_pem_write_buffer`.  Its block is wiped and freed whatever comes of that. -/
namespace Zucrypt
open Effects ByteMemory

variable {O : Objects}

/-- `public_der`. -/
def publicDer (key : ZucPkey) : Adapter O (Except ZucStatus HeapBytes) := do
  if key.isPrivate = false then
    let buf ← mallocBytes key.der.len
    match buf with
    | none => return .error .errMemory
    | some buf => return .ok ⟨buf.store 0 key.der.bytes, key.der.len⟩
  else
    let r ← pkeyPublicImpl (some key) true
    if r.1 ≠ .ok then
      return .error r.1
    else
      match r.2 with
      | none => return .error .errInternal
      | some pub =>
        -- the material is taken out of the handle before that is freed
        freeRecord .zucPkey pub.self
        zucIntLiveAdd (-1)
        return .ok pub.der

/-! ### DER -/

/-- `der_length`: what it writes, the length of which it returns. -/
def derLength (n : Nat) : List Byte :=
  if n < 0x80 then
    [UInt8.ofNat n]
  else if n ≤ 0xFF then
    [0x81, UInt8.ofNat n]
  else
    [0x82, UInt8.ofNat (n / 0x100), UInt8.ofNat n]

/-- A position in a block. -/
structure Cursor where
  buf : HeapBuf
  pos : Nat
  deriving DecidableEq, Repr

/-- Write `bs`, and move past them. -/
def Cursor.put (c : Cursor) (bs : List Byte) : Cursor := ⟨c.buf.store c.pos bs, c.pos + bs.length⟩

/-- The fixed part of `pkcs8_wrap`. -/
def pkcs8Head : List Byte :=
  [0x02, 0x01, 0x00, 0x30, 0x0d, 0x06, 0x09, 0x2a, 0x86, 0x48, 0x86, 0xf7, 0x0d, 0x01, 0x01, 0x01,
    0x05, 0x00]

/-- What `pkcs8_wrap` writes. -/
def pkcs8Write (c : Cursor) (pkcs1 : List Byte) : Cursor :=
  let octetLen := derLength pkcs1.length
  let c := c.put [0x30]
  let c := c.put (derLength (pkcs8Head.length + 1 + octetLen.length + pkcs1.length))
  let c := c.put pkcs8Head
  let c := c.put [0x04]
  let c := c.put octetLen
  c.put pkcs1

/-- The size `pkcs8_wrap` allocates. -/
def pkcs8Total (pkcs1Len : Nat) : Nat :=
  let body := pkcs8Head.length + 1 + (derLength pkcs1Len).length + pkcs1Len
  1 + (derLength body).length + body

/-- `pkcs8_wrap`. -/
def pkcs8Wrap (pkcs1 : List Byte) : Adapter O (Except ZucStatus HeapBytes) := do
  if 0xFFFF - 64 < pkcs1.length then
    return .error .errInternal
  else
    let p ← mallocBytes (pkcs8Total pkcs1.length)
    match p with
    | none => return .error .errMemory
    | some p => return .ok ⟨(pkcs8Write ⟨p, 0⟩ pkcs1).buf, pkcs8Total pkcs1.length⟩

/-- `spki_der`. -/
def spkiDer (key : ZucPkey) : Adapter O (Except ZucStatus HeapBytes) := do
  let k ← pkeyImport key .none .exportable
  if k.1 ≠ .ok then
    return .error k.1
  else
    let r ← psa (.pkCopyPublicFromPsa k.2 O.pkInit)
    psa (.destroyKey k.2)
    if r.1 ≠ .success then
      psa (.pkFree r.2)
      return .error (if r.1 = .errorInsufficientMemory then .errMemory else .errBackend)
    else
      let buf ← mallocBytes ZUC_PKEY_MAX_WRITE_SIZE
      match buf with
      | none =>
        psa (.pkFree r.2)
        return .error .errMemory
      | some buf =>
        let der ← psa (.pkWritePubkeyDer r.2 ZUC_PKEY_MAX_WRITE_SIZE)
        psa (.pkFree r.2)
        match der with
        | .error ps =>
          freeBytes buf
          return .error (if ps = .errorInsufficientMemory then .errMemory else .errBackend)
        | .ok der =>
          if der = [] then
            freeBytes buf
            return .error .errBackend
          else
            -- the writer fills the block from its end
            let buf := buf.store (ZUC_PKEY_MAX_WRITE_SIZE - der.length) der
            return .ok ⟨buf.store 0 der, der.length⟩

/-- `tlv_size`. -/
def tlvSize (n : Nat) : Nat := 1 + (if n < 0x80 then 1 else if n ≤ 0xFF then 2 else 3) + n

/-- `tlv_head`. -/
def tlvHead (c : Cursor) (tag : Byte) (n : Nat) : Cursor := (c.put [tag]).put (derLength n)

/-- `tlv`. -/
def tlv (c : Cursor) (tag : Byte) (v : List Byte) : Cursor := (tlvHead c tag v.length).put v

def OID_EC_PUBLIC_KEY : List Byte := [0x06, 0x07, 0x2a, 0x86, 0x48, 0xce, 0x3d, 0x02, 0x01]

def OID_P256 : List Byte := [0x06, 0x08, 0x2a, 0x86, 0x48, 0xce, 0x3d, 0x03, 0x01, 0x07]

def OID_P384 : List Byte := [0x06, 0x05, 0x2b, 0x81, 0x04, 0x00, 0x22]

def OID_P521 : List Byte := [0x06, 0x05, 0x2b, 0x81, 0x04, 0x00, 0x23]

def OID_X25519 : List Byte := [0x06, 0x03, 0x2b, 0x65, 0x6e]

/-- `curve_oid`. -/
def curveOid : ZucAlg → List Byte
  | .ecP256 => OID_P256
  | .ecP384 => OID_P384
  | _ => OID_P521

/-- The contents `ec_sec1` announces: version, `d`, the curve if `params`, and a bit
string with the point. -/
def ecSec1Body (type : ZucAlg) (dLen pointLen : Nat) (params : Bool) : Nat :=
  3 + tlvSize dLen + (if params then tlvSize (curveOid type).length else 0) +
    tlvSize (tlvSize (pointLen + 1))

/-- `ec_sec1`, of `NULL`. -/
def ecSec1Size (type : ZucAlg) (dLen pointLen : Nat) (params : Bool) : Nat :=
  tlvSize (ecSec1Body type dLen pointLen params)

/-- `ec_sec1`, of a place to write to. -/
def ecSec1 (c : Cursor) (type : ZucAlg) (d point : List Byte) (params : Bool) : Cursor :=
  let c := tlvHead c 0x30 (ecSec1Body type d.length point.length params)
  let c := c.put [0x02, 0x01, 0x01]
  let c := tlv c 0x04 d
  let c := if params then tlv c 0xa0 (curveOid type) else c
  let c := tlvHead c 0xa1 (tlvSize (point.length + 1))
  let c := tlvHead c 0x03 (point.length + 1)
  let c := c.put [0x00]
  c.put point

/-- The contents of the X25519 form of `ec_encode`. -/
def x25519Body (kLen : Nat) : Nat := 3 + tlvSize OID_X25519.length + tlvSize (tlvSize kLen)

/-- What `ec_encode` writes for an X25519 key. -/
def x25519Write (c : Cursor) (k : List Byte) : Cursor :=
  let c := tlvHead c 0x30 (x25519Body k.length)
  let c := c.put [0x02, 0x01, 0x00]
  let c := tlv c 0x30 OID_X25519
  let c := tlvHead c 0x04 (tlvSize k.length)
  tlv c 0x04 k

/-- The contents of the PKCS#8 form of `ec_encode`. -/
def ecInfoBody (type : ZucAlg) (dLen pointLen : Nat) : Nat :=
  3 + tlvSize (OID_EC_PUBLIC_KEY.length + (curveOid type).length) +
    tlvSize (ecSec1Size type dLen pointLen false)

/-- What `ec_encode` writes for a NIST key as PKCS#8. -/
def ecInfoWrite (c : Cursor) (type : ZucAlg) (d point : List Byte) : Cursor :=
  let c := tlvHead c 0x30 (ecInfoBody type d.length point.length)
  let c := c.put [0x02, 0x01, 0x00]
  let c := tlvHead c 0x30 (OID_EC_PUBLIC_KEY.length + (curveOid type).length)
  let c := c.put OID_EC_PUBLIC_KEY
  let c := c.put (curveOid type)
  let c := tlvHead c 0x04 (ecSec1Size type d.length point.length false)
  ecSec1 c type d point false

/-- An encoding, and the label of its PEM form. -/
structure Encoding where
  der : HeapBytes
  label : String
  deriving DecidableEq, Repr

/-- An allocation of `total` bytes that `write` fills. -/
def encodeInto (total : Nat) (write : Cursor → Cursor) : Adapter O (Option HeapBytes) := do
  let p ← mallocBytes total
  return p.map (fun p => ⟨(write ⟨p, 0⟩).buf, (write ⟨p, 0⟩).pos⟩)

/-- `ec_encode`, of an X25519 private key. -/
def x25519Encode (key : ZucPkey) (pkcs1 : Bool) : Adapter O (Except ZucStatus Encoding) := do
  if pkcs1 then
    return .error .errUnsupported
  else
    let p ← encodeInto (tlvSize (x25519Body key.der.bytes.length))
      (x25519Write · key.der.bytes)
    match p with
    | none => return .error .errMemory
    | some der => return .ok ⟨der, "PRIVATE KEY"⟩

/-- `ec_encode`, of a private key on a NIST curve. -/
def nistEncode (key : ZucPkey) (pkcs1 : Bool) : Adapter O (Except ZucStatus Encoding) := do
  let point ← publicDer key
  match point with
  | .error st => return .error st
  | .ok point =>
    let d := key.der.bytes
    let q := point.bytes
    let p ← (if pkcs1 then
      encodeInto (ecSec1Size key.type d.length q.length true) (ecSec1 · key.type d q true)
    else
      encodeInto (tlvSize (ecInfoBody key.type d.length q.length)) (ecInfoWrite · key.type d q) :
        Adapter O (Option HeapBytes))
    freeBytes (point.buf.wipe point.len)
    match p with
    | none => return .error .errMemory
    | some der => return .ok ⟨der, if pkcs1 then "EC PRIVATE KEY" else "PRIVATE KEY"⟩

/-- `ec_encode`. -/
def ecEncode (key : ZucPkey) (format : ZucPkeyFormat) (privateOut : Bool) :
    Adapter O (Except ZucStatus Encoding) := do
  let pkcs1 := decide (format = .pkcs1Der ∨ format = .pkcs1Pem)
  match format with
  | .other _ => return .error .errInvalidArgument
  | _ =>
    if privateOut = false then
      if pkcs1 then
        return .error .errUnsupported
      else
        let der ← spkiDer key
        return der.map (⟨·, "PUBLIC KEY"⟩)
    else if key.type = .x25519 then
      x25519Encode key pkcs1
    else
      nistEncode key pkcs1

/-- The `switch` of `pkey_write_impl`, of an RSA key. -/
def rsaEncode (key : ZucPkey) (format : ZucPkeyFormat) (privateOut : Bool) :
    Adapter O (Except ZucStatus Encoding) := do
  match format with
  | .other _ => return .error .errInvalidArgument
  | _ =>
    if format = .pkcs1Der ∨ format = .pkcs1Pem then
      if privateOut then
        let der ← mallocBytes key.der.len
        match der with
        | none => return .error .errMemory
        | some der =>
          return .ok ⟨⟨der.store 0 key.der.bytes, key.der.len⟩, "RSA PRIVATE KEY"⟩
      else
        let der ← publicDer key
        return der.map (⟨·, "RSA PUBLIC KEY"⟩)
    else if privateOut then
      let der ← pkcs8Wrap key.der.bytes
      return der.map (⟨·, "PRIVATE KEY"⟩)
    else
      let der ← spkiDer key
      return der.map (⟨·, "PUBLIC KEY"⟩)

/-- What `pkey_write_impl` gives the caller of an encoding: the status, and `*out_len`. -/
def writeEncoding (e : Encoding) (format : ZucPkeyFormat) (out outSize : Nat) :
    Adapter O (ZucStatus × Nat) := do
  if format = .pkcs1Der ∨ format = .infoDer then
    if outSize < e.der.len then
      return (.errBadLength, 0)
    else
      writeMem out e.der.bytes
      return (.ok, e.der.len)
  else
    let r ← psa (.pemWriteBuffer ("-----BEGIN " ++ e.label ++ "-----\n")
      ("-----END " ++ e.label ++ "-----\n") e.der.bytes outSize)
    writeOutput out outSize r.2
    if r.1 = .errorBufferTooSmall then
      return (.errBadLength, 0)
    else if r.1 ≠ .success ∨ r.2.len = 0 then
      return (.errBackend, 0)
    else
      -- the length counts a terminating NUL
      return (.ok, r.2.len - 1)

/-- `pkey_write_impl`. -/
def pkeyWriteImpl (key : Option ZucPkey) (format : ZucPkeyFormat) (publicOnly : Bool)
    (out outSize : Nat) (outLen : SizeCell) : Adapter O (ZucStatus × SizeCell) := do
  let outLen := outLen.store 0
  match key with
  | none => return (.errInvalidArgument, outLen)
  | some k =>
    if out = NULL ∨ outLen = none then
      return (.errInvalidArgument, outLen)
    else
      let ready ← zucIntReady
      if ready = false then
        return (.errNotReady, outLen)
      else
        let privateOut := k.isPrivate && !publicOnly
        let e ← if k.type ≠ .rsa then ecEncode k format privateOut
          else rsaEncode k format privateOut
        match e with
        | .error st => return (st, outLen)
        | .ok e =>
          let r ← writeEncoding e format out outSize
          freeBytes (e.der.buf.wipe e.der.len)
          if r.1 ≠ .ok then
            zucSecureZero out outSize
            return (r.1, outLen)
          else
            return (.ok, outLen.store r.2)

/-- `zuc_pkey_write`. -/
def zucPkeyWrite (key : Option ZucPkey) (format : ZucPkeyFormat) (publicOnly : Bool)
    (out outSize : Nat) (outLen : SizeCell) : Adapter O (ZucStatus × SizeCell) :=
  watched (pkeyWriteImpl key format publicOnly out outSize outLen)

end Zucrypt
