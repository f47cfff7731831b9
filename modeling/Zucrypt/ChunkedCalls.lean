import Zucrypt.AesChaining
import Zucrypt.ExternalPointers
import Zucrypt.OsRandom

/-! # Entry points that work in chunks

`zucrypt_hash`, `zucrypt_hmac`, the streams over connections and `zucrypt_aes_cbc`.  Each feeds its
input to a native context, `ZUCRYPT_CHUNK` bytes at a time, and lets R interrupt it after every
chunk.  The context is held by an external pointer from its creation on.

The entry points for digests and for HMAC differ in the context they create: a `DigestKind` says
which functions of the library a kind has.

The loops are by recursion on what is left of the input, and `chunkLength` is never 0 before its end
(`chunk_shrinks`).  A stream is fed by R, one vector after another, and its tag says of which kind
it is; the pointer is emptied by the release at the end of a digest, so that the finalizer finds
nothing. -/
namespace Zucrypt
open Effects ByteMemory BlockChaining Entry

variable {O : Objects} {κ Op : Type}

/-- The library's functions on one kind of context. -/
structure DigestKind (O : Objects) (κ Op : Type) where
  ops : StreamOps O κ Op
  context : StreamHandle κ Op → LiveHandle O
  kind : ContextKind

/-- `zuc_hash_*`. -/
def hashKind : DigestKind O Unit O.Hash := ⟨hashOps, .hash, .hash⟩

/-- `zuc_hmac_*`. -/
def hmacKind : DigestKind O KeyId O.Mac := ⟨macOps, .hmac, .hmac⟩

/-- The length of the next chunk. -/
def chunkLength (total offset : Nat) : Nat :=
  if ZUCRYPT_CHUNK < total - offset then ZUCRYPT_CHUNK else total - offset

/-! ### Digest and HMAC -/

/-- The loop of `zucrypt_hash` and `zucrypt_hmac`. -/
def digestLoop (K : DigestKind O κ Op) (ptr bytes total offset : Nat)
    (h : Option (StreamHandle κ Op)) : Entry O (ZucStatus × Option (StreamHandle κ Op)) :=
  if offset < total then do
    let n := chunkLength total offset
    let r ← native (streamUpdate K.ops h (bytes + offset) n)
    setAddress ptr (r.2.map K.context)
    checkUserInterrupt
    if r.1 ≠ .ok then
      return r
    else
      digestLoop K ptr bytes total (offset + n) r.2
  else
    return (.ok, h)
termination_by total - offset
decreasing_by exact chunk_shrinks ‹offset < total›

/-- The end of every digest: its vector, the native finish, and the release of the context. -/
def digestFinish (K : DigestKind O κ Op) (ptr : Nat) (alg : ZucAlg)
    (h : Option (StreamHandle κ Op)) : Entry O NativeResult := do
  let want := zucAlgSize alg
  let out ← allocVector want
  let r ← native (streamFinish K.ops h out want (some 0))
  setAddress ptr (r.2.1.map K.context)
  releasePtr ptr
  let st := if r.1 = .ok ∧ r.2.2 ≠ some want then .errInternal else r.1
  result st (.raw out want [])

/-- `zucrypt_hash` and `zucrypt_hmac`, by what creates their context. -/
def digestCall (K : DigestKind O κ Op)
    (new : Adapter O (ZucStatus × Option (StreamHandle κ Op))) (alg : ZucAlg) (data : Sexp) :
    Entry O NativeResult := do
  let ptr ← ownerPtr K.kind none
  let r ← native new
  if r.1 ≠ .ok then
    result r.1 .null
  else
    setAddress ptr (r.2.map K.context)
    let u ← digestLoop K ptr data.RAW data.XLENGTH 0 r.2
    if u.1 ≠ .ok then
      releasePtr ptr
      result u.1 .null
    else
      digestFinish K ptr alg u.2

/-- `zucrypt_hash`. -/
def zucryptHash (data : Sexp) (algorithm : String) : Entry O NativeResult :=
  let alg := zucAlgByName (some algorithm)
  digestCall hashKind (zucHashNew alg true) alg data

/-- `zucrypt_hmac`. -/
def zucryptHmac (data key : Sexp) (algorithm : String) : Entry O NativeResult :=
  let alg := zucAlgByName (some algorithm)
  digestCall hmacKind (zucHmacNew alg key.RAW key.XLENGTH true) alg data

/-! ### Streams -/

/-- `stream_ptr`; the tag is a vector too. -/
def streamPtr (tag : StreamTag) : Entry O Nat := do
  jumpPoint
  ownerPtr (if tag.isHmac then .hmac else .hash) (some tag)

/-- `stream_tag`: a pointer that is not a stream's is an error of R's. -/
def streamTag (ptr : Nat) : Entry O StreamTag := do
  match ← look fun H => (H.pointer ptr).tag with
  | none => leave
  | some tag => return tag

/-- `zucrypt_hash_stream_new` and `zucrypt_hmac_stream_new`. -/
def streamNew (K : DigestKind O κ Op)
    (new : Adapter O (ZucStatus × Option (StreamHandle κ Op))) (tag : StreamTag) :
    Entry O (ZucStatus × Option Nat) := do
  let ptr ← streamPtr tag
  let r ← native new
  if r.1 = .ok then
    setAddress ptr (r.2.map K.context)
    resultPtr r.1 ptr
  else
    resultPtr r.1 ptr

/-- `zucrypt_hash_stream_new`. -/
def zucryptHashStreamNew (algorithm : String) : Entry O (ZucStatus × Option Nat) :=
  let alg := zucAlgByName (some algorithm)
  streamNew hashKind (zucHashNew alg true) ⟨false, alg⟩

/-- `zucrypt_hmac_stream_new`. -/
def zucryptHmacStreamNew (key : Sexp) (algorithm : String) : Entry O (ZucStatus × Option Nat) :=
  let alg := zucAlgByName (some algorithm)
  streamNew hmacKind (zucHmacNew alg key.RAW key.XLENGTH true) ⟨true, alg⟩

/-- An update of the context at `ptr`, and the interrupt check after it. -/
def streamFeed (K : DigestKind O κ Op) (ptr : Nat) (h : StreamHandle κ Op) (data : Sexp) :
    Entry O ZucStatus := do
  let r ← native (streamUpdate K.ops (some h) data.RAW data.XLENGTH)
  setAddress ptr (r.2.map K.context)
  checkUserInterrupt
  allocations 1
  return r.1

/-- `zucrypt_stream_update`.  The tag says of which kind the context is. -/
def zucryptStreamUpdate (ptr : Nat) (data : Sexp) : Entry O ZucStatus := do
  let tag ← streamTag ptr
  match tag.isHmac, ← address ptr with
  | _, none =>
    allocations 1
    return .errInvalidArgument
  | false, some (.hash h) => streamFeed hashKind ptr h data
  | true, some (.hmac h) => streamFeed hmacKind ptr h data
  | _, some _ => leave

/-- `zucrypt_stream_finish`. -/
def zucryptStreamFinish (ptr : Nat) : Entry O NativeResult := do
  let tag ← streamTag ptr
  match tag.isHmac, ← address ptr with
  | _, none => result .errInvalidArgument .null
  | false, some (.hash h) => digestFinish hashKind ptr tag.alg (some h)
  | true, some (.hmac h) => digestFinish hmacKind ptr tag.alg (some h)
  | _, some _ => leave

/-! ### AES-CBC -/

/-- The loop of `zucrypt_aes_cbc`. -/
def cbcLoop (dir : Direction) (ptr bytes out total offset : Nat) (st : ZucStatus)
    (aes : Option ZucAes) : Entry O ZucStatus :=
  if offset < total then
    if st ≠ .ok then
      return st
    else do
      let n := chunkLength total offset
      let r ← native (zucAesCbc dir aes (bytes + offset) n (out + offset))
      setAddress ptr (r.2.map .aes)
      checkUserInterrupt
      cbcLoop dir ptr bytes out total (offset + n) r.1 r.2
  else
    return st
termination_by total - offset
decreasing_by exact chunk_shrinks ‹offset < total›

/-- `zucrypt_aes_cbc`. -/
def zucryptAesCbc (data key iv : Sexp) (encrypt : Bool) : Entry O NativeResult := do
  let total := data.XLENGTH
  let ptr ← ownerPtr .aes none
  let r ← native (zucAesNew key.RAW key.XLENGTH true)
  if r.1 ≠ .ok then
    result r.1 .null
  else
    setAddress ptr (r.2.map .aes)
    let s ← native (zucAesCbcSetState r.2 iv.RAW)
    setAddress ptr (s.2.map .aes)
    let out ← allocVector total
    let st ← cbcLoop (if encrypt then .encrypt else .decrypt) ptr data.RAW out total 0 s.1 s.2
    releasePtr ptr
    result st (.raw out total [])

end Zucrypt
