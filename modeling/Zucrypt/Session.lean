import Zucrypt.Aead
import Zucrypt.Aes
import Zucrypt.Hash
import Zucrypt.Kdf
import Zucrypt.PkeyOperations

/-! # A caller and its handles

What a C program does with the library: it calls public functions, one after the other, keeps the
handles that constructors gave it, and passes them on by the place it keeps them at.  A place that
holds nothing, or a handle of another kind, passes `NULL`.

`Command` is one call with its arguments, and `session` any sequence of them.  Between calls the
caller may write to its memory.

A constructor takes a new place whether or not it succeeds, so that a command can name the handle of
an earlier one, and a handle that was freed leaves its place empty: what a program does with a freed
handle is outside of this, and is `StaleHandles`.  All functions of the public header that take or
make a handle are commands, and so are the one-shot ones and the two that open and close the
library. -/
namespace Zucrypt
open Effects ByteMemory

variable {O : Objects}

/-- A handle a constructor has handed out. -/
inductive LiveHandle (O : Objects) where
  | hash (hash : ZucHash O)
  | hmac (hmac : ZucHmac O)
  | aes (aes : ZucAes)
  | pkey (key : ZucPkey)

/-- What a caller keeps: a place for every constructor it has called, `none` where that
failed or the handle has been freed. -/
abbrev Pool (O : Objects) : Type := List (Option (LiveHandle O))

namespace Pool

def handle (pool : Pool O) (i : Nat) : Option (LiveHandle O) := pool[i]?.join

/-- The pointer passed for place `i` to a function that takes a `zuc_hash`. -/
def hash (pool : Pool O) (i : Nat) : Option (ZucHash O) :=
  match pool.handle i with
  | some (.hash h) => some h
  | _ => none

def hmac (pool : Pool O) (i : Nat) : Option (ZucHmac O) :=
  match pool.handle i with
  | some (.hmac h) => some h
  | _ => none

def aes (pool : Pool O) (i : Nat) : Option ZucAes :=
  match pool.handle i with
  | some (.aes a) => some a
  | _ => none

def pkey (pool : Pool O) (i : Nat) : Option ZucPkey :=
  match pool.handle i with
  | some (.pkey k) => some k
  | _ => none

/-- The handle at `i` as a function left it, if it was given one. -/
def put (pool : Pool O) (i : Nat) (h : Option (LiveHandle O)) : Pool O :=
  match h with
  | none => pool
  | some h => pool.set i (some h)

/-- The handle at `i` has been freed, if there was one. -/
def drop {α : Type} (pool : Pool O) (i : Nat) (h : Option α) : Pool O :=
  match h with
  | none => pool
  | some _ => pool.set i none

end Pool

/-- A call of a public function, with its arguments; handles are given by their
places. -/
inductive Command where
  | init
  | shutdown
  | store (p : Nat) (bs : List Byte)
  | hashCompute (alg : ZucAlg) (data dataLen out outSize : Nat) (outLen : SizeCell)
  | hashNew (alg : ZucAlg) (out : Bool)
  | hashUpdate (i : Nat) (data dataLen : Nat)
  | hashFinish (i : Nat) (out outSize : Nat) (outLen : SizeCell)
  | hashReset (i : Nat)
  | hashFree (i : Nat)
  | hmacCompute (alg : ZucAlg) (key keyLen data dataLen out outSize : Nat) (outLen : SizeCell)
  | hmacNew (alg : ZucAlg) (key keyLen : Nat) (out : Bool)
  | hmacUpdate (i : Nat) (data dataLen : Nat)
  | hmacFinish (i : Nat) (out outSize : Nat) (outLen : SizeCell)
  | hmacReset (i : Nat)
  | hmacFree (i : Nat)
  | aesNew (key keyLen : Nat) (out : Bool)
  | aesSetState (i : Nat) (state : Nat)
  | aesGetState (i : Nat) (state : Nat)
  | aesCbcEncrypt (i : Nat) (inp len out : Nat)
  | aesCbcDecrypt (i : Nat) (inp len out : Nat)
  | aesFree (i : Nat)
  | aeadEncrypt (alg : ZucAlg) (key keyLen nonce nonceLen aad aadLen plaintext len ciphertext tag
      tagLen : Nat)
  | aeadDecrypt (alg : ZucAlg) (key keyLen nonce nonceLen aad aadLen ciphertext len tag tagLen
      plaintext : Nat)
  | pbkdf2Hmac (hash : ZucAlg) (password passwordLen salt saltLen : Nat) (iterations : UInt32)
      (out outLen : Nat)
  | pkeyParse (inp len : Nat) (privateKey out : Bool)
  | pkeyGenerate (type : ZucAlg) (bits : Nat) (out : Bool)
  | pkeyImport (type : ZucAlg) (privateKey : Bool) (data len : Nat) (out : Bool)
  | pkeyPublic (i : Nat) (out : Bool)
  | pkeyWrite (i : Nat) (format : ZucPkeyFormat) (publicOnly : Bool) (out outSize : Nat)
      (outLen : SizeCell)
  | pkeySignHash (i : Nat) (scheme hash : ZucAlg) (digest digestLen sig sigSize : Nat)
      (sigLen : SizeCell)
  | pkeyVerifyHash (i : Nat) (scheme hash : ZucAlg) (digest digestLen sig sigLen : Nat)
  | pkeyEncrypt (i : Nat) (scheme hash : ZucAlg) (inp len out outSize : Nat) (outLen : SizeCell)
  | pkeyDecrypt (i : Nat) (scheme hash : ZucAlg) (inp len out outSize : Nat) (outLen : SizeCell)
  | pkeyExport (i : Nat) (publicOnly : Bool) (out outSize : Nat) (outLen : SizeCell)
  | pkeyAgree (i peer : Nat) (out outSize : Nat) (outLen : SizeCell)
  | pkeyFree (i : Nat)

/-- What the call returned: a status, and the length it stored. -/
structure CallResult where
  status : ZucStatus
  cell : SizeCell := none
  deriving DecidableEq, Repr

namespace Command

/-- A constructor: what it hands out gets a place of its own. -/
def constructor {α : Type} (kind : α → LiveHandle O) (pool : Pool O)
    (p : Adapter O (ZucStatus × Option α)) : Adapter O (CallResult × Pool O) := do
  let r ← p
  return (⟨r.1, none⟩, pool ++ [r.2.map kind])

/-- A function that changes the handle at `i`. -/
def change {α : Type} (kind : α → LiveHandle O) (pool : Pool O) (i : Nat)
    (p : Adapter O (ZucStatus × Option α)) : Adapter O (CallResult × Pool O) := do
  let r ← p
  return (⟨r.1, none⟩, pool.put i (r.2.map kind))

/-- The same, of a function that stores a length too. -/
def changeCell {α : Type} (kind : α → LiveHandle O) (pool : Pool O) (i : Nat)
    (p : Adapter O (ZucStatus × Option α × SizeCell)) : Adapter O (CallResult × Pool O) := do
  let r ← p
  return (⟨r.1, r.2.2⟩, pool.put i (r.2.1.map kind))

/-- A function that frees the handle at `i`. -/
def free {α : Type} (pool : Pool O) (i : Nat) (h : Option α) (p : Adapter O Unit) :
    Adapter O (CallResult × Pool O) := do
  p
  return (⟨.ok, none⟩, pool.drop i h)

/-- A function that returns a status. -/
def plain (pool : Pool O) (p : Adapter O ZucStatus) : Adapter O (CallResult × Pool O) := do
  let st ← p
  return (⟨st, none⟩, pool)

/-- A function that returns a status and stores a length. -/
def plainCell (pool : Pool O) (p : Adapter O (ZucStatus × SizeCell)) :
    Adapter O (CallResult × Pool O) := do
  let r ← p
  return (⟨r.1, r.2⟩, pool)

/-- What the call does. -/
def run (pool : Pool O) : Command → Adapter O (CallResult × Pool O)
  | .init => plain pool zucInit
  | .shutdown => plain pool zucShutdown
  | .store p bs => do
    writeMem p bs
    return (⟨.ok, none⟩, pool)
  | .hashCompute alg data dataLen out outSize outLen =>
    plainCell pool (zucHashCompute alg data dataLen out outSize outLen)
  | .hashNew alg out => constructor .hash pool (zucHashNew alg out)
  | .hashUpdate i data dataLen => change .hash pool i (zucHashUpdate (pool.hash i) data dataLen)
  | .hashFinish i out outSize outLen =>
    changeCell .hash pool i (zucHashFinish (pool.hash i) out outSize outLen)
  | .hashReset i => change .hash pool i (zucHashReset (pool.hash i))
  | .hashFree i => free pool i (pool.hash i) (zucHashFree (pool.hash i))
  | .hmacCompute alg key keyLen data dataLen out outSize outLen =>
    plainCell pool (zucHmacCompute alg key keyLen data dataLen out outSize outLen)
  | .hmacNew alg key keyLen out => constructor .hmac pool (zucHmacNew alg key keyLen out)
  | .hmacUpdate i data dataLen => change .hmac pool i (zucHmacUpdate (pool.hmac i) data dataLen)
  | .hmacFinish i out outSize outLen =>
    changeCell .hmac pool i (zucHmacFinish (pool.hmac i) out outSize outLen)
  | .hmacReset i => change .hmac pool i (zucHmacReset (pool.hmac i))
  | .hmacFree i => free pool i (pool.hmac i) (zucHmacFree (pool.hmac i))
  | .aesNew key keyLen out => constructor .aes pool (zucAesNew key keyLen out)
  | .aesSetState i state => change .aes pool i (zucAesCbcSetState (pool.aes i) state)
  | .aesGetState i state => plain pool (zucAesCbcGetState (pool.aes i) state)
  | .aesCbcEncrypt i inp len out =>
    change .aes pool i (zucAesCbcEncrypt (pool.aes i) inp len out)
  | .aesCbcDecrypt i inp len out =>
    change .aes pool i (zucAesCbcDecrypt (pool.aes i) inp len out)
  | .aesFree i => free pool i (pool.aes i) (zucAesFree (pool.aes i))
  | .aeadEncrypt alg key keyLen nonce nonceLen aad aadLen plaintext len ciphertext tag tagLen =>
    plain pool (zucAeadEncrypt alg key keyLen nonce nonceLen aad aadLen plaintext len ciphertext tag
      tagLen)
  | .aeadDecrypt alg key keyLen nonce nonceLen aad aadLen ciphertext len tag tagLen plaintext =>
    plain pool (zucAeadDecrypt alg key keyLen nonce nonceLen aad aadLen ciphertext len tag tagLen
      plaintext)
  | .pbkdf2Hmac hash password passwordLen salt saltLen iterations out outLen =>
    plain pool (zucPbkdf2Hmac hash password passwordLen salt saltLen iterations out outLen)
  | .pkeyParse inp len privateKey out => constructor .pkey pool (zucPkeyParse inp len privateKey out)
  | .pkeyGenerate type bits out => constructor .pkey pool (zucPkeyGenerate type bits out)
  | .pkeyImport type privateKey data len out =>
    constructor .pkey pool (zucPkeyImport type privateKey data len out)
  | .pkeyPublic i out => constructor .pkey pool (zucPkeyPublic (pool.pkey i) out)
  | .pkeyWrite i format publicOnly out outSize outLen =>
    plainCell pool (zucPkeyWrite (pool.pkey i) format publicOnly out outSize outLen)
  | .pkeySignHash i scheme hash digest digestLen sig sigSize sigLen =>
    plainCell pool (zucPkeySignHash (pool.pkey i) scheme hash digest digestLen sig sigSize sigLen)
  | .pkeyVerifyHash i scheme hash digest digestLen sig sigLen =>
    plain pool (zucPkeyVerifyHash (pool.pkey i) scheme hash digest digestLen sig sigLen)
  | .pkeyEncrypt i scheme hash inp len out outSize outLen =>
    plainCell pool (zucPkeyEncrypt (pool.pkey i) scheme hash inp len out outSize outLen)
  | .pkeyDecrypt i scheme hash inp len out outSize outLen =>
    plainCell pool (zucPkeyDecrypt (pool.pkey i) scheme hash inp len out outSize outLen)
  | .pkeyExport i publicOnly out outSize outLen =>
    plainCell pool (zucPkeyExport (pool.pkey i) publicOnly out outSize outLen)
  | .pkeyAgree i peer out outSize outLen =>
    plainCell pool (zucPkeyAgree (pool.pkey i) (pool.pkey peer) out outSize outLen)
  | .pkeyFree i => free pool i (pool.pkey i) (zucPkeyFree (pool.pkey i))

end Command

/-- Calls, one after the other. -/
def session (pool : Pool O) : List Command → Adapter O (List CallResult × Pool O)
  | [] => pure ([], pool)
  | c :: cs => do
    let r ← c.run pool
    let rs ← session r.2 cs
    return (r.1 :: rs.1, rs.2)

end Zucrypt
