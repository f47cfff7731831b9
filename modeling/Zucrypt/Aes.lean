import Zucrypt.Lifetime
import Zucrypt.BlockChaining

/-! # AES-CBC handles

`zuc_aes.c`.  The chaining value is kept in the handle, and each call is a pass of its own, over the
whole buffer, from that value.  Input and output may be the same buffer, so where the next chaining
value is read, and when, matters: an encryption reads it from the output afterwards, a decryption
from the input before.

Encryption and decryption differ only in the order of those steps and in the backend's setup
function, which `cipherSetup` selects.

The handle changes on success only, and keeps its chaining value where a call is refused or fails.
`blockArgs` is the verdict of the checks as a function of the arguments, and `cipherRun` the pass of
the backend, with an abort on each of its failures. -/
namespace Zucrypt
open Effects ByteMemory BlockChaining

variable {O : Objects}

/-- `uint8_t[ZUC_AES_BLOCK_SIZE]`. -/
abbrev AesBlock : Type := Block ZUC_AES_BLOCK_SIZE

/-- The block at `p`. -/
def blockAt (m : Memory) (p : Nat) : AesBlock :=
  ⟨read m p ZUC_AES_BLOCK_SIZE, length_read m p ZUC_AES_BLOCK_SIZE⟩

/-- `struct zuc_aes`, with the address it lives at. -/
structure ZucAes where
  self : Nat
  key : KeyId
  chain : AesBlock

/-- The attributes an AES key is imported with. -/
def aesKeyAttributes (alg : PsaAlg) : PsaKeyAttributes :=
  { type := .aes, alg, usage := [.encrypt, .decrypt] }

/-- `import_aes_key`. -/
def importAesKey (key keyLen : Nat) (alg : PsaAlg) : Adapter O (ZucStatus × KeyId) := do
  let bytes ← readMem key keyLen
  let r ← psa (.importKey (aesKeyAttributes alg) bytes)
  return (zucIntFromPsa r.1, r.2)

/-- `zuc_aes_new`; `out` says whether the caller's pointer is other than `NULL`. -/
def zucAesNew (key keyLen : Nat) (out : Bool) : Adapter O (ZucStatus × Option ZucAes) := do
  if out = false then
    return (.errInvalidArgument, none)
  else
    let ready ← zucIntReady
    if ready = false then
      return (.errNotReady, none)
    else if key = NULL then
      return (.errInvalidArgument, none)
    else if keyLen ≠ ZUC_AES_KEY_SIZE_128 ∧ keyLen ≠ ZUC_AES_KEY_SIZE_192 ∧
        keyLen ≠ ZUC_AES_KEY_SIZE_256 then
      return (.errBadLength, none)
    else
      let p ← callocRecord .zucAes
      match p with
      | none => return (.errMemory, none)
      | some self =>
        let k ← importAesKey key keyLen .cbcNoPadding
        if k.1 ≠ .ok then
          freeRecord .zucAes self
          return (k.1, none)
        else
          zucIntLiveAdd 1
          return (.ok, some { self, key := k.2, chain := Block.ofBytes [] })

/-- `zuc_aes_free`. -/
def zucAesFree (aes : Option ZucAes) : Adapter O Unit := do
  match aes with
  | none => return ()
  | some a =>
    psa (.destroyKey a.key)
    freeRecord .zucAes a.self
    zucIntLiveAdd (-1)

/-- `memcpy` of a block out of the caller's memory. -/
def readBlock (p : Nat) : Adapter O AesBlock := do
  let w ← Proc.read
  return blockAt w.mem p

/-- `zuc_aes_cbc_set_state`. -/
def zucAesCbcSetState (aes : Option ZucAes) (state : Nat) :
    Adapter O (ZucStatus × Option ZucAes) := do
  match aes with
  | none => return (.errInvalidArgument, none)
  | some a =>
    if state = NULL then
      return (.errInvalidArgument, some a)
    else
      let chain ← readBlock state
      return (.ok, some { a with chain })

/-- `zuc_aes_cbc_get_state`. -/
def zucAesCbcGetState (aes : Option ZucAes) (state : Nat) : Adapter O ZucStatus := do
  match aes with
  | none => return .errInvalidArgument
  | some a =>
    if state = NULL then
      return .errInvalidArgument
    else
      writeMem state a.chain.1
      return .ok

/-- `check_block_args`. -/
def checkBlockArgs (aes : Option ZucAes) (inp len out : Nat) : Adapter O ZucStatus := do
  match aes with
  | none => return .errInvalidArgument
  | some _ =>
    let ready ← zucIntReady
    if ready = false then
      return .errNotReady
    else if len = 0 then
      return .ok
    else if inp = NULL ∨ out = NULL then
      return .errInvalidArgument
    else if len % ZUC_AES_BLOCK_SIZE ≠ 0 then
      return .errBadLength
    else if zucIntOverlaps inp out len then
      return .errOverlap
    else
      return .ok

/-- `psa_cipher_encrypt_setup` or `psa_cipher_decrypt_setup`. -/
def cipherSetup (dir : Direction) (op : O.Cipher) (key : KeyId) (alg : PsaAlg) :
    PsaCall O (PsaStatus × O.Cipher) :=
  match dir with
  | .encrypt => .cipherEncryptSetup op key alg
  | .decrypt => .cipherDecryptSetup op key alg

/-- The label `fail` of `cipher_run`. -/
def cipherFail (op : O.Cipher) (ps : PsaStatus) : Adapter O ZucStatus := do
  let _ ← psa (.cipherAbort op)
  return zucIntFromPsa ps

/-- `cipher_run`. -/
def cipherRun (key : KeyId) (dir : Direction) (iv : AesBlock) (inp len out : Nat) :
    Adapter O ZucStatus := do
  let setup ← psa (cipherSetup dir O.cipherInit key .cbcNoPadding)
  if setup.1 ≠ .success then
    cipherFail setup.2 setup.1
  else
    let start ← psa (.cipherSetIv setup.2 iv.1)
    if start.1 ≠ .success then
      cipherFail start.2 start.1
    else
      let input ← readMem inp len
      let update ← psa (.cipherUpdate start.2 input len)
      writeOutput out len update.2.2
      if update.1 ≠ .success then
        cipherFail update.2.1 update.1
      else
        let produced := update.2.2.len
        let finish ← psa (.cipherFinish update.2.1 (sizeSub len produced))
        writeOutput (out + produced) (sizeSub len produced) finish.2.2
        if finish.1 ≠ .success then
          cipherFail finish.2.1 finish.1
        else if sizeAdd produced finish.2.2.len ≠ len then
          let _ ← psa (.cipherAbort finish.2.1)
          return .errInternal
        else
          return .ok

/-- `zuc_aes_cbc_encrypt`. -/
def zucAesCbcEncrypt (aes : Option ZucAes) (inp len out : Nat) :
    Adapter O (ZucStatus × Option ZucAes) := do
  let st ← checkBlockArgs aes inp len out
  match aes with
  | none => return (st, none)
  | some a =>
    if st ≠ .ok ∨ len = 0 then
      return (st, some a)
    else
      let st ← cipherRun a.key .encrypt a.chain inp len out
      if st ≠ .ok then
        return (st, some a)
      else
        let chain ← readBlock (out + len - ZUC_AES_BLOCK_SIZE)
        return (.ok, some { a with chain })

/-- `zuc_aes_cbc_decrypt`. -/
def zucAesCbcDecrypt (aes : Option ZucAes) (inp len out : Nat) :
    Adapter O (ZucStatus × Option ZucAes) := do
  let st ← checkBlockArgs aes inp len out
  match aes with
  | none => return (st, none)
  | some a =>
    if st ≠ .ok ∨ len = 0 then
      return (st, some a)
    else
      -- in place, the pass overwrites the block this reads
      let next ← readBlock (inp + len - ZUC_AES_BLOCK_SIZE)
      let st ← cipherRun a.key .decrypt a.chain inp len out
      dropLocal (secureZero next.1)
      if st ≠ .ok then
        return (st, some a)
      else
        return (.ok, some { a with chain := next })

/-! ### Running them -/

section
variable {σ : Type} {h : Handler (Call O) σ} {w : World} {s : σ} {a : ZucAes} {inp len out : Nat}

@[simp] theorem exec_readBlock (h : Handler (Call O) σ) (w : World) (s : σ) (p : Nat) :
    (readBlock p : Adapter O _).exec h w s = ⟨blockAt w.mem p, w, s⟩ := (rfl)

/-- The verdict of the checks on a handle: it depends on the arguments, and on
whether the library is ready. -/
def blockArgs (ready : Bool) (inp len out : Nat) : ZucStatus :=
  if ready = false then .errNotReady
  else if len = 0 then .ok
  else if inp = NULL ∨ out = NULL then .errInvalidArgument
  else if len % ZUC_AES_BLOCK_SIZE ≠ 0 then .errBadLength
  else if zucIntOverlaps inp out len then .errOverlap
  else .ok

theorem exec_checkBlockArgs (h : Handler (Call O) σ) (w : World) (s : σ) (a : ZucAes)
    (inp len out : Nat) :
    (checkBlockArgs (some a) inp len out).exec h w s =
      ⟨blockArgs (decide (0 < w.refcount)) inp len out, w, s⟩ := by
  simp only [checkBlockArgs, blockArgs, Proc.exec_bind, exec_zucIntReady, Proc.exec_ite,
    Proc.exec_pure]
  repeat' split
  all_goals rfl

theorem blockArgs_ok {ready : Bool} (hargs : blockArgs ready inp len out = .ok)
    (hlen : len ≠ 0) :
    ready = true ∧ inp ≠ NULL ∧ out ≠ NULL ∧ len % ZUC_AES_BLOCK_SIZE = 0 ∧
      zucIntOverlaps inp out len = false := by
  unfold blockArgs at hargs
  repeat' split at hargs
  all_goals simp_all

/-- Of buffers, exactly those that overlap without being the same are refused. -/
theorem blockArgs_overlap (ready : Bool) (hinp : ValidBuffer inp len) (hout : ValidBuffer out len) :
    blockArgs ready inp len out = .errOverlap ↔
      ready = true ∧ len ≠ 0 ∧ len % ZUC_AES_BLOCK_SIZE = 0 ∧ inp ≠ out ∧
        ¬ Apart inp len out len := by
  rw [← zucIntOverlaps_iff hinp hout]
  have hnull : ¬ (inp = NULL ∨ out = NULL) := not_or.mpr ⟨hinp.1, hout.1⟩
  unfold blockArgs
  rw [if_neg hnull]
  repeat' split
  all_goals simp_all

end

end Zucrypt
