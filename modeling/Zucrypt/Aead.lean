import Zucrypt.Aes

/-! # One-shot authenticated encryption

`zuc_aead.c`.  One pass imports the key, drives the backend's multipart operation through setup,
nonce, associated data, data and tag, each step only if those before it succeeded, and destroys the
key.  `AeadProgress` is what is carried from step to step.

The tag is read from the caller's memory when it is verified, after the data has been written; and
it is written last when it is made.  The checks compare input with output and neither with the tag,
so a tag may be anywhere, and what comes of that is `AeadPlacement`.

After a pass that failed the output is wiped, and by an encryption its tag too; arguments that do
not pass leave everything as it was. -/
namespace Zucrypt
open Effects ByteMemory BlockChaining

variable {O : Objects}

/-- `psa_aead_alg`. -/
def psaAeadAlg : ZucAlg → PsaAlg
  | .aesGcm => .gcm
  | _ => .none

/-- The verdict of `check_aead_args`, given whether the library is ready. -/
def aeadArgs (ready : Bool) (dir : Direction) (alg : ZucAlg)
    (key keyLen nonce nonceLen aad aadLen inp len out tag tagLen : Nat) : ZucStatus :=
  if ready = false then .errNotReady
  else if key = NULL ∨ nonce = NULL ∨ tag = NULL ∨ (aad = NULL ∧ aadLen ≠ 0) ∨
      ((inp = NULL ∨ out = NULL) ∧ len ≠ 0) then .errInvalidArgument
  else if psaAeadAlg alg = .none then .errUnsupported
  else if (keyLen ≠ ZUC_AES_KEY_SIZE_128 ∧ keyLen ≠ ZUC_AES_KEY_SIZE_192 ∧
      keyLen ≠ ZUC_AES_KEY_SIZE_256) ∨ nonceLen ≠ ZUC_GCM_NONCE_SIZE then .errBadLength
  else if tagLen ≠ ZUC_GCM_TAG_SIZE then
    -- a received tag of another length cannot match, a tag to be written must be whole
    match dir with
    | .encrypt => .errBadLength
    | .decrypt => .errAuth
  else if len ≠ 0 ∧ zucIntOverlaps inp out len then .errOverlap
  else .ok

/-- `check_aead_args`. -/
def checkAeadArgs (dir : Direction) (alg : ZucAlg)
    (key keyLen nonce nonceLen aad aadLen inp len out tag tagLen : Nat) : Adapter O ZucStatus := do
  let ready ← zucIntReady
  return aeadArgs ready dir alg key keyLen nonce nonceLen aad aadLen inp len out tag tagLen

/-- `import_aead_key`. -/
def importAeadKey (key keyLen : Nat) (palg : PsaAlg) : Adapter O (ZucStatus × KeyId) := do
  let bytes ← readMem key keyLen
  let r ← psa (.importKey (aesKeyAttributes palg) bytes)
  return (zucIntFromPsa r.1, r.2)

/-- `psa_aead_encrypt_setup` or `psa_aead_decrypt_setup`. -/
def aeadSetup (dir : Direction) (op : O.Aead) (key : KeyId) (alg : PsaAlg) :
    PsaCall O (PsaStatus × O.Aead) :=
  match dir with
  | .encrypt => .aeadEncryptSetup op key alg
  | .decrypt => .aeadDecryptSetup op key alg

/-- The local variables of `aead_run`. -/
structure AeadProgress (O : Objects) where
  ps : PsaStatus
  op : O.Aead
  produced : Nat := 0
  finished : Nat := 0
  tagOut : Nat := 0

/-- The nonce. -/
def aeadNonce (nonce nonceLen : Nat) (a : AeadProgress O) : Adapter O (AeadProgress O) := do
  if a.ps = .success then
    let bytes ← readMem nonce nonceLen
    let r ← psa (.aeadSetNonce a.op bytes)
    return { a with ps := r.1, op := r.2 }
  else
    return a

/-- The associated data, if there is any. -/
def aeadAd (aad aadLen : Nat) (a : AeadProgress O) : Adapter O (AeadProgress O) := do
  if a.ps = .success ∧ aadLen ≠ 0 then
    let bytes ← readMem aad aadLen
    let r ← psa (.aeadUpdateAd a.op bytes)
    return { a with ps := r.1, op := r.2 }
  else
    return a

/-- The data, if there is any. -/
def aeadData (inp len out : Nat) (a : AeadProgress O) : Adapter O (AeadProgress O) := do
  if a.ps = .success ∧ len ≠ 0 then
    let bytes ← readMem inp len
    let r ← psa (.aeadUpdate a.op bytes len)
    writeOutput out len r.2.2
    return { a with ps := r.1, op := r.2.1, produced := r.2.2.len }
  else
    return a

/-- The end of the data, and the tag: written or verified. -/
def aeadLast (dir : Direction) (len out tag tagLen : Nat) (a : AeadProgress O) :
    Adapter O (AeadProgress O) := do
  if a.ps = .success then
    let rest := if len ≠ 0 then out + a.produced else out
    let room := sizeSub len a.produced
    match dir with
    | .encrypt =>
      let r ← psa (.aeadFinish a.op room tagLen)
      writeOutput rest room r.2.2.1
      writeOutput tag tagLen r.2.2.2
      return { a with ps := r.1, op := r.2.1, finished := r.2.2.1.len, tagOut := r.2.2.2.len }
    | .decrypt =>
      let bytes ← readMem tag tagLen
      let r ← psa (.aeadVerify a.op room bytes)
      writeOutput rest room r.2.2
      return { a with ps := r.1, op := r.2.1, finished := r.2.2.len }
  else
    return a

/-- The end of `aead_run`. -/
def aeadEnd (dir : Direction) (len tagLen : Nat) (k : KeyId) (a : AeadProgress O) :
    Adapter O ZucStatus := do
  if a.ps ≠ .success then
    let _ ← psa (.aeadAbort a.op)
    psa (.destroyKey k)
    return if a.ps = .errorInvalidSignature then .errAuth else zucIntFromPsa a.ps
  else
    psa (.destroyKey k)
    return if sizeAdd a.produced a.finished ≠ len ∨ (dir = .encrypt ∧ a.tagOut ≠ tagLen) then
      .errInternal else .ok

/-- `aead_run`. -/
def aeadRun (dir : Direction) (alg : ZucAlg)
    (key keyLen nonce nonceLen aad aadLen inp len out tag tagLen : Nat) : Adapter O ZucStatus := do
  let k ← importAeadKey key keyLen (psaAeadAlg alg)
  if k.1 ≠ .ok then
    return k.1
  else
    let setup ← psa (aeadSetup dir O.aeadInit k.2 (psaAeadAlg alg))
    let a ← aeadNonce nonce nonceLen { ps := setup.1, op := setup.2 }
    let a ← aeadAd aad aadLen a
    let a ← aeadData inp len out a
    let a ← aeadLast dir len out tag tagLen a
    aeadEnd dir len tagLen k.2 a

/-- What `zuc_aead_encrypt` does with the result of its pass. -/
def settleEncrypt (len ciphertext tag tagLen : Nat) (st : ZucStatus) : Adapter O ZucStatus := do
  if st ≠ .ok then
    let _ ← (if len ≠ 0 then zucSecureZero ciphertext len else pure () : Adapter O Unit)
    zucSecureZero tag tagLen
    return st
  else
    return st

/-- `zuc_aead_encrypt`. -/
def zucAeadEncrypt (alg : ZucAlg) (key keyLen nonce nonceLen aad aadLen plaintext len ciphertext
    tag tagLen : Nat) : Adapter O ZucStatus := do
  let st ← checkAeadArgs .encrypt alg key keyLen nonce nonceLen aad aadLen plaintext len ciphertext
    tag tagLen
  if st ≠ .ok then
    return st
  else
    let st ← aeadRun .encrypt alg key keyLen nonce nonceLen aad aadLen plaintext len ciphertext tag
      tagLen
    settleEncrypt len ciphertext tag tagLen st

/-- What `zuc_aead_decrypt` does with the result of its pass. -/
def settleDecrypt (len plaintext : Nat) (st : ZucStatus) : Adapter O ZucStatus := do
  if st ≠ .ok ∧ len ≠ 0 then
    zucSecureZero plaintext len
    return st
  else
    return st

/-- `zuc_aead_decrypt`. -/
def zucAeadDecrypt (alg : ZucAlg) (key keyLen nonce nonceLen aad aadLen ciphertext len tag tagLen
    plaintext : Nat) : Adapter O ZucStatus := do
  let st ← checkAeadArgs .decrypt alg key keyLen nonce nonceLen aad aadLen ciphertext len plaintext
    tag tagLen
  if st ≠ .ok then
    return st
  else
    let st ← aeadRun .decrypt alg key keyLen nonce nonceLen aad aadLen ciphertext len plaintext tag
      tagLen
    settleDecrypt len plaintext st

/-- Where the rest of the data goes. -/
theorem rest_eq {out len p : Nat} (h : p ≤ len) : (if len ≠ 0 then out + p else out) = out + p := by
  split <;> omega

/-! ### The checks call nothing and write nothing -/

theorem checkAeadArgs_apply (dir : Direction) (alg : ZucAlg)
    (key keyLen nonce nonceLen aad aadLen inp len out tag tagLen : Nat) (w : World) :
    (checkAeadArgs dir alg key keyLen nonce nonceLen aad aadLen inp len out tag tagLen :
      Adapter O _) w =
      .done (aeadArgs (decide (0 < w.refcount)) dir alg key keyLen nonce nonceLen aad aadLen inp len
        out tag tagLen, w) := rfl

/-- Arguments that pass. -/
structure AeadArgs (ready : Bool) (alg : ZucAlg)
    (key keyLen nonce nonceLen aad aadLen inp len out tag tagLen : Nat) : Prop where
  ready : ready = true
  key : key ≠ NULL
  nonce : nonce ≠ NULL
  tag : tag ≠ NULL
  aad : aadLen ≠ 0 → aad ≠ NULL
  data : len ≠ 0 → inp ≠ NULL ∧ out ≠ NULL
  alg : alg = .aesGcm
  keyLen : keyLen = ZUC_AES_KEY_SIZE_128 ∨ keyLen = ZUC_AES_KEY_SIZE_192 ∨
    keyLen = ZUC_AES_KEY_SIZE_256
  nonceLen : nonceLen = ZUC_GCM_NONCE_SIZE
  tagLen : tagLen = ZUC_GCM_TAG_SIZE
  overlap : len ≠ 0 → zucIntOverlaps inp out len = false

theorem psaAeadAlg_eq_none {alg : ZucAlg} : psaAeadAlg alg = .none ↔ alg ≠ .aesGcm := by
  cases alg <;> simp [psaAeadAlg]

theorem aeadArgs_eq_ok {ready : Bool} {dir : Direction} {alg : ZucAlg}
    {key keyLen nonce nonceLen aad aadLen inp len out tag tagLen : Nat} :
    aeadArgs ready dir alg key keyLen nonce nonceLen aad aadLen inp len out tag tagLen = .ok ↔
      AeadArgs ready alg key keyLen nonce nonceLen aad aadLen inp len out tag tagLen := by
  constructor
  · intro hok
    unfold aeadArgs at hok
    split at hok
    · simp at hok
    split at hok
    · simp at hok
    split at hok
    · simp at hok
    split at hok
    · simp at hok
    split at hok
    · cases dir <;> simp at hok
    split at hok
    · simp at hok
    · rename_i hready hnull halg hlen htag hover
      rw [psaAeadAlg_eq_none] at halg
      constructor <;> grind
  · intro h
    obtain ⟨hready, hkey, hnonce, htag, haad, hdata, halg, hkeyLen, hnonceLen, htagLen, hover⟩ := h
    subst halg
    have hnull : ¬ (key = NULL ∨ nonce = NULL ∨ tag = NULL ∨ (aad = NULL ∧ aadLen ≠ 0) ∨
        ((inp = NULL ∨ out = NULL) ∧ len ≠ 0)) := by
      grind
    have hlens : ¬ ((keyLen ≠ ZUC_AES_KEY_SIZE_128 ∧ keyLen ≠ ZUC_AES_KEY_SIZE_192 ∧
        keyLen ≠ ZUC_AES_KEY_SIZE_256) ∨ nonceLen ≠ ZUC_GCM_NONCE_SIZE) := by
      grind
    have hover : ¬ (len ≠ 0 ∧ zucIntOverlaps inp out len = true) := by
      grind
    unfold aeadArgs
    rw [if_neg (by simp [hready]), if_neg hnull, if_neg (by simp [psaAeadAlg]), if_neg hlens,
      if_neg (not_not.mpr htagLen), if_neg hover]

end Zucrypt
