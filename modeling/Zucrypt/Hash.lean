import Zucrypt.Lifetime

/-! # Digests and HMAC

`zuc_hash.c`.  A `zuc_hash` and a `zuc_hmac` have the same shape, so update, finish and reset are
written once, over the four backend functions of a kind (`StreamOps`) and the key its setup takes;
each function of the source is that one applied to its kind.  Constructors and destructors differ,
and have bodies of their own.

A handle is `active` while it may be updated and finished.  Finishing it ends that, whether or not
the backend succeeds, and a reset sets it up once more.  An update that fails leaves the flag set,
and relies on the backend to have aborted the operation; a reset that fails leaves it clear.

A function that may be passed `NULL` is given an `Option`, and one that changes its handle gives the
handle back. -/
namespace Zucrypt
open Effects ByteMemory

variable {O : Objects} {κ Op : Type}

/-- `struct zuc_hash` and `struct zuc_hmac`, with the address they live at.  A
digest has no key. -/
structure StreamHandle (κ Op : Type) where
  self : Nat
  alg : ZucAlg
  palg : PsaAlg
  key : κ
  op : Op
  active : Bool

abbrev ZucHash (O : Objects) : Type := StreamHandle Unit O.Hash

abbrev ZucHmac (O : Objects) : Type := StreamHandle KeyId O.Mac

/-- The backend's functions on one kind of operation. -/
structure StreamOps (O : Objects) (κ Op : Type) where
  init : Op
  setup : Op → κ → PsaAlg → Adapter O (PsaStatus × Op)
  update : Op → List Byte → Adapter O (PsaStatus × Op)
  finish : Op → Nat → Adapter O (PsaStatus × Op × Output)
  abort : Op → Adapter O Op

/-- `psa_hash_*`. -/
def hashOps : StreamOps O Unit O.Hash where
  init := O.hashInit
  setup op _ alg := psa (.hashSetup op alg)
  update op input := psa (.hashUpdate op input)
  finish op size := psa (.hashFinish op size)
  abort op := psa (.hashAbort op)

/-- `psa_mac_*`. -/
def macOps : StreamOps O KeyId O.Mac where
  init := O.macInit
  setup op key alg := psa (.macSignSetup op key alg)
  update op input := psa (.macUpdate op input)
  finish op size := psa (.macSignFinish op size)
  abort op := psa (.macAbort op)

/-! ### The shape both kinds share -/

/-- `zuc_hash_update`, `zuc_hmac_update`. -/
def streamUpdate (B : StreamOps O κ Op) (handle : Option (StreamHandle κ Op))
    (data dataLen : Nat) : Adapter O (ZucStatus × Option (StreamHandle κ Op)) := do
  match handle with
  | none => return (.errInvalidArgument, none)
  | some h =>
    if data = NULL ∧ dataLen ≠ 0 then
      return (.errInvalidArgument, some h)
    else if h.active = false then
      return (.errInvalidArgument, some h)
    else if dataLen = 0 then
      return (.ok, some h)
    else
      let input ← readMem data dataLen
      let r ← B.update h.op input
      return (zucIntFromPsa r.1, some { h with op := r.2 })

/-- `zuc_hash_finish`, `zuc_hmac_finish`. -/
def streamFinish (B : StreamOps O κ Op) (handle : Option (StreamHandle κ Op))
    (out outSize : Nat) (outLen : SizeCell) :
    Adapter O (ZucStatus × Option (StreamHandle κ Op) × SizeCell) := do
  match handle with
  | none => return (.errInvalidArgument, none, outLen)
  | some h =>
    if out = NULL ∨ outLen = none then
      return (.errInvalidArgument, some h, outLen)
    else if h.active = false then
      return (.errInvalidArgument, some h, outLen)
    else if outSize < zucAlgSize h.alg then
      return (.errBadLength, some h, outLen)
    else
      let r ← B.finish h.op outSize
      writeOutput out outSize r.2.2
      return (zucIntFromPsa r.1, some { h with op := r.2.1, active := false },
        outLen.store r.2.2.len)

/-- The abort in a reset: only of an operation that is still set up. -/
def streamAbortActive (B : StreamOps O κ Op) (h : StreamHandle κ Op) :
    Adapter O (StreamHandle κ Op) := do
  if h.active then
    let op ← B.abort h.op
    return { h with op, active := false }
  else
    return h

/-- `zuc_hash_reset`, `zuc_hmac_reset`. -/
def streamReset (B : StreamOps O κ Op) (handle : Option (StreamHandle κ Op)) :
    Adapter O (ZucStatus × Option (StreamHandle κ Op)) := do
  match handle with
  | none => return (.errInvalidArgument, none)
  | some h =>
    let h ← streamAbortActive B h
    let r ← B.setup B.init h.key h.palg
    if r.1 ≠ .success then
      let op ← B.abort r.2
      return (zucIntFromPsa r.1, some { h with op })
    else
      return (.ok, some { h with op := r.2, active := true })

/-! ### What each does, case by case -/

section
variable {σ : Type} {h : Handler (Call O) σ} {B : StreamOps O κ Op} {hd : StreamHandle κ Op}
  {w : World} {s : σ} {data n out size : Nat} {cell : SizeCell}

theorem with_active_eq {b : Bool} (hb : hd.active = b) : { hd with active := b } = hd := by
  rw [← hb]

theorem exec_streamUpdate_null (hnull : data = NULL ∧ n ≠ 0) :
    (streamUpdate B (some hd) data n).exec h w s = ⟨(.errInvalidArgument, some hd), w, s⟩ := by
  simp only [streamUpdate, if_pos hnull, Proc.exec_pure]

theorem exec_streamUpdate_inactive (hactive : hd.active = false) :
    (streamUpdate B (some hd) data n).exec h w s = ⟨(.errInvalidArgument, some hd), w, s⟩ := by
  simp only [streamUpdate, hactive, if_true, Proc.exec_pure, ite_self]

theorem exec_streamUpdate_empty (hactive : hd.active = true) :
    (streamUpdate B (some hd) data 0).exec h w s = ⟨(.ok, some hd), w, s⟩ := by
  simp only [streamUpdate, ne_eq, not_true_eq_false, and_false, if_false, hactive,
    Bool.true_eq_false, if_true, Proc.exec_pure]

/-- An update that passes its checks is the backend's. -/
theorem exec_streamUpdate_call (hactive : hd.active = true) (hdata : data ≠ NULL) (hn : n ≠ 0) :
    (streamUpdate B (some hd) data n).exec h w s =
      let r := (B.update hd.op (read w.mem data n)).exec h w s
      ⟨(zucIntFromPsa r.value.1, some { hd with op := r.value.2 }), r.world, r.env⟩ := by
  simp only [streamUpdate, hdata, false_and, hactive, hn, Bool.true_eq_false, if_false,
    Proc.exec_bind, exec_readMem, Proc.exec_pure]

theorem exec_streamFinish_null (hnull : out = NULL ∨ cell = none) :
    (streamFinish B (some hd) out size cell).exec h w s =
      ⟨(.errInvalidArgument, some hd, cell), w, s⟩ := by
  simp only [streamFinish, if_pos hnull, Proc.exec_pure]

theorem exec_streamFinish_inactive (hactive : hd.active = false) :
    (streamFinish B (some hd) out size cell).exec h w s =
      ⟨(.errInvalidArgument, some hd, cell), w, s⟩ := by
  simp only [streamFinish, hactive, if_true, Proc.exec_pure, ite_self]

theorem exec_streamFinish_short (hactive : hd.active = true) (hnull : ¬ (out = NULL ∨ cell = none))
    (hshort : size < zucAlgSize hd.alg) :
    (streamFinish B (some hd) out size cell).exec h w s =
      ⟨(.errBadLength, some hd, cell), w, s⟩ := by
  simp only [streamFinish, if_neg hnull, hactive, Bool.true_eq_false, if_false, if_pos hshort,
    Proc.exec_pure]

/-- A finish that passes its checks is the backend's, and ends the handle's message. -/
theorem exec_streamFinish_call (hactive : hd.active = true) (hnull : ¬ (out = NULL ∨ cell = none))
    (hsize : zucAlgSize hd.alg ≤ size) :
    (streamFinish B (some hd) out size cell).exec h w s =
      let r := (B.finish hd.op size).exec h w s
      ⟨(zucIntFromPsa r.value.1, some { hd with op := r.value.2.1, active := false },
        cell.store r.value.2.2.len), r.world.store out (r.value.2.2.bytes.take size), r.env⟩ := by
  simp only [streamFinish, if_neg hnull, hactive, Bool.true_eq_false, if_false,
    if_neg (Nat.not_lt.mpr hsize), Proc.exec_bind, exec_writeOutput, Proc.exec_pure]

/-- Whatever the abort does, the handle is no longer active. -/
theorem exec_streamAbortActive_value (B : StreamOps O κ Op) (hd : StreamHandle κ Op) : ∃ op,
    ((streamAbortActive B hd).exec h w s).value = { hd with op, active := false } := by
  cases hactive : hd.active with
  | true =>
    simp only [streamAbortActive, hactive, if_true, Proc.exec_bind, Proc.exec_pure]
    exact ⟨_, rfl⟩
  | false =>
    simp only [streamAbortActive, hactive, Bool.false_eq_true, if_false, Proc.exec_pure]
    exact ⟨hd.op, (with_active_eq hactive).symm⟩

/-- A reset that does not succeed leaves the handle finished. -/
theorem streamReset_failed
    (hst : ((streamReset B (some hd)).exec h w s).value.1 ≠ .ok) :
    ∃ op, ((streamReset B (some hd)).exec h w s).value.2 = some { hd with op, active := false } := by
  obtain ⟨op, hvalue⟩ := exec_streamAbortActive_value (h := h) (w := w) (s := s) B hd
  simp only [streamReset, Proc.exec_bind, hvalue, Proc.exec_ite, Proc.exec_pure] at hst ⊢
  split
  · exact ⟨_, rfl⟩
  · rename_i hok
    rw [if_neg hok] at hst
    exact absurd rfl hst

end

/-- `check_digest_args`. -/
def checkDigestArgs (alg : ZucAlg) (data dataLen out outSize : Nat) (outLen : SizeCell) :
    Adapter O ZucStatus := do
  let ready ← zucIntReady
  if ready = false then
    return .errNotReady
  else if out = NULL ∨ outLen = none then
    return .errInvalidArgument
  else if data = NULL ∧ dataLen ≠ 0 then
    return .errInvalidArgument
  else if zucIntDigestAvailable alg = false then
    return .errUnsupported
  else if outSize < zucAlgSize alg then
    return .errBadLength
  else
    return .ok

/-! ### Digest -/

/-- `zuc_hash_compute`. -/
def zucHashCompute (alg : ZucAlg) (data dataLen out outSize : Nat) (outLen : SizeCell) :
    Adapter O (ZucStatus × SizeCell) := do
  let st ← checkDigestArgs alg data dataLen out outSize outLen
  if st ≠ .ok then
    return (st, outLen)
  else
    let input ← readMem data dataLen
    let r ← psa (.hashCompute (zucIntPsaHash alg) input outSize)
    writeOutput out outSize r.2
    return (zucIntFromPsa r.1, outLen.store r.2.len)

/-- `zuc_hash_new`; `out` says whether the caller's pointer is other than `NULL`. -/
def zucHashNew (alg : ZucAlg) (out : Bool) : Adapter O (ZucStatus × Option (ZucHash O)) := do
  if out = false then
    return (.errInvalidArgument, none)
  else
    let ready ← zucIntReady
    if ready = false then
      return (.errNotReady, none)
    else if zucIntDigestAvailable alg = false then
      return (.errUnsupported, none)
    else
      let p ← callocRecord .zucHash
      match p with
      | none => return (.errMemory, none)
      | some self =>
        let palg := zucIntPsaHash alg
        let r ← psa (.hashSetup O.hashInit palg)
        if r.1 ≠ .success then
          -- a partially built context is destroyed, never returned
          let _ ← psa (.hashAbort r.2)
          freeRecord .zucHash self
          return (zucIntFromPsa r.1, none)
        else
          zucIntLiveAdd 1
          return (.ok, some { self, alg, palg, key := (), op := r.2, active := true })

/-- `zuc_hash_update`. -/
def zucHashUpdate : Option (ZucHash O) → Nat → Nat → Adapter O (ZucStatus × Option (ZucHash O)) :=
  streamUpdate hashOps

/-- `zuc_hash_finish`. -/
def zucHashFinish : Option (ZucHash O) → Nat → Nat → SizeCell →
    Adapter O (ZucStatus × Option (ZucHash O) × SizeCell) :=
  streamFinish hashOps

/-- `zuc_hash_reset`. -/
def zucHashReset : Option (ZucHash O) → Adapter O (ZucStatus × Option (ZucHash O)) :=
  streamReset hashOps

/-- `zuc_hash_free`. -/
def zucHashFree (hash : Option (ZucHash O)) : Adapter O Unit := do
  match hash with
  | none => return ()
  | some h =>
    let _ ← psa (.hashAbort h.op)
    freeRecord .zucHash h.self
    zucIntLiveAdd (-1)

/-! ### HMAC -/

/-- The part of `import_hmac_key` after the key has been reduced: the backend
refuses a zero-length key, so the empty one is carried as a zero byte.
`reduced` is what was stored in the local array of that name. -/
def importReducedKey (palg : PsaAlg) (reduced key : List Byte) :
    Adapter O (ZucStatus × KeyId) := do
  let attr : PsaKeyAttributes := { type := .hmac, alg := palg, usage := [.signMessage] }
  let r ← psa (.importKey attr (if key.length = 0 then [0] else key))
  dropLocal (secureZero reduced)
  return (zucIntFromPsa r.1, r.2)

/-- `import_hmac_key`. -/
def importHmacKey (alg : ZucAlg) (key keyLen : Nat) (palg : PsaAlg) :
    Adapter O (ZucStatus × KeyId) := do
  let halg := zucIntPsaHash alg
  let bytes ← readMem key keyLen
  if psaHashBlockLength halg < keyLen then
    let r ← psa (.hashCompute halg bytes ZUC_MAX_DIGEST_SIZE)
    let reduced := r.2.bytes.take ZUC_MAX_DIGEST_SIZE
    if r.1 ≠ .success then
      dropLocal (secureZero reduced)
      return (zucIntFromPsa r.1, 0)
    else
      importReducedKey palg reduced (reduced.take r.2.len)
  else
    importReducedKey palg [] bytes

/-- `zuc_hmac_compute`. -/
def zucHmacCompute (alg : ZucAlg) (key keyLen data dataLen out outSize : Nat)
    (outLen : SizeCell) : Adapter O (ZucStatus × SizeCell) := do
  let st ← checkDigestArgs alg data dataLen out outSize outLen
  if st ≠ .ok then
    return (st, outLen)
  else if key = NULL ∧ keyLen ≠ 0 then
    return (.errInvalidArgument, outLen)
  else
    let palg := PsaAlg.hmac (zucIntPsaHash alg)
    let k ← importHmacKey alg key keyLen palg
    if k.1 ≠ .ok then
      return (k.1, outLen.store 0)
    else
      let input ← readMem data dataLen
      let r ← psa (.macCompute k.2 palg input outSize)
      writeOutput out outSize r.2
      psa (.destroyKey k.2)
      return (zucIntFromPsa r.1, outLen.store r.2.len)

/-- `zuc_hmac_new`. -/
def zucHmacNew (alg : ZucAlg) (key keyLen : Nat) (out : Bool) :
    Adapter O (ZucStatus × Option (ZucHmac O)) := do
  if out = false then
    return (.errInvalidArgument, none)
  else
    let ready ← zucIntReady
    if ready = false then
      return (.errNotReady, none)
    else if key = NULL ∧ keyLen ≠ 0 then
      return (.errInvalidArgument, none)
    else if zucIntDigestAvailable alg = false then
      return (.errUnsupported, none)
    else
      let p ← callocRecord .zucHmac
      match p with
      | none => return (.errMemory, none)
      | some self =>
        let palg := PsaAlg.hmac (zucIntPsaHash alg)
        let k ← importHmacKey alg key keyLen palg
        if k.1 ≠ .ok then
          freeRecord .zucHmac self
          return (k.1, none)
        else
          let r ← psa (.macSignSetup O.macInit k.2 palg)
          if r.1 ≠ .success then
            let _ ← psa (.macAbort r.2)
            psa (.destroyKey k.2)
            freeRecord .zucHmac self
            return (zucIntFromPsa r.1, none)
          else
            zucIntLiveAdd 1
            return (.ok, some { self, alg, palg, key := k.2, op := r.2, active := true })

/-- `zuc_hmac_update`. -/
def zucHmacUpdate : Option (ZucHmac O) → Nat → Nat → Adapter O (ZucStatus × Option (ZucHmac O)) :=
  streamUpdate macOps

/-- `zuc_hmac_finish`. -/
def zucHmacFinish : Option (ZucHmac O) → Nat → Nat → SizeCell →
    Adapter O (ZucStatus × Option (ZucHmac O) × SizeCell) :=
  streamFinish macOps

/-- `zuc_hmac_reset`. -/
def zucHmacReset : Option (ZucHmac O) → Adapter O (ZucStatus × Option (ZucHmac O)) :=
  streamReset macOps

/-- `zuc_hmac_free`. -/
def zucHmacFree (hmac : Option (ZucHmac O)) : Adapter O Unit := do
  match hmac with
  | none => return ()
  | some h =>
    let _ ← psa (.macAbort h.op)
    psa (.destroyKey h.key)
    freeRecord .zucHmac h.self
    zucIntLiveAdd (-1)

end Zucrypt
