import Zucrypt.ReferenceBackend

/-! # The vendored multipart layer

The `psa_hash_*` and `psa_mac_*` functions of the vendored `psa_crypto.c`, over any driver.  They
copy the caller's buffers into storage of their own, which may fail to be allocated, and keep `id`
nonzero exactly while an operation is set up.  What they do on a failure differs: `psa_hash_update`
aborts whatever failed, `psa_mac_update` leaves at once when the copy could not be made.

`Driver` is what is under the layer, with a state of its own in which the failures of allocations
are told too, so that a statement about every driver is one about every pattern of them.
`multipartBackend` puts the layer on top of one, as a backend of the adapter. -/
namespace Zucrypt
open Effects ByteMemory

/-- `psa_hash_operation_t`. -/
structure PsaHashOperation (C : Type) where
  id : Nat
  ctx : C

/-- `psa_mac_operation_t`. -/
structure PsaMacOperation (C : Type) where
  id : Nat
  macSize : Nat
  isSign : Bool
  ctx : C

/-- `PSA_CRYPTO_MBED_TLS_DRIVER_ID`. -/
def PSA_CRYPTO_MBED_TLS_DRIVER_ID : Nat := 1

/-- What is below the layer: the allocator, the key slots, and the driver with
its contexts `HC` and `MC`.  `δ` is their state, the pattern of allocation
failures included. -/
structure Driver (δ HC MC : Type) where
  hashCtx : HC
  macCtx : MC
  /-- whether the next allocation fails -/
  alloc : δ → Bool × δ
  /-- whether one has failed between two states -/
  failedBetween : δ → δ → Bool
  hashSetup : PsaAlg → δ → (PsaStatus × HC) × δ
  hashUpdate : HC → List Byte → δ → (PsaStatus × HC) × δ
  hashFinish : HC → Nat → δ → (PsaStatus × Output) × δ
  hashAbort : HC → δ → δ
  /-- `psa_get_and_lock_key_slot_with_policy` -/
  lockKey : KeyId → PsaKeyUsage → PsaAlg → δ → (PsaStatus × PsaKeyAttributes × List Byte) × δ
  /-- its reverse -/
  unlockKey : KeyId → δ → PsaStatus × δ
  macSignSetup : PsaKeyAttributes → List Byte → PsaAlg → δ → (PsaStatus × MC) × δ
  macUpdate : MC → List Byte → δ → (PsaStatus × MC) × δ
  macSignFinish : MC → Nat → δ → (PsaStatus × Output) × δ
  macAbort : MC → δ → PsaStatus × δ

section
variable {δ HC MC : Type} (D : Driver δ HC MC)

/-! ### Copies of the caller's buffers -/

/-- `LOCAL_INPUT_ALLOC`, `LOCAL_OUTPUT_ALLOC`: nothing is allocated for length 0. -/
def localAlloc (length : Nat) (s : δ) : PsaStatus × δ :=
  if length = 0 then
    (.success, s)
  else
    let r := D.alloc s
    (if r.1 then .errorInsufficientMemory else .success, r.2)

/-! ### Hashes -/

/-- `psa_hash_abort`. -/
def psaHashAbort (op : PsaHashOperation HC) (s : δ) : PsaHashOperation HC × δ :=
  if op.id = 0 then (op, s) else ({ op with id := 0 }, D.hashAbort op.ctx s)

/-- `psa_hash_setup`. -/
def psaHashSetup (op : PsaHashOperation HC) (alg : PsaAlg) (s : δ) :
    (PsaStatus × PsaHashOperation HC) × δ :=
  if op.id ≠ 0 then
    let a := psaHashAbort D op s
    ((.errorBadState, a.1), a.2)
  else if alg.isHash = false then
    let a := psaHashAbort D op s
    ((.errorInvalidArgument, a.1), a.2)
  else
    let r := D.hashSetup alg s
    if r.1.1 = .success then
      ((.success, ⟨PSA_CRYPTO_MBED_TLS_DRIVER_ID, r.1.2⟩), r.2)
    else
      let a := psaHashAbort D { op with ctx := r.1.2 } r.2
      ((r.1.1, a.1), a.2)

/-- `psa_hash_update`: every failure aborts. -/
def psaHashUpdate (op : PsaHashOperation HC) (input : List Byte) (s : δ) :
    (PsaStatus × PsaHashOperation HC) × δ :=
  if op.id = 0 then
    let a := psaHashAbort D op s
    ((.errorBadState, a.1), a.2)
  else if input.length = 0 then
    ((.success, op), s)
  else
    let c := localAlloc D input.length s
    if c.1 ≠ .success then
      let a := psaHashAbort D op c.2
      ((c.1, a.1), a.2)
    else
      let r := D.hashUpdate op.ctx input c.2
      if r.1.1 ≠ .success then
        let a := psaHashAbort D { op with ctx := r.1.2 } r.2
        ((r.1.1, a.1), a.2)
      else
        ((.success, { op with ctx := r.1.2 }), r.2)

/-- `psa_hash_finish`: the operation is left alone when the copy cannot be made. -/
def psaHashFinish (op : PsaHashOperation HC) (hashSize : Nat) (s : δ) :
    (PsaStatus × PsaHashOperation HC × Output) × δ :=
  let c := localAlloc D hashSize s
  if c.1 ≠ .success then
    ((c.1, op, ⟨[], 0⟩), c.2)
  else if op.id = 0 then
    ((.errorBadState, op, ⟨List.replicate hashSize 0, 0⟩), c.2)
  else
    let r := D.hashFinish op.ctx hashSize c.2
    let a := psaHashAbort D op r.2
    ((r.1.1, a.1, r.1.2), a.2)

/-! ### MACs -/

/-- `PSA_MAC_LENGTH`, of HMAC. -/
def psaMacLength : PsaAlg → Nat
  | .hmac alg => psaHashLength alg
  | _ => 0

/-- `psa_mac_finalize_alg_and_key_validation`. -/
def psaMacFinalizeAlgAndKeyValidation (alg : PsaAlg) (attr : PsaKeyAttributes) : PsaStatus × Nat :=
  match alg with
  | .hmac _ =>
    if attr.type ≠ .hmac then
      (.errorInvalidArgument, 0)
    else if psaMacLength alg < 4 then
      (.errorNotSupported, psaMacLength alg)
    else
      (.success, psaMacLength alg)
  | _ => (.errorInvalidArgument, 0)

/-- `psa_mac_abort`. -/
def psaMacAbort (op : PsaMacOperation MC) (s : δ) : (PsaStatus × PsaMacOperation MC) × δ :=
  if op.id = 0 then
    ((.success, op), s)
  else
    let r := D.macAbort op.ctx s
    ((r.1, { op with id := 0, macSize := 0, isSign := false }), r.2)

/-- `psa_unregister_read_under_mutex`, of a slot that was found or of none. -/
def psaUnregisterRead (slot : Option KeyId) (s : δ) : PsaStatus × δ :=
  match slot with
  | none => (.success, s)
  | some key => D.unlockKey key s

/-- The end of `psa_mac_setup`: an abort unless it succeeded, and the key slot. -/
def psaMacSetupExit (slot : Option KeyId) (status : PsaStatus) (op : PsaMacOperation MC) (s : δ) :
    (PsaStatus × PsaMacOperation MC) × δ :=
  if status ≠ .success then
    let a := psaMacAbort D op s
    let u := psaUnregisterRead D slot a.2
    ((status, a.1.2), u.2)
  else
    let u := psaUnregisterRead D slot s
    ((u.1, op), u.2)

/-- `psa_mac_sign_setup`, which is `psa_mac_setup` for a signature. -/
def psaMacSignSetup (op : PsaMacOperation MC) (key : KeyId) (alg : PsaAlg) (s : δ) :
    (PsaStatus × PsaMacOperation MC) × δ :=
  if op.id ≠ 0 then
    psaMacSetupExit D none .errorBadState op s
  else
    let k := D.lockKey key .signMessage alg s
    if k.1.1 ≠ .success then
      psaMacSetupExit D none k.1.1 op k.2
    else
      let v := psaMacFinalizeAlgAndKeyValidation alg k.1.2.1
      let op := { op with macSize := v.2 }
      if v.1 ≠ .success then
        psaMacSetupExit D (some key) v.1 op k.2
      else
        let r := D.macSignSetup k.1.2.1 k.1.2.2 alg k.2
        let id := if r.1.1 = .success then PSA_CRYPTO_MBED_TLS_DRIVER_ID else 0
        psaMacSetupExit D (some key) r.1.1 { op with id, isSign := true, ctx := r.1.2 } r.2

/-- `psa_mac_update`: a copy that cannot be made leaves past the abort. -/
def psaMacUpdate (op : PsaMacOperation MC) (input : List Byte) (s : δ) :
    (PsaStatus × PsaMacOperation MC) × δ :=
  if op.id = 0 then
    ((.errorBadState, op), s)
  else if input.length = 0 then
    ((.success, op), s)
  else
    let c := localAlloc D input.length s
    if c.1 ≠ .success then
      ((c.1, op), c.2)
    else
      let r := D.macUpdate op.ctx input c.2
      if r.1.1 ≠ .success then
        let a := psaMacAbort D { op with ctx := r.1.2 } r.2
        ((r.1.1, a.1.2), a.2)
      else
        ((.success, { op with ctx := r.1.2 }), r.2)

/-- `psa_wipe_tag_output_buffer`: an exclamation mark in every byte that is not
part of the MAC. -/
def psaWipeTagOutputBuffer (status : PsaStatus) (size : Nat) (o : Output) : List Byte :=
  if status = .success then
    o.reported ++ List.replicate (size - o.len) 0x21
  else
    List.replicate size 0x21

/-- The end of `psa_mac_sign_finish`; `copied` says whether there is a copy of the
output buffer. -/
def psaMacSignFinishExit (op : PsaMacOperation MC) (macSize : Nat) (copied : Bool)
    (status : PsaStatus) (o : Output) (s : δ) : (PsaStatus × PsaMacOperation MC × Output) × δ :=
  let len := if status ≠ .success then macSize else o.len
  let op := if status ≠ .success then { op with macSize := 0 } else op
  let bytes := if copied then psaWipeTagOutputBuffer status macSize ⟨o.bytes, len⟩ else []
  let a := psaMacAbort D op s
  ((if status = .success then a.1.1 else status, a.1.2, ⟨bytes, len⟩), a.2)

/-- `psa_mac_sign_finish`. -/
def psaMacSignFinish (op : PsaMacOperation MC) (macSize : Nat) (s : δ) :
    (PsaStatus × PsaMacOperation MC × Output) × δ :=
  let c := localAlloc D macSize s
  if c.1 ≠ .success then
    psaMacSignFinishExit D op macSize false c.1 ⟨[], 0⟩ c.2
  else if op.id = 0 ∨ op.isSign = false ∨ op.macSize = 0 then
    psaMacSignFinishExit D op macSize (decide (macSize ≠ 0)) .errorBadState ⟨[], 0⟩ c.2
  else if macSize < op.macSize then
    psaMacSignFinishExit D op macSize (decide (macSize ≠ 0)) .errorBufferTooSmall ⟨[], 0⟩ c.2
  else
    let r := D.macSignFinish op.ctx op.macSize c.2
    psaMacSignFinishExit D op macSize (decide (macSize ≠ 0)) r.1.1 r.1.2 r.2

end

/-! ### As a backend -/

/-- The layer's operation objects; the others are not used here. -/
def multipartObjects {δ HC MC : Type} (D : Driver δ HC MC) : Objects where
  Hash := PsaHashOperation HC
  Mac := PsaMacOperation MC
  Cipher := Unit
  Aead := Unit
  Kdf := Unit
  Pk := Unit
  hashInit := ⟨0, D.hashCtx⟩
  macInit := ⟨0, 0, false, D.macCtx⟩
  cipherInit := ()
  aeadInit := ()
  kdfInit := ()
  pkInit := ()

/-- A backend with this layer on top of `D`; every other call is answered by `rest`. -/
def multipartBackend {δ HC MC : Type} (D : Driver δ HC MC)
    (rest : Handler (Call (multipartObjects D)) δ) : Handler (Call (multipartObjects D)) δ
  | _, .psa (.hashSetup op alg), s =>
    let r := psaHashSetup D op alg s
    (⟨r.1, D.failedBetween s r.2⟩, r.2)
  | _, .psa (.hashUpdate op input), s =>
    let r := psaHashUpdate D op input s
    (⟨r.1, D.failedBetween s r.2⟩, r.2)
  | _, .psa (.hashFinish op size), s =>
    let r := psaHashFinish D op size s
    (⟨r.1, D.failedBetween s r.2⟩, r.2)
  | _, .psa (.hashAbort op), s =>
    let r := psaHashAbort D op s
    (⟨r.1, D.failedBetween s r.2⟩, r.2)
  | _, .psa (.macSignSetup op key alg), s =>
    let r := psaMacSignSetup D op key alg s
    (⟨r.1, D.failedBetween s r.2⟩, r.2)
  | _, .psa (.macUpdate op input), s =>
    let r := psaMacUpdate D op input s
    (⟨r.1, D.failedBetween s r.2⟩, r.2)
  | _, .psa (.macSignFinish op size), s =>
    let r := psaMacSignFinish D op size s
    (⟨r.1, D.failedBetween s r.2⟩, r.2)
  | _, .psa (.macAbort op), s =>
    let r := psaMacAbort D op s
    (⟨r.1.2, D.failedBetween s r.2⟩, r.2)
  | β, c, s => rest β c s

/-! ### What a failure leaves -/

section
variable {δ HC MC : Type} (D : Driver δ HC MC)

/-- The copy is the only allocation, and fails when the allocator does. -/
theorem localAlloc_status (n : Nat) (s : δ) :
    (localAlloc D n s).1 = .success ↔ n = 0 ∨ (D.alloc s).1 = false := by
  unfold localAlloc
  by_cases hn : n = 0
  · simp [hn]
  · cases hf : (D.alloc s).1 <;> simp [hn, hf]

theorem psaHashAbort_id (op : PsaHashOperation HC) (s : δ) : (psaHashAbort D op s).1.id = 0 := by
  unfold psaHashAbort
  split
  · assumption
  · rfl

theorem psaMacAbort_id (op : PsaMacOperation MC) (s : δ) : (psaMacAbort D op s).1.2.id = 0 := by
  unfold psaMacAbort
  split
  · assumption
  · rfl

/-- However a hash update fails, the operation is over. -/
theorem psaHashUpdate_failed {op : PsaHashOperation HC} {input : List Byte} {s : δ}
    (h : (psaHashUpdate D op input s).1.1 ≠ .success) : (psaHashUpdate D op input s).1.2.id = 0 := by
  unfold psaHashUpdate at h ⊢
  split at h
  · rw [if_pos ‹_›]
    exact psaHashAbort_id D _ _
  · split at h
    · exact absurd rfl h
    · rw [if_neg ‹_›, if_neg ‹_›]
      dsimp only at h ⊢
      split at h
      · rw [if_pos ‹_›]
        exact psaHashAbort_id D _ _
      · rw [if_neg ‹_›]
        split at h
        · rw [if_pos ‹_›]
          exact psaHashAbort_id D _ _
        · exact absurd rfl h

/-- An operation that is over takes no update, -/
theorem psaHashUpdate_over {op : PsaHashOperation HC} (hop : op.id = 0) (input : List Byte) (s : δ) :
    (psaHashUpdate D op input s).1.1 = .errorBadState ∧
      (psaHashUpdate D op input s).1.2.id = 0 := by
  unfold psaHashUpdate
  rw [if_pos hop]
  exact ⟨rfl, psaHashAbort_id D _ _⟩

/-- and gives no digest. -/
theorem psaHashFinish_over {op : PsaHashOperation HC} (hop : op.id = 0) (size : Nat) (s : δ) :
    (psaHashFinish D op size s).1.1 ≠ .success := by
  unfold psaHashFinish
  dsimp only
  split
  · assumption
  · simp

/-- A MAC update that fails other than for want of a copy ends the operation. -/
theorem psaMacUpdate_failed {op : PsaMacOperation MC} {input : List Byte} {s : δ}
    (hcopy : op.id ≠ 0 → input.length ≠ 0 → (D.alloc s).1 = false)
    (h : (psaMacUpdate D op input s).1.1 ≠ .success) : (psaMacUpdate D op input s).1.2.id = 0 := by
  unfold psaMacUpdate at h ⊢
  split at h
  · rw [if_pos ‹_›]
    assumption
  · split at h
    · exact absurd rfl h
    · rename_i hid hlen
      have hc := (localAlloc_status D input.length s).mpr (Or.inr (hcopy hid hlen))
      rw [if_neg hid, if_neg hlen]
      simp only [hc, ne_eq, not_true_eq_false, if_false] at h ⊢
      split at h
      · rw [if_pos ‹_›]
        exact psaMacAbort_id D _ _
      · exact absurd rfl h

theorem psaMacUpdate_over {op : PsaMacOperation MC} (hop : op.id = 0) (input : List Byte) (s : δ) :
    (psaMacUpdate D op input s).1.1 = .errorBadState ∧ (psaMacUpdate D op input s).1.2.id = 0 := by
  unfold psaMacUpdate
  rw [if_pos hop]
  exact ⟨rfl, hop⟩

theorem psaMacSignFinishExit_failed {op : PsaMacOperation MC} {macSize : Nat} {copied : Bool}
    {status : PsaStatus} {o : Output} {s : δ} (h : status ≠ .success) :
    (psaMacSignFinishExit D op macSize copied status o s).1.1 ≠ .success := by
  simp only [psaMacSignFinishExit, if_neg h]
  exact h

theorem psaMacSignFinish_over {op : PsaMacOperation MC} (hop : op.id = 0) (size : Nat) (s : δ) :
    (psaMacSignFinish D op size s).1.1 ≠ .success := by
  unfold psaMacSignFinish
  dsimp only
  split
  · exact psaMacSignFinishExit_failed D ‹_›
  · rw [if_pos (Or.inl hop)]
    exact psaMacSignFinishExit_failed D (by simp)

end

end Zucrypt
