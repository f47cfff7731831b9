import Zucrypt.PsaMultipart

/-! # The vendored one-shot digest and MAC

`psa_hash_compute` and `psa_mac_compute` of the vendored `psa_crypto.c`, over any driver.  What
matters here is the length each of them stores.  A digest that fails leaves what the driver left; a
MAC that fails leaves a length that makes the output unusable as one, which is the size of the
buffer.  Each `_spoiled` theorem says exactly when a length other than 0 is left behind, and the
public functions are held against them.

`Spoiled` is that outcome.  The conditions of the theorems speak of the allocation of the two copies
and of the driver's answer, in the state the call finds it in, and so they can be told before the
call.  `oneShotBackend` answers with these functions and those of `PsaMultipart`. -/
namespace Zucrypt
open Effects ByteMemory

/-- A driver with the one-shot entry points as well. -/
structure OneShotDriver (δ HC MC : Type) extends Driver δ HC MC where
  /-- `psa_driver_wrapper_hash_compute` -/
  hashCompute : PsaAlg → List Byte → Nat → δ → (PsaStatus × Output) × δ
  /-- `psa_driver_wrapper_mac_compute` -/
  macCompute : PsaKeyAttributes → List Byte → PsaAlg → List Byte → Nat → δ → (PsaStatus × Output) × δ

section
variable {δ HC MC : Type} (D : OneShotDriver δ HC MC)

/-- The two copies a one-shot call makes, of its input and for its output. -/
def localAllocs (inputLength outputSize : Nat) (s : δ) : PsaStatus × δ :=
  let c := localAlloc D.toDriver inputLength s
  if c.1 ≠ .success then c else localAlloc D.toDriver outputSize c.2

/-- `psa_hash_compute`. -/
def psaHashCompute (alg : PsaAlg) (input : List Byte) (hashSize : Nat) (s : δ) :
    (PsaStatus × Output) × δ :=
  if alg.isHash = false then
    ((.errorInvalidArgument, ⟨[], 0⟩), s)
  else
    let c := localAllocs D input.length hashSize s
    if c.1 ≠ .success then
      ((c.1, ⟨[], 0⟩), c.2)
    else
      D.hashCompute alg input hashSize c.2

/-- `psa_mac_compute_internal`, up to its exit: the status, what the driver left, and the
key slot that is still locked. -/
def psaMacComputeRun (key : KeyId) (alg : PsaAlg) (input : List Byte) (macSize : Nat) (s : δ) :
    (PsaStatus × Output × Option KeyId) × δ :=
  let k := D.lockKey key .signMessage alg s
  if k.1.1 ≠ .success then
    ((k.1.1, ⟨[], 0⟩, none), k.2)
  else
    let v := psaMacFinalizeAlgAndKeyValidation alg k.1.2.1
    if v.1 ≠ .success then
      ((v.1, ⟨[], 0⟩, some key), k.2)
    else if macSize < v.2 then
      ((.errorBufferTooSmall, ⟨[], 0⟩, some key), k.2)
    else
      let r := D.macCompute k.1.2.1 k.1.2.2 alg input v.2 k.2
      ((r.1.1, r.1.2, some key), r.2)

/-- `psa_mac_compute_internal`. -/
def psaMacComputeInternal (key : KeyId) (alg : PsaAlg) (input : List Byte) (macSize : Nat) (s : δ) :
    (PsaStatus × Output) × δ :=
  let r := psaMacComputeRun D key alg input macSize s
  let len := if r.1.1 ≠ .success then macSize else r.1.2.1.len
  let bytes := psaWipeTagOutputBuffer r.1.1 macSize ⟨r.1.2.1.bytes, len⟩
  let u := psaUnregisterRead D.toDriver r.1.2.2 r.2
  ((if r.1.1 = .success then u.1 else r.1.1, ⟨bytes, len⟩), u.2)

/-- `psa_mac_compute`. -/
def psaMacCompute (key : KeyId) (alg : PsaAlg) (input : List Byte) (macSize : Nat) (s : δ) :
    (PsaStatus × Output) × δ :=
  let c := localAllocs D input.length macSize s
  if c.1 ≠ .success then
    ((c.1, ⟨[], 0⟩), c.2)
  else
    psaMacComputeInternal D key alg input macSize c.2

/-- A backend with both layers on top of `D`. -/
def oneShotBackend (rest : Handler (Call (multipartObjects D.toDriver)) δ) :
    Handler (Call (multipartObjects D.toDriver)) δ
  | _, .psa (.hashCompute alg input size), s =>
    let r := psaHashCompute D alg input size s
    (⟨r.1, D.failedBetween s r.2⟩, r.2)
  | _, .psa (.macCompute key alg input size), s =>
    let r := psaMacCompute D key alg input size s
    (⟨r.1, D.failedBetween s r.2⟩, r.2)
  | β, c, s => multipartBackend D.toDriver rest β c s

/-! ### The length a failure leaves -/

/-- A failure that leaves a length other than 0. -/
def Spoiled (r : PsaStatus × Output) : Prop := r.1 ≠ .success ∧ r.2.len ≠ 0

instance (r : PsaStatus × Output) : Decidable (Spoiled r) := inferInstanceAs (Decidable (_ ∧ _))

theorem not_spoiled_zero (st : PsaStatus) (bs : List Byte) : ¬ Spoiled (st, ⟨bs, 0⟩) :=
  fun h => h.2 rfl

/-- The layer leaves 0 unless the driver was asked. -/
theorem psaHashCompute_spoiled (alg : PsaAlg) (input : List Byte) (size : Nat) (s : δ) :
    Spoiled (psaHashCompute D alg input size s).1 ↔
      alg.isHash = true ∧ (localAllocs D input.length size s).1 = .success ∧
        Spoiled (D.hashCompute alg input size (localAllocs D input.length size s).2).1 := by
  unfold psaHashCompute
  by_cases halg : alg.isHash = false
  · rw [if_pos halg]
    exact iff_of_false (not_spoiled_zero _ _) (by simp [halg])
  rw [if_neg halg]
  dsimp only
  by_cases hcopies : (localAllocs D input.length size s).1 = .success
  · rw [if_neg (not_not.mpr hcopies)]
    simp [halg, hcopies]
  · rw [if_pos hcopies]
    exact iff_of_false (not_spoiled_zero _ _) fun h => hcopies h.2.1

theorem psaHashFinish_spoiled (op : PsaHashOperation HC) (size : Nat) (s : δ) :
    Spoiled ((psaHashFinish D.toDriver op size s).1.1, (psaHashFinish D.toDriver op size s).1.2.2) ↔
      (localAlloc D.toDriver size s).1 = .success ∧ op.id ≠ 0 ∧
        Spoiled (D.hashFinish op.ctx size (localAlloc D.toDriver size s).2).1 := by
  unfold psaHashFinish
  dsimp only
  by_cases hcopy : (localAlloc D.toDriver size s).1 = .success
  · rw [if_neg (not_not.mpr hcopy)]
    by_cases hid : op.id = 0
    · rw [if_pos hid]
      exact iff_of_false (not_spoiled_zero _ _) fun h => h.2.1 hid
    · rw [if_neg hid]
      simp [hcopy, hid]
  · rw [if_pos hcopy]
    exact iff_of_false (not_spoiled_zero _ _) fun h => hcopy h.1

/-- A key that cannot be used, a buffer that is too small and a driver that fails leave the
size of the buffer; so does a slot that cannot be released leave the MAC's length. -/
theorem psaMacCompute_spoiled (key : KeyId) (alg : PsaAlg) (input : List Byte) {size : Nat}
    (hsize : size ≠ 0) (s : δ) :
    let c := localAllocs D input.length size s
    let r := psaMacComputeRun D key alg input size c.2
    Spoiled (psaMacCompute D key alg input size s).1 ↔
      c.1 = .success ∧ (r.1.1 = .success →
        (psaUnregisterRead D.toDriver r.1.2.2 r.2).1 ≠ .success ∧ r.1.2.1.len ≠ 0) := by
  intro c r
  unfold psaMacCompute
  dsimp only
  by_cases hcopies : c.1 = .success
  · rw [if_neg (not_not.mpr hcopies)]
    show Spoiled (if r.1.1 = .success then _ else r.1.1, ⟨_, if r.1.1 ≠ .success then size else _⟩) ↔ _
    by_cases hrun : r.1.1 = .success
    · simp only [hcopies, true_and, hrun, forall_const]
      exact Iff.rfl
    · simp only [if_pos hrun, hcopies, true_and, hrun, false_implies, iff_true]
      exact ⟨hrun, hsize⟩
  · rw [if_pos hcopies]
    exact iff_of_false (not_spoiled_zero _ _) fun h => hcopies h.1

/-- The operation can be finished, as far as the layer sees: there is memory for the copy,
it is set up for a signature, and the buffer has room. -/
structure MacFinishReady (op : PsaMacOperation MC) (size : Nat) (s : δ) : Prop where
  copy : (localAlloc D.toDriver size s).1 = .success
  setUp : op.id ≠ 0 ∧ op.isSign = true ∧ op.macSize ≠ 0
  room : op.macSize ≤ size

theorem psaMacSignFinishExit_spoiled {op : PsaMacOperation MC} {size : Nat} {copied : Bool}
    {status : PsaStatus} {o : Output} {s : δ} (hsize : size ≠ 0) :
    let r := psaMacSignFinishExit D.toDriver op size copied status o s
    Spoiled (r.1.1, r.1.2.2) ↔
      (status = .success → (psaMacAbort D.toDriver op s).1.1 ≠ .success ∧ o.len ≠ 0) := by
  intro r
  by_cases hst : status = .success
  · subst hst
    show Spoiled (_, ⟨_, _⟩) ↔ _
    simp only [ne_eq, not_true_eq_false, if_false, forall_const]
    exact Iff.rfl
  · show Spoiled (if status = .success then _ else status, ⟨_, if status ≠ .success then size else _⟩) ↔ _
    simp only [if_pos hst, hst, false_implies, iff_true]
    exact ⟨hst, hsize⟩

/-- Every failure of a MAC finish leaves a length: the size of the buffer, or where only the
abort after it fails, that of the MAC. -/
theorem psaMacSignFinish_spoiled (op : PsaMacOperation MC) {size : Nat} (hsize : size ≠ 0) (s : δ) :
    let r := D.macSignFinish op.ctx op.macSize (localAlloc D.toDriver size s).2
    Spoiled ((psaMacSignFinish D.toDriver op size s).1.1, (psaMacSignFinish D.toDriver op size s).1.2.2) ↔
      (MacFinishReady D op size s → r.1.1 = .success →
        (psaMacAbort D.toDriver op r.2).1.1 ≠ .success ∧ r.1.2.len ≠ 0) := by
  intro r
  unfold psaMacSignFinish
  dsimp only
  by_cases hcopy : (localAlloc D.toDriver size s).1 ≠ .success
  · rw [if_pos hcopy]
    refine (psaMacSignFinishExit_spoiled D hsize).trans (iff_of_true (fun h => absurd h hcopy) ?_)
    exact fun hready => absurd hready.copy hcopy
  rw [if_neg hcopy]
  by_cases hsetUp : op.id = 0 ∨ op.isSign = false ∨ op.macSize = 0
  · rw [if_pos hsetUp]
    refine (psaMacSignFinishExit_spoiled D hsize).trans (iff_of_true nofun fun hready => ?_)
    obtain ⟨hid, hsign, hmac⟩ := hready.setUp
    rcases hsetUp with h | h | h
    · exact absurd h hid
    · simp [hsign] at h
    · exact absurd h hmac
  rw [if_neg hsetUp]
  by_cases hroom : size < op.macSize
  · rw [if_pos hroom]
    refine (psaMacSignFinishExit_spoiled D hsize).trans (iff_of_true nofun fun hready => ?_)
    have := hready.room
    omega
  rw [if_neg hroom]
  refine (psaMacSignFinishExit_spoiled D hsize).trans ?_
  have hready : MacFinishReady D op size s := by
    obtain ⟨hid, hsign, hmac⟩ := not_or.mp hsetUp |>.imp_right not_or.mp
    exact ⟨not_not.mp hcopy, ⟨hid, (Bool.not_eq_false _).mp hsign, hmac⟩, Nat.not_lt.mp hroom⟩
  exact ⟨fun h _ => h, fun h => h hready⟩

end

end Zucrypt
