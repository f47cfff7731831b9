import Zucrypt.FailStop
import Zucrypt.HmacKeys
import Zucrypt.PkeyResults
import Zucrypt.PsaOneShot

/-! # Lengths after a failure

Ten functions report through a pointer how much they wrote.  Each stores 0 there first.  The key
functions then keep the backend's lengths in variables of their own, and store one only on success;
the digest and MAC functions pass the caller's pointer on to the backend, and what that leaves there
when it fails is what the caller finds.

`NoLengthSurvives` says of one call that it does not happen: if the arguments pass the checks and
the call fails, the length is 0.  `no_length_survives_iff` gives the calls that keep to it, in terms
of the vendored code under the adapter (`oneShotBackend` puts `psa_hash_compute` and its kind over a
driver, which is a parameter): all calls of the six key functions, and those of the digest and MAC
functions whose driver step does not fail after it has stored a length (`StepFails`).  It is an
equivalence for each call, state and driver, so the condition cannot be made weaker.

The key functions go through by one lemma each (`pkeySignHashImpl_lengthCleared` and those after
it); the others by what the vendored function makes of the driver's answer (`zucHashCompute_value`,
`streamFinish_value`, `zucHmacCompute_value`).  `length_survives_hmacFinish` is a run with a driver
that never fails: it is enough that the copy of the output buffer cannot be allocated. -/
namespace Zucrypt
open Effects ByteMemory

variable {O : Objects} {σ : Type}

/-- A function that reports a length, with its other arguments. -/
inductive LengthCall (O : Objects) where
  | hashCompute (alg : ZucAlg) (data dataLen out outSize : Nat)
  | hashFinish (hash : Option (ZucHash O)) (out outSize : Nat)
  | hmacCompute (alg : ZucAlg) (key keyLen data dataLen out outSize : Nat)
  | hmacFinish (hmac : Option (ZucHmac O)) (out outSize : Nat)
  | pkeyWrite (key : Option ZucPkey) (format : ZucPkeyFormat) (publicOnly : Bool) (out outSize : Nat)
  | pkeySignHash (key : Option ZucPkey) (scheme hash : ZucAlg) (digest digestLen sig sigSize : Nat)
  | pkeyEncrypt (key : Option ZucPkey) (scheme hash : ZucAlg) (inp len out outSize : Nat)
  | pkeyDecrypt (key : Option ZucPkey) (scheme hash : ZucAlg) (inp len out outSize : Nat)
  | pkeyExport (key : Option ZucPkey) (publicOnly : Bool) (out outSize : Nat)
  | pkeyAgree (key peer : Option ZucPkey) (out outSize : Nat)

namespace LengthCall

/-- The status, and the length, of a function that changes a handle too. -/
def ofStream {α : Type} (p : Adapter O (ZucStatus × α × SizeCell)) :
    Adapter O (ZucStatus × SizeCell) := do
  let r ← p
  return (r.1, r.2.2)

/-- The call, when `n` is where the length goes. -/
def run (n : Nat) : LengthCall O → Adapter O (ZucStatus × SizeCell)
  | .hashCompute alg data dataLen out outSize => zucHashCompute alg data dataLen out outSize (some n)
  | .hashFinish hash out outSize => ofStream (zucHashFinish hash out outSize (some n))
  | .hmacCompute alg key keyLen data dataLen out outSize =>
    zucHmacCompute alg key keyLen data dataLen out outSize (some n)
  | .hmacFinish hmac out outSize => ofStream (zucHmacFinish hmac out outSize (some n))
  | .pkeyWrite key format publicOnly out outSize =>
    zucPkeyWrite key format publicOnly out outSize (some n)
  | .pkeySignHash key scheme hash digest digestLen sig sigSize =>
    zucPkeySignHash key scheme hash digest digestLen sig sigSize (some n)
  | .pkeyEncrypt key scheme hash inp len out outSize =>
    zucPkeyEncrypt key scheme hash inp len out outSize (some n)
  | .pkeyDecrypt key scheme hash inp len out outSize =>
    zucPkeyDecrypt key scheme hash inp len out outSize (some n)
  | .pkeyExport key publicOnly out outSize => zucPkeyExport key publicOnly out outSize (some n)
  | .pkeyAgree key peer out outSize => zucPkeyAgree key peer out outSize (some n)

/-- A handle that is not finished, and room for its digest. -/
structure FinishArgs {κ Op : Type} (hd : StreamHandle κ Op) (out outSize : Nat) : Prop where
  out : out ≠ NULL
  active : hd.active = true
  size : zucAlgSize hd.alg ≤ outSize

/-- The arguments pass the checks.  The key functions store 0 before they check
anything. -/
def Passes (w : World) : LengthCall O → Prop
  | .hashCompute alg data dataLen out outSize => DigestArgs w alg data dataLen out outSize
  | .hashFinish hash out outSize => ∃ hd, hash = some hd ∧ FinishArgs hd out outSize
  | .hmacCompute alg key keyLen data dataLen out outSize =>
    DigestArgs w alg data dataLen out outSize ∧ ¬ (key = NULL ∧ keyLen ≠ 0)
  | .hmacFinish hmac out outSize => ∃ hd, hmac = some hd ∧ FinishArgs hd out outSize
  | _ => True

end LengthCall

/-- A failure leaves a length of 0. -/
def LengthCleared (r : ZucStatus × SizeCell) : Prop := r.1 ≠ .ok → r.2 = some 0

/-- A call that leaves 0 has left nothing behind, whatever it returns. -/
theorem lengthCleared_zero (st : ZucStatus) : LengthCleared (st, some 0) := fun _ => rfl

/-- Nor has one that succeeded. -/
theorem lengthCleared_ok (cell : SizeCell) : LengthCleared (.ok, cell) := fun h => absurd rfl h

/-- A call that passes its checks, and then fails, leaves a length of 0. -/
def NoLengthSurvives (h : Handler (Call O) σ) (w : World) (s : σ) (c : LengthCall O) : Prop :=
  ∀ n, c.Passes w → LengthCleared ((c.run n).exec h w s).value

/-! ### The key functions -/

/-- The watch changes the status of a failure only. -/
theorem watched_lengthCleared {impl : Adapter O (ZucStatus × SizeCell)}
    (h : Yields impl LengthCleared) : Yields (watched impl) LengthCleared := by
  refine Yields.after fun _ => h.bind fun r hr => ?_
  have hstatus : Yields (zucIntMemoryOr r.1 : Adapter O _) fun st => r.1 = .ok → st = .ok := by
    refine Yields.after fun w => Yields.pure fun hok => ?_
    rw [hok]
    rfl
  exact hstatus.bind fun st hst => Yields.pure fun hne => hr fun hok => hne (hst hok)

section
variable (key : Option ZucPkey) (n : Nat)

/-- `zuc_pkey_sign_hash` and its length of the signature. -/
theorem pkeySignHashImpl_lengthCleared (scheme hash : ZucAlg) (digest digestLen sig sigSize : Nat) :
    Yields (pkeySignHashImpl key scheme hash digest digestLen sig sigSize (some n) : Adapter O _)
      LengthCleared := by
  cases key with
  | none => exact Yields.pure (lengthCleared_zero _)
  | some k =>
    refine Yields.ite (fun _ => Yields.pure (lengthCleared_zero _)) fun _ => ?_
    refine Yields.after fun ready => ?_
    refine Yields.ite (fun _ => Yields.pure (lengthCleared_zero _)) fun _ => ?_
    refine Yields.ite (fun _ => Yields.pure (lengthCleared_zero _)) fun _ => ?_
    refine Yields.ite (fun _ => Yields.pure (lengthCleared_zero _)) fun _ => ?_
    refine Yields.ite (fun _ => Yields.pure (lengthCleared_zero _)) fun _ => ?_
    refine Yields.ite (fun _ => Yields.pure (lengthCleared_zero _)) fun _ => ?_
    refine Yields.after fun id => ?_
    refine Yields.ite (fun _ => Yields.pure (lengthCleared_zero _)) fun _ => ?_
    refine Yields.after fun _ => Yields.after fun r => Yields.after fun _ => Yields.after fun _ => ?_
    refine Yields.ite (fun _ => ?_) fun _ => Yields.pure (lengthCleared_ok _)
    exact Yields.after fun _ => Yields.pure (lengthCleared_zero _)

/-- `zuc_pkey_encrypt`. -/
theorem pkeyEncryptImpl_lengthCleared (scheme hash : ZucAlg) (inp len out outSize : Nat) :
    Yields (pkeyEncryptImpl key scheme hash inp len out outSize (some n) : Adapter O _)
      LengthCleared := by
  cases key with
  | none => exact Yields.pure (lengthCleared_zero _)
  | some k =>
    refine Yields.ite (fun _ => Yields.pure (lengthCleared_zero _)) fun _ => ?_
    refine Yields.after fun ready => ?_
    refine Yields.ite (fun _ => Yields.pure (lengthCleared_zero _)) fun _ => ?_
    refine Yields.ite (fun _ => Yields.pure (lengthCleared_zero _)) fun _ => ?_
    refine Yields.ite (fun _ => Yields.pure (lengthCleared_zero _)) fun _ => ?_
    refine Yields.after fun id => ?_
    refine Yields.ite (fun _ => Yields.pure (lengthCleared_zero _)) fun _ => ?_
    refine Yields.after fun _ => Yields.after fun r => Yields.after fun _ => Yields.after fun _ => ?_
    refine Yields.ite (fun _ => ?_) fun _ => Yields.pure (lengthCleared_ok _)
    exact Yields.after fun _ => Yields.pure (lengthCleared_zero _)

/-- `zuc_pkey_decrypt`. -/
theorem pkeyDecryptImpl_lengthCleared (scheme hash : ZucAlg) (inp len out outSize : Nat) :
    Yields (pkeyDecryptImpl key scheme hash inp len out outSize (some n) : Adapter O _)
      LengthCleared := by
  cases key with
  | none => exact Yields.pure (lengthCleared_zero _)
  | some k =>
    refine Yields.ite (fun _ => Yields.pure (lengthCleared_zero _)) fun _ => ?_
    refine Yields.after fun ready => ?_
    refine Yields.ite (fun _ => Yields.pure (lengthCleared_zero _)) fun _ => ?_
    refine Yields.ite (fun _ => Yields.pure (lengthCleared_zero _)) fun _ => ?_
    refine Yields.ite (fun _ => Yields.pure (lengthCleared_zero _)) fun _ => ?_
    refine Yields.after fun id => ?_
    refine Yields.ite (fun _ => Yields.pure (lengthCleared_zero _)) fun _ => ?_
    refine Yields.after fun _ => Yields.after fun r => Yields.after fun _ => Yields.after fun _ => ?_
    refine Yields.ite (fun _ => ?_) fun _ => Yields.pure (lengthCleared_ok _)
    exact Yields.after fun _ => Yields.pure (lengthCleared_zero _)

/-- `zuc_pkey_write`, whose writers are given a variable of the adapter's. -/
theorem pkeyWriteImpl_lengthCleared (format : ZucPkeyFormat) (publicOnly : Bool) (out outSize : Nat) :
    Yields (pkeyWriteImpl key format publicOnly out outSize (some n) : Adapter O _) LengthCleared := by
  cases key with
  | none => exact Yields.pure (lengthCleared_zero _)
  | some k =>
    refine Yields.ite (fun _ => Yields.pure (lengthCleared_zero _)) fun _ => ?_
    refine Yields.after fun ready => ?_
    refine Yields.ite (fun _ => Yields.pure (lengthCleared_zero _)) fun _ => ?_
    -- whichever encoder was called, and whatever it gave
    refine Yields.ite (fun _ => Yields.after ?_) fun _ => Yields.after ?_
    all_goals
      intro e
      cases e with
      | error st => exact Yields.pure (lengthCleared_zero _)
      | ok e =>
        refine Yields.after fun r => Yields.after fun _ => ?_
        refine Yields.ite (fun _ => ?_) fun _ => Yields.pure (lengthCleared_ok _)
        exact Yields.after fun _ => Yields.pure (lengthCleared_zero _)

/-- `zuc_pkey_export`. -/
theorem pkeyExportImpl_lengthCleared (publicOnly : Bool) (out outSize : Nat) :
    Yields (pkeyExportImpl key publicOnly out outSize (some n) : Adapter O _) LengthCleared := by
  refine Yields.after fun ready => ?_
  refine Yields.ite (fun _ => Yields.pure (lengthCleared_zero _)) fun _ => ?_
  cases key with
  | none => exact Yields.pure (lengthCleared_zero _)
  | some k =>
    refine Yields.ite (fun _ => Yields.pure (lengthCleared_zero _)) fun _ => ?_
    refine Yields.ite (fun _ => ?_) fun _ => Yields.after fun der => ?_
    · refine Yields.ite (fun _ => Yields.pure (lengthCleared_zero _)) fun _ => ?_
      exact Yields.after fun _ => Yields.pure (lengthCleared_ok _)
    · cases der with
      | error st => exact Yields.pure (lengthCleared_zero _)
      | ok der =>
        refine Yields.ite (fun _ => ?_) fun _ => ?_
        · exact Yields.after fun _ => Yields.pure (lengthCleared_zero _)
        · exact Yields.after fun _ => Yields.after fun _ => Yields.pure (lengthCleared_ok _)

/-- `zuc_pkey_agree`. -/
theorem pkeyAgreeImpl_lengthCleared (peer : Option ZucPkey) (out outSize : Nat) :
    Yields (pkeyAgreeImpl key peer out outSize (some n) : Adapter O _) LengthCleared := by
  refine Yields.after fun ready => ?_
  refine Yields.ite (fun _ => Yields.pure (lengthCleared_zero _)) fun _ => ?_
  cases key with
  | none => exact Yields.pure (lengthCleared_zero _)
  | some k =>
    cases peer with
    | none => exact Yields.pure (lengthCleared_zero _)
    | some p =>
      refine Yields.ite (fun _ => Yields.pure (lengthCleared_zero _)) fun _ => ?_
      refine Yields.ite (fun _ => Yields.pure (lengthCleared_zero _)) fun _ => ?_
      refine Yields.ite (fun _ => Yields.pure (lengthCleared_zero _)) fun _ => ?_
      refine Yields.ite (fun _ => Yields.pure (lengthCleared_zero _)) fun _ => ?_
      refine Yields.after fun point => ?_
      cases point with
      | error st => exact Yields.pure (lengthCleared_zero _)
      | ok point =>
        refine Yields.after fun r => Yields.after fun _ => Yields.after fun secret => ?_
        refine Yields.ite (fun _ => ?_) fun _ => Yields.pure (lengthCleared_ok _)
        exact Yields.after fun _ => Yields.pure (lengthCleared_zero _)

end

/-! ### The digest and MAC functions -/

section
variable {h : Handler (Call O) σ} {w : World} {s : σ}

/-- Where the caller's length is what the backend left. -/
theorem lengthCleared_reported (r : PsaStatus × Output) :
    LengthCleared (zucIntFromPsa r.1, some r.2.len) ↔ ¬ Spoiled r := by
  unfold LengthCleared Spoiled
  simp only [ne_eq, zucIntFromPsa_eq_ok, Option.some.injEq, not_and, not_not]

/-- Past its checks, `zuc_hash_compute` returns what the backend said, and the length it left. -/
theorem zucHashCompute_value {alg : ZucAlg} {data dataLen out outSize : Nat} (n : Nat)
    (ha : DigestArgs w alg data dataLen out outSize) :
    let r := answer h (.hashCompute (zucIntPsaHash alg) (read w.mem data dataLen) outSize) s
    ((zucHashCompute alg data dataLen out outSize (some n)).exec h w s).value =
      (zucIntFromPsa r.1, some r.2.len) := by
  simp only [zucHashCompute, Proc.exec_bind, exec_checkDigestArgs ha, ne_eq, not_true_eq_false,
    if_false, exec_readMem, exec_psa, exec_writeOutput, Proc.exec_pure]
  rfl

/-- So does a finish, of either kind of handle. -/
theorem streamFinish_value {κ Op : Type} {B : StreamOps O κ Op} {hd : StreamHandle κ Op}
    {out outSize : Nat} (n : Nat) (ha : LengthCall.FinishArgs hd out outSize) :
    let r := ((B.finish hd.op outSize).exec h w s).value
    ((LengthCall.ofStream (streamFinish B (some hd) out outSize (some n))).exec h w s).value =
      (zucIntFromPsa r.1, some r.2.2.len) := by
  have hnull : ¬ (out = NULL ∨ (some n : SizeCell) = none) := by
    rintro (hout | hcell)
    · exact ha.out hout
    · exact nomatch hcell
  rw [LengthCall.ofStream, Proc.exec_bind, exec_streamFinish_call ha.active hnull ha.size]
  rfl

/-- And `zuc_hmac_compute`, if the key could be imported and the key destroyed again. -/
theorem zucHmacCompute_value {alg : ZucAlg} {key keyLen data dataLen out outSize : Nat} (n : Nat)
    (ha : DigestArgs w alg data dataLen out outSize) (hkey : ¬ (key = NULL ∧ keyLen ≠ 0)) :
    let palg := PsaAlg.hmac (zucIntPsaHash alg)
    let k := (importHmacKey alg key keyLen palg).exec h w s
    let r := answer h (.macCompute k.value.2 palg (read k.world.mem data dataLen) outSize) k.env
    ((zucHmacCompute alg key keyLen data dataLen out outSize (some n)).exec h w s).value =
      if k.value.1 ≠ .ok then (k.value.1, some 0) else (zucIntFromPsa r.1, some r.2.len) := by
  intro palg k r
  simp only [zucHmacCompute, Proc.exec_bind, exec_checkDigestArgs ha, ne_eq, not_true_eq_false,
    if_false, if_neg hkey]
  by_cases hk : k.value.1 = .ok
  · rw [if_neg (not_not.mpr hk), if_neg (not_not.mpr hk)]
    simp only [Proc.exec_bind, exec_readMem, exec_psa, exec_writeOutput, Proc.exec_pure]
    rfl
  · rw [if_pos hk, if_pos hk]
    rfl

end

/-! ### All ten, on the vendored layer -/

section
variable {δ HC MC : Type} (D : OneShotDriver δ HC MC)
  (rest : Handler (Call (multipartObjects D.toDriver)) δ)

/-- A driver's digest function is called, and fails with a length stored. -/
def HashStepSpoils (copies : PsaStatus × δ) (run : δ → (PsaStatus × Output) × δ) : Prop :=
  copies.1 = .success ∧ Spoiled (run copies.2).1

/-- The one-shot MAC fails, for another reason than that its buffers could not be copied. -/
def MacComputeFails (key : KeyId) (alg : PsaAlg) (input : List Byte) (size : Nat) (s : δ) : Prop :=
  let c := localAllocs D input.length size s
  let r := psaMacComputeRun D key alg input size c.2
  c.1 = .success ∧ (r.1.1 = .success →
    (psaUnregisterRead D.toDriver r.1.2.2 r.2).1 ≠ .success ∧ r.1.2.1.len ≠ 0)

/-- Finishing the MAC fails, for whatever reason. -/
def MacFinishFails (op : PsaMacOperation MC) (size : Nat) (s : δ) : Prop :=
  let r := D.macSignFinish op.ctx op.macSize (localAlloc D.toDriver size s).2
  size ≠ 0 ∧ (MacFinishReady D op size s → r.1.1 = .success →
    (psaMacAbort D.toDriver op r.2).1.1 ≠ .success ∧ r.1.2.len ≠ 0)

/-- The backend's digest or MAC step of the call fails after it has come to store a
length. -/
def LengthCall.StepFails (w : World) (s : δ) : LengthCall (multipartObjects D.toDriver) → Prop
  | .hashCompute alg data dataLen _ outSize =>
    HashStepSpoils (localAllocs D dataLen outSize s)
      (D.hashCompute (zucIntPsaHash alg) (read w.mem data dataLen) outSize)
  | .hashFinish (some hd) _ outSize =>
    hd.op.id ≠ 0 ∧ HashStepSpoils (localAlloc D.toDriver outSize s) (D.hashFinish hd.op.ctx outSize)
  | .hmacCompute alg key keyLen data dataLen _ outSize =>
    let palg := PsaAlg.hmac (zucIntPsaHash alg)
    let k := (importHmacKey alg key keyLen palg).exec (oneShotBackend D rest) w s
    k.value.1 = .ok ∧ MacComputeFails D k.value.2 palg (read k.world.mem data dataLen) outSize k.env
  | .hmacFinish (some hd) _ outSize => MacFinishFails D hd.op outSize s
  | _ => False

/-- No digest is empty, so the backend is given room. -/
theorem digest_pos {alg : ZucAlg} (h : zucIntDigestAvailable alg = true) : 0 < zucAlgSize alg := by
  cases alg <;> simp [zucIntDigestAvailable, zucIntPsaHash, zucAlgAvailable, zucAlgSize] at h ⊢

/-- A MAC finish without room fails before it stores a length. -/
theorem not_spoiled_macSignFinish_empty (op : PsaMacOperation MC) (s : δ) :
    ¬ Spoiled ((psaMacSignFinish D.toDriver op 0 s).1.1, (psaMacSignFinish D.toDriver op 0 s).1.2.2) := by
  have hcopy : localAlloc D.toDriver 0 s = (.success, s) := rfl
  have hexit : ∀ op copied o s, (psaMacSignFinishExit D.toDriver op 0 copied .errorBadState o s).1.2.2.len = 0 ∧
      (psaMacSignFinishExit D.toDriver op 0 copied .errorBufferTooSmall o s).1.2.2.len = 0 :=
    fun _ _ _ _ => ⟨rfl, rfl⟩
  rintro ⟨-, hlen⟩
  unfold psaMacSignFinish at hlen
  dsimp only at hlen
  rw [hcopy, if_neg (by simp)] at hlen
  split at hlen
  · exact hlen (hexit _ _ _ _).1
  · rename_i hsetUp
    -- an operation that is set up has a MAC, which does not fit
    have hmac : op.macSize ≠ 0 := fun h => hsetUp (Or.inr (Or.inr h))
    rw [if_pos (Nat.pos_of_ne_zero hmac)] at hlen
    exact hlen (hexit _ _ _ _).2

/-- **What is left of a length.**  A call that passes its checks and fails leaves 0, unless
it is one of a digest or a MAC, and the backend's step fails after it has stored a
length. -/
theorem no_length_survives_iff (w : World) (s : δ) (c : LengthCall (multipartObjects D.toDriver)) :
    NoLengthSurvives (oneShotBackend D rest) w s c ↔ (c.Passes w → ¬ c.StepFails D rest w s) := by
  -- a key function clears the length whatever happens
  have hkeys : ∀ {p : Nat → Adapter (multipartObjects D.toDriver) (ZucStatus × SizeCell)},
      (∀ n, Yields (p n) LengthCleared) →
      ((∀ n, True → LengthCleared ((watched (p n)).exec (oneShotBackend D rest) w s).value) ↔
        (True → ¬ False)) := by
    intro p hp
    refine iff_of_true (fun n _ => ?_) fun _ => id
    exact (watched_lengthCleared (hp n)).exec _ _ _
  -- and the others leave what the backend does
  have hreport : ∀ {P F : Prop} {v : Nat → ZucStatus × SizeCell},
      (∀ n, P → (LengthCleared (v n) ↔ ¬ F)) → ((∀ n, P → LengthCleared (v n)) ↔ (P → ¬ F)) := by
    intro P F v hv
    constructor
    · exact fun hall hP => (hv 0 hP).mp (hall 0 hP)
    · exact fun hF n hP => (hv n hP).mpr (hF hP)
  unfold NoLengthSurvives
  cases c with
  | hashCompute alg data dataLen out outSize =>
    refine hreport fun n ha => ?_
    have hvalue := zucHashCompute_value (h := oneShotBackend D rest) (s := s) n ha
    have hspoiled := psaHashCompute_spoiled D (zucIntPsaHash alg) (read w.mem data dataLen) outSize s
    rw [length_read] at hspoiled
    rw [LengthCall.run, hvalue, lengthCleared_reported]
    refine not_congr (hspoiled.trans ?_)
    exact and_iff_right ((zucIntDigestAvailable_iff alg).mp ha.available)
  | hashFinish hash out outSize =>
    refine hreport fun n ha => ?_
    obtain ⟨hd, rfl, ha⟩ := ha
    have hvalue := streamFinish_value (h := oneShotBackend D rest) (w := w) (s := s) (B := hashOps) n ha
    rw [LengthCall.run, zucHashFinish, hvalue]
    refine (lengthCleared_reported (_, _)).trans (not_congr ?_)
    refine (psaHashFinish_spoiled D hd.op outSize s).trans ?_
    exact and_left_comm
  | hmacCompute alg key keyLen data dataLen out outSize =>
    refine hreport fun n ha => ?_
    obtain ⟨ha, hkey⟩ := ha
    have hvalue := zucHmacCompute_value (h := oneShotBackend D rest) (s := s) n ha hkey
    have hsize : outSize ≠ 0 := by
      have hpos := digest_pos ha.available
      have hroom := ha.size
      omega
    rw [LengthCall.run, hvalue]
    by_cases hk : ((importHmacKey alg key keyLen (.hmac (zucIntPsaHash alg))).exec
        (oneShotBackend D rest) w s).value.1 = .ok
    · rw [if_neg (not_not.mpr hk)]
      refine (lengthCleared_reported (_, _)).trans (not_congr ?_)
      refine (psaMacCompute_spoiled D _ _ _ hsize _).trans ?_
      exact (and_iff_right hk).symm
    · rw [if_pos hk]
      exact iff_of_true (lengthCleared_zero _) fun hfails => hk hfails.1
  | hmacFinish hmac out outSize =>
    refine hreport fun n ha => ?_
    obtain ⟨hd, rfl, ha⟩ := ha
    have hvalue := streamFinish_value (h := oneShotBackend D rest) (w := w) (s := s) (B := macOps) n ha
    rw [LengthCall.run, zucHmacFinish, hvalue]
    refine (lengthCleared_reported (_, _)).trans (not_congr ?_)
    by_cases hsize : outSize = 0
    · subst hsize
      exact iff_of_false (not_spoiled_macSignFinish_empty D hd.op s) fun hfails => hfails.1 rfl
    · refine (psaMacSignFinish_spoiled D hd.op hsize s).trans ?_
      exact (and_iff_right hsize).symm
  | pkeyWrite key format publicOnly out outSize =>
    exact hkeys fun n => pkeyWriteImpl_lengthCleared key n format publicOnly out outSize
  | pkeySignHash key scheme hash digest digestLen sig sigSize =>
    exact hkeys fun n => pkeySignHashImpl_lengthCleared key n scheme hash digest digestLen sig sigSize
  | pkeyEncrypt key scheme hash inp len out outSize =>
    exact hkeys fun n => pkeyEncryptImpl_lengthCleared key n scheme hash inp len out outSize
  | pkeyDecrypt key scheme hash inp len out outSize =>
    exact hkeys fun n => pkeyDecryptImpl_lengthCleared key n scheme hash inp len out outSize
  | pkeyExport key publicOnly out outSize =>
    exact hkeys fun n => pkeyExportImpl_lengthCleared key n publicOnly out outSize
  | pkeyAgree key peer out outSize =>
    exact hkeys fun n => pkeyAgreeImpl_lengthCleared key n peer out outSize

end

/-! ### Known values -/

/-- The known driver, with its one-shot entry points. -/
def knownOneShot : OneShotDriver (List Bool) (PsaAlg × List Byte) (PsaAlg × List Byte × List Byte) where
  toDriver := knownDriver
  hashCompute alg input _ s := ((.success, .full (knownHash alg input)), s)
  macCompute _ K alg input _ s :=
    match alg with
    | .hmac alg => ((.success, .full (hmacOf knownHash alg K input)), s)
    | _ => ((.errorNotSupported, ⟨[], 0⟩), s)

/-- An HMAC handle is made, and then there is no memory for the backend's copy of the output
of `zuc_hmac_finish`: the call fails, and the length it leaves is that of the buffer. -/
theorem length_survives_hmacFinish :
    let h := oneShotBackend knownOneShot knownRest
    let made := (zucHmacNew .sha256 NULL 0 true).exec h ⟨fun _ => 0, 1, 0, false⟩ [false, true]
    let c : LengthCall (multipartObjects knownOneShot.toDriver) := .hmacFinish made.value.2 0x200 32
    made.value.1 = .ok ∧ ((c.run 0).exec h made.world made.env).value = (.errMemory, some 32) ∧
      ¬ NoLengthSurvives h made.world made.env c := by
  intro h made c
  have hmade : made.value.1 = .ok := by decide +kernel
  have hvalue : ((c.run 0).exec h made.world made.env).value = (.errMemory, some 32) := by
    decide +kernel
  refine ⟨hmade, hvalue, fun hsurvives => ?_⟩
  have hpasses : c.Passes made.world := ⟨_, rfl, by decide, rfl, by decide⟩
  have hcleared := hsurvives 0 hpasses
  rw [hvalue] at hcleared
  exact absurd (hcleared (by decide)) (by decide)

end Zucrypt
