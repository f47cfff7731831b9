import Zucrypt.Aead
import Zucrypt.Hash
import Zucrypt.Kdf
import Zucrypt.PkeyOperations
import Zucrypt.ReferenceBackend

/-! # Calls outside an initialised window

`zucrypt.h` says that every function that needs the backend returns `ZUC_ERR_NOT_READY` when it is
called outside an initialised window.  `ApiCall` lists those functions, and `NotReadyLaw` is what
that says of one call, with what it implies: nothing is called, and a handle is left as it was.

`notReady_iff_guarded` is that the law holds of exactly those that ask `zuc_int_ready` (`Guarded`):
all but update, finish and reset of a digest or HMAC handle, which go to the backend without asking.
For these six the law fails in every state with count 0, not only for some arguments
(`unguarded_calls`): each makes a call, and the law says that none is made.

The arguments have to be otherwise valid (`Valid`), since a null pointer or a finished handle is
reported first, and rightly.  Nothing is asked of the state but the count, nor of the handle where
it comes from: it may well have been made in a window that is over, as in `hashUpdate_not_ready`. -/
namespace Zucrypt
open Effects ByteMemory

variable {O : Objects}

/-- A handle that a call can change. -/
inductive ApiHandle (O : Objects) where
  | hash (hash : ZucHash O)
  | hmac (hmac : ZucHmac O)
  | aes (aes : ZucAes)

/-- A call of a public function that needs the backend and returns a status, with its
arguments. -/
inductive ApiCall (O : Objects) where
  | hashCompute (alg : ZucAlg) (data dataLen out outSize : Nat) (outLen : SizeCell)
  | hashNew (alg : ZucAlg) (out : Bool)
  | hashUpdate (hash : ZucHash O) (data dataLen : Nat)
  | hashFinish (hash : ZucHash O) (out outSize : Nat) (outLen : SizeCell)
  | hashReset (hash : ZucHash O)
  | hmacCompute (alg : ZucAlg) (key keyLen data dataLen out outSize : Nat) (outLen : SizeCell)
  | hmacNew (alg : ZucAlg) (key keyLen : Nat) (out : Bool)
  | hmacUpdate (hmac : ZucHmac O) (data dataLen : Nat)
  | hmacFinish (hmac : ZucHmac O) (out outSize : Nat) (outLen : SizeCell)
  | hmacReset (hmac : ZucHmac O)
  | aesNew (key keyLen : Nat) (out : Bool)
  | aesCbcEncrypt (aes : ZucAes) (inp len out : Nat)
  | aesCbcDecrypt (aes : ZucAes) (inp len out : Nat)
  | aeadEncrypt (alg : ZucAlg) (key keyLen nonce nonceLen aad aadLen plaintext len ciphertext tag
      tagLen : Nat)
  | aeadDecrypt (alg : ZucAlg) (key keyLen nonce nonceLen aad aadLen ciphertext len tag tagLen
      plaintext : Nat)
  | pbkdf2Hmac (hash : ZucAlg) (password passwordLen salt saltLen : Nat) (iterations : UInt32)
      (out outLen : Nat)
  | pkeyParse (inp len : Nat) (privateKey out : Bool)
  | pkeyGenerate (type : ZucAlg) (bits : Nat) (out : Bool)
  | pkeyImport (type : ZucAlg) (privateKey : Bool) (data len : Nat) (out : Bool)
  | pkeyExport (key : ZucPkey) (publicOnly : Bool) (out outSize : Nat) (outLen : SizeCell)
  | pkeyPublic (key : ZucPkey) (out : Bool)
  | pkeyWrite (key : ZucPkey) (format : ZucPkeyFormat) (publicOnly : Bool) (out outSize : Nat)
      (outLen : SizeCell)
  | pkeySignHash (key : ZucPkey) (scheme hash : ZucAlg) (digest digestLen sig sigSize : Nat)
      (sigLen : SizeCell)
  | pkeyVerifyHash (key : ZucPkey) (scheme hash : ZucAlg) (digest digestLen sig sigLen : Nat)
  | pkeyEncrypt (key : ZucPkey) (scheme hash : ZucAlg) (inp len out outSize : Nat)
      (outLen : SizeCell)
  | pkeyDecrypt (key : ZucPkey) (scheme hash : ZucAlg) (inp len out outSize : Nat)
      (outLen : SizeCell)
  | pkeyAgree (key peer : ZucPkey) (out outSize : Nat) (outLen : SizeCell)

namespace ApiCall

/-- The handle the call is made on, where it is one that the function may change. -/
def handle : ApiCall O → Option (ApiHandle O)
  | .hashUpdate hash .. => some (.hash hash)
  | .hashFinish hash .. => some (.hash hash)
  | .hashReset hash => some (.hash hash)
  | .hmacUpdate hmac .. => some (.hmac hmac)
  | .hmacFinish hmac .. => some (.hmac hmac)
  | .hmacReset hmac => some (.hmac hmac)
  | .aesCbcEncrypt aes .. => some (.aes aes)
  | .aesCbcDecrypt aes .. => some (.aes aes)
  | _ => none

/-- A status without a handle. -/
def statusOnly {α : Type} (p : Adapter O (ZucStatus × α)) :
    Adapter O (ZucStatus × Option (ApiHandle O)) := do
  let r ← p
  return (r.1, none)

/-- A status, and the handle as the call leaves it. -/
def statusWith {α : Type} (kind : α → ApiHandle O) (p : Adapter O (ZucStatus × Option α)) :
    Adapter O (ZucStatus × Option (ApiHandle O)) := do
  let r ← p
  return (r.1, r.2.map kind)

/-- A status alone. -/
def status (p : Adapter O ZucStatus) : Adapter O (ZucStatus × Option (ApiHandle O)) := do
  let st ← p
  return (st, none)

/-- The same, of a function that stores a length too. -/
def statusCell {α : Type} (kind : α → ApiHandle O) (p : Adapter O (ZucStatus × Option α × SizeCell)) :
    Adapter O (ZucStatus × Option (ApiHandle O)) := do
  let r ← p
  return (r.1, r.2.1.map kind)

/-- What the call does: the status it returns, and the handle afterwards. -/
def run : ApiCall O → Adapter O (ZucStatus × Option (ApiHandle O))
  | .hashCompute alg data dataLen out outSize outLen =>
    statusOnly (zucHashCompute alg data dataLen out outSize outLen)
  | .hashNew alg out => statusOnly (zucHashNew alg out)
  | .hashUpdate hash data dataLen => statusWith .hash (zucHashUpdate (some hash) data dataLen)
  | .hashFinish hash out outSize outLen =>
    statusCell .hash (zucHashFinish (some hash) out outSize outLen)
  | .hashReset hash => statusWith .hash (zucHashReset (some hash))
  | .hmacCompute alg key keyLen data dataLen out outSize outLen =>
    statusOnly (zucHmacCompute alg key keyLen data dataLen out outSize outLen)
  | .hmacNew alg key keyLen out => statusOnly (zucHmacNew alg key keyLen out)
  | .hmacUpdate hmac data dataLen => statusWith .hmac (zucHmacUpdate (some hmac) data dataLen)
  | .hmacFinish hmac out outSize outLen =>
    statusCell .hmac (zucHmacFinish (some hmac) out outSize outLen)
  | .hmacReset hmac => statusWith .hmac (zucHmacReset (some hmac))
  | .aesNew key keyLen out => statusOnly (zucAesNew key keyLen out)
  | .aesCbcEncrypt aes inp len out => statusWith .aes (zucAesCbcEncrypt (some aes) inp len out)
  | .aesCbcDecrypt aes inp len out => statusWith .aes (zucAesCbcDecrypt (some aes) inp len out)
  | .aeadEncrypt alg key keyLen nonce nonceLen aad aadLen plaintext len ciphertext tag tagLen =>
    status (zucAeadEncrypt alg key keyLen nonce nonceLen aad aadLen plaintext len ciphertext tag
      tagLen)
  | .aeadDecrypt alg key keyLen nonce nonceLen aad aadLen ciphertext len tag tagLen plaintext =>
    status (zucAeadDecrypt alg key keyLen nonce nonceLen aad aadLen ciphertext len tag tagLen
      plaintext)
  | .pbkdf2Hmac hash password passwordLen salt saltLen iterations out outLen =>
    status (zucPbkdf2Hmac hash password passwordLen salt saltLen iterations out outLen)
  | .pkeyParse inp len privateKey out => statusOnly (zucPkeyParse inp len privateKey out)
  | .pkeyGenerate type bits out => statusOnly (zucPkeyGenerate type bits out)
  | .pkeyImport type privateKey data len out =>
    statusOnly (zucPkeyImport type privateKey data len out)
  | .pkeyExport key publicOnly out outSize outLen =>
    statusOnly (zucPkeyExport (some key) publicOnly out outSize outLen)
  | .pkeyPublic key out => statusOnly (zucPkeyPublic (some key) out)
  | .pkeyWrite key format publicOnly out outSize outLen =>
    statusOnly (zucPkeyWrite (some key) format publicOnly out outSize outLen)
  | .pkeySignHash key scheme hash digest digestLen sig sigSize sigLen =>
    statusOnly (zucPkeySignHash (some key) scheme hash digest digestLen sig sigSize sigLen)
  | .pkeyVerifyHash key scheme hash digest digestLen sig sigLen =>
    status (zucPkeyVerifyHash (some key) scheme hash digest digestLen sig sigLen)
  | .pkeyEncrypt key scheme hash inp len out outSize outLen =>
    statusOnly (zucPkeyEncrypt (some key) scheme hash inp len out outSize outLen)
  | .pkeyDecrypt key scheme hash inp len out outSize outLen =>
    statusOnly (zucPkeyDecrypt (some key) scheme hash inp len out outSize outLen)
  | .pkeyAgree key peer out outSize outLen =>
    statusOnly (zucPkeyAgree (some key) (some peer) out outSize outLen)

/-- What the arguments have to be for the call to be otherwise valid: pointers to
something where the function requires it, and a handle in a state that takes the call.
The other arguments may be anything. -/
def Valid : ApiCall O → Prop
  | .hashNew _ out => out = true
  | .hashUpdate hash data dataLen => hash.active = true ∧ data ≠ NULL ∧ dataLen ≠ 0
  | .hashFinish hash out outSize outLen =>
    hash.active = true ∧ ¬ (out = NULL ∨ outLen = none) ∧ zucAlgSize hash.alg ≤ outSize
  | .hmacNew _ _ _ out => out = true
  | .hmacUpdate hmac data dataLen => hmac.active = true ∧ data ≠ NULL ∧ dataLen ≠ 0
  | .hmacFinish hmac out outSize outLen =>
    hmac.active = true ∧ ¬ (out = NULL ∨ outLen = none) ∧ zucAlgSize hmac.alg ≤ outSize
  | .aesNew _ _ out => out = true
  | .pkeyParse _ _ _ out => out = true
  | .pkeyGenerate _ _ out => out = true
  | .pkeyImport _ _ _ _ out => out = true
  | .pkeyPublic _ out => out = true
  | .pkeyWrite _ _ _ out _ outLen => ¬ (out = NULL ∨ outLen = none)
  | .pkeySignHash _ _ _ digest _ sig _ sigLen => ¬ (digest = NULL ∨ sig = NULL ∨ sigLen = none)
  | .pkeyVerifyHash _ _ _ digest _ sig sigLen => ¬ (digest = NULL ∨ (sig = NULL ∧ sigLen ≠ 0))
  | .pkeyEncrypt _ _ _ inp len out _ outLen =>
    ¬ ((inp = NULL ∧ len ≠ 0) ∨ out = NULL ∨ outLen = none)
  | .pkeyDecrypt _ _ _ inp _ out _ outLen => ¬ (inp = NULL ∨ out = NULL ∨ outLen = none)
  | _ => True

/-- Every function but update, finish and reset of a digest or an HMAC handle. -/
def Guarded : ApiCall O → Prop
  | .hashUpdate .. => False
  | .hashFinish .. => False
  | .hashReset .. => False
  | .hmacUpdate .. => False
  | .hmacFinish .. => False
  | .hmacReset .. => False
  | _ => True

end ApiCall

/-- The call returns `ZUC_ERR_NOT_READY`, calls nothing, and leaves the caller's memory
and the handle as they were.  The allocation watch may have been cleared. -/
def NotReadyLaw (w : World) (c : ApiCall O) : Prop :=
  ∃ watch, c.run w = .done ((.errNotReady, c.handle), { w with allocFailed := watch })

/-! ### The guard -/

section
variable {w : World}

/-- With no reference the library is not ready. -/
theorem zucIntReady_apply_of_zero (hw : w.refcount = 0) :
    (zucIntReady : Adapter O _) w = .done (false, w) := by
  rw [zucIntReady, Proc.bind_apply, Proc.read_apply, Program.done_bind, hw]
  rfl

/-- An operation that is not ready under the watch is not ready. -/
theorem watched_notReady {α : Type} {impl : Adapter O (ZucStatus × α)} {a : α}
    (h : impl { w with allocFailed := false } =
      .done ((.errNotReady, a), { w with allocFailed := false })) :
    watched impl w = .done ((.errNotReady, a), { w with allocFailed := false }) := by
  simp only [watched, zucIntAllocWatch, Proc.bind_apply, Proc.update_apply, Program.done_bind, h,
    zucIntMemoryOr, Proc.read_apply]
  simp [Proc.pure_apply]

/-- The same, where the result of the call is dropped. -/
theorem statusOnly_notReady {α : Type} {p : Adapter O (ZucStatus × α)} {a : α} {w' : World}
    (h : p w = .done ((.errNotReady, a), w')) :
    ApiCall.statusOnly p w = .done ((.errNotReady, none), w') := by
  rw [ApiCall.statusOnly, Proc.bind_apply, h]
  rfl

/-- And where it has none. -/
theorem status_notReady {p : Adapter O ZucStatus} {w' : World} (h : p w = .done (.errNotReady, w')) :
    ApiCall.status p w = .done ((.errNotReady, none), w') := by
  rw [ApiCall.status, Proc.bind_apply, h]
  rfl

/-- The functions that ask return before they do anything else. -/
theorem guarded_notReady (hw : w.refcount = 0) {c : ApiCall O} (hvalid : c.Valid)
    (hguarded : c.Guarded) : NotReadyLaw w c := by
  have hready := zucIntReady_apply_of_zero (O := O) hw
  have hready' := zucIntReady_apply_of_zero (O := O) (w := { w with allocFailed := false }) hw
  have hzero : decide (0 < w.refcount) = false := by simp [hw]
  cases c with
  | hashCompute alg data dataLen out outSize outLen =>
    refine ⟨w.allocFailed, statusOnly_notReady (a := outLen) ?_⟩
    simp only [zucHashCompute, checkDigestArgs, Proc.bind_apply, hready, Program.done_bind]
    rfl
  | hashNew alg out =>
    obtain rfl : out = true := hvalid
    refine ⟨w.allocFailed, statusOnly_notReady (a := none) ?_⟩
    simp only [zucHashNew, Bool.true_eq_false, if_false, Proc.bind_apply, hready, Program.done_bind]
    rfl
  -- the incremental functions do not ask
  | hashUpdate => exact hguarded.elim
  | hashFinish => exact hguarded.elim
  | hashReset => exact hguarded.elim
  | hmacCompute alg key keyLen data dataLen out outSize outLen =>
    refine ⟨w.allocFailed, statusOnly_notReady (a := outLen) ?_⟩
    simp only [zucHmacCompute, checkDigestArgs, Proc.bind_apply, hready, Program.done_bind]
    rfl
  | hmacNew alg key keyLen out =>
    obtain rfl : out = true := hvalid
    refine ⟨w.allocFailed, statusOnly_notReady (a := none) ?_⟩
    simp only [zucHmacNew, Bool.true_eq_false, if_false, Proc.bind_apply, hready, Program.done_bind]
    rfl
  | hmacUpdate => exact hguarded.elim
  | hmacFinish => exact hguarded.elim
  | hmacReset => exact hguarded.elim
  | aesNew key keyLen out =>
    obtain rfl : out = true := hvalid
    refine ⟨w.allocFailed, statusOnly_notReady (a := none) ?_⟩
    simp only [zucAesNew, Bool.true_eq_false, if_false, Proc.bind_apply, hready, Program.done_bind]
    rfl
  | aesCbcEncrypt aes inp len out =>
    refine ⟨w.allocFailed, ?_⟩
    simp only [ApiCall.run, ApiCall.statusWith, zucAesCbcEncrypt, checkBlockArgs, Proc.bind_apply,
      hready, Program.done_bind]
    rfl
  | aesCbcDecrypt aes inp len out =>
    refine ⟨w.allocFailed, ?_⟩
    simp only [ApiCall.run, ApiCall.statusWith, zucAesCbcDecrypt, checkBlockArgs, Proc.bind_apply,
      hready, Program.done_bind]
    rfl
  | aeadEncrypt alg key keyLen nonce nonceLen aad aadLen plaintext len ciphertext tag tagLen =>
    refine ⟨w.allocFailed, status_notReady ?_⟩
    simp only [zucAeadEncrypt, Proc.bind_apply, checkAeadArgs_apply, aeadArgs, hzero, if_true,
      Program.done_bind]
    rfl
  | aeadDecrypt alg key keyLen nonce nonceLen aad aadLen ciphertext len tag tagLen plaintext =>
    refine ⟨w.allocFailed, status_notReady ?_⟩
    simp only [zucAeadDecrypt, Proc.bind_apply, checkAeadArgs_apply, aeadArgs, hzero, if_true,
      Program.done_bind]
    rfl
  | pbkdf2Hmac hash password passwordLen salt saltLen iterations out outLen =>
    refine ⟨w.allocFailed, status_notReady ?_⟩
    simp only [zucPbkdf2Hmac_apply, pbkdf2Args, hzero, if_true]
    rfl
  -- those of `zuc_pkey.c` clear the watch first, and nothing sets it
  | pkeyParse inp len privateKey out =>
    obtain rfl : out = true := hvalid
    refine ⟨false, statusOnly_notReady (watched_notReady (a := none) ?_)⟩
    simp only [pkeyParseImpl, Bool.true_eq_false, if_false, Proc.bind_apply, hready',
      Program.done_bind]
    rfl
  | pkeyGenerate type bits out =>
    obtain rfl : out = true := hvalid
    refine ⟨false, statusOnly_notReady (watched_notReady (a := none) ?_)⟩
    simp only [pkeyGenerateImpl, Bool.true_eq_false, if_false, Proc.bind_apply, hready',
      Program.done_bind]
    rfl
  | pkeyImport type privateKey data len out =>
    obtain rfl : out = true := hvalid
    refine ⟨false, statusOnly_notReady (watched_notReady (a := none) ?_)⟩
    simp only [pkeyImportImpl, Bool.true_eq_false, if_false, Proc.bind_apply, hready',
      Program.done_bind]
    rfl
  | pkeyExport key publicOnly out outSize outLen =>
    refine ⟨false, statusOnly_notReady (watched_notReady (a := outLen.store 0) ?_)⟩
    simp only [pkeyExportImpl, Proc.bind_apply, hready', Program.done_bind]
    rfl
  | pkeyPublic key out =>
    obtain rfl : out = true := hvalid
    refine ⟨false, statusOnly_notReady (watched_notReady (a := none) ?_)⟩
    simp only [pkeyPublicImpl, Bool.true_eq_false, if_false, Proc.bind_apply, hready',
      Program.done_bind]
    rfl
  | pkeyWrite key format publicOnly out outSize outLen =>
    refine ⟨false, statusOnly_notReady (watched_notReady (a := outLen.store 0) ?_)⟩
    -- the pointers are looked at before the library is
    have hnull : ¬ (out = NULL ∨ outLen.store 0 = none) := by
      rw [SizeCell.store_eq_none]
      exact hvalid
    simp only [pkeyWriteImpl, if_neg hnull, Proc.bind_apply, hready', Program.done_bind]
    rfl
  | pkeySignHash key scheme hash digest digestLen sig sigSize sigLen =>
    refine ⟨false, statusOnly_notReady (watched_notReady (a := sigLen.store 0) ?_)⟩
    have hnull : ¬ (digest = NULL ∨ sig = NULL ∨ sigLen.store 0 = none) := by
      rw [SizeCell.store_eq_none]
      exact hvalid
    simp only [pkeySignHashImpl, if_neg hnull, Proc.bind_apply, hready', Program.done_bind]
    rfl
  | pkeyVerifyHash key scheme hash digest digestLen sig sigLen =>
    refine ⟨false, status_notReady ?_⟩
    have hnull : ¬ (digest = NULL ∨ (sig = NULL ∧ sigLen ≠ 0)) := hvalid
    simp only [zucPkeyVerifyHash, zucIntAllocWatch, pkeyVerifyHashImpl, if_neg hnull,
      Proc.bind_apply, Proc.update_apply, hready', Program.done_bind]
    rfl
  | pkeyEncrypt key scheme hash inp len out outSize outLen =>
    refine ⟨false, statusOnly_notReady (watched_notReady (a := outLen.store 0) ?_)⟩
    have hnull : ¬ ((inp = NULL ∧ len ≠ 0) ∨ out = NULL ∨ outLen.store 0 = none) := by
      rw [SizeCell.store_eq_none]
      exact hvalid
    simp only [pkeyEncryptImpl, if_neg hnull, Proc.bind_apply, hready', Program.done_bind]
    rfl
  | pkeyDecrypt key scheme hash inp len out outSize outLen =>
    refine ⟨false, statusOnly_notReady (watched_notReady (a := outLen.store 0) ?_)⟩
    have hnull : ¬ (inp = NULL ∨ out = NULL ∨ outLen.store 0 = none) := by
      rw [SizeCell.store_eq_none]
      exact hvalid
    simp only [pkeyDecryptImpl, if_neg hnull, Proc.bind_apply, hready', Program.done_bind]
    rfl
  | pkeyAgree key peer out outSize outLen =>
    refine ⟨false, statusOnly_notReady (watched_notReady (a := outLen.store 0) ?_)⟩
    simp only [pkeyAgreeImpl, Proc.bind_apply, hready', Program.done_bind]
    rfl

/-! ### Update, finish and reset -/

section
variable {κ Op : Type} {B : StreamOps O κ Op} {hd : StreamHandle κ Op} {data n out size : Nat}
  {cell : SizeCell}

/-- An update that passes its checks calls the backend. -/
theorem streamUpdate_calls (hcalls : ∀ op bs, (B.update op bs w).Calls)
    (hactive : hd.active = true) (hdata : data ≠ NULL) (hn : n ≠ 0) :
    (streamUpdate B (some hd) data n w).Calls := by
  simp only [streamUpdate, hdata, false_and, hactive, hn, Bool.true_eq_false, if_false,
    Proc.bind_apply, readMem, Proc.read_apply, Program.done_bind, Proc.pure_apply]
  exact (hcalls _ _).bind _

/-- So does a finish. -/
theorem streamFinish_calls (hcalls : ∀ op k, (B.finish op k w).Calls)
    (hactive : hd.active = true) (hnull : ¬ (out = NULL ∨ cell = none))
    (hsize : zucAlgSize hd.alg ≤ size) :
    (streamFinish B (some hd) out size cell w).Calls := by
  simp only [streamFinish, if_neg hnull, hactive, Bool.true_eq_false, if_false,
    if_neg (Nat.not_lt.mpr hsize), Proc.bind_apply]
  exact (hcalls _ _).bind _

/-- A reset aborts first, or else sets up at once. -/
theorem streamReset_calls (habort : ∀ op, (B.abort op w).Calls)
    (hsetup : ∀ op k alg, (B.setup op k alg w).Calls) :
    (streamReset B (some hd) w).Calls := by
  simp only [streamReset, streamAbortActive]
  cases hactive : hd.active with
  | true =>
    simp only [if_true, Proc.bind_apply]
    exact ((habort _).bind _).bind _
  | false =>
    simp only [Bool.false_eq_true, if_false, Proc.bind_apply, Proc.pure_apply, Program.done_bind]
    exact (hsetup _ _ _).bind _

end

/-- Those that do not ask make a call. -/
theorem unguarded_calls {c : ApiCall O} (hvalid : c.Valid) (hguarded : ¬ c.Guarded) :
    (c.run w).Calls := by
  cases c with
  | hashUpdate hash data dataLen =>
    obtain ⟨hactive, hdata, hn⟩ := hvalid
    exact (streamUpdate_calls (B := hashOps) (fun _ _ => trivial) hactive hdata hn).bind _
  | hashFinish hash out outSize outLen =>
    obtain ⟨hactive, hnull, hsize⟩ := hvalid
    exact (streamFinish_calls (B := hashOps) (fun _ _ => trivial) hactive hnull hsize).bind _
  | hashReset hash =>
    exact (streamReset_calls (B := hashOps) (fun _ => trivial) (fun _ _ _ => trivial)).bind _
  | hmacUpdate hmac data dataLen =>
    obtain ⟨hactive, hdata, hn⟩ := hvalid
    exact (streamUpdate_calls (B := macOps) (fun _ _ => trivial) hactive hdata hn).bind _
  | hmacFinish hmac out outSize outLen =>
    obtain ⟨hactive, hnull, hsize⟩ := hvalid
    exact (streamFinish_calls (B := macOps) (fun _ _ => trivial) hactive hnull hsize).bind _
  | hmacReset hmac =>
    exact (streamReset_calls (B := macOps) (fun _ => trivial) (fun _ _ _ => trivial)).bind _
  | _ => exact absurd trivial hguarded

end

/-! ### The law -/

/-- **Outside an initialised window, exactly the functions that ask keep the law.**  Of
any state whose reference count is zero, any handles, and any arguments that are
otherwise valid. -/
theorem notReady_iff_guarded {w : World} (hw : w.refcount = 0) {c : ApiCall O} (hvalid : c.Valid) :
    NotReadyLaw w c ↔ c.Guarded := by
  constructor
  · rintro ⟨watch, hdone⟩
    by_contra hguarded
    exact (unguarded_calls hvalid hguarded).ne_done _ hdone
  · exact guarded_notReady hw hvalid

/-- A library that has not been started, with nothing in its caller's memory. -/
def unstartedWorld : World := ⟨fun _ => 0, 0, 0, false⟩

/-- A digest handle, once set up, as a caller holds it. -/
def knownHashHandle : ZucHash referenceObjects :=
  { self := 0x10000, alg := .sha256, palg := .sha256, key := (), op := some (.sha256, []),
    active := true }

/-- An encryption keeps the law, and an update does not. -/
theorem notReady_iff_guarded_known :
    NotReadyLaw (O := referenceObjects) unstartedWorld
        (.aeadEncrypt .aesGcm 0x100 16 0x200 12 NULL 0 0x300 16 0x300 0x400 16) ∧
      ¬ NotReadyLaw unstartedWorld (.hashUpdate knownHashHandle 0x100 1) := by
  constructor
  · refine (notReady_iff_guarded rfl ?_).mpr trivial
    trivial
  · have hvalid : (ApiCall.hashUpdate knownHashHandle 0x100 1).Valid :=
      ⟨rfl, by decide, by decide⟩
    exact fun hlaw => (notReady_iff_guarded rfl hvalid).mp hlaw

/-- The library is started, a handle is made, and the library is shut down again: an
update of the handle still goes to the backend, and succeeds. -/
theorem hashUpdate_not_ready :
    let h := referenceBackend knownPrimitives
    let i := (zucInit : Adapter referenceObjects _).exec h unstartedWorld .initial
    let n := (zucHashNew .sha256 true).exec h i.world i.env
    let s := (zucShutdown : Adapter referenceObjects _).exec h n.world n.env
    let c : ApiCall referenceObjects := .hashUpdate knownHashHandle 0x100 1
    n.value = (.ok, some knownHashHandle) ∧ s.value = .ok ∧ s.world.refcount = 0 ∧ c.Valid ∧
      (c.run.exec h s.world s.env).value.1 = .ok ∧ ¬ NotReadyLaw s.world c := by
  intro h i n s c
  have hi : i = ⟨.ok, { unstartedWorld with refcount := 1 }, .initial⟩ := rfl
  have hn : n = ⟨(.ok, some knownHashHandle), { unstartedWorld with refcount := 1, live := 1 },
      { ReferenceState.initial with nextPtr := 0x11000 }⟩ := by
    simp only [n, hi]
    rfl
  have hs : s = ⟨.ok, { unstartedWorld with live := 1 },
      { ReferenceState.initial with nextPtr := 0x11000 }⟩ := by
    simp only [s, hn]
    rfl
  have hvalid : c.Valid := ⟨rfl, by decide, by decide⟩
  have hunguarded : ¬ c.Guarded := fun hguarded => hguarded
  refine ⟨congrArg Outcome.value hn, congrArg Outcome.value hs, ?_, hvalid, ?_, ?_⟩
  · rw [hs]
    rfl
  · rw [hs]
    rfl
  · rintro ⟨watch, hdone⟩
    exact (unguarded_calls hvalid hunguarded).ne_done _ hdone

end Zucrypt
