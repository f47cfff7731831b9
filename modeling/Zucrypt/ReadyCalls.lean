import Zucrypt.MemoryReports

/-! # Calls in a window

While the library is held open, no call says that it is not ready.  `Within` is what a function
returns when it is entered in a window: nothing a function does closes the window, so what it calls
is entered in one too.

Every function that asks `zuc_int_ready` is looked through, and so are the maps between statuses,
none of which gives `ZUC_ERR_NOT_READY` for anything else (`zucIntFromPsa_ne_errNotReady`).  It is
the other half of what `NotReady` says of functions entered outside of a window. -/
namespace Zucrypt
open Effects ByteMemory

variable {O : Objects} {α β : Type}

/-- What a function returns in a window, which is open when it does. -/
def Within (p : Adapter O α) (Q : α → Prop) : Prop :=
  ∀ w, 0 < w.refcount → Ensures (fun _ => True) p w fun _ a w' => 0 < w'.refcount ∧ Q a

/-- The result is not that the library is not ready. -/
abbrev Served (r : ZucStatus × α) : Prop := r.1 ≠ .errNotReady

/-- Nor is a failure. -/
def ServedOr (e : Except ZucStatus α) : Prop := ∀ st, e = .error st → st ≠ .errNotReady

theorem servedOr_ok (a : α) : ServedOr (.ok a : Except ZucStatus α) := by
  rintro st ⟨⟩

theorem servedOr_error {st : ZucStatus} (h : st ≠ .errNotReady) :
    ServedOr (.error st : Except ZucStatus α) := by
  rintro st' ⟨⟩
  exact h

theorem ServedOr.map {e : Except ZucStatus α} (h : ServedOr e) (f : α → β) : ServedOr (e.map f) := by
  cases e with
  | error st => exact servedOr_error (h st rfl)
  | ok a => exact servedOr_ok (f a)

/-- The backend never says so. -/
theorem zucIntFromPsa_ne_errNotReady (ps : PsaStatus) : zucIntFromPsa ps ≠ .errNotReady :=
  (zucIntFromPsa_ne ps).1

namespace Within

variable {p : Adapter O α} {f : α → Adapter O β} {Q : β → Prop}

theorem pure {b : β} (h : Q b) : Within (Pure.pure b : Adapter O β) Q :=
  fun _ hw => Ensures.pure_iff.mpr ⟨hw, h⟩

theorem gives {st : ZucStatus} {b : β} (h : st ≠ .errNotReady) :
    Within (Pure.pure (st, b) : Adapter O (ZucStatus × β)) Served := .pure h

theorem ite {c : Prop} [Decidable c] {p q : Adapter O β} (hp : c → Within p Q)
    (hq : ¬ c → Within q Q) : Within (if c then p else q) Q :=
  fun w hw => Ensures.ite (fun hc => hp hc w hw) (fun hc => hq hc w hw)

theorem bind {R : α → Prop} (hp : Within p R) (hf : ∀ a, R a → Within (f a) Q) :
    Within (p >>= f) Q :=
  fun w hw => Ensures.bind_iff.mpr ((hp w hw).mono fun _ a w₁ h => (hf a h.2 w₁ h.1).mono
    fun _ _ _ h' => h')

/-- First something the result of which is left open. -/
theorem after (hp : Ordinary p) (hf : ∀ a, Within (f a) Q) : Within (p >>= f) Q := by
  intro w hw
  refine Ensures.bind_iff.mpr ((hp.frame w).mono fun _ a w₁ h => ?_)
  exact (hf a w₁ (h.refcount ▸ hw)).mono fun _ _ _ h' => h'

theorem psa {c : PsaCall O α} (hc : c.Inside) (hf : ∀ a, Within (f a) Q) :
    Within (Zucrypt.psa c >>= f) Q := .after (.psa hc) hf

/-- The library is ready. -/
theorem ready {f : Bool → Adapter O β} (hf : Within (f true) Q) : Within (zucIntReady >>= f) Q := by
  intro w hw
  refine Ensures.bind_iff.mpr (Ensures.bind_iff.mpr (Ensures.read_iff.mpr (Ensures.pure_iff.mpr ?_)))
  rw [decide_eq_true hw]
  exact hf w hw

theorem checked {p q : Adapter O β} (hq : Within q Q) :
    Within (zucIntReady >>= fun ready => if ready = false then p else q) Q :=
  .ready (.ite (fun h => absurd h (by decide)) fun _ => hq)

end Within

/-! ### Digests and HMAC -/

section
variable {κ Op : Type} {B : StreamOps O κ Op} {h : Option (StreamHandle κ Op)}

theorem within_streamUpdate (hB : DiscreetOps B) (data dataLen : Nat) :
    Within (streamUpdate B h data dataLen) Served := by
  cases h with
  | none => exact .gives (by decide)
  | some h =>
    refine .ite (fun _ => .gives (by decide)) fun _ => .ite (fun _ => .gives (by decide)) fun _ => ?_
    refine .ite (fun _ => .gives (by decide)) fun _ => .after (discreet_readMem _ _).ordinary fun bs => ?_
    exact .after (hB.update _ _).ordinary fun _ => .gives (zucIntFromPsa_ne_errNotReady _)

theorem within_streamFinish (hB : DiscreetOps B) (out outSize : Nat) (outLen : SizeCell) :
    Within (streamFinish B h out outSize outLen) Served := by
  cases h with
  | none => exact .gives (by decide)
  | some h =>
    refine .ite (fun _ => .gives (by decide)) fun _ => .ite (fun _ => .gives (by decide)) fun _ => ?_
    refine .ite (fun _ => .gives (by decide)) fun _ => .after (hB.finish _ _).ordinary fun r => ?_
    exact .after (discreet_writeOutput _ _ _).ordinary fun _ => .gives (zucIntFromPsa_ne_errNotReady _)

theorem within_streamReset (hB : DiscreetOps B) : Within (streamReset B h) Served := by
  cases h with
  | none => exact .gives (by decide)
  | some h =>
    have habort : Ordinary (streamAbortActive B h) :=
      .ite (fun _ => .bind (hB.abort _).ordinary fun _ => .pure _) fun _ => .pure _
    refine .after habort fun h => .after (hB.setup _ _ _).ordinary fun r => ?_
    refine .ite (fun _ => .after (hB.abort _).ordinary fun _ => ?_) fun _ => .gives (by decide)
    exact .gives (zucIntFromPsa_ne_errNotReady _)

end

theorem within_checkDigestArgs (alg : ZucAlg) (data dataLen out outSize : Nat) (outLen : SizeCell) :
    Within (checkDigestArgs alg data dataLen out outSize outLen : Adapter O _) (· ≠ .errNotReady) := by
  refine .checked (.ite (fun _ => .pure (by decide)) fun _ => .ite (fun _ => .pure (by decide)) fun _ => ?_)
  exact .ite (fun _ => .pure (by decide)) fun _ => .ite (fun _ => .pure (by decide)) fun _ =>
    .pure (by decide)

theorem within_zucHashCompute (alg : ZucAlg) (data dataLen out outSize : Nat) (outLen : SizeCell) :
    Within (zucHashCompute alg data dataLen out outSize outLen : Adapter O _) Served := by
  refine .bind (within_checkDigestArgs _ _ _ _ _ _) fun st hst => .ite (fun _ => .gives hst) fun _ => ?_
  refine .after (discreet_readMem _ _).ordinary fun bs => .psa trivial fun r => ?_
  exact .after (discreet_writeOutput _ _ _).ordinary fun _ => .gives (zucIntFromPsa_ne_errNotReady _)

theorem within_zucHashNew (alg : ZucAlg) (out : Bool) :
    Within (zucHashNew alg out : Adapter O _) Served := by
  refine .ite (fun _ => .gives (by decide)) fun _ => .checked (.ite (fun _ => .gives (by decide)) fun _ => ?_)
  refine .after (discreet_callocRecord _).ordinary fun self => ?_
  cases self with
  | none => exact .gives (by decide)
  | some self =>
    refine .psa trivial fun r => .ite (fun _ => .psa trivial fun _ => ?_) fun _ => ?_
    · exact .after (discreet_freeRecord _ _).ordinary fun _ => .gives (zucIntFromPsa_ne_errNotReady _)
    · exact .after (.count _) fun _ => .gives (by decide)

theorem within_importReducedKey (palg : PsaAlg) (reduced key : List Byte) :
    Within (importReducedKey palg reduced key : Adapter O _) Served :=
  .psa trivial fun _ => .after (discreet_dropLocal _).ordinary fun _ =>
    .gives (zucIntFromPsa_ne_errNotReady _)

theorem within_importHmacKey (alg : ZucAlg) (key keyLen : Nat) (palg : PsaAlg) :
    Within (importHmacKey alg key keyLen palg : Adapter O _) Served := by
  refine .after (discreet_readMem _ _).ordinary fun bytes => .ite (fun _ => ?_) fun _ => ?_
  · refine .psa trivial fun r => .ite (fun _ => ?_) fun _ => within_importReducedKey _ _ _
    exact .after (discreet_dropLocal _).ordinary fun _ => .gives (zucIntFromPsa_ne_errNotReady _)
  · exact within_importReducedKey _ _ _

theorem within_zucHmacCompute (alg : ZucAlg) (key keyLen data dataLen out outSize : Nat)
    (outLen : SizeCell) :
    Within (zucHmacCompute alg key keyLen data dataLen out outSize outLen : Adapter O _) Served := by
  refine .bind (within_checkDigestArgs _ _ _ _ _ _) fun st hst => .ite (fun _ => .gives hst) fun _ => ?_
  refine .ite (fun _ => .gives (by decide)) fun _ => .bind (within_importHmacKey _ _ _ _) fun k hk => ?_
  refine .ite (fun _ => .gives hk) fun _ => .after (discreet_readMem _ _).ordinary fun bs => ?_
  refine .psa trivial fun r => .after (discreet_writeOutput _ _ _).ordinary fun _ => ?_
  exact .psa trivial fun _ => .gives (zucIntFromPsa_ne_errNotReady _)

theorem within_zucHmacNew (alg : ZucAlg) (key keyLen : Nat) (out : Bool) :
    Within (zucHmacNew alg key keyLen out : Adapter O _) Served := by
  refine .ite (fun _ => .gives (by decide)) fun _ => .checked (.ite (fun _ => .gives (by decide)) fun _ => ?_)
  refine .ite (fun _ => .gives (by decide)) fun _ => .after (discreet_callocRecord _).ordinary fun self => ?_
  cases self with
  | none => exact .gives (by decide)
  | some self =>
    refine .bind (within_importHmacKey _ _ _ _) fun k hk => .ite (fun _ => ?_) fun _ => ?_
    · exact .after (discreet_freeRecord _ _).ordinary fun _ => .gives hk
    refine .psa trivial fun r => .ite (fun _ => .psa trivial fun _ => .psa trivial fun _ => ?_) fun _ => ?_
    · exact .after (discreet_freeRecord _ _).ordinary fun _ => .gives (zucIntFromPsa_ne_errNotReady _)
    · exact .after (.count _) fun _ => .gives (by decide)

/-! ### Ciphers -/

theorem within_importAesKey (key keyLen : Nat) (alg : PsaAlg) :
    Within (importAesKey key keyLen alg : Adapter O _) Served :=
  .after (discreet_readMem _ _).ordinary fun _ => .psa trivial fun _ =>
    .gives (zucIntFromPsa_ne_errNotReady _)

theorem within_zucAesNew (key keyLen : Nat) (out : Bool) :
    Within (zucAesNew key keyLen out : Adapter O _) Served := by
  refine .ite (fun _ => .gives (by decide)) fun _ => .checked (.ite (fun _ => .gives (by decide)) fun _ => ?_)
  refine .ite (fun _ => .gives (by decide)) fun _ => .after (discreet_callocRecord _).ordinary fun self => ?_
  cases self with
  | none => exact .gives (by decide)
  | some self =>
    refine .bind (within_importAesKey _ _ _) fun k hk => .ite (fun _ => ?_) fun _ => ?_
    · exact .after (discreet_freeRecord _ _).ordinary fun _ => .gives hk
    · exact .after (.count _) fun _ => .gives (by decide)

theorem within_zucAesCbcSetState (a : Option ZucAes) (state : Nat) :
    Within (zucAesCbcSetState a state : Adapter O _) Served := by
  cases a with
  | none => exact .gives (by decide)
  | some a =>
    refine .ite (fun _ => .gives (by decide)) fun _ => ?_
    exact .after (discreet_readBlock _).ordinary fun _ => .gives (by decide)

theorem within_zucAesCbcGetState (a : Option ZucAes) (state : Nat) :
    Within (zucAesCbcGetState a state : Adapter O _) (· ≠ .errNotReady) := by
  cases a with
  | none => exact .pure (by decide)
  | some a => exact .ite (fun _ => .pure (by decide)) fun _ => .after (.write _ _) fun _ => .pure (by decide)

theorem within_checkBlockArgs (a : Option ZucAes) (inp len out : Nat) :
    Within (checkBlockArgs a inp len out : Adapter O _) (· ≠ .errNotReady) := by
  cases a with
  | none => exact .pure (by decide)
  | some a =>
    refine .checked (.ite (fun _ => .pure (by decide)) fun _ => .ite (fun _ => .pure (by decide)) fun _ => ?_)
    exact .ite (fun _ => .pure (by decide)) fun _ => .ite (fun _ => .pure (by decide)) fun _ =>
      .pure (by decide)

theorem within_cipherFail (op : O.Cipher) (ps : PsaStatus) :
    Within (cipherFail op ps : Adapter O _) (· ≠ .errNotReady) :=
  .psa trivial fun _ => .pure (zucIntFromPsa_ne_errNotReady _)

theorem within_cipherRun (key : KeyId) (dir : BlockChaining.Direction) (iv : AesBlock)
    (inp len out : Nat) : Within (cipherRun key dir iv inp len out : Adapter O _) (· ≠ .errNotReady) := by
  have hsetup : (cipherSetup dir O.cipherInit key .cbcNoPadding : PsaCall O _).Inside := by
    cases dir <;> trivial
  refine .psa hsetup fun setup => .ite (fun _ => within_cipherFail _ _) fun _ => ?_
  refine .psa trivial fun start => .ite (fun _ => within_cipherFail _ _) fun _ => ?_
  refine .after (discreet_readMem _ _).ordinary fun input => .psa trivial fun update => ?_
  refine .after (discreet_writeOutput _ _ _).ordinary fun _ => .ite (fun _ => within_cipherFail _ _) fun _ => ?_
  refine .psa trivial fun finish => .after (discreet_writeOutput _ _ _).ordinary fun _ => ?_
  refine .ite (fun _ => within_cipherFail _ _) fun _ => .ite (fun _ => .psa trivial fun _ => ?_) fun _ => ?_
  · exact .pure (by decide)
  · exact .pure (by decide)

theorem within_zucAesCbcEncrypt (a : Option ZucAes) (inp len out : Nat) :
    Within (zucAesCbcEncrypt a inp len out : Adapter O _) Served := by
  refine .bind (within_checkBlockArgs _ _ _ _) fun st hst => ?_
  cases a with
  | none => exact .gives hst
  | some a =>
    refine .ite (fun _ => .gives hst) fun _ => .bind (within_cipherRun _ _ _ _ _ _) fun st hst => ?_
    refine .ite (fun _ => .gives hst) fun _ => ?_
    exact .after (discreet_readBlock _).ordinary fun _ => .gives (by decide)

theorem within_zucAesCbcDecrypt (a : Option ZucAes) (inp len out : Nat) :
    Within (zucAesCbcDecrypt a inp len out : Adapter O _) Served := by
  refine .bind (within_checkBlockArgs _ _ _ _) fun st hst => ?_
  cases a with
  | none => exact .gives hst
  | some a =>
    refine .ite (fun _ => .gives hst) fun _ => .after (discreet_readBlock _).ordinary fun next => ?_
    refine .bind (within_cipherRun _ _ _ _ _ _) fun st hst => ?_
    refine .after (discreet_dropLocal _).ordinary fun _ => ?_
    exact .ite (fun _ => .gives hst) fun _ => .gives (by decide)

theorem aeadArgs_ne_errNotReady (dir : BlockChaining.Direction) (alg : ZucAlg)
    (key keyLen nonce nonceLen aad aadLen inp len out tag tagLen : Nat) :
    aeadArgs true dir alg key keyLen nonce nonceLen aad aadLen inp len out tag tagLen ≠ .errNotReady := by
  unfold aeadArgs
  repeat' split
  all_goals simp_all

theorem within_aeadEnd (dir : BlockChaining.Direction) (len tagLen : Nat) (k : KeyId)
    (a : AeadProgress O) : Within (aeadEnd dir len tagLen k a) (· ≠ .errNotReady) := by
  refine .ite (fun _ => .psa trivial fun _ => .psa trivial fun _ => .pure ?_)
    fun _ => .psa trivial fun _ => .pure ?_
  · split
    · decide
    · exact zucIntFromPsa_ne_errNotReady _
  · split
    · decide
    · decide

theorem within_importAeadKey (key keyLen : Nat) (palg : PsaAlg) :
    Within (importAeadKey key keyLen palg : Adapter O _) Served :=
  .after (discreet_readMem _ _).ordinary fun _ => .psa trivial fun _ =>
    .gives (zucIntFromPsa_ne_errNotReady _)

theorem within_aeadRun (dir : BlockChaining.Direction) (alg : ZucAlg)
    (key keyLen nonce nonceLen aad aadLen inp len out tag tagLen : Nat) :
    Within (aeadRun dir alg key keyLen nonce nonceLen aad aadLen inp len out tag tagLen :
      Adapter O _) (· ≠ .errNotReady) := by
  have hsetup : ∀ k, (aeadSetup dir O.aeadInit k (psaAeadAlg alg) : PsaCall O _).Inside := by
    intro k
    cases dir <;> trivial
  have hnonce : ∀ a : AeadProgress O, Ordinary (aeadNonce nonce nonceLen a) := fun a =>
    .ite (fun _ => .bind (discreet_readMem _ _).ordinary fun _ => .bind (.psa trivial) fun _ => .pure _)
      fun _ => .pure _
  have had : ∀ a : AeadProgress O, Ordinary (aeadAd aad aadLen a) := fun a =>
    .ite (fun _ => .bind (discreet_readMem _ _).ordinary fun _ => .bind (.psa trivial) fun _ => .pure _)
      fun _ => .pure _
  have hdata : ∀ a : AeadProgress O, Ordinary (aeadData inp len out a) := fun a =>
    .ite (fun _ => .bind (discreet_readMem _ _).ordinary fun _ => .bind (.psa trivial) fun _ =>
      .bind (discreet_writeOutput _ _ _).ordinary fun _ => .pure _) fun _ => .pure _
  have hlast : ∀ a : AeadProgress O, Ordinary (aeadLast dir len out tag tagLen a) := by
    intro a
    refine .ite (fun _ => ?_) fun _ => .pure _
    cases dir with
    | encrypt =>
      refine .bind (.psa trivial) fun r => .bind (discreet_writeOutput _ _ _).ordinary fun _ => ?_
      exact .bind (discreet_writeOutput _ _ _).ordinary fun _ => .pure _
    | decrypt =>
      refine .bind (discreet_readMem _ _).ordinary fun bytes => .bind (.psa trivial) fun r => ?_
      exact .bind (discreet_writeOutput _ _ _).ordinary fun _ => .pure _
  refine .bind (within_importAeadKey _ _ _) fun k hk => .ite (fun _ => .pure hk) fun _ => ?_
  refine .psa (hsetup k.2) fun setup => .after (hnonce _) fun a => .after (had _) fun a => ?_
  exact .after (hdata _) fun a => .after (hlast _) fun a => within_aeadEnd _ _ _ _ _

theorem within_zucAeadEncrypt (alg : ZucAlg) (key keyLen nonce nonceLen aad aadLen plaintext len
    ciphertext tag tagLen : Nat) :
    Within (zucAeadEncrypt alg key keyLen nonce nonceLen aad aadLen plaintext len ciphertext tag
      tagLen : Adapter O _) (· ≠ .errNotReady) := by
  have hcheck : Within (checkAeadArgs .encrypt alg key keyLen nonce nonceLen aad aadLen plaintext len
      ciphertext tag tagLen : Adapter O _) (· ≠ .errNotReady) :=
    .ready (.pure (aeadArgs_ne_errNotReady _ _ _ _ _ _ _ _ _ _ _ _ _))
  refine .bind hcheck fun st hst => .ite (fun _ => .pure hst) fun _ => ?_
  refine .bind (within_aeadRun _ _ _ _ _ _ _ _ _ _ _ _ _) fun st hst => ?_
  have hdata : Ordinary (if len ≠ 0 then zucSecureZero ciphertext len else pure () : Adapter O Unit) :=
    .ite (fun _ => (discreet_zucSecureZero _ _).ordinary) fun _ => .pure _
  refine .ite (fun _ => .after hdata fun _ => ?_) fun _ => .pure hst
  exact .after (discreet_zucSecureZero _ _).ordinary fun _ => .pure hst

theorem within_zucAeadDecrypt (alg : ZucAlg) (key keyLen nonce nonceLen aad aadLen ciphertext len
    tag tagLen plaintext : Nat) :
    Within (zucAeadDecrypt alg key keyLen nonce nonceLen aad aadLen ciphertext len tag tagLen
      plaintext : Adapter O _) (· ≠ .errNotReady) := by
  have hcheck : Within (checkAeadArgs .decrypt alg key keyLen nonce nonceLen aad aadLen ciphertext len
      plaintext tag tagLen : Adapter O _) (· ≠ .errNotReady) :=
    .ready (.pure (aeadArgs_ne_errNotReady _ _ _ _ _ _ _ _ _ _ _ _ _))
  refine .bind hcheck fun st hst => .ite (fun _ => .pure hst) fun _ => ?_
  refine .bind (within_aeadRun _ _ _ _ _ _ _ _ _ _ _ _ _) fun st hst => ?_
  refine .ite (fun _ => ?_) fun _ => .pure hst
  exact .after (discreet_zucSecureZero _ _).ordinary fun _ => .pure hst

/-! ### Key derivation -/

theorem pbkdf2Args_ne_errNotReady (hash : ZucAlg) (password passwordLen salt saltLen : Nat)
    (iterations : UInt32) (out outLen : Nat) :
    pbkdf2Args true hash password passwordLen salt saltLen iterations out outLen ≠ .errNotReady := by
  unfold pbkdf2Args
  repeat' split
  all_goals simp_all

theorem within_zucPbkdf2Hmac (hash : ZucAlg) (password passwordLen salt saltLen : Nat)
    (iterations : UInt32) (out outLen : Nat) :
    Within (zucPbkdf2Hmac hash password passwordLen salt saltLen iterations out outLen : Adapter O _)
      (· ≠ .errNotReady) := by
  have hstep : ∀ (call : O.Kdf → PsaCall O (PsaStatus × O.Kdf)) r, (∀ op, (call op).Inside) →
      Ordinary (kdfStep call r) := fun call r hcall =>
    .ite (fun _ => .psa (hcall _)) fun _ => .pure _
  have houtput : ∀ r : PsaStatus × O.Kdf, Ordinary (kdfOutput out outLen r) := fun r =>
    .ite (fun _ => .bind (.psa trivial) fun _ => .bind (.write _ _) fun _ => .pure _)
      fun _ => .pure _
  have hrun : Ordinary (pbkdf2Run (pbkdf2Hash hash) password passwordLen salt saltLen iterations out
      outLen : Adapter O _) := by
    refine .bind (.psa trivial) fun r => .bind (hstep _ _ fun _ => trivial) fun r => ?_
    refine .bind (discreet_readMem _ _).ordinary fun _ => .bind (hstep _ _ fun _ => trivial) fun r => ?_
    refine .bind (discreet_readMem _ _).ordinary fun _ => .bind (hstep _ _ fun _ => trivial) fun r => ?_
    exact .bind (houtput _) fun r => .bind (.psa trivial) fun _ => .pure _
  refine .ready (.ite (fun _ => .pure (pbkdf2Args_ne_errNotReady _ _ _ _ _ _ _ _)) fun _ => ?_)
  refine .after hrun fun ps => .ite (fun _ => ?_) fun _ => .pure (by decide)
  exact .after (discreet_zucSecureZero _ _).ordinary fun _ => .pure (zucIntFromPsa_ne_errNotReady _)

/-! ### Constructors of keys -/

theorem parseStatus_ne_errNotReady (ps : PsaStatus) : parseStatus ps ≠ .errNotReady := by
  cases ps <;> simp [parseStatus]

theorem within_pkeyFromPsa (id : KeyId) (wantPrivate : Bool) :
    Within (pkeyFromPsa id wantPrivate : Adapter O _) Served := by
  refine .psa trivial fun attr => .ite (fun _ => .gives (zucIntFromPsa_ne_errNotReady _)) fun _ => ?_
  refine .ite (fun _ => .gives (by decide)) fun _ => ?_
  refine .after (discreet_callocRecord _).ordinary fun self => ?_
  refine .after (silent_mallocBytes _).ordinary fun buf => ?_
  have hfail : Within (do
      freeIf (freeRecord .zucPkey) self
      freeIf freeBytes buf
      return (.errMemory, none) : Adapter O (ZucStatus × Option ZucPkey)) Served := by
    refine .after (silent_freeIf (silent_freeRecord _) self).ordinary fun _ => ?_
    exact .after (silent_freeIf silent_freeBytes buf).ordinary fun _ => .gives (by decide)
  cases self with
  | none => exact hfail
  | some self =>
    cases buf with
    | none => exact hfail
    | some buf =>
      have hexport : ∀ (b : Bool) (cap : Nat),
          (if b then .exportKey id cap else .exportPublicKey id cap : PsaCall O _).Inside := by
        intro b cap
        cases b <;> trivial
      refine .psa (hexport _ _) fun r => .ite (fun _ => ?_) fun _ => .after (.count _) fun _ => ?_
      · refine .after (silent_freeBytes _).ordinary fun _ => .after (discreet_freeRecord _ _).ordinary fun _ => ?_
        exact .gives (zucIntFromPsa_ne_errNotReady _)
      · exact .gives (by decide)

/-- A handle made of a key that is destroyed afterwards. -/
theorem within_fromPsa {f : ZucStatus × Option ZucPkey → Adapter O (ZucStatus × Option ZucPkey)}
    (id : KeyId) (wantPrivate : Bool) (hf : ∀ key, Served key → Within (f key) Served) :
    Within (do
      let key ← pkeyFromPsa id wantPrivate
      psa (.destroyKey id)
      f key : Adapter O (ZucStatus × Option ZucPkey)) Served :=
  .bind (within_pkeyFromPsa _ _) fun key hkey => .psa trivial fun _ => hf key hkey

theorem within_pkeyImport (key : ZucPkey) (alg : PsaAlg) (usage : PsaKeyUsage) :
    Within (pkeyImport key alg usage : Adapter O _) Served :=
  .psa trivial fun _ => .gives (zucIntFromPsa_ne_errNotReady _)

/-- Where only a lack of memory keeps its name. -/
theorem memoryOr_ne_errNotReady {ps : PsaStatus} {st : ZucStatus} (hst : st ≠ .errNotReady) :
    (if ps = .errorInsufficientMemory then ZucStatus.errMemory else st) ≠ .errNotReady := by
  split
  · decide
  · exact hst

theorem within_pkeyImportBytes (type : ZucAlg) (privateKey : Bool) (data : List Byte) :
    Within (pkeyImportBytes type privateKey data : Adapter O _) Served := by
  refine .ite (fun _ => .gives (by decide)) fun _ => .psa trivial fun r => ?_
  refine .ite (fun _ => .gives (memoryOr_ne_errNotReady (by decide))) fun _ => ?_
  exact within_fromPsa _ _ fun _ hkey => .pure hkey

theorem within_pkeyImportImpl (type : ZucAlg) (privateKey : Bool) (data len : Nat) (out : Bool) :
    Within (pkeyImportImpl type privateKey data len out : Adapter O _) Served := by
  refine .ite (fun _ => .gives (by decide)) fun _ => .checked (.ite (fun _ => .gives (by decide)) fun _ => ?_)
  exact .after (discreet_readMem _ _).ordinary fun bytes => within_pkeyImportBytes _ _ _

theorem within_pkeyGenerateImpl (type : ZucAlg) (bits : Nat) (out : Bool) :
    Within (pkeyGenerateImpl type bits out : Adapter O _) Served := by
  refine .ite (fun _ => .gives (by decide)) fun _ => .checked (.ite (fun _ => .gives (by decide)) fun _ => ?_)
  refine .ite (fun _ => .gives (by decide)) fun _ => .ite (fun _ => .gives (by decide)) fun _ => ?_
  refine .ite (fun _ => .gives (by decide)) fun _ => .psa trivial fun r => ?_
  refine .ite (fun _ => .gives (zucIntFromPsa_ne_errNotReady _)) fun _ => ?_
  exact within_fromPsa _ _ fun _ hkey => .pure hkey

theorem within_pkeyPublicImpl (key : Option ZucPkey) (out : Bool) :
    Within (pkeyPublicImpl key out : Adapter O _) Served := by
  refine .ite (fun _ => .gives (by decide)) fun _ => ?_
  cases key with
  | none => exact .gives (by decide)
  | some k =>
    refine .checked (.bind (within_pkeyImport _ _ _) fun r hr => .ite (fun _ => .gives hr) fun _ => ?_)
    exact within_fromPsa _ _ fun _ hkey => .pure hkey

theorem within_parseImport (pk : O.Pk) (attr : PsaKeyAttributes) (isPair privateKey : Bool) :
    Within (parseImport pk attr isPair privateKey : Adapter O _) Served := by
  refine .psa trivial fun r => .psa trivial fun _ => ?_
  refine .ite (fun _ => .gives (memoryOr_ne_errNotReady (by decide))) fun _ => ?_
  refine within_fromPsa _ _ fun key hkey => ?_
  -- a private key was asked for, and what came is one, or is not, or is no key at all
  split
  · refine .ite (fun _ => ?_) fun _ => .pure hkey
    exact .after (silent_zucPkeyFree _).ordinary fun _ => .gives (by decide)
  · exact .pure hkey

theorem within_parseDescribe (pk : O.Pk) (isPair privateKey : Bool) :
    Within (parseDescribe pk isPair privateKey : Adapter O _) Served := by
  have hattr : Ordinary (parseAttributes pk isPair : Adapter O _) :=
    .bind (.psa trivial) fun _ => .ite (fun _ => .psa trivial) fun _ => .pure _
  have hx25519 : Ordinary (if isPair then return false else do
      let bits ← psa (.pkGetBitlen pk)
      return decide (bits = 255) : Adapter O Bool) :=
    .ite (fun _ => .pure _) fun _ => .bind (.psa trivial) fun _ => .pure _
  refine .after hattr fun attr => .ite (fun _ => within_parseImport _ _ _ _) fun _ => ?_
  refine .after hx25519 fun x25519 => .ite (fun _ => ?_) fun _ => .psa trivial fun _ => .gives (by decide)
  refine .psa trivial fun raw => .psa trivial fun _ => ?_
  exact .ite (fun _ => .gives (by decide)) fun _ => within_pkeyImportBytes _ _ _

theorem within_parseSource (src : List Byte) (copy : Option HeapBytes) (privateKey : Bool) :
    Within (parseSource src copy privateKey : Adapter O _) Served := by
  refine .after (silent_parseEither _ _).ordinary fun r => ?_
  refine .after (silent_freeIf (fun _ => silent_freeBytes _) copy).ordinary fun _ => ?_
  refine .ite (fun _ => .psa trivial fun _ => .gives (parseStatus_ne_errNotReady _)) fun _ => ?_
  exact within_parseDescribe _ _ _

theorem within_pkeyParseImpl (inp len : Nat) (privateKey out : Bool) :
    Within (pkeyParseImpl inp len privateKey out : Adapter O _) Served := by
  refine .ite (fun _ => .gives (by decide)) fun _ => .checked (.ite (fun _ => .gives (by decide)) fun _ => ?_)
  refine .after (discreet_readMem _ _).ordinary fun bytes => .ite (fun _ => ?_) fun _ => within_parseSource _ _ _
  refine .ite (fun _ => .gives (by decide)) fun _ => .after (silent_mallocBytes _).ordinary fun copy => ?_
  cases copy with
  | none => exact .gives (by decide)
  | some copy => exact within_parseSource _ _ _

/-! ### Encodings -/

theorem within_publicDer (key : ZucPkey) : Within (publicDer key : Adapter O _) ServedOr := by
  -- of a private key it is `pkey_public_impl`, which asks again whether the library is ready
  refine .ite (fun _ => .after (silent_mallocBytes _).ordinary fun buf => ?_) fun _ => ?_
  · cases buf with
    | none => exact .pure (servedOr_error (by decide))
    | some buf => exact .pure (servedOr_ok _)
  · refine .bind (within_pkeyPublicImpl _ _) fun r hr => .ite (fun _ => .pure (servedOr_error hr)) fun _ => ?_
    obtain ⟨st, pub⟩ := r
    cases pub with
    | none => exact .pure (servedOr_error (by decide))
    | some pub =>
      exact .after (discreet_freeRecord _ _).ordinary fun _ => .after (.count _) fun _ => .pure (servedOr_ok _)

theorem within_pkcs8Wrap (pkcs1 : List Byte) :
    Within (pkcs8Wrap pkcs1 : Adapter O _) ServedOr := by
  refine .ite (fun _ => .pure (servedOr_error (by decide))) fun _ => ?_
  refine .after (silent_mallocBytes _).ordinary fun p => ?_
  cases p with
  | none => exact .pure (servedOr_error (by decide))
  | some p => exact .pure (servedOr_ok _)

theorem within_spkiDer (key : ZucPkey) : Within (spkiDer key : Adapter O _) ServedOr := by
  refine .bind (within_pkeyImport _ _ _) fun k hk => .ite (fun _ => .pure (servedOr_error hk)) fun _ => ?_
  refine .psa trivial fun r => .psa trivial fun _ => .ite (fun _ => .psa trivial fun _ => ?_) fun _ => ?_
  · exact .pure (servedOr_error (memoryOr_ne_errNotReady (by decide)))
  refine .after (silent_mallocBytes _).ordinary fun buf => ?_
  cases buf with
  | none => exact .psa trivial fun _ => .pure (servedOr_error (by decide))
  | some buf =>
    refine .psa trivial fun der => .psa trivial fun _ => ?_
    cases der with
    | error ps =>
      exact .after (silent_freeBytes _).ordinary fun _ =>
        .pure (servedOr_error (memoryOr_ne_errNotReady (by decide)))
    | ok der =>
      refine .ite (fun _ => .after (silent_freeBytes _).ordinary fun _ => ?_) fun _ => ?_
      · exact .pure (servedOr_error (by decide))
      · exact .pure (servedOr_ok _)

theorem within_x25519Encode (key : ZucPkey) (pkcs1 : Bool) :
    Within (x25519Encode key pkcs1 : Adapter O _) ServedOr := by
  refine .ite (fun _ => .pure (servedOr_error (by decide))) fun _ => ?_
  refine .after (silent_encodeInto _ _).ordinary fun p => ?_
  cases p with
  | none => exact .pure (servedOr_error (by decide))
  | some der => exact .pure (servedOr_ok _)

theorem within_nistEncode (key : ZucPkey) (pkcs1 : Bool) :
    Within (nistEncode key pkcs1 : Adapter O _) ServedOr := by
  refine .bind (within_publicDer key) fun point hpoint => ?_
  cases point with
  | error st => exact .pure (servedOr_error (hpoint st rfl))
  | ok point =>
    have hencode : Ordinary (if pkcs1 then
        encodeInto (ecSec1Size key.type key.der.bytes.length point.bytes.length true)
          (ecSec1 · key.type key.der.bytes point.bytes true)
      else
        encodeInto (tlvSize (ecInfoBody key.type key.der.bytes.length point.bytes.length))
          (ecInfoWrite · key.type key.der.bytes point.bytes) : Adapter O (Option HeapBytes)) :=
      .ite (fun _ => (silent_encodeInto _ _).ordinary) fun _ => (silent_encodeInto _ _).ordinary
    refine .after hencode fun p => .after (silent_freeBytes _).ordinary fun _ => ?_
    cases p with
    | none => exact .pure (servedOr_error (by decide))
    | some der => exact .pure (servedOr_ok _)

/-- An encoding gets its label. -/
theorem within_labelled {p : Adapter O (Except ZucStatus HeapBytes)} (label : String)
    (hp : Within p ServedOr) :
    Within (do
      let der ← p
      return der.map (⟨·, label⟩) : Adapter O (Except ZucStatus Encoding)) ServedOr :=
  .bind hp fun _ hder => .pure (hder.map _)

theorem within_ecEncode (key : ZucPkey) (format : ZucPkeyFormat) (privateOut : Bool) :
    Within (ecEncode key format privateOut : Adapter O _) ServedOr := by
  have hrest : ∀ pkcs1 : Bool, Within (if privateOut = false then
      if pkcs1 then return .error .errUnsupported
      else do
        let der ← spkiDer key
        return der.map (⟨·, "PUBLIC KEY"⟩)
    else if key.type = .x25519 then x25519Encode key pkcs1
    else nistEncode key pkcs1 : Adapter O (Except ZucStatus Encoding)) ServedOr := by
    intro pkcs1
    refine .ite (fun _ => .ite (fun _ => .pure (servedOr_error (by decide))) fun _ => ?_) fun _ => ?_
    · exact within_labelled _ (within_spkiDer _)
    · exact .ite (fun _ => within_x25519Encode _ _) fun _ => within_nistEncode _ _
  cases format with
  | other value => exact .pure (servedOr_error (by decide))
  | pkcs1Der => exact hrest _
  | pkcs1Pem => exact hrest _
  | infoDer => exact hrest _
  | infoPem => exact hrest _

theorem within_rsaEncode (key : ZucPkey) (format : ZucPkeyFormat) (privateOut : Bool) :
    Within (rsaEncode key format privateOut : Adapter O _) ServedOr := by
  have hcopy : Within (rsaEncode key .pkcs1Der true : Adapter O _) ServedOr := by
    refine .after (silent_mallocBytes _).ordinary fun der => ?_
    cases der with
    | none => exact .pure (servedOr_error (by decide))
    | some der => exact .pure (servedOr_ok _)
  have hpublic := within_labelled (O := O) "PUBLIC KEY" (within_spkiDer key)
  have hrsa := within_labelled (O := O) "RSA PUBLIC KEY" (within_publicDer key)
  have hwrap := within_labelled (O := O) "PRIVATE KEY" (within_pkcs8Wrap key.der.bytes)
  cases format with
  | other value => exact .pure (servedOr_error (by decide))
  | pkcs1Der => cases privateOut with
    | true => exact hcopy
    | false => exact hrsa
  | pkcs1Pem => cases privateOut with
    | true => exact hcopy
    | false => exact hrsa
  | infoDer => cases privateOut with
    | true => exact hwrap
    | false => exact hpublic
  | infoPem => cases privateOut with
    | true => exact hwrap
    | false => exact hpublic

theorem within_writeEncoding (e : Encoding) (format : ZucPkeyFormat) (out outSize : Nat) :
    Within (writeEncoding e format out outSize : Adapter O _) Served := by
  refine .ite (fun _ => .ite (fun _ => .gives (by decide)) fun _ => ?_) fun _ => .psa trivial fun r => ?_
  · exact .after (.write _ _) fun _ => .gives (by decide)
  refine .after (discreet_writeOutput _ _ _).ordinary fun _ => .ite (fun _ => .gives (by decide)) fun _ => ?_
  exact .ite (fun _ => .gives (by decide)) fun _ => .gives (by decide)

/-- What is written is wiped if it failed. -/
theorem within_settled {c : Prop} [Decidable c] (out outSize : Nat) {a : ZucStatus × α} {b : α}
    (ha : Served a) :
    Within (if c then do
        zucSecureZero out outSize
        return a
      else return (.ok, b) : Adapter O (ZucStatus × α)) Served :=
  .ite (fun _ => .after (discreet_zucSecureZero _ _).ordinary fun _ => .pure ha)
    fun _ => .gives (by decide)

theorem within_pkeyWriteImpl (key : Option ZucPkey) (format : ZucPkeyFormat) (publicOnly : Bool)
    (out outSize : Nat) (outLen : SizeCell) :
    Within (pkeyWriteImpl key format publicOnly out outSize outLen : Adapter O _) Served := by
  cases key with
  | none => exact .gives (by decide)
  | some k =>
    refine .ite (fun _ => .gives (by decide)) fun _ => .checked ?_
    refine .ite (fun _ => .bind (within_ecEncode _ _ _) ?_) fun _ => .bind (within_rsaEncode _ _ _) ?_
    all_goals
      intro e he
      cases e with
      | error st => exact .gives (he st rfl)
      | ok e =>
        refine .bind (within_writeEncoding _ _ _ _) fun r hr => .after (silent_freeBytes _).ordinary fun _ => ?_
        exact within_settled _ _ hr

/-! ### Operations -/

theorem within_pkeySignHashImpl (key : Option ZucPkey) (scheme hash : ZucAlg)
    (digest digestLen sig sigSize : Nat) (sigLen : SizeCell) :
    Within (pkeySignHashImpl key scheme hash digest digestLen sig sigSize sigLen : Adapter O _) Served := by
  cases key with
  | none => exact .gives (by decide)
  | some k =>
    refine .ite (fun _ => .gives (by decide)) fun _ => .checked (.ite (fun _ => .gives (by decide)) fun _ => ?_)
    refine .ite (fun _ => .gives (by decide)) fun _ => .ite (fun _ => .gives (by decide)) fun _ => ?_
    refine .ite (fun _ => .gives (by decide)) fun _ => .bind (within_pkeyImport _ _ _) fun id hid => ?_
    refine .ite (fun _ => .gives hid) fun _ => .after (discreet_readMem _ _).ordinary fun bytes => ?_
    refine .psa trivial fun r => .after (discreet_writeOutput _ _ _).ordinary fun _ => .psa trivial fun _ => ?_
    exact within_settled _ _ (zucIntFromPsa_ne_errNotReady _)

theorem verifyStatus_ne_errNotReady (ps : PsaStatus) : verifyStatus ps ≠ .errNotReady := by
  unfold verifyStatus
  split
  · decide
  · exact zucIntFromPsa_ne_errNotReady ps

theorem verifyArgs_ne_errNotReady (key : ZucPkey) (scheme hash : ZucAlg) (digestLen sigLen : Nat) :
    verifyArgs key scheme hash digestLen sigLen ≠ .errNotReady := by
  unfold verifyArgs
  repeat' split
  all_goals simp

theorem within_pkeyVerifyHashImpl (key : Option ZucPkey) (scheme hash : ZucAlg)
    (digest digestLen sig sigLen : Nat) :
    Within (pkeyVerifyHashImpl key scheme hash digest digestLen sig sigLen : Adapter O _)
      (· ≠ .errNotReady) := by
  cases key with
  | none => exact .pure (by decide)
  | some k =>
    refine .ite (fun _ => .pure (by decide)) fun _ => .checked ?_
    refine .ite (fun _ => .pure (verifyArgs_ne_errNotReady _ _ _ _ _)) fun _ => ?_
    refine .bind (within_pkeyImport _ _ _) fun id hid => .ite (fun _ => .pure hid) fun _ => ?_
    refine .after (discreet_readMem _ _).ordinary fun _ => .after (discreet_readMem _ _).ordinary fun _ => ?_
    exact .psa trivial fun ps => .psa trivial fun _ => .pure (verifyStatus_ne_errNotReady ps)

theorem within_pkeyEncryptImpl (key : Option ZucPkey) (scheme hash : ZucAlg)
    (inp len out outSize : Nat) (outLen : SizeCell) :
    Within (pkeyEncryptImpl key scheme hash inp len out outSize outLen : Adapter O _) Served := by
  cases key with
  | none => exact .gives (by decide)
  | some k =>
    refine .ite (fun _ => .gives (by decide)) fun _ => .checked (.ite (fun _ => .gives (by decide)) fun _ => ?_)
    refine .ite (fun _ => .gives (by decide)) fun _ => .bind (within_pkeyImport _ _ _) fun id hid => ?_
    refine .ite (fun _ => .gives hid) fun _ => .after (discreet_readMem _ _).ordinary fun bytes => ?_
    refine .psa trivial fun r => .after (discreet_writeOutput _ _ _).ordinary fun _ => .psa trivial fun _ => ?_
    refine within_settled _ _ ?_
    show (if r.1 = .errorInvalidArgument then ZucStatus.errBadLength else _) ≠ _
    split
    · decide
    · exact zucIntFromPsa_ne_errNotReady _

theorem within_pkeyDecryptImpl (key : Option ZucPkey) (scheme hash : ZucAlg)
    (inp len out outSize : Nat) (outLen : SizeCell) :
    Within (pkeyDecryptImpl key scheme hash inp len out outSize outLen : Adapter O _) Served := by
  cases key with
  | none => exact .gives (by decide)
  | some k =>
    refine .ite (fun _ => .gives (by decide)) fun _ => .checked (.ite (fun _ => .gives (by decide)) fun _ => ?_)
    refine .ite (fun _ => .gives (by decide)) fun _ => .bind (within_pkeyImport _ _ _) fun id hid => ?_
    refine .ite (fun _ => .gives hid) fun _ => .after (discreet_readMem _ _).ordinary fun bytes => ?_
    refine .psa trivial fun r => .after (discreet_writeOutput _ _ _).ordinary fun _ => .psa trivial fun _ => ?_
    exact within_settled _ _ (memoryOr_ne_errNotReady (by decide))

theorem within_pkeyExportImpl (key : Option ZucPkey) (publicOnly : Bool) (out outSize : Nat)
    (outLen : SizeCell) :
    Within (pkeyExportImpl key publicOnly out outSize outLen : Adapter O _) Served := by
  refine .checked ?_
  cases key with
  | none => exact .gives (by decide)
  | some k =>
    refine .ite (fun _ => .gives (by decide)) fun _ => .ite (fun _ => ?_) fun _ => ?_
    · exact .ite (fun _ => .gives (by decide)) fun _ => .after (.write _ _) fun _ => .gives (by decide)
    refine .bind (within_publicDer k) fun der hder => ?_
    cases der with
    | error st => exact .gives (hder st rfl)
    | ok der =>
      refine .ite (fun _ => .after (silent_freeBytes _).ordinary fun _ => .gives (by decide)) fun _ => ?_
      exact .after (.write _ _) fun _ => .after (silent_freeBytes _).ordinary fun _ => .gives (by decide)

theorem within_agreeRun (key : ZucPkey) (point : List Byte) (out outSize : Nat) :
    Within (agreeRun key point out outSize : Adapter O _) Served := by
  refine .bind (within_pkeyImport _ _ _) fun id hid => .ite (fun _ => .gives hid) fun _ => ?_
  refine .psa trivial fun r => .after (discreet_writeOutput _ _ _).ordinary fun _ => .psa trivial fun _ => .gives ?_
  split
  · decide
  · exact memoryOr_ne_errNotReady (by decide)

theorem within_pkeyAgreeImpl (key peer : Option ZucPkey) (out outSize : Nat) (outLen : SizeCell) :
    Within (pkeyAgreeImpl key peer out outSize outLen : Adapter O _) Served := by
  refine .checked ?_
  cases key with
  | none => exact .gives (by decide)
  | some k =>
    cases peer with
    | none => exact .gives (by decide)
    | some p =>
      refine .ite (fun _ => .gives (by decide)) fun _ => .ite (fun _ => .gives (by decide)) fun _ => ?_
      refine .ite (fun _ => .gives (by decide)) fun _ => .ite (fun _ => .gives (by decide)) fun _ => ?_
      refine .bind (within_publicDer p) fun point hpoint => ?_
      cases point with
      | error st => exact .gives (hpoint st rfl)
      | ok point =>
        refine .bind (within_agreeRun _ _ _ _) fun r hr => .after (silent_freeBytes _).ordinary fun _ => ?_
        refine .after (discreet_readMem _ _).ordinary fun secret => within_settled _ _ ?_
        show (if _ then ZucStatus.errInvalidArgument else r.1) ≠ _
        split
        · decide
        · exact hr

/-! ### Commands -/

namespace Command

/-- The call does not say that the library is not ready. -/
abbrev Heard (r : CallResult × Pool O) : Prop := r.1.status ≠ .errNotReady

variable {pool : Pool O}

theorem within_constructor {γ : Type} {kind : γ → LiveHandle O} {p : Adapter O (ZucStatus × Option γ)}
    (hp : Within p Served) : Within (constructor kind pool p) Heard :=
  .bind hp fun _ hr => .pure hr

theorem within_change {γ : Type} {kind : γ → LiveHandle O} {i : Nat}
    {p : Adapter O (ZucStatus × Option γ)} (hp : Within p Served) :
    Within (change kind pool i p) Heard :=
  .bind hp fun _ hr => .pure hr

theorem within_changeCell {γ : Type} {kind : γ → LiveHandle O} {i : Nat}
    {p : Adapter O (ZucStatus × Option γ × SizeCell)} (hp : Within p Served) :
    Within (changeCell kind pool i p) Heard :=
  .bind hp fun _ hr => .pure hr

theorem within_free {γ : Type} {i : Nat} {h : Option γ} {p : Adapter O Unit} (hp : Ordinary p) :
    Within (free pool i h p) Heard :=
  .after hp fun _ => .pure (show ZucStatus.ok ≠ .errNotReady by decide)

theorem within_plain {p : Adapter O ZucStatus} (hp : Within p (· ≠ .errNotReady)) :
    Within (plain pool p) Heard :=
  .bind hp fun _ hst => .pure hst

theorem within_plainCell {p : Adapter O (ZucStatus × SizeCell)} (hp : Within p Served) :
    Within (plainCell pool p) Heard :=
  .bind hp fun _ hr => .pure hr

theorem within_underWatch {p : Adapter O (CallResult × Pool O)} (hp : Within p Heard) :
    Within (underWatch p) Heard := by
  intro w hw
  refine Ensures.bind_iff.mpr (Ensures.update_iff.mpr (Ensures.bind_iff.mpr ?_))
  refine (hp { w with allocFailed := false } hw).mono fun t r w' h => ?_
  refine Ensures.bind_iff.mpr (Ensures.bind_iff.mpr (Ensures.read_iff.mpr (Ensures.pure_iff.mpr ?_)))
  refine Ensures.pure_iff.mpr ⟨h.1, ?_⟩
  show (if _ then ZucStatus.errMemory else r.1.status) ≠ _
  split
  · decide
  · exact h.2

theorem within_impl {c : Command} {p : Adapter O (CallResult × Pool O)}
    (hc : c.impl pool = some p) : Within p Heard := by
  cases c with
  | pkeyParse => cases hc; exact within_constructor (within_pkeyParseImpl _ _ _ _)
  | pkeyGenerate => cases hc; exact within_constructor (within_pkeyGenerateImpl _ _ _)
  | pkeyImport => cases hc; exact within_constructor (within_pkeyImportImpl _ _ _ _ _)
  | pkeyPublic => cases hc; exact within_constructor (within_pkeyPublicImpl _ _)
  | pkeyWrite => cases hc; exact within_plainCell (within_pkeyWriteImpl _ _ _ _ _ _)
  | pkeySignHash => cases hc; exact within_plainCell (within_pkeySignHashImpl _ _ _ _ _ _ _ _)
  | pkeyVerifyHash => cases hc; exact within_plain (within_pkeyVerifyHashImpl _ _ _ _ _ _ _)
  | pkeyEncrypt => cases hc; exact within_plainCell (within_pkeyEncryptImpl _ _ _ _ _ _ _ _)
  | pkeyDecrypt => cases hc; exact within_plainCell (within_pkeyDecryptImpl _ _ _ _ _ _ _ _)
  | pkeyExport => cases hc; exact within_plainCell (within_pkeyExportImpl _ _ _ _ _)
  | pkeyAgree => cases hc; exact within_plainCell (within_pkeyAgreeImpl _ _ _ _ _)
  | _ => cases hc

/-- No call says that the library is not ready while it is. -/
theorem within_run {c : Command} (hlifetime : ¬ c.IsLifetime) : Within (c.run pool) Heard := by
  cases himpl : c.impl pool with
  | some p =>
    rw [run_eq_underWatch himpl]
    exact within_underWatch (within_impl himpl)
  | none =>
    cases c with
    | init => exact (hlifetime trivial).elim
    | shutdown => exact (hlifetime trivial).elim
    | store p bs => exact .after (.write p bs) fun _ => .pure (show ZucStatus.ok ≠ .errNotReady by decide)
    | hashCompute => exact within_plainCell (within_zucHashCompute _ _ _ _ _ _)
    | hashNew => exact within_constructor (within_zucHashNew _ _)
    | hashUpdate => exact within_change (within_streamUpdate discreet_hashOps _ _)
    | hashFinish => exact within_changeCell (within_streamFinish discreet_hashOps _ _ _)
    | hashReset => exact within_change (within_streamReset discreet_hashOps)
    | hashFree => exact within_free (discreet_zucHashFree _).ordinary
    | hmacCompute => exact within_plainCell (within_zucHmacCompute _ _ _ _ _ _ _ _)
    | hmacNew => exact within_constructor (within_zucHmacNew _ _ _ _)
    | hmacUpdate => exact within_change (within_streamUpdate discreet_macOps _ _)
    | hmacFinish => exact within_changeCell (within_streamFinish discreet_macOps _ _ _)
    | hmacReset => exact within_change (within_streamReset discreet_macOps)
    | hmacFree => exact within_free (discreet_zucHmacFree _).ordinary
    | aesNew => exact within_constructor (within_zucAesNew _ _ _)
    | aesSetState => exact within_change (within_zucAesCbcSetState _ _)
    | aesGetState => exact within_plain (within_zucAesCbcGetState _ _)
    | aesCbcEncrypt => exact within_change (within_zucAesCbcEncrypt _ _ _ _)
    | aesCbcDecrypt => exact within_change (within_zucAesCbcDecrypt _ _ _ _)
    | aesFree => exact within_free (discreet_zucAesFree _).ordinary
    | aeadEncrypt => exact within_plain (within_zucAeadEncrypt _ _ _ _ _ _ _ _ _ _ _ _)
    | aeadDecrypt => exact within_plain (within_zucAeadDecrypt _ _ _ _ _ _ _ _ _ _ _ _)
    | pbkdf2Hmac => exact within_plain (within_zucPbkdf2Hmac _ _ _ _ _ _ _ _)
    | pkeyFree => exact within_free (silent_zucPkeyFree _).ordinary
    | _ => cases himpl

end Command

end Zucrypt
