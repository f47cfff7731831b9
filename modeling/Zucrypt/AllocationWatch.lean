import Zucrypt.PkeyOrdinary
import Zucrypt.PkeyResults

/-! # The allocation watch

A function of `zuc_pkey.h` clears the record of failed allocations, does its work, and reports
`ZUC_ERR_MEMORY` in place of any other failure if the record is set again.  The record is a single
static variable: every call of the backend may set it, and the functions of digests, ciphers and key
derivation never clear it.

`Blames` is what the work itself says about memory: it reports `ZUC_ERR_MEMORY` when one of its own
allocations failed, and otherwise only if the backend said so.  The wrapper adds what the record
says, and the record is that of this call.

Both directions are in it.  One is that a failed allocation of the function's own is not reported as
something else, and so most steps are `Quiet`, with no allocation to fail.  The other is that no
status is turned into `ZUC_ERR_MEMORY` on the way, for which the maps between statuses are looked
through (`zucIntFromPsa_eq_errMemory`, `parseStatus_eq_errMemory`).  `excuse` is for what a function
is entered with: a handle or an encoding that is missing because there was no memory for it. -/
namespace Zucrypt
open Effects ByteMemory

variable {O : Objects} {α β : Type}

/-! ### What a call of the outside says about memory -/

/-- The status a function of the backend returned. -/
def PsaCall.status : PsaCall O α → α → Option PsaStatus
  | .cryptoInit, st => some st
  | .hashSetup .., r => some r.1
  | .hashUpdate .., r => some r.1
  | .hashFinish .., r => some r.1
  | .hashCompute .., r => some r.1
  | .macSignSetup .., r => some r.1
  | .macUpdate .., r => some r.1
  | .macSignFinish .., r => some r.1
  | .macCompute .., r => some r.1
  | .importKey .., r => some r.1
  | .getKeyAttributes .., r => some r.1
  | .exportKey .., r => some r.1
  | .exportPublicKey .., r => some r.1
  | .generateKey .., r => some r.1
  | .cipherEncryptSetup .., r => some r.1
  | .cipherDecryptSetup .., r => some r.1
  | .cipherSetIv .., r => some r.1
  | .cipherUpdate .., r => some r.1
  | .cipherFinish .., r => some r.1
  | .aeadEncryptSetup .., r => some r.1
  | .aeadDecryptSetup .., r => some r.1
  | .aeadSetNonce .., r => some r.1
  | .aeadUpdateAd .., r => some r.1
  | .aeadUpdate .., r => some r.1
  | .aeadFinish .., r => some r.1
  | .aeadVerify .., r => some r.1
  | .kdfSetup .., r => some r.1
  | .kdfInputInteger .., r => some r.1
  | .kdfInputBytes .., r => some r.1
  | .kdfOutputBytes .., r => some r.1
  | .signHash .., r => some r.1
  | .verifyHash .., st => some st
  | .asymmetricEncrypt .., r => some r.1
  | .asymmetricDecrypt .., r => some r.1
  | .rawKeyAgreement .., r => some r.1
  | .pkParseKey .., r => some r.1
  | .pkParsePublicKey .., r => some r.1
  | .pkGetPsaAttributes .., r => some r.1
  | .pkWritePubkeyPsa .., r => some r.1
  | .pkImportIntoPsa .., r => some r.1
  | .pkCopyPublicFromPsa .., r => some r.1
  | .pkWritePubkeyDer .., .error st => some st
  | .pemWriteBuffer .., r => some r.1
  | _, _ => none

/-- A function of the backend returned `PSA_ERROR_INSUFFICIENT_MEMORY`. -/
def SaysNoMemory : Event (Call O) → Prop
  | ⟨.psa c, r⟩ => c.status r.answer = some .errorInsufficientMemory
  | _ => False

/-- An allocation of the adapter's own failed. -/
def HeapFailed : Event (Call O) → Prop
  | ⟨.calloc _, p⟩ => p = none
  | ⟨.malloc _, p⟩ => p = none
  | _ => False

/-- What a function says about memory, `memory` being the results that say there was none:
it says so when one of its own allocations failed, and otherwise only if the backend did,
or there is an `excuse` from before. -/
def Blames (excuse : Prop) (p : Adapter O α) (memory : α → Prop) : Prop :=
  ∀ w, Ensures (fun _ => True) p w fun t a _ =>
    ((∃ e ∈ t, HeapFailed e) → memory a) ∧
      (memory a → excuse ∨ ∃ e ∈ t, HeapFailed e ∨ SaysNoMemory e)

/-- None of its own allocations fails. -/
def Quiet (p : Adapter O α) : Prop :=
  ∀ w, Ensures (fun _ => True) p w fun t _ _ => ∀ e ∈ t, ¬ HeapFailed e

namespace Quiet

theorem pure (a : α) : Quiet (Pure.pure a : Adapter O α) :=
  fun _ => Ensures.pure_iff.mpr (by simp)

theorem psa (c : PsaCall O α) : Quiet (Zucrypt.psa c) :=
  fun _ => ensures_psa.mpr fun r _ => by simp [HeapFailed]

theorem bind {p : Adapter O α} {f : α → Adapter O β} (hp : Quiet p) (hf : ∀ a, Quiet (f a)) :
    Quiet (p >>= f) := by
  intro w
  refine Ensures.bind_iff.mpr ((hp w).mono fun t a w₁ ht => (hf a w₁).mono fun t' b w' ht' => ?_)
  intro e he
  exact (List.mem_append.mp he).elim (ht e) (ht' e)

theorem ite {c : Prop} [Decidable c] {p q : Adapter O α} (hp : Quiet p) (hq : Quiet q) :
    Quiet (if c then p else q) := by
  split
  · exact hp
  · exact hq

theorem readMem (p n : Nat) : Quiet (Zucrypt.readMem p n : Adapter O _) :=
  fun _ => ensures_readMem.mpr (by simp)

theorem writeMem (p : Nat) (bs : List Byte) : Quiet (Zucrypt.writeMem p bs : Adapter O _) :=
  fun _ => ensures_writeMem.mpr (by simp)

theorem ready : Quiet (zucIntReady : Adapter O _) :=
  fun _ => Ensures.bind_iff.mpr (Ensures.read_iff.mpr (Ensures.pure_iff.mpr (by simp)))

theorem freeRecord (what : Record) (p : Nat) : Quiet (Zucrypt.freeRecord what p : Adapter O _) :=
  fun _ => Ensures.perform_iff.mpr fun r _ => by simp [HeapFailed]

theorem freeBytes (b : HeapBuf) : Quiet (Zucrypt.freeBytes b : Adapter O _) :=
  fun _ => Ensures.perform_iff.mpr fun r _ => by simp [HeapFailed]

theorem freeIf {γ : Type} {release : γ → Adapter O Unit} (h : ∀ c, Quiet (release c))
    (p : Option γ) : Quiet (Zucrypt.freeIf release p) := by
  cases p with
  | none => exact pure _
  | some c => exact h c

theorem count (d : Int) : Quiet (zucIntLiveAdd d : Adapter O _) :=
  fun _ => Ensures.update_iff.mpr (by simp)

theorem secureZero (p n : Nat) : Quiet (zucSecureZero p n : Adapter O _) :=
  ite (pure _) (writeMem _ _)

end Quiet

namespace Blames

variable {excuse : Prop} {p : Adapter O α} {f : α → Adapter O β} {memory : β → Prop}

theorem pure {b : β} (h : memory b → excuse) : Blames excuse (Pure.pure b : Adapter O β) memory :=
  fun _ => Ensures.pure_iff.mpr ⟨by simp, fun hb => .inl (h hb)⟩

theorem ite {c : Prop} [Decidable c] {p q : Adapter O β} (hp : c → Blames excuse p memory)
    (hq : ¬ c → Blames excuse q memory) : Blames excuse (if c then p else q) memory :=
  fun w => Ensures.ite (fun hc => hp hc w) (fun hc => hq hc w)

/-- First something that allocates nothing. -/
theorem after (hp : Quiet p) (hf : ∀ a, Blames excuse (f a) memory) :
    Blames excuse (p >>= f) memory := by
  intro w
  refine Ensures.bind_iff.mpr ((hp w).mono fun t a w₁ ht => (hf a w₁).mono fun t' b w' h => ?_)
  refine ⟨?_, fun hb => (h.2 hb).imp_right ?_⟩
  · rintro ⟨e, he, hfail⟩
    exact (List.mem_append.mp he).elim (fun he => (ht e he hfail).elim) fun he => h.1 ⟨e, he, hfail⟩
  · rintro ⟨e, he, hfail⟩
    exact ⟨e, List.mem_append_right _ he, hfail⟩

/-- First a call of the backend: what it says is an excuse for the rest. -/
theorem psa {c : PsaCall O α}
    (hf : ∀ a, Blames (excuse ∨ c.status a = some .errorInsufficientMemory) (f a) memory) :
    Blames excuse (Zucrypt.psa c >>= f) memory := by
  intro w
  refine Ensures.bind_iff.mpr (ensures_psa.mpr fun r _ => (hf r.answer _).mono fun t b w' h => ?_)
  refine ⟨?_, fun hb => ?_⟩
  · rintro ⟨e, he, hfail⟩
    rcases List.mem_cons.mp he with rfl | he
    · exact hfail.elim
    · exact h.1 ⟨e, he, hfail⟩
  · rcases h.2 hb with (hexcuse | hblame) | ⟨e, he, hfail⟩
    · exact .inl hexcuse
    · exact .inr ⟨_, List.mem_cons_self, .inr hblame⟩
    · exact .inr ⟨e, List.mem_cons_of_mem _ he, hfail⟩

/-- First a function that may find no memory: then that is the result. -/
theorem bind {failed : α → Prop} (hp : Blames excuse p failed)
    (hfail : ∀ a, failed a → Yields (f a) memory)
    (hf : ∀ a, ¬ failed a → Blames excuse (f a) memory) : Blames excuse (p >>= f) memory := by
  intro w
  refine Ensures.bind_iff.mpr ((hp w).mono fun t a w₁ ht => ?_)
  by_cases ha : failed a
  · refine (hfail a ha w₁).mono fun t' b w' hb => ⟨fun _ => hb, fun _ => (ht.2 ha).imp_right ?_⟩
    rintro ⟨e, he, hblame⟩
    exact ⟨e, List.mem_append_left _ he, hblame⟩
  · refine (hf a ha w₁).mono fun t' b w' h => ⟨?_, fun hb => (h.2 hb).imp_right ?_⟩
    · rintro ⟨e, he, hfailed⟩
      rcases List.mem_append.mp he with he | he
      · exact (ha (ht.1 ⟨e, he, hfailed⟩)).elim
      · exact h.1 ⟨e, he, hfailed⟩
    · rintro ⟨e, he, hblame⟩
      exact ⟨e, List.mem_append_right _ he, hblame⟩

end Blames

theorem blames_mallocBytes (excuse : Prop) (n : Nat) :
    Blames excuse (mallocBytes n : Adapter O _) (· = none) := by
  intro w
  refine Ensures.bind_iff.mpr (Ensures.perform_iff.mpr fun p _ => Ensures.pure_iff.mpr ?_)
  cases p <;> simp [HeapFailed]

theorem blames_callocRecord (excuse : Prop) (what : Record) :
    Blames excuse (callocRecord what : Adapter O _) (· = none) := by
  intro w
  refine Ensures.perform_iff.mpr fun p _ => ?_
  cases p <;> simp [HeapFailed]

/-! ### Constructors of keys -/

/-- The result is `ZUC_ERR_MEMORY`. -/
def NoMemory (r : ZucStatus × α) : Prop := r.1 = .errMemory

theorem not_noMemory {st : ZucStatus} {a : α} {excuse : Prop} (h : st ≠ .errMemory) :
    NoMemory (st, a) → excuse := fun h' => (h h').elim

/-- The backend's statuses keep their meaning. -/
theorem zucIntFromPsa_eq_errMemory {ps : PsaStatus} :
    zucIntFromPsa ps = .errMemory ↔ ps = .errorInsufficientMemory := by
  cases ps <;> simp [zucIntFromPsa]

theorem parseStatus_eq_errMemory {ps : PsaStatus} :
    parseStatus ps = .errMemory ↔ ps = .errorInsufficientMemory := by
  cases ps <;> simp [parseStatus]

theorem memory_of_status {ps : PsaStatus} {st : ZucStatus} (hst : st ≠ .errMemory)
    (h : (if ps = .errorInsufficientMemory then ZucStatus.errMemory else st) = .errMemory) :
    ps = .errorInsufficientMemory := by
  by_contra hps
  rw [if_neg hps] at h
  exact hst h

theorem blames_pkeyFromPsa (excuse : Prop) (id : KeyId) (wantPrivate : Bool) :
    Blames excuse (pkeyFromPsa id wantPrivate : Adapter O _) NoMemory := by
  refine .psa fun attr => ?_
  refine .ite (fun _ => .pure fun h => .inr (congrArg some (zucIntFromPsa_eq_errMemory.mp h)))
    fun _ => ?_
  refine .ite (fun _ => .pure (not_noMemory (by decide))) fun _ => ?_
  -- what failed was an allocation, and the status says so
  have hfail : ∀ self buf, Yields (do
      freeIf (freeRecord .zucPkey) self
      freeIf freeBytes buf
      return (.errMemory, none) : Adapter O (ZucStatus × Option ZucPkey)) NoMemory :=
    fun self buf => Yields.after fun _ => Yields.after fun _ => Yields.pure rfl
  refine .bind (blames_callocRecord _ _) ?_ fun self hself => ?_
  · rintro self rfl
    exact Yields.after fun buf => hfail none buf
  refine .bind (blames_mallocBytes _ _) ?_ fun buf hbuf => ?_
  · rintro buf rfl
    cases self with
    | none => exact hfail none none
    | some self => exact hfail (some self) none
  cases self with
  | none => exact (hself rfl).elim
  | some self =>
    cases buf with
    | none => exact (hbuf rfl).elim
    | some buf =>
      have hstatus : ∀ (b : Bool) (cap : Nat) (r : PsaStatus × Output),
          (if b then .exportKey id cap else .exportPublicKey id cap : PsaCall O _).status r =
            some r.1 := by
        intro b cap r
        cases b <;> rfl
      refine .psa fun r => ?_
      refine .ite (fun _ => ?_) fun _ => .after (.count _) fun _ => .pure (not_noMemory (by decide))
      refine .after (.freeBytes _) fun _ => .after (.freeRecord _ _) fun _ => .pure fun h => .inr ?_
      rw [hstatus]
      exact congrArg some (zucIntFromPsa_eq_errMemory.mp h)

/-- A handle made of a key that is destroyed afterwards. -/
theorem blames_fromPsa {excuse : Prop}
    {f : ZucStatus × Option ZucPkey → Adapter O (ZucStatus × Option ZucPkey)}
    (id : KeyId) (wantPrivate : Bool) (hfail : ∀ key, NoMemory key → Yields (f key) NoMemory)
    (hf : ∀ key, ¬ NoMemory key → Blames excuse (f key) NoMemory) :
    Blames excuse (do
      let key ← pkeyFromPsa id wantPrivate
      psa (.destroyKey id)
      f key : Adapter O _) NoMemory :=
  .bind (blames_pkeyFromPsa _ id wantPrivate) (fun key hkey => Yields.after fun _ => hfail key hkey)
    fun key hkey => .after (.psa _) fun _ => hf key hkey

/-- The handle is the result. -/
theorem blames_fromPsa_pure (excuse : Prop) (id : KeyId) (wantPrivate : Bool) :
    Blames excuse (do
      let key ← pkeyFromPsa id wantPrivate
      psa (.destroyKey id)
      return key : Adapter O _) NoMemory :=
  blames_fromPsa id wantPrivate (fun _ hkey => Yields.pure hkey) fun _ hkey => .pure fun h => (hkey h).elim

theorem blames_pkeyImport (excuse : Prop) (key : ZucPkey) (alg : PsaAlg) (usage : PsaKeyUsage) :
    Blames excuse (pkeyImport key alg usage : Adapter O _) NoMemory :=
  .psa fun _ => .pure fun h => .inr (congrArg some (zucIntFromPsa_eq_errMemory.mp h))

theorem blames_pkeyImportBytes (excuse : Prop) (type : ZucAlg) (privateKey : Bool)
    (data : List Byte) :
    Blames excuse (pkeyImportBytes type privateKey data : Adapter O _) NoMemory := by
  refine .ite (fun _ => .pure (not_noMemory (by decide))) fun _ => .psa fun r => ?_
  refine .ite (fun _ => .pure fun h => .inr ?_) fun _ => blames_fromPsa_pure _ _ _
  exact congrArg some (memory_of_status (by decide) h)

theorem blames_pkeyImportImpl (excuse : Prop) (type : ZucAlg) (privateKey : Bool) (data len : Nat)
    (out : Bool) :
    Blames excuse (pkeyImportImpl type privateKey data len out : Adapter O _) NoMemory := by
  refine .ite (fun _ => .pure (not_noMemory (by decide))) fun _ => .after .ready fun ready => ?_
  refine .ite (fun _ => .pure (not_noMemory (by decide))) fun _ => ?_
  refine .ite (fun _ => .pure (not_noMemory (by decide))) fun _ => ?_
  exact .after (.readMem _ _) fun bytes => blames_pkeyImportBytes _ _ _ _

theorem blames_pkeyGenerateImpl (excuse : Prop) (type : ZucAlg) (bits : Nat) (out : Bool) :
    Blames excuse (pkeyGenerateImpl type bits out : Adapter O _) NoMemory := by
  refine .ite (fun _ => .pure (not_noMemory (by decide))) fun _ => .after .ready fun ready => ?_
  refine .ite (fun _ => .pure (not_noMemory (by decide))) fun _ => ?_
  refine .ite (fun _ => .pure (not_noMemory (by decide))) fun _ => ?_
  refine .ite (fun _ => .pure (not_noMemory (by decide))) fun _ => ?_
  refine .ite (fun _ => .pure (not_noMemory (by decide))) fun _ => ?_
  refine .ite (fun _ => .pure (not_noMemory (by decide))) fun _ => .psa fun r => ?_
  refine .ite (fun _ => .pure fun h => .inr ?_) fun _ => blames_fromPsa_pure _ _ _
  exact congrArg some (zucIntFromPsa_eq_errMemory.mp h)

theorem blames_pkeyPublicImpl (excuse : Prop) (key : Option ZucPkey) (out : Bool) :
    Blames excuse (pkeyPublicImpl key out : Adapter O _) NoMemory := by
  refine .ite (fun _ => .pure (not_noMemory (by decide))) fun _ => ?_
  cases key with
  | none => exact .pure (not_noMemory (by decide))
  | some k =>
    refine .after .ready fun ready => ?_
    refine .ite (fun _ => .pure (not_noMemory (by decide))) fun _ => ?_
    refine .bind (blames_pkeyImport _ _ _ _) (fun r hr => ?_) fun r hr => ?_
    · exact Yields.ite (fun _ => Yields.pure hr)
        fun hok => absurd (hr.symm.trans (not_not.mp hok)) (by decide)
    · refine .ite (fun _ => .pure fun h => (hr h).elim) fun _ => ?_
      exact blames_fromPsa_pure _ _ _

/-- The reader's two attempts: the last status is reported, or the first. -/
theorem blames_parseEither (excuse : Prop) (src : List Byte) (privateKey : Bool) :
    Blames excuse (parseEither src privateKey : Adapter O _)
      (fun r => r.1 = .errorInsufficientMemory) := by
  refine .psa fun r => ?_
  refine .ite (fun _ => .pure fun h => .inr (congrArg some h)) fun _ => ?_
  refine .ite (fun _ => .pure fun h => .inr (congrArg some h)) fun _ => ?_
  refine .after (.psa _) fun _ => .psa fun r' => ?_
  refine .ite (fun _ => .pure fun h => .inl (.inr (congrArg some h))) fun _ => ?_
  exact .pure fun h => .inr (congrArg some h)

theorem blames_parseImport (excuse : Prop) (pk : O.Pk) (attr : PsaKeyAttributes)
    (isPair privateKey : Bool) :
    Blames excuse (parseImport pk attr isPair privateKey) NoMemory := by
  refine .psa fun r => .after (.psa _) fun _ => ?_
  refine .ite (fun _ => .pure fun h => .inr ?_) fun _ => ?_
  · exact congrArg some (memory_of_status (by decide) h)
  · refine blames_fromPsa _ _ (fun key hkey => ?_) fun key hkey => ?_
    · obtain ⟨st, key⟩ := key
      obtain rfl : st = .errMemory := hkey
      cases key <;> exact Yields.pure rfl
    · obtain ⟨st, key⟩ := key
      cases key with
      | none => cases st <;> exact .pure fun h => (hkey h).elim
      | some k =>
        cases st with
        | ok =>
          refine .ite (fun _ => ?_) fun _ => .pure fun h => (hkey h).elim
          refine .after ?_ fun _ => .pure (not_noMemory (by decide))
          have hdestroy : Quiet (pkeyDestroy k : Adapter O _) :=
            .bind (.freeBytes _) fun _ => .freeRecord _ _
          exact .bind hdestroy fun _ => .count _
        | _ => exact .pure fun h => (hkey h).elim

theorem blames_parseDescribe (excuse : Prop) (pk : O.Pk) (isPair privateKey : Bool) :
    Blames excuse (parseDescribe pk isPair privateKey) NoMemory := by
  have hattr : Quiet (parseAttributes pk isPair) :=
    .bind (.psa _) fun r => .ite (.psa _) (.pure _)
  refine .after hattr fun attr => .ite (fun _ => blames_parseImport _ _ _ _ _) fun _ => ?_
  have hx25519 : Quiet (if isPair then return false else do
      let bits ← psa (.pkGetBitlen pk)
      return decide (bits = 255) : Adapter O Bool) :=
    .ite (.pure _) (.bind (.psa _) fun _ => .pure _)
  refine .after hx25519 fun x25519 => .ite (fun _ => ?_) fun _ => ?_
  · refine .after (.psa _) fun raw => .after (.psa _) fun _ => ?_
    refine .ite (fun _ => .pure (not_noMemory (by decide))) fun _ => ?_
    exact blames_pkeyImportBytes _ _ _ _
  · exact .after (.psa _) fun _ => .pure (not_noMemory (by decide))

theorem blames_parseSource (excuse : Prop) (src : List Byte) (copy : Option HeapBytes)
    (privateKey : Bool) :
    Blames excuse (parseSource src copy privateKey : Adapter O _) NoMemory := by
  refine .bind (blames_parseEither _ _ _) (fun r hr => ?_) fun r hr => ?_
  · refine Yields.after fun _ => Yields.ite (fun _ => Yields.after fun _ => Yields.pure ?_) fun hok => ?_
    · exact parseStatus_eq_errMemory.mpr hr
    · exact absurd (hr.symm.trans (not_not.mp hok)) (by decide)
  · refine .after (.freeIf (fun _ => .freeBytes _) copy) fun _ => ?_
    refine .ite (fun _ => .after (.psa _) fun _ => .pure fun h => ?_)
      fun _ => blames_parseDescribe _ _ _ _
    exact (hr (parseStatus_eq_errMemory.mp h)).elim

theorem blames_pkeyParseImpl (excuse : Prop) (inp len : Nat) (privateKey out : Bool) :
    Blames excuse (pkeyParseImpl inp len privateKey out : Adapter O _) NoMemory := by
  refine .ite (fun _ => .pure (not_noMemory (by decide))) fun _ => .after .ready fun ready => ?_
  refine .ite (fun _ => .pure (not_noMemory (by decide))) fun _ => ?_
  refine .ite (fun _ => .pure (not_noMemory (by decide))) fun _ => ?_
  refine .after (.readMem _ _) fun bytes => ?_
  refine .ite (fun _ => ?_) fun _ => blames_parseSource _ _ _ _
  refine .ite (fun _ => .pure (not_noMemory (by decide))) fun _ => ?_
  refine .bind (blames_mallocBytes _ _) ?_ fun copy hcopy => ?_
  · rintro copy rfl
    exact Yields.pure rfl
  · cases copy with
    | none => exact (hcopy rfl).elim
    | some copy => exact blames_parseSource _ _ _ _

/-! ### Writing -/

/-- There is no encoding, for want of memory. -/
def NoMemoryFor (r : Except ZucStatus α) : Prop := r = .error .errMemory

theorem not_noMemoryFor {st : ZucStatus} {excuse : Prop} (h : st ≠ .errMemory) :
    NoMemoryFor (.error st : Except ZucStatus α) → excuse :=
  fun h' => (h (Except.error.inj h')).elim

theorem not_noMemoryFor_ok {a : α} {excuse : Prop} :
    NoMemoryFor (.ok a : Except ZucStatus α) → excuse := nofun

/-- A public half is found, or the constructor underneath says why not. -/
theorem blames_publicDer (excuse : Prop) (key : ZucPkey) :
    Blames excuse (publicDer key : Adapter O _) NoMemoryFor := by
  refine .ite (fun _ => ?_) fun _ => ?_
  · refine .bind (blames_mallocBytes _ _) ?_ fun buf hbuf => ?_
    · rintro buf rfl
      exact Yields.pure rfl
    · cases buf with
      | none => exact (hbuf rfl).elim
      | some buf => exact .pure not_noMemoryFor_ok
  · refine .bind (blames_pkeyPublicImpl _ _ _) (fun r hr => ?_) fun r hr => ?_
    · exact Yields.ite (fun _ => Yields.pure (congrArg _ hr))
        fun hok => absurd (hr.symm.trans (not_not.mp hok)) (by decide)
    · refine .ite (fun _ => .pure fun h => (hr (Except.error.inj h)).elim) fun _ => ?_
      cases r.2 with
      | none => exact .pure (not_noMemoryFor (by decide))
      | some pub =>
        refine .after (.freeRecord _ _) fun _ => .after (.count _) fun _ => ?_
        exact .pure not_noMemoryFor_ok

theorem blames_pkcs8Wrap (excuse : Prop) (pkcs1 : List Byte) :
    Blames excuse (pkcs8Wrap pkcs1 : Adapter O _) NoMemoryFor := by
  refine .ite (fun _ => .pure (not_noMemoryFor (by decide))) fun _ => ?_
  refine .bind (blames_mallocBytes _ _) ?_ fun p hp => ?_
  · rintro p rfl
    exact Yields.pure rfl
  · cases p with
    | none => exact (hp rfl).elim
    | some p => exact .pure not_noMemoryFor_ok

theorem blames_spkiDer (excuse : Prop) (key : ZucPkey) :
    Blames excuse (spkiDer key : Adapter O _) NoMemoryFor := by
  refine .bind (blames_pkeyImport _ _ _ _) (fun k hk => ?_) fun k hk => ?_
  · exact Yields.ite (fun _ => Yields.pure (congrArg _ hk))
      fun hok => absurd (hk.symm.trans (not_not.mp hok)) (by decide)
  refine .ite (fun _ => .pure fun h => (hk (Except.error.inj h)).elim) fun _ => ?_
  refine .psa fun r => .after (.psa _) fun _ => ?_
  refine .ite (fun _ => .after (.psa _) fun _ => .pure fun h => .inr ?_) fun _ => ?_
  · exact congrArg some (memory_of_status (by decide) (Except.error.inj h))
  refine .bind (blames_mallocBytes _ _) ?_ fun buf hbuf => ?_
  · rintro buf rfl
    exact Yields.after fun _ => Yields.pure rfl
  cases buf with
  | none => exact (hbuf rfl).elim
  | some buf =>
    refine .psa fun der => .after (.psa _) fun _ => ?_
    cases der with
    | error ps =>
      refine .after (.freeBytes _) fun _ => .pure fun h => .inr ?_
      exact congrArg some (memory_of_status (by decide) (Except.error.inj h))
    | ok der =>
      refine .ite (fun _ => ?_) fun _ => .pure not_noMemoryFor_ok
      exact .after (.freeBytes _) fun _ => .pure (not_noMemoryFor (by decide))

theorem blames_encodeInto (excuse : Prop) (total : Nat) (write : Cursor → Cursor) :
    Blames excuse (encodeInto total write : Adapter O _) (· = none) := by
  refine .bind (blames_mallocBytes _ _) ?_ fun p hp => ?_
  · rintro p rfl
    exact Yields.pure rfl
  · cases p with
    | none => exact (hp rfl).elim
    | some p => exact .pure nofun

theorem blames_x25519Encode (excuse : Prop) (key : ZucPkey) (pkcs1 : Bool) :
    Blames excuse (x25519Encode key pkcs1 : Adapter O _) NoMemoryFor := by
  refine .ite (fun _ => .pure (not_noMemoryFor (by decide))) fun _ => ?_
  refine .bind (blames_encodeInto _ _ _) ?_ fun p hp => ?_
  · rintro p rfl
    exact Yields.pure rfl
  · cases p with
    | none => exact (hp rfl).elim
    | some p => exact .pure not_noMemoryFor_ok

theorem blames_nistEncode (excuse : Prop) (key : ZucPkey) (pkcs1 : Bool) :
    Blames excuse (nistEncode key pkcs1 : Adapter O _) NoMemoryFor := by
  refine .bind (blames_publicDer _ _) ?_ fun point hpoint => ?_
  · rintro point rfl
    exact Yields.pure rfl
  cases point with
  | error st => exact .pure fun h => (hpoint (congrArg _ (Except.error.inj h))).elim
  | ok point =>
    have hencode : Blames excuse (if pkcs1 then
        encodeInto (ecSec1Size key.type key.der.bytes.length point.bytes.length true)
          (ecSec1 · key.type key.der.bytes point.bytes true)
      else
        encodeInto (tlvSize (ecInfoBody key.type key.der.bytes.length point.bytes.length))
          (ecInfoWrite · key.type key.der.bytes point.bytes) : Adapter O (Option HeapBytes))
        (· = none) :=
      .ite (fun _ => blames_encodeInto _ _ _) fun _ => blames_encodeInto _ _ _
    refine .bind hencode ?_ fun p hp => .after (.freeBytes _) fun _ => ?_
    · rintro p rfl
      exact Yields.after fun _ => Yields.pure rfl
    · cases p with
      | none => exact (hp rfl).elim
      | some p => exact .pure not_noMemoryFor_ok

theorem blames_labelled {excuse : Prop} {p : Adapter O (Except ZucStatus HeapBytes)} (label : String)
    (hp : Blames excuse p NoMemoryFor) :
    Blames excuse (do
      let der ← p
      return der.map (⟨·, label⟩) : Adapter O (Except ZucStatus Encoding)) NoMemoryFor := by
  refine .bind hp ?_ fun der hder => ?_
  · rintro der rfl
    exact Yields.pure rfl
  · cases der with
    | error st => exact .pure fun h => (hder (congrArg _ (Except.error.inj h))).elim
    | ok der => exact .pure not_noMemoryFor_ok

theorem blames_ecEncode (excuse : Prop) (key : ZucPkey) (format : ZucPkeyFormat)
    (privateOut : Bool) :
    Blames excuse (ecEncode key format privateOut : Adapter O _) NoMemoryFor := by
  cases format with
  | other v => exact .pure (not_noMemoryFor (by decide))
  | _ =>
    refine .ite (fun _ => ?_) fun _ => ?_
    · refine .ite (fun _ => .pure (not_noMemoryFor (by decide))) fun _ => ?_
      exact blames_labelled _ (blames_spkiDer _ key)
    · exact .ite (fun _ => blames_x25519Encode _ _ _) fun _ => blames_nistEncode _ _ _

theorem blames_rsaEncode (excuse : Prop) (key : ZucPkey) (format : ZucPkeyFormat)
    (privateOut : Bool) :
    Blames excuse (rsaEncode key format privateOut : Adapter O _) NoMemoryFor := by
  have hcopy : Blames excuse (rsaEncode key .pkcs1Der true : Adapter O _) NoMemoryFor := by
    refine .bind (blames_mallocBytes _ _) ?_ fun der hder => ?_
    · rintro der rfl
      exact Yields.pure rfl
    · cases der with
      | none => exact (hder rfl).elim
      | some der => exact .pure not_noMemoryFor_ok
  have hpublic := blames_labelled (O := O) "PUBLIC KEY" (blames_spkiDer excuse key)
  have hrsa := blames_labelled (O := O) "RSA PUBLIC KEY" (blames_publicDer excuse key)
  have hwrap := blames_labelled (O := O) "PRIVATE KEY" (blames_pkcs8Wrap excuse key.der.bytes)
  cases format with
  | other v => exact .pure (not_noMemoryFor (by decide))
  | pkcs1Der => cases privateOut with
    | true => exact hcopy
    | false => exact hrsa
  | pkcs1Pem => cases privateOut with
    | true => exact hcopy
    | false => exact hrsa
  | infoDer => cases privateOut with
    | true => exact hwrap
    | false => exact hpublic
  | infoPem => cases privateOut with
    | true => exact hwrap
    | false => exact hpublic

theorem not_noMemory_encoding (excuse : Prop) (e : Encoding) (format : ZucPkeyFormat)
    (out outSize : Nat) :
    Blames excuse (writeEncoding e format out outSize : Adapter O _) NoMemory := by
  refine .ite (fun _ => .ite (fun _ => .pure (not_noMemory (by decide))) fun _ => ?_) fun _ => ?_
  · exact .after (.writeMem _ _) fun _ => .pure (not_noMemory (by decide))
  · refine .after (.psa _) fun r => .after (.writeMem _ _) fun _ => ?_
    refine .ite (fun _ => .pure (not_noMemory (by decide))) fun _ => ?_
    exact .ite (fun _ => .pure (not_noMemory (by decide))) fun _ => .pure (not_noMemory (by decide))

/-- A status, after wiping the output where it is a failure. -/
theorem blames_settled {excuse c : Prop} [Decidable c] {memory : α → Prop} {a b : α}
    (out outSize : Nat) (ha : c → memory a → excuse) (hb : memory b → excuse) :
    Blames excuse (if c then do
        zucSecureZero out outSize
        return a
      else return b : Adapter O α) memory :=
  .ite (fun hc => .after (.secureZero _ _) fun _ => .pure (ha hc)) fun _ => .pure hb

/-- The same, where want of memory is one of the failures. -/
theorem yields_settled {c : Prop} [Decidable c] {memory : α → Prop} {a b : α} (out outSize : Nat)
    (hc : c) (ha : memory a) :
    Yields (if c then do
        zucSecureZero out outSize
        return a
      else return b : Adapter O α) memory :=
  Yields.ite (fun _ => Yields.after fun _ => Yields.pure ha) fun h => (h hc).elim

theorem blames_pkeyWriteImpl (excuse : Prop) (key : Option ZucPkey) (format : ZucPkeyFormat)
    (publicOnly : Bool) (out outSize : Nat) (outLen : SizeCell) :
    Blames excuse (pkeyWriteImpl key format publicOnly out outSize outLen : Adapter O _)
      NoMemory := by
  cases key with
  | none => exact .pure (not_noMemory (by decide))
  | some k =>
    refine .ite (fun _ => .pure (not_noMemory (by decide))) fun _ => .after .ready fun ready => ?_
    refine .ite (fun _ => .pure (not_noMemory (by decide))) fun _ => ?_
    refine .ite (fun _ => .bind (blames_ecEncode _ _ _ _) (by rintro e rfl; exact Yields.pure rfl) ?_)
      fun _ => .bind (blames_rsaEncode _ _ _ _) (by rintro e rfl; exact Yields.pure rfl) ?_
    all_goals
      intro e he
      cases e with
      | error st => exact .pure fun h => (he (congrArg _ h)).elim
      | ok e =>
        refine .bind (not_noMemory_encoding _ _ _ _ _) (fun r hr => ?_) fun r hr => ?_
        · refine Yields.after fun _ => yields_settled _ _ ?_ hr
          exact fun hok => absurd (hr.symm.trans hok) (by decide)
        · refine .after (.freeBytes _) fun _ => ?_
          exact blames_settled _ _ (fun _ h => (hr h).elim) (not_noMemory (by decide))

/-! ### Using -/

/-- A key could not be loaded, for want of memory. -/
theorem yields_whenLoaded {γ : Type} {id : ZucStatus × KeyId} {failed : γ} {use : Adapter O γ}
    {memory : γ → Prop} (hid : NoMemory id) (hfailed : memory failed) :
    Yields (if id.1 ≠ .ok then return failed else use : Adapter O γ) memory :=
  Yields.ite (fun _ => Yields.pure hfailed)
    fun hok => absurd (hid.symm.trans (not_not.mp hok)) (by decide)

/-- A key that was loaded, or not for another reason. -/
theorem blames_whenLoaded {excuse : Prop} {γ : Type} {id : ZucStatus × KeyId} {failed : γ}
    {use : Adapter O γ} {memory : γ → Prop} (hid : ¬ NoMemory id)
    (hfailed : memory failed → NoMemory id) (huse : Blames excuse use memory) :
    Blames excuse (if id.1 ≠ .ok then return failed else use : Adapter O γ) memory :=
  .ite (fun _ => .pure fun h => (hid (hfailed h)).elim) fun _ => huse

theorem blames_pkeySignHashImpl (excuse : Prop) (key : Option ZucPkey) (scheme hash : ZucAlg)
    (digest digestLen sig sigSize : Nat) (sigLen : SizeCell) :
    Blames excuse (pkeySignHashImpl key scheme hash digest digestLen sig sigSize sigLen :
      Adapter O _) NoMemory := by
  cases key with
  | none => exact .pure (not_noMemory (by decide))
  | some k =>
    refine .ite (fun _ => .pure (not_noMemory (by decide))) fun _ => .after .ready fun ready => ?_
    refine .ite (fun _ => .pure (not_noMemory (by decide))) fun _ => ?_
    refine .ite (fun _ => .pure (not_noMemory (by decide))) fun _ => ?_
    refine .ite (fun _ => .pure (not_noMemory (by decide))) fun _ => ?_
    refine .ite (fun _ => .pure (not_noMemory (by decide))) fun _ => ?_
    refine .ite (fun _ => .pure (not_noMemory (by decide))) fun _ => ?_
    refine .bind (blames_pkeyImport _ _ _ _) (fun id hid => yields_whenLoaded hid hid) fun id hid => ?_
    refine blames_whenLoaded hid (fun h => h) ?_
    refine .after (.readMem _ _) fun bytes => .psa fun r => ?_
    refine .after (.writeMem _ _) fun _ => .after (.psa _) fun _ => ?_
    refine blames_settled _ _ (fun _ h => .inr ?_) (not_noMemory (by decide))
    exact congrArg some (zucIntFromPsa_eq_errMemory.mp h)

theorem verifyStatus_eq_errMemory {ps : PsaStatus} (h : verifyStatus ps = .errMemory) :
    ps = .errorInsufficientMemory := by
  unfold verifyStatus at h
  split at h
  · cases h
  · exact zucIntFromPsa_eq_errMemory.mp h

theorem verifyArgs_ne_errMemory (key : ZucPkey) (scheme hash : ZucAlg) (digestLen sigLen : Nat) :
    verifyArgs key scheme hash digestLen sigLen ≠ .errMemory := by
  unfold verifyArgs
  repeat' split
  all_goals decide

theorem blames_pkeyVerifyHashImpl (excuse : Prop) (key : Option ZucPkey) (scheme hash : ZucAlg)
    (digest digestLen sig sigLen : Nat) :
    Blames excuse (pkeyVerifyHashImpl key scheme hash digest digestLen sig sigLen : Adapter O _)
      (· = .errMemory) := by
  cases key with
  | none => exact .pure nofun
  | some k =>
    refine .ite (fun _ => .pure nofun) fun _ => .after .ready fun ready => ?_
    refine .ite (fun _ => .pure nofun) fun _ => ?_
    refine .ite (fun _ => .pure fun h => (verifyArgs_ne_errMemory _ _ _ _ _ h).elim) fun _ => ?_
    refine .bind (blames_pkeyImport _ _ _ _) (fun id hid => yields_whenLoaded hid hid) fun id hid => ?_
    refine blames_whenLoaded hid (fun h => h) ?_
    refine .after (.readMem _ _) fun bytes => .after (.readMem _ _) fun signature => .psa fun ps => ?_
    refine .after (.psa _) fun _ => .pure fun h => .inr ?_
    exact congrArg some (verifyStatus_eq_errMemory h)

theorem blames_pkeyEncryptImpl (excuse : Prop) (key : Option ZucPkey) (scheme hash : ZucAlg)
    (inp len out outSize : Nat) (outLen : SizeCell) :
    Blames excuse (pkeyEncryptImpl key scheme hash inp len out outSize outLen : Adapter O _)
      NoMemory := by
  cases key with
  | none => exact .pure (not_noMemory (by decide))
  | some k =>
    refine .ite (fun _ => .pure (not_noMemory (by decide))) fun _ => .after .ready fun ready => ?_
    refine .ite (fun _ => .pure (not_noMemory (by decide))) fun _ => ?_
    refine .ite (fun _ => .pure (not_noMemory (by decide))) fun _ => ?_
    refine .ite (fun _ => .pure (not_noMemory (by decide))) fun _ => ?_
    refine .bind (blames_pkeyImport _ _ _ _) (fun id hid => yields_whenLoaded hid hid) fun id hid => ?_
    refine blames_whenLoaded hid (fun h => h) ?_
    refine .after (.readMem _ _) fun bytes => .psa fun r => ?_
    refine .after (.writeMem _ _) fun _ => .after (.psa _) fun _ => ?_
    refine blames_settled _ _ (fun _ h => .inr (congrArg some ?_)) (not_noMemory (by decide))
    unfold NoMemory at h
    split at h
    · cases h
    · exact zucIntFromPsa_eq_errMemory.mp h

theorem blames_pkeyDecryptImpl (excuse : Prop) (key : Option ZucPkey) (scheme hash : ZucAlg)
    (inp len out outSize : Nat) (outLen : SizeCell) :
    Blames excuse (pkeyDecryptImpl key scheme hash inp len out outSize outLen : Adapter O _)
      NoMemory := by
  cases key with
  | none => exact .pure (not_noMemory (by decide))
  | some k =>
    refine .ite (fun _ => .pure (not_noMemory (by decide))) fun _ => .after .ready fun ready => ?_
    refine .ite (fun _ => .pure (not_noMemory (by decide))) fun _ => ?_
    refine .ite (fun _ => .pure (not_noMemory (by decide))) fun _ => ?_
    refine .ite (fun _ => .pure (not_noMemory (by decide))) fun _ => ?_
    refine .bind (blames_pkeyImport _ _ _ _) (fun id hid => yields_whenLoaded hid hid) fun id hid => ?_
    refine blames_whenLoaded hid (fun h => h) ?_
    refine .after (.readMem _ _) fun bytes => .psa fun r => ?_
    refine .after (.writeMem _ _) fun _ => .after (.psa _) fun _ => ?_
    refine blames_settled _ _ (fun _ h => .inr ?_) (not_noMemory (by decide))
    exact congrArg some (memory_of_status (by decide) h)

theorem blames_pkeyExportImpl (excuse : Prop) (key : Option ZucPkey) (publicOnly : Bool)
    (out outSize : Nat) (outLen : SizeCell) :
    Blames excuse (pkeyExportImpl key publicOnly out outSize outLen : Adapter O _) NoMemory := by
  refine .after .ready fun ready => .ite (fun _ => .pure (not_noMemory (by decide))) fun _ => ?_
  cases key with
  | none => exact .pure (not_noMemory (by decide))
  | some k =>
    refine .ite (fun _ => .pure (not_noMemory (by decide))) fun _ => .ite (fun _ => ?_) fun _ => ?_
    · refine .ite (fun _ => .pure (not_noMemory (by decide))) fun _ => ?_
      exact .after (.writeMem _ _) fun _ => .pure (not_noMemory (by decide))
    · refine .bind (blames_publicDer _ k) ?_ fun der hder => ?_
      · rintro der rfl
        exact Yields.pure rfl
      · cases der with
        | error st => exact .pure fun h => (hder (congrArg _ h)).elim
        | ok der =>
          refine .ite (fun _ => ?_) fun _ => ?_
          · exact .after (.freeBytes _) fun _ => .pure (not_noMemory (by decide))
          · refine .after (.writeMem _ _) fun _ => .after (.freeBytes _) fun _ => ?_
            exact .pure (not_noMemory (by decide))

theorem blames_agreeRun (excuse : Prop) (key : ZucPkey) (point : List Byte) (out outSize : Nat) :
    Blames excuse (agreeRun key point out outSize : Adapter O _) NoMemory := by
  refine .bind (blames_pkeyImport _ _ _ _) (fun id hid => yields_whenLoaded hid hid) fun id hid => ?_
  refine blames_whenLoaded hid (fun h => h) (.psa fun r => ?_)
  refine .after (.writeMem _ _) fun _ => .after (.psa _) fun _ => .pure fun h => .inr ?_
  unfold NoMemory at h
  split at h
  · cases h
  · exact congrArg some (memory_of_status (by decide) h)

theorem blames_pkeyAgreeImpl (excuse : Prop) (key peer : Option ZucPkey) (out outSize : Nat)
    (outLen : SizeCell) :
    Blames excuse (pkeyAgreeImpl key peer out outSize outLen : Adapter O _) NoMemory := by
  refine .after .ready fun ready => .ite (fun _ => .pure (not_noMemory (by decide))) fun _ => ?_
  cases key with
  | none => exact .pure (not_noMemory (by decide))
  | some k =>
    cases peer with
    | none => exact .pure (not_noMemory (by decide))
    | some p =>
      refine .ite (fun _ => .pure (not_noMemory (by decide))) fun _ => ?_
      refine .ite (fun _ => .pure (not_noMemory (by decide))) fun _ => ?_
      refine .ite (fun _ => .pure (not_noMemory (by decide))) fun _ => ?_
      refine .ite (fun _ => .pure (not_noMemory (by decide))) fun _ => ?_
      refine .bind (blames_publicDer _ p) ?_ fun point hpoint => ?_
      · rintro point rfl
        exact Yields.pure rfl
      cases point with
      | error st => exact .pure fun h => (hpoint (congrArg _ h)).elim
      | ok point =>
        refine .bind (blames_agreeRun _ _ _ _ _) (fun r hr => ?_) fun r hr => ?_
        · refine Yields.after fun _ => Yields.after fun secret => ?_
          have hne : ¬ (r.1 = .ok ∧ k.type = .x25519 ∧ ∀ b ∈ secret, b = 0) :=
            fun h => absurd (hr.symm.trans h.1) (by decide)
          rw [if_neg hne]
          exact yields_settled _ _ (fun hok => absurd (hr.symm.trans hok) (by decide)) hr
        · refine .after (.freeBytes _) fun _ => .after (.readMem _ _) fun secret => ?_
          refine blames_settled _ _ (fun _ h => ?_) (not_noMemory (by decide))
          unfold NoMemory at h
          split at h
          · cases h
          · exact (hr h).elim

end Zucrypt
