import Zucrypt.PkeyResults
import Zucrypt.AllOrNothing
import Zucrypt.ReferenceBackend

/-! # What a failed decryption or agreement leaves behind

`zucrypt.h` says that a failure of `zuc_pkey_decrypt` or `zuc_pkey_agree` leaves the output buffer
zero.  The functions wipe it once they have come to the backend, and return from their checks before
that without touching it.  `DecryptReaches` and `AgreeReaches` say how far a call has to get: the
checks pass, and, for agreement, the public half of the peer could be exported.

`failure_wiped_iff` is the exact extent, for each function, call and backend: a failure leaves zeros
and a length of 0 if and only if the buffer was zero already, or the call got that far.  One
direction is the wipe at the end (`DecryptReaches.wiped`, `AgreeReaches.wiped`); the other is that
the early returns write nothing (`Refuses`, `decrypt_refuses`, `agree_refuses`), so that the buffer
is what it was.

Nothing is assumed of the backend, nor of the arguments but that there is an output buffer to speak
of (`hout`).  The condition is one on the call and the state before it: the answers it mentions are
those the backend gives in that state. -/
namespace Zucrypt
open Effects ByteMemory

variable {O : Objects} {σ : Type} (h : Handler (Call O) σ)

/-- A failure leaves a buffer of zeros and a length of 0. -/
def FailureWiped (out outSize : Nat) (r : Outcome (ZucStatus × SizeCell) World σ) : Prop :=
  r.value.1 ≠ .ok →
    read r.world.mem out outSize = List.replicate outSize 0 ∧ r.value.2 = some 0

/-- A failure, with the caller's memory as it was. -/
structure Refuses (w : World) (r : Outcome (ZucStatus × SizeCell) World σ) : Prop where
  status : r.value.1 ≠ .ok
  cell : r.value.2 = some 0
  mem : r.world.mem = w.mem

/-- A refusal wipes nothing: the buffer is zero only if it was. -/
theorem Refuses.wiped_iff {w : World} {r : Outcome (ZucStatus × SizeCell) World σ} {out outSize : Nat}
    (hr : Refuses w r) :
    FailureWiped out outSize r ↔ read w.mem out outSize = List.replicate outSize 0 := by
  unfold FailureWiped
  rw [hr.mem]
  constructor
  · exact fun hw => (hw hr.status).1
  · exact fun hzero _ => ⟨hzero, hr.cell⟩

/-- The allocation watch makes no failure a success, and no success a failure. -/
theorem exec_watched_ok {α : Type} (impl : Adapter O (ZucStatus × α)) (w : World) (s : σ) :
    (((watched impl).exec h w s).value.1 = .ok ↔
      (impl.exec h { w with allocFailed := false } s).value.1 = .ok) ∧
    ((watched impl).exec h w s).value.2 =
      (impl.exec h { w with allocFailed := false } s).value.2 ∧
    ((watched impl).exec h w s).world = (impl.exec h { w with allocFailed := false } s).world := by
  simp only [watched, Proc.exec_bind, exec_zucIntAllocWatch, exec_zucIntMemoryOr, Proc.exec_pure,
    and_self, and_true]
  generalize impl.exec h { w with allocFailed := false } s = r
  split
  · rename_i hblame
    exact ⟨nofun, fun hok => absurd hok hblame.1⟩
  · exact Iff.rfl

/-- The watch on allocations writes nothing to the buffer. -/
theorem failureWiped_watched {impl : Adapter O (ZucStatus × SizeCell)} {w : World} {s : σ}
    {out outSize : Nat} :
    FailureWiped out outSize ((watched impl).exec h w s) ↔
      FailureWiped out outSize (impl.exec h { w with allocFailed := false } s) := by
  obtain ⟨hok, hcell, hworld⟩ := exec_watched_ok h impl w s
  unfold FailureWiped
  rw [hcell, hworld, ne_eq, ne_eq, hok]

/-- Both functions end so: a failure is wiped on its way out. -/
theorem failureWiped_settled {c : Prop} [Decidable c] {st : ZucStatus} {cell : SizeCell} {n : Nat}
    {w : World} {s : σ} {out outSize : Nat} (hout : out ≠ NULL) :
    FailureWiped out outSize
      ((if c then do
          zucSecureZero out outSize
          return (st, SizeCell.store (some n) 0)
        else
          return (.ok, cell) : Adapter O (ZucStatus × SizeCell)).exec h w s) := by
  by_cases hc : c
  · rw [if_pos hc, Proc.exec_bind, exec_zucSecureZero, if_neg hout]
    exact fun _ => ⟨read_zeros _ _ _, rfl⟩
  · rw [if_neg hc]
    exact fun hne => absurd rfl hne

/-! ### Decryption -/

/-- The call gets past its checks, and the backend takes the key. -/
structure DecryptReaches (w : World) (s : σ) (key : ZucPkey) (scheme hash : ZucAlg) (inp : Nat) :
    Prop where
  input : inp ≠ NULL
  ready : 0 < w.refcount
  isPrivate : key.isPrivate = true
  fits : cryptAlg scheme hash ≠ .none
  rsa : key.type = .rsa
  imported : (answer h (.importKey (pkeyAttributes key (cryptAlg scheme hash) .decrypt)
    key.der.bytes) s).1 = .success

variable {h} {w : World} {s : σ} {out outSize n : Nat}

/-- A decryption that came to the backend, and failed, has wiped its output. -/
theorem DecryptReaches.wiped {key : ZucPkey} {scheme hash : ZucAlg} {inp : Nat} (len : Nat)
    (hr : DecryptReaches h w s key scheme hash inp) (hout : out ≠ NULL) :
    FailureWiped out outSize
      ((pkeyDecryptImpl (some key) scheme hash inp len out outSize (some n)).exec h w s) := by
  have hargs : ¬ (inp = NULL ∨ out = NULL ∨ SizeCell.store (some n) 0 = none) := by
    rintro (hinp | hnull | hcell)
    · exact hr.input hinp
    · exact hout hnull
    · exact nomatch hcell
  have hscheme : ¬ (cryptAlg scheme hash = .none ∨ key.type ≠ .rsa) := by
    rintro (hnone | hrsa)
    · exact hr.fits hnone
    · exact hrsa hr.rsa
  have hid := hr.imported
  simp only [pkeyDecryptImpl, if_neg hargs, Proc.exec_bind, exec_zucIntReady, hr.ready,
    decide_true, Bool.true_eq_false, if_false, hr.isPrivate, if_neg hscheme, pkeyImport, exec_psa,
    Proc.exec_pure]
  generalize answer h (.importKey _ key.der.bytes) s = id at hid ⊢
  rw [if_neg (by rw [hid]; simp [zucIntFromPsa])]
  simp only [Proc.exec_bind, exec_psa, exec_readMem, exec_writeOutput]
  exact failureWiped_settled h hout

/-- One that did not has written nothing. -/
theorem decrypt_refuses {key : Option ZucPkey} {scheme hash : ZucAlg} {inp : Nat} (len : Nat)
    (hr : ∀ k, key = some k → ¬ DecryptReaches h w s k scheme hash inp) :
    Refuses w
      ((pkeyDecryptImpl key scheme hash inp len out outSize (some n)).exec h w s) := by
  cases key with
  | none => exact ⟨by simp [pkeyDecryptImpl], rfl, rfl⟩
  | some k =>
    simp only [pkeyDecryptImpl]
    by_cases hargs : inp = NULL ∨ out = NULL ∨ SizeCell.store (some n) 0 = none
    · rw [if_pos hargs]
      exact ⟨by simp, rfl, rfl⟩
    rw [if_neg hargs, Proc.exec_bind, exec_zucIntReady]
    by_cases hready : 0 < w.refcount
    case neg =>
      rw [if_pos (decide_eq_false hready)]
      exact ⟨by simp, rfl, rfl⟩
    rw [if_neg (by simp [hready])]
    by_cases hpriv : k.isPrivate = false
    · rw [if_pos hpriv]
      exact ⟨by simp, rfl, rfl⟩
    rw [if_neg hpriv]
    by_cases hscheme : cryptAlg scheme hash = .none ∨ k.type ≠ .rsa
    · rw [if_pos hscheme]
      exact ⟨by simp, rfl, rfl⟩
    rw [if_neg hscheme, Proc.exec_bind]
    -- only the backend is left to refuse the key
    have himport : (answer h (.importKey (pkeyAttributes k (cryptAlg scheme hash) .decrypt)
        k.der.bytes) s).1 ≠ .success := by
      intro hok
      obtain ⟨hnone, hrsa⟩ := not_or.mp hscheme
      exact hr k rfl ⟨fun hinp => hargs (Or.inl hinp), hready, (Bool.not_eq_false _).mp hpriv,
        hnone, not_not.mp hrsa, hok⟩
    simp only [pkeyImport, Proc.exec_bind, exec_psa, Proc.exec_pure]
    rw [if_pos (zucIntFromPsa_ne_ok himport)]
    exact ⟨zucIntFromPsa_ne_ok himport, rfl, rfl⟩

/-! ### The public half of a peer -/

variable (h)

/-- The backend exports the public half of a key it holds, of a type the adapter knows,
and there is memory for a handle on it. -/
def ExportsPublic (id : KeyId) (s : σ) : Prop :=
  let attr := answer h (.getKeyAttributes id) s
  let self := h _ (.calloc .zucPkey) (next h (.getKeyAttributes id) s)
  let size := psaExportPublicKeyOutputSize attr.2.type attr.2.bits
  let buf := h _ (.malloc size) self.2
  attr.1 = .success ∧ algOfPsa attr.2.type attr.2.bits ≠ .none ∧ self.1 ≠ none ∧ buf.1 ≠ none ∧
    (answer h (.exportPublicKey id size) buf.2).1 = .success

/-- What `public_der` needs: memory for a copy of a public key, and of a private one that
the backend takes it and exports its public half. -/
def PublicHalfGiven (key : ZucPkey) (s : σ) : Prop :=
  let id := answer h (.importKey (pkeyAttributes key .none .exportable) key.der.bytes) s
  let s' := next h (.importKey (pkeyAttributes key .none .exportable) key.der.bytes) s
  if key.isPrivate then id.1 = .success ∧ ExportsPublic h id.2 s'
  else (h _ (.malloc key.der.len) s).1 ≠ none

variable {h}

/-- A public handle is made exactly if the key is exported, and no memory of the caller's is
touched. -/
theorem exec_pkeyFromPsa_public (id : KeyId) (w : World) (s : σ) :
    (((pkeyFromPsa id false).exec h w s).value.1 = .ok ↔ ExportsPublic h id s) ∧
    ((pkeyFromPsa id false).exec h w s).world.mem = w.mem := by
  simp only [pkeyFromPsa, ExportsPublic, Proc.exec_bind, exec_psa, Bool.and_false]
  generalize answer h (.getKeyAttributes id) s = attr
  -- one case for each thing that can fail, in the order of the calls
  by_cases hattr : attr.1 = .success
  case neg =>
    rw [if_pos hattr]
    exact ⟨iff_of_false (zucIntFromPsa_ne_ok hattr) fun he => hattr he.1, rfl⟩
  rw [if_neg (not_not.mpr hattr)]
  by_cases halg : algOfPsa attr.2.type attr.2.bits = .none
  · rw [if_pos halg]
    exact ⟨iff_of_false (by simp) fun he => he.2.1 halg, rfl⟩
  rw [if_neg halg]
  simp only [Proc.exec_bind, exec_callocRecord, exec_mallocBytes, Bool.false_eq_true, if_false]
  generalize h _ (.calloc .zucPkey) _ = self
  obtain ⟨self, s₁⟩ := self
  generalize hbuf : h _ (.malloc _) s₁ = buf
  obtain ⟨buf, s₂⟩ := buf
  cases self with
  | none =>
    cases buf with
    | none => exact ⟨iff_of_false (by simp [freeIf, Proc.exec_bind]) fun he => he.2.2.1 rfl, rfl⟩
    | some p => exact ⟨iff_of_false (by simp [freeIf, Proc.exec_bind]) fun he => he.2.2.1 rfl, rfl⟩
  | some self =>
    cases buf with
    | none => exact ⟨iff_of_false (by simp [freeIf, Proc.exec_bind]) fun he => he.2.2.2.1 rfl, rfl⟩
    | some p =>
      simp only [Option.map_some, Proc.exec_bind, exec_psa]
      generalize answer h (.exportPublicKey id _) s₂ = r
      by_cases hr : r.1 = .success
      case neg =>
        rw [if_pos hr]
        exact ⟨iff_of_false (zucIntFromPsa_ne_ok hr) fun he => hr he.2.2.2.2, rfl⟩
      rw [if_neg (not_not.mpr hr)]
      exact ⟨iff_of_true rfl ⟨hattr, halg, by simp, by simp, hr⟩, rfl⟩

/-- So it is with the public half of a private handle. -/
theorem exec_pkeyPublicImpl (key : ZucPkey) (w : World) (s : σ) (hready : 0 < w.refcount)
    (hpriv : key.isPrivate = true) :
    (((pkeyPublicImpl (some key) true).exec h w s).value.1 = .ok ↔ PublicHalfGiven h key s) ∧
    ((pkeyPublicImpl (some key) true).exec h w s).world.mem = w.mem := by
  simp only [pkeyPublicImpl, PublicHalfGiven, hpriv, Bool.true_eq_false, if_false, if_true,
    Proc.exec_bind, exec_zucIntReady, hready, decide_true, pkeyImport, exec_psa, Proc.exec_pure]
  generalize answer h (.importKey (pkeyAttributes key .none .exportable) _) s = id
  generalize next h (.importKey (pkeyAttributes key .none .exportable) _) s = s₁
  by_cases hid : id.1 = .success
  case neg =>
    rw [if_pos (zucIntFromPsa_ne_ok hid)]
    exact ⟨iff_of_false (zucIntFromPsa_ne_ok hid) fun hgiven => hid hgiven.1, rfl⟩
  rw [if_neg (by rw [hid]; simp [zucIntFromPsa])]
  obtain ⟨hok, hmem⟩ := exec_pkeyFromPsa_public (h := h) id.2 (w.noteAlloc _) s₁
  simp only [Proc.exec_bind, exec_psa, Proc.exec_pure]
  exact ⟨hok.trans (and_iff_right hid).symm, hmem⟩

/-- How `public_der` ends: with the public half of the key, or with a status that is not
`ZUC_OK`. -/
theorem exec_publicDer (key : ZucPkey) (w : World) (s : σ) (hready : 0 < w.refcount) :
    ((∃ der, ((publicDer key).exec h w s).value = .ok der) ↔ PublicHalfGiven h key s) ∧
    (∀ st, ((publicDer key).exec h w s).value = .error st → st ≠ .ok) ∧
    ((publicDer key).exec h w s).world.mem = w.mem := by
  cases hpriv : key.isPrivate with
  | false =>
    simp only [publicDer, PublicHalfGiven, hpriv, if_true, Proc.exec_bind, exec_mallocBytes,
      Bool.false_eq_true, if_false]
    generalize h _ (.malloc key.der.len) s = buf
    obtain ⟨buf, s'⟩ := buf
    cases buf with
    | none => exact ⟨by simp, by rintro st ⟨⟩; simp, rfl⟩
    | some p => exact ⟨by simp, nofun, rfl⟩
  | true =>
    obtain ⟨hok, hmem⟩ := exec_pkeyPublicImpl (h := h) key w s hready hpriv
    have hhands := (pkeyPublicImpl_handsOut (some key) true).exec h w s
    simp only [publicDer, hpriv, Bool.true_eq_false, if_false, Proc.exec_bind]
    generalize (pkeyPublicImpl (some key) true).exec h w s = r at hok hmem hhands ⊢
    by_cases hr : r.value.1 = .ok
    case neg =>
      rw [if_pos hr]
      exact ⟨⟨by simp, fun hgiven => absurd (hok.mpr hgiven) hr⟩, by rintro st ⟨⟩; exact hr, hmem⟩
    rw [if_neg (not_not.mpr hr)]
    obtain ⟨pub, hpub⟩ := hhands.exists_eq hr
    simp only [hpub, Proc.exec_bind, exec_freeRecord, exec_zucIntLiveAdd, Proc.exec_pure]
    exact ⟨iff_of_true ⟨_, rfl⟩ (hok.mp hr), nofun, hmem⟩

/-! ### Agreement -/

variable (h)

/-- The call gets past its checks, and has the public half of the peer. -/
structure AgreeReaches (w : World) (s : σ) (key peer : ZucPkey) (outSize : Nat) : Prop where
  ready : 0 < w.refcount
  curve : key.type ≠ .rsa
  isPrivate : key.isPrivate = true
  same : peer.type = key.type
  room : ecBytes key ≤ outSize
  given : PublicHalfGiven h peer s

variable {h}

/-- An agreement that came to the backend, and failed, has wiped its output. -/
theorem AgreeReaches.wiped {key peer : ZucPkey} (hr : AgreeReaches h w s key peer outSize)
    (hout : out ≠ NULL) :
    FailureWiped out outSize
      ((pkeyAgreeImpl (some key) (some peer) out outSize (some n)).exec h w s) := by
  have hargs : ¬ (out = NULL ∨ SizeCell.store (some n) 0 = none) := by
    rintro (hnull | hcell)
    · exact hout hnull
    · exact nomatch hcell
  have hkind : ¬ (key.type = .rsa ∨ zucAlgAvailable .ecdh = false) := by
    rintro (hrsa | havail)
    · exact hr.curve hrsa
    · exact absurd havail (by decide)
  have hcurve : ¬ (key.isPrivate = false ∨ peer.type ≠ key.type) := by
    rintro (hpub | hother)
    · exact absurd (hr.isPrivate.symm.trans hpub) (by decide)
    · exact hother hr.same
  obtain ⟨hder, -, -⟩ := exec_publicDer (h := h) peer w s hr.ready
  obtain ⟨point, hpoint⟩ := hder.mpr hr.given
  simp only [pkeyAgreeImpl, Proc.exec_bind, exec_zucIntReady, hr.ready, decide_true,
    Bool.true_eq_false, if_false, if_neg hargs, if_neg hkind, if_neg hcurve,
    if_neg (Nat.not_lt.mpr hr.room), hpoint, exec_freeBytes, exec_readMem]
  exact failureWiped_settled h hout

/-- One that did not has written nothing. -/
theorem agree_refuses {key peer : Option ZucPkey}
    (hr : ∀ k p, key = some k → peer = some p → ¬ AgreeReaches h w s k p outSize) :
    Refuses w ((pkeyAgreeImpl key peer out outSize (some n)).exec h w s) := by
  simp only [pkeyAgreeImpl, Proc.exec_bind, exec_zucIntReady]
  by_cases hready : 0 < w.refcount
  case neg =>
    rw [if_pos (decide_eq_false hready)]
    exact ⟨by simp, rfl, rfl⟩
  rw [if_neg (by simp [hready])]
  cases key with
  | none => exact ⟨by simp, rfl, rfl⟩
  | some k =>
    cases peer with
    | none => exact ⟨by simp, rfl, rfl⟩
    | some p =>
      by_cases hargs : out = NULL ∨ SizeCell.store (some n) 0 = none
      · simp only [if_pos hargs]
        exact ⟨by simp, rfl, rfl⟩
      by_cases hkind : k.type = .rsa ∨ zucAlgAvailable .ecdh = false
      · simp only [if_neg hargs, if_pos hkind]
        exact ⟨by simp, rfl, rfl⟩
      by_cases hcurve : k.isPrivate = false ∨ p.type ≠ k.type
      · simp only [if_neg hargs, if_neg hkind, if_pos hcurve]
        exact ⟨by simp, rfl, rfl⟩
      by_cases hroom : outSize < ecBytes k
      · simp only [if_neg hargs, if_neg hkind, if_neg hcurve, if_pos hroom]
        exact ⟨by simp, rfl, rfl⟩
      simp only [if_neg hargs, if_neg hkind, if_neg hcurve, if_neg hroom, Proc.exec_bind]
      -- only the public half of the peer is left to be missing
      obtain ⟨hder, herror, hmem⟩ := exec_publicDer (h := h) p w s hready
      have hmissing : ¬ PublicHalfGiven h p s := by
        intro hgiven
        obtain ⟨hrsa, -⟩ := not_or.mp hkind
        obtain ⟨hpriv, hsame⟩ := not_or.mp hcurve
        exact hr k p rfl rfl ⟨hready, hrsa, (Bool.not_eq_false _).mp hpriv, not_not.mp hsame,
          Nat.not_lt.mp hroom, hgiven⟩
      cases hpoint : ((publicDer p).exec h w s).value with
      | error st => exact ⟨herror st hpoint, rfl, hmem⟩
      | ok der => exact absurd (hder.mp ⟨der, hpoint⟩) hmissing

/-! ### Both -/

/-- **What a failure leaves behind**: a buffer of zeros exactly when the buffer was zero
to begin with, or the call got as far as the backend operation.  The length is 0 either
way. -/
theorem failure_wiped_iff (h : Handler (Call O) σ) (w : World) (s : σ) (key peer : Option ZucPkey)
    (scheme hash : ZucAlg) (inp len out outSize n : Nat) (hout : out ≠ NULL) :
    (FailureWiped out outSize
        ((zucPkeyDecrypt key scheme hash inp len out outSize (some n)).exec h w s) ↔
      read w.mem out outSize = List.replicate outSize 0 ∨
        ∃ k, key = some k ∧ DecryptReaches h w s k scheme hash inp) ∧
    (FailureWiped out outSize ((zucPkeyAgree key peer out outSize (some n)).exec h w s) ↔
      read w.mem out outSize = List.replicate outSize 0 ∨
        ∃ k p, key = some k ∧ peer = some p ∧ AgreeReaches h w s k p outSize) := by
  refine ⟨(failureWiped_watched h).trans ?decrypt, (failureWiped_watched h).trans ?agree⟩
  case decrypt =>
    by_cases hr : ∃ k, key = some k ∧ DecryptReaches h w s k scheme hash inp
    · obtain ⟨k, rfl, hk⟩ := hr
      have hk' : DecryptReaches h { w with allocFailed := false } s k scheme hash inp :=
        ⟨hk.input, hk.ready, hk.isPrivate, hk.fits, hk.rsa, hk.imported⟩
      exact iff_of_true (hk'.wiped len hout) (Or.inr ⟨k, rfl, hk⟩)
    · -- a call that goes no further than its checks leaves `out` as it is
      have hrefuses : Refuses { w with allocFailed := false }
          ((pkeyDecryptImpl key scheme hash inp len out outSize (some n)).exec h
            { w with allocFailed := false } s) :=
        decrypt_refuses len fun k hkey hk =>
          hr ⟨k, hkey, hk.input, hk.ready, hk.isPrivate, hk.fits, hk.rsa, hk.imported⟩
      exact hrefuses.wiped_iff.trans (or_iff_left hr).symm
  case agree =>
    by_cases hr : ∃ k p, key = some k ∧ peer = some p ∧ AgreeReaches h w s k p outSize
    · obtain ⟨k, p, rfl, rfl, hk⟩ := hr
      have hk' : AgreeReaches h { w with allocFailed := false } s k p outSize :=
        ⟨hk.ready, hk.curve, hk.isPrivate, hk.same, hk.room, hk.given⟩
      exact iff_of_true (hk'.wiped hout) (Or.inr ⟨k, p, rfl, rfl, hk⟩)
    · have hrefuses : Refuses { w with allocFailed := false }
          ((pkeyAgreeImpl key peer out outSize (some n)).exec h { w with allocFailed := false } s) :=
        agree_refuses fun k p hkey hpeer hk =>
          hr ⟨k, p, hkey, hpeer, hk.ready, hk.curve, hk.isPrivate, hk.same, hk.room, hk.given⟩
      exact hrefuses.wiped_iff.trans (or_iff_left hr).symm

/-- A handle on a key of 1024 bits, of which only the kind matters here. -/
def rsaHandle (isPrivate : Bool) : ZucPkey where
  self := 0x500
  type := .rsa
  ptype := if isPrivate then .rsaKeyPair else .rsaPublicKey
  isPrivate := isPrivate
  bits := 1024
  der := ⟨.fresh 0x600 140, 140⟩

/-- A caller's memory with one byte in the place of the output. -/
def usedWorld : World := readyWorld.store 0x100 [0xaa]

/-- A private key, and a backend that takes it and refuses to decrypt: what was in the
buffer is gone. -/
theorem failure_wiped_iff_known :
    let p : Adapter referenceObjects (ZucStatus × SizeCell) :=
      zucPkeyDecrypt (some (rsaHandle true)) .rsaPkcs1v15Crypt .none 0x200 128 0x100 1 (some 1)
    let r := p.exec (referenceBackend knownPrimitives) usedWorld .initial
    r.value.1 = .errAuth ∧ read usedWorld.mem 0x100 1 = [0xaa] ∧ read r.world.mem 0x100 1 = [0] ∧
      r.value.2 = some 0 := by
  intro p r
  have hreaches : DecryptReaches (referenceBackend knownPrimitives) usedWorld .initial
      (rsaHandle true) .rsaPkcs1v15Crypt .none 0x200 :=
    ⟨by decide, by decide, rfl, by decide, rfl, rfl⟩
  have hwiped : FailureWiped 0x100 1 r :=
    (failure_wiped_iff (referenceBackend knownPrimitives) usedWorld .initial
      (some (rsaHandle true)) none .rsaPkcs1v15Crypt .none 0x200 128 0x100 1 1 (by decide)).1.mpr
      (Or.inr ⟨_, rfl, hreaches⟩)
  have hauth : r.value.1 = .errAuth := by decide +kernel
  obtain ⟨hzero, hlen⟩ := hwiped (by rw [hauth]; simp)
  exact ⟨hauth, by decide, hzero, hlen⟩

/-- A public key where decryption needs a private one, and no key where agreement needs
one: both calls fail, and the byte that was in the buffer is there afterwards. -/
theorem failure_leaves_output :
    let h := referenceBackend knownPrimitives
    let p : Adapter referenceObjects (ZucStatus × SizeCell) :=
      zucPkeyDecrypt (some (rsaHandle false)) .rsaPkcs1v15Crypt .none 0x200 128 0x100 1 (some 1)
    let q : Adapter referenceObjects (ZucStatus × SizeCell) := zucPkeyAgree none none 0x100 1 (some 1)
    ¬ FailureWiped 0x100 1 (p.exec h usedWorld .initial) ∧
      ¬ FailureWiped 0x100 1 (q.exec h usedWorld .initial) := by
  intro h p q
  constructor
  · intro hwiped
    exact absurd (hwiped (by decide +kernel)).1 (by decide +kernel)
  · intro hwiped
    exact absurd (hwiped (by decide +kernel)).1 (by decide +kernel)

end Zucrypt
