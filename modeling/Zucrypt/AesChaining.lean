import Zucrypt.Aes
import Zucrypt.HashLaws
import Zucrypt.Machine

/-! # AES-CBC handles compute CBC

`CbcLaws` is what is asked of the backend: that a pass which succeeds is a CBC pass.  Any of its
steps may fail, and leave anything in the output buffer.

The calls on one handle are a machine (`aesMachine`).  `CbcContract` is what its caller may rely on,
over every sequence of calls on any handle that was created:

* the chaining value is the last one that was set, or left by a successful call;
* a call that fails keeps it, and no call writes outside its output buffer;
* a pass that succeeds is CBC from the chaining value, in place or apart, and is refused if its
  buffers overlap in any other way;
* a message may be cut into calls anywhere between blocks;
* decryption undoes encryption.

`exec_cipherRun` follows one pass through the six calls it makes of the backend; `step_pass` and
`step_handle` say what one call of the interface does, and `aes_cbc_contract` puts the runs together
by `lastChain`, which reads the chaining value off the log.  The block cipher is any family of
permutations, so nothing is assumed of AES but that it is one for each key; the key of a handle is
the one it was created with (`AesReached.key`). -/
namespace Zucrypt
open Effects ByteMemory BlockChaining Machines

variable {O : Objects} {σ : Type}

/-! ### A correct CBC backend -/

/-- The calls on a cipher operation. -/
inductive CipherCall : {α : Type} → PsaCall O α → Prop
  | encryptSetup (op : O.Cipher) (key : KeyId) (alg : PsaAlg) :
      CipherCall (.cipherEncryptSetup op key alg)
  | decryptSetup (op : O.Cipher) (key : KeyId) (alg : PsaAlg) :
      CipherCall (.cipherDecryptSetup op key alg)
  | setIv (op : O.Cipher) (iv : List Byte) : CipherCall (.cipherSetIv op iv)
  | update (op : O.Cipher) (input : List Byte) (size : Nat) :
      CipherCall (.cipherUpdate op input size)
  | finish (op : O.Cipher) (size : Nat) : CipherCall (.cipherFinish op size)
  | abort (op : O.Cipher) : CipherCall (.cipherAbort op)

/-- The backend's CBC passes, when they succeed, are CBC with the block cipher
`C`.  An update may keep back a part of the result, which the finish delivers. -/
structure CbcLaws (h : Handler (Call O) σ) (C : List Byte → BlockCipher AesBlock) where
  /-- the key an identifier stands for -/
  keyAt : σ → KeyId → List Byte → Prop
  /-- set up with a key -/
  ready : O.Cipher → Direction → List Byte → Prop
  /-- and given a chaining value -/
  started : O.Cipher → Direction → List Byte → AesBlock → Prop
  /-- what is still to be delivered -/
  draining : O.Cipher → List Byte → Prop
  importKey : ∀ s K,
    (answer h (.importKey (aesKeyAttributes .cbcNoPadding) K) s).1 = .success →
      keyAt (next h (.importKey (aesKeyAttributes .cbcNoPadding) K) s)
        (answer h (.importKey (aesKeyAttributes .cbcNoPadding) K) s).2 K
  setup : ∀ s dir id K, keyAt s id K →
    (answer h (cipherSetup dir O.cipherInit id .cbcNoPadding) s).1 = .success →
      ready (answer h (cipherSetup dir O.cipherInit id .cbcNoPadding) s).2 dir K
  setIv : ∀ s op dir K (iv : AesBlock), ready op dir K →
    (answer h (.cipherSetIv op iv.1) s).1 = .success →
      started (answer h (.cipherSetIv op iv.1) s).2 dir K iv
  update : ∀ s op dir K iv bs size, started op dir K iv → bs.length % ZUC_AES_BLOCK_SIZE = 0 →
    (answer h (.cipherUpdate op bs size) s).1 = .success →
      ∃ ds rest, ds ++ rest = cbcBytes (C K) dir iv bs ∧
        (answer h (.cipherUpdate op bs size) s).2.2.Delivers ds ∧
        draining (answer h (.cipherUpdate op bs size) s).2.1 rest
  finish : ∀ s op rest size, draining op rest →
    (answer h (.cipherFinish op size) s).1 = .success →
      (answer h (.cipherFinish op size) s).2.2.Delivers rest
  /-- cipher operations, and the end of a local array, leave the key store alone -/
  keep : ∀ {α : Type} (c : PsaCall O α) s id K, CipherCall c → keyAt s id K →
    keyAt (next h c s) id K
  keep_dropLocal : ∀ s id K bs, keyAt s id K → keyAt (h _ (.dropLocal bs) s).2 id K

variable {h : Handler (Call O) σ} {C : List Byte → BlockCipher AesBlock}

/-- A setup is a call on the operation. -/
theorem cipherSetup_call (dir : Direction) (op : O.Cipher) (key : KeyId) (alg : PsaAlg) :
    CipherCall (cipherSetup dir op key alg) := by
  cases dir with
  | encrypt => exact .encryptSetup _ _ _
  | decrypt => exact .decryptSetup _ _ _

/-! ### One pass -/

/-- How a pass ends: the key is still there, nothing outside the output buffer has
changed, and if it succeeded the output buffer holds the result. -/
structure Passed (L : CbcLaws h C) (id : KeyId) (K : List Byte) (dir : Direction) (iv : AesBlock)
    (inp len out : Nat) (w : World) (r : Outcome ZucStatus World σ) : Prop where
  key : L.keyAt r.env id K
  status : r.value ≠ .errOverlap
  frame : ∀ x, x < out ∨ out + len ≤ x → r.world.mem x = w.mem x
  done : r.value = .ok → r.world.mem = write w.mem out (cbcBytes (C K) dir iv (read w.mem inp len))

/-- A failure aborts the operation, and reports what the backend said. -/
theorem exec_cipherFail (w : World) (s : σ) (op : O.Cipher) (ps : PsaStatus) :
    (cipherFail op ps).exec h w s =
      ⟨zucIntFromPsa ps, w.noteAlloc (allocFails h (.cipherAbort op) s),
        next h (.cipherAbort op) s⟩ := by
  simp only [cipherFail, Proc.exec_bind, exec_psa, Proc.exec_pure]

/-- A failed step ends the pass, with what has been written so far. -/
theorem Passed.fail (L : CbcLaws h C) {id : KeyId} {K : List Byte} {dir : Direction} {iv : AesBlock}
    {inp len out : Nat} {w w' : World} {s' : σ} (hkey : L.keyAt s' id K)
    (hframe : ∀ x, x < out ∨ out + len ≤ x → w'.mem x = w.mem x) (op : O.Cipher) {ps : PsaStatus}
    (hps : ps ≠ .success) :
    Passed L id K dir iv inp len out w ((cipherFail op ps).exec h w' s') := by
  rw [exec_cipherFail]
  exact ⟨L.keep _ _ _ _ (.abort op) hkey, (zucIntFromPsa_ne ps).2.1, hframe,
    fun hok => absurd (zucIntFromPsa_eq_ok.mp hok) hps⟩

/-- One pass: setup, the chaining value, update and finish, any of which may fail. -/
theorem exec_cipherRun (L : CbcLaws h C) {w : World} {s : σ} {id : KeyId} {K : List Byte}
    (hkey : L.keyAt s id K) (dir : Direction) (iv : AesBlock) (inp out : Nat) {len : Nat}
    (hlen : len % ZUC_AES_BLOCK_SIZE = 0) :
    Passed L id K dir iv inp len out w ((cipherRun id dir iv inp len out).exec h w s) := by
  have hinput : (read w.mem inp len).length % ZUC_AES_BLOCK_SIZE = 0 := by simpa using hlen
  simp only [cipherRun, Proc.exec_bind, exec_psa, Proc.exec_ite]
  have hkey₁ := L.keep _ s _ _ (cipherSetup_call dir O.cipherInit id .cbcNoPadding) hkey
  by_cases hsetup : (answer h (cipherSetup dir O.cipherInit id .cbcNoPadding) s).1 ≠ .success
  · rw [if_pos hsetup]
    refine .fail L hkey₁ ?_ _ hsetup
    exact fun x _ => rfl
  rw [if_neg hsetup]
  have hready := L.setup s dir id K hkey (not_not.mp hsetup)
  generalize (answer h (cipherSetup dir O.cipherInit id .cbcNoPadding) s).2 = op₁ at hready ⊢
  generalize next h (cipherSetup dir O.cipherInit id .cbcNoPadding) s = s₁ at hkey₁ ⊢
  have hkey₂ := L.keep _ s₁ _ _ (.setIv op₁ iv.1) hkey₁
  by_cases hiv : (answer h (.cipherSetIv op₁ iv.1) s₁).1 ≠ .success
  · rw [if_pos hiv]
    refine .fail L hkey₂ ?_ _ hiv
    exact fun x _ => rfl
  rw [if_neg hiv]
  have hstarted := L.setIv s₁ op₁ dir K iv hready (not_not.mp hiv)
  generalize (answer h (.cipherSetIv op₁ iv.1) s₁).2 = op₂ at hstarted ⊢
  generalize next h (.cipherSetIv op₁ iv.1) s₁ = s₂ at hkey₂ ⊢
  simp only [exec_readMem, exec_writeOutput, World.noteAlloc_mem]
  have hkey₃ := L.keep _ s₂ _ _ (.update op₂ (read w.mem inp len) len) hkey₂
  have hupdated := L.update s₂ op₂ dir K iv (read w.mem inp len) len hstarted hinput
  generalize answer h (.cipherUpdate op₂ (read w.mem inp len) len) s₂ = u at hupdated ⊢
  generalize next h (.cipherUpdate op₂ (read w.mem inp len) len) s₂ = s₃ at hkey₃ ⊢
  by_cases hu : u.1 ≠ .success
  · rw [if_pos hu]
    refine .fail L hkey₃ ?_ _ hu
    exact fun x hx => write_take_outside w.mem u.2.2.bytes hx
  rw [if_neg hu]
  obtain ⟨ds, rest, hresult, ⟨hproduced, hds⟩, hdraining⟩ := hupdated (not_not.mp hu)
  -- what was produced is a part of the result, so the rest of the buffer is after it
  have hlength : ds.length + rest.length = len := by
    rw [← List.length_append, hresult, length_cbcBytes (by decide) dir iv hinput, length_read]
  have hroom := sizeSub_le (show ds.length ≤ len by omega)
  rw [hproduced]
  have hkey₄ := L.keep _ s₃ _ _ (.finish u.2.1 (sizeSub len ds.length)) hkey₃
  have hfinished := L.finish s₃ u.2.1 rest (sizeSub len ds.length) hdraining
  generalize answer h (.cipherFinish u.2.1 (sizeSub len ds.length)) s₃ = f at hfinished ⊢
  generalize next h (.cipherFinish u.2.1 (sizeSub len ds.length)) s₃ = s₄ at hkey₄ ⊢
  have hframe : ∀ x, x < out ∨ out + len ≤ x →
      write (write w.mem out (u.2.2.bytes.take len)) (out + ds.length)
        (f.2.2.bytes.take (sizeSub len ds.length)) x = w.mem x := by
    intro x hx
    rw [write_take_outside _ _ (by omega)]
    exact write_take_outside w.mem u.2.2.bytes hx
  by_cases hf : f.1 ≠ .success
  · rw [if_pos hf]
    refine .fail L hkey₄ ?_ _ hf
    exact hframe
  rw [if_neg hf]
  by_cases hcomplete : sizeAdd ds.length f.2.2.len ≠ len
  · rw [if_pos hcomplete]
    exact ⟨L.keep _ _ _ _ (.abort f.2.1) hkey₄, by simp, hframe, by simp⟩
  rw [if_neg hcomplete]
  refine ⟨hkey₄, by simp, hframe, fun _ => ?_⟩
  obtain ⟨hfinal, hrest⟩ := hfinished (not_not.mp hf)
  have hsize : sizeSub len ds.length = rest.length := by
    have hlt := not_not.mp hcomplete ▸ sizeAdd_lt ds.length f.2.2.len
    rw [sizeSub_of_le (by omega), Nat.mod_eq_of_lt (by omega)]
    omega
  have htail : f.2.2.bytes.take (sizeSub len ds.length) = rest := by
    rw [hsize]
    exact (List.prefix_iff_eq_take.mp hrest).symm
  have hspill : (u.2.2.bytes.take len).length ≤ ds.length + rest.length := by
    rw [hlength]
    exact List.length_take_le len _
  have hprefix : ds <+: u.2.2.bytes.take len :=
    List.prefix_take_iff.mpr ⟨hds, by omega⟩
  show write (write w.mem out (u.2.2.bytes.take len)) (out + ds.length)
    (f.2.2.bytes.take (sizeSub len ds.length)) = _
  rw [htail, write_write_parts _ _ hprefix hspill, hresult]

/-! ### Runs of calls on one handle -/

/-- A call on an AES handle. -/
inductive AesCall where
  | setState (state : Nat)
  | getState (state : Nat)
  | pass (dir : Direction) (inp len out : Nat)

/-- A call, and what its caller shares with the library when it is made. -/
structure AesStep where
  world : World
  call : AesCall

/-- What the caller gets: the status, and its memory afterwards. -/
structure AesReply where
  status : ZucStatus
  mem : Memory

/-- The handle, and the state of everything else the library has. -/
structure AesState (σ : Type) where
  handle : ZucAes
  env : σ

/-- `zuc_aes_cbc_encrypt` or `zuc_aes_cbc_decrypt`. -/
def zucAesCbc (dir : Direction) : Option ZucAes → Nat → Nat → Nat →
    Adapter O (ZucStatus × Option ZucAes) :=
  match dir with
  | .encrypt => zucAesCbcEncrypt
  | .decrypt => zucAesCbcDecrypt

/-- One call of the interface. -/
def aesCall (aes : Option ZucAes) : AesCall → Adapter O (ZucStatus × Option ZucAes)
  | .setState state => zucAesCbcSetState aes state
  | .getState state => do
    let st ← zucAesCbcGetState aes state
    return (st, aes)
  | .pass dir inp len out => zucAesCbc dir aes inp len out

/-- A handle under a sequence of calls. -/
def aesMachine (h : Handler (Call O) σ) : Machine AesStep AesReply (AesState σ) where
  step st i :=
    let r := (aesCall (some st.handle) i.call).exec h i.world st.env
    (⟨r.value.1, r.world.mem⟩, ⟨r.value.2.getD st.handle, r.env⟩)

/-! ### One call -/

/-- How an encryption or decryption ends, by direction: the chaining value, and
what is in the output buffer, are the next ones of CBC. -/
structure PassedCall (L : CbcLaws h C) (K : List Byte) (st : AesState σ) (dir : Direction)
    (inp len out : Nat) (w : World) (r : AesReply × AesState σ) : Prop where
  key : L.keyAt r.2.env r.2.handle.key K
  failed : r.1.status ≠ .ok → r.2.handle = st.handle
  frame : ∀ x, x < out ∨ out + len ≤ x → r.1.mem x = w.mem x
  aligned : r.1.status = .ok → len % ZUC_AES_BLOCK_SIZE = 0
  output : r.1.status = .ok →
    r.1.mem = write w.mem out (cbcBytes (C K) dir st.handle.chain (read w.mem inp len))
  chain : r.1.status = .ok →
    r.2.handle.chain = chainBytes (C K) dir st.handle.chain (read w.mem inp len)

/-- The last block of a buffer. -/
theorem blockAt_last (m : Memory) (p : Nat) {len : Nat} (h : ZUC_AES_BLOCK_SIZE ≤ len) :
    blockAt m (p + len - ZUC_AES_BLOCK_SIZE) =
      Block.ofBytes ((read m p len).drop (len - ZUC_AES_BLOCK_SIZE)) := by
  have hlast : len - (len - ZUC_AES_BLOCK_SIZE) = ZUC_AES_BLOCK_SIZE := by omega
  have hread : (read m p len).drop (len - ZUC_AES_BLOCK_SIZE) =
      (blockAt m (p + len - ZUC_AES_BLOCK_SIZE)).1 := by
    rw [drop_read m p (Nat.sub_le _ _), hlast, ← Nat.add_sub_assoc h]
    rfl
  rw [hread, Block.ofBytes_val]

/-- The last ciphertext block of a pass, given the caller's memory before and after. -/
def lastCiphertext (dir : Direction) (before after : Memory) (inp len out : Nat) : AesBlock :=
  match dir with
  | .encrypt => blockAt after (out + len - ZUC_AES_BLOCK_SIZE)
  | .decrypt => blockAt before (inp + len - ZUC_AES_BLOCK_SIZE)

/-- It is CBC's next chaining value, also where the output has replaced the input. -/
theorem lastCiphertext_eq (E : BlockCipher AesBlock) (dir : Direction) (iv : AesBlock) (m : Memory)
    (inp out : Nat) {len : Nat} (hlen : len ≠ 0) (haligned : len % ZUC_AES_BLOCK_SIZE = 0) :
    lastCiphertext dir m (write m out (cbcBytes E dir iv (read m inp len))) inp len out =
      chainBytes E dir iv (read m inp len) := by
  have hwhole : ZUC_AES_BLOCK_SIZE ≤ len :=
    Nat.le_of_dvd (Nat.pos_of_ne_zero hlen) (Nat.dvd_of_mod_eq_zero haligned)
  have hinput : (read m inp len).length % ZUC_AES_BLOCK_SIZE = 0 := by simpa using haligned
  have hne : read m inp len ≠ [] := by
    rintro hnil
    exact hlen (by simpa using congrArg List.length hnil)
  cases dir with
  | encrypt =>
    have hlength : (cbcBytes E .encrypt iv (read m inp len)).length = len := by
      rw [length_cbcBytes (by decide) _ _ hinput, length_read]
    rw [lastCiphertext, blockAt_last _ _ hwhole, read_write_exact _ _ hlength,
      chainBytes_encrypt (by decide) _ hinput hne, length_read]
  | decrypt =>
    rw [lastCiphertext, blockAt_last _ _ hwhole, chainBytes_decrypt (by decide) _ hinput hne,
      length_read]

/-- A call that fails its checks, or has nothing to do, ends there. -/
theorem exec_zucAesCbc_stop {w : World} {a : ZucAes} {dir : Direction} {inp len out : Nat} (s : σ)
    (hstop : blockArgs (decide (0 < w.refcount)) inp len out ≠ .ok ∨ len = 0) :
    (zucAesCbc dir (some a) inp len out).exec h w s =
      ⟨(blockArgs (decide (0 < w.refcount)) inp len out, some a), w, s⟩ := by
  cases dir with
  | encrypt =>
    simp only [zucAesCbc, zucAesCbcEncrypt, Proc.exec_bind, exec_checkBlockArgs, if_pos hstop,
      Proc.exec_pure]
  | decrypt =>
    simp only [zucAesCbc, zucAesCbcDecrypt, Proc.exec_bind, exec_checkBlockArgs, if_pos hstop,
      Proc.exec_pure]

/-- Otherwise it runs a pass, and moves the chaining value if that succeeded. -/
theorem exec_zucAesCbc_run (L : CbcLaws h C) {w : World} {a : ZucAes} {dir : Direction}
    {inp len out : Nat} {s : σ}
    (hrun : ¬ (blockArgs (decide (0 < w.refcount)) inp len out ≠ .ok ∨ len = 0)) :
    let r := (cipherRun a.key dir a.chain inp len out).exec h w s
    ∃ s', (zucAesCbc dir (some a) inp len out).exec h w s =
        ⟨(r.value, some (if r.value = .ok then
          { a with chain := lastCiphertext dir w.mem r.world.mem inp len out } else a)),
          r.world, s'⟩ ∧
      ∀ id K, L.keyAt r.env id K → L.keyAt s' id K := by
  intro r
  cases dir with
  | encrypt =>
    refine ⟨r.env, ?_, fun _ _ hkey => hkey⟩
    by_cases hok : r.value = .ok
    · simp only [zucAesCbc, zucAesCbcEncrypt, Proc.exec_bind, exec_checkBlockArgs, if_neg hrun,
        ne_eq, hok, not_true_eq_false, if_false, exec_readBlock, Proc.exec_pure, if_true,
        lastCiphertext, r]
    · simp only [zucAesCbc, zucAesCbcEncrypt, Proc.exec_bind, exec_checkBlockArgs, if_neg hrun,
        ne_eq, if_pos hok, Proc.exec_pure, if_neg hok, r]
  | decrypt =>
    refine ⟨_, ?_, fun id K hkey => L.keep_dropLocal _ _ _
      (secureZero (blockAt w.mem (inp + len - ZUC_AES_BLOCK_SIZE)).1) hkey⟩
    by_cases hok : r.value = .ok
    · simp only [zucAesCbc, zucAesCbcDecrypt, Proc.exec_bind, exec_checkBlockArgs, if_neg hrun,
        ne_eq, hok, not_true_eq_false, if_false, exec_readBlock, exec_dropLocal, Proc.exec_pure,
        if_true, lastCiphertext, r]
    · simp only [zucAesCbc, zucAesCbcDecrypt, Proc.exec_bind, exec_checkBlockArgs, if_neg hrun,
        ne_eq, if_pos hok, exec_readBlock, exec_dropLocal, Proc.exec_pure, if_neg hok, r]

/-- One call of `zuc_aes_cbc_encrypt` or `zuc_aes_cbc_decrypt`, with its checks. -/
theorem step_pass (L : CbcLaws h C) {K : List Byte} {st : AesState σ}
    (hkey : L.keyAt st.env st.handle.key K) (dir : Direction) (w : World) (inp len out : Nat) :
    PassedCall L K st dir inp len out w ((aesMachine h).step st ⟨w, .pass dir inp len out⟩) := by
  have hstep : (aesMachine h).step st ⟨w, .pass dir inp len out⟩ =
      let r := (zucAesCbc dir (some st.handle) inp len out).exec h w st.env
      (⟨r.value.1, r.world.mem⟩, ⟨r.value.2.getD st.handle, r.env⟩) := rfl
  -- refused, or with nothing to do: the backend is not called
  by_cases hstop : blockArgs (decide (0 < w.refcount)) inp len out ≠ .ok ∨ len = 0
  · rw [hstep, exec_zucAesCbc_stop st.env hstop]
    refine ⟨hkey, fun _ => rfl, fun _ _ => rfl, fun hok => ?_, fun hok => ?_, fun hok => ?_⟩
    all_goals
      obtain rfl := hstop.resolve_left (not_not.mpr hok)
      simp
  · obtain ⟨hargs, hlen⟩ := not_or.mp hstop
    obtain ⟨-, -, -, haligned, -⟩ := blockArgs_ok (not_not.mp hargs) hlen
    have hpass := exec_cipherRun L (w := w) hkey dir st.handle.chain inp out haligned
    obtain ⟨s', hexec, hkeep⟩ := exec_zucAesCbc_run L (a := st.handle) (s := st.env) hstop
    rw [hstep, hexec]
    generalize (cipherRun st.handle.key dir st.handle.chain inp len out).exec h w st.env = r
      at hpass hkeep ⊢
    by_cases hok : r.value = .ok
    · have hmem := hpass.done hok
      simp only [if_pos hok, Option.getD_some]
      refine ⟨hkeep _ _ hpass.key, fun hfail => absurd hok hfail, hpass.frame, fun _ => haligned,
        fun _ => hmem, fun _ => ?_⟩
      show lastCiphertext dir w.mem r.world.mem inp len out = _
      rw [hmem, lastCiphertext_eq (C K) dir st.handle.chain w.mem inp out hlen haligned]
    · simp only [if_neg hok, Option.getD_some]
      exact ⟨hkeep _ _ hpass.key, fun _ => rfl, hpass.frame, fun h => absurd h hok,
        fun h => absurd h hok, fun h => absurd h hok⟩

/-- Which calls are refused for their buffers. -/
theorem step_overlap (L : CbcLaws h C) {K : List Byte} {st : AesState σ}
    (hkey : L.keyAt st.env st.handle.key K) (dir : Direction) (w : World) {inp len out : Nat}
    (hinp : ValidBuffer inp len) (hout : ValidBuffer out len) :
    ((aesMachine h).step st ⟨w, .pass dir inp len out⟩).1.status = .errOverlap ↔
      0 < w.refcount ∧ len ≠ 0 ∧ len % ZUC_AES_BLOCK_SIZE = 0 ∧ inp ≠ out ∧
        ¬ Apart inp len out len := by
  have hargs := blockArgs_overlap (decide (0 < w.refcount)) hinp hout
  rw [decide_eq_true_iff] at hargs
  rw [← hargs]
  show ((zucAesCbc dir (some st.handle) inp len out).exec h w st.env).value.1 = _ ↔ _
  by_cases hstop : blockArgs (decide (0 < w.refcount)) inp len out ≠ .ok ∨ len = 0
  · rw [exec_zucAesCbc_stop st.env hstop]
  · obtain ⟨hok, hlen⟩ := not_or.mp hstop
    obtain ⟨-, -, -, haligned, -⟩ := blockArgs_ok (not_not.mp hok) hlen
    obtain ⟨s', hexec, -⟩ := exec_zucAesCbc_run L (a := st.handle) (s := st.env) hstop
    have hpass := exec_cipherRun L (w := w) hkey dir st.handle.chain inp out haligned
    rw [hexec, not_not.mp hok]
    exact ⟨fun h => absurd h hpass.status, fun h => absurd h (by simp)⟩

/-- What a call does to the chaining value, as its caller sees it. -/
def chainStep (c : AesBlock) (e : AesStep × AesReply) : AesBlock :=
  if e.2.status ≠ .ok then c
  else match e.1.call with
    | .setState p => blockAt e.1.world.mem p
    | .getState _ => c
    | .pass dir inp len out =>
      if len = 0 then c else lastCiphertext dir e.1.world.mem e.2.mem inp len out

/-- Each call keeps the key, moves the chaining value as its caller sees, and does
nothing to the handle if it fails. -/
theorem step_handle (L : CbcLaws h C) {K : List Byte} {st : AesState σ}
    (hkey : L.keyAt st.env st.handle.key K) (i : AesStep) :
    let r := (aesMachine h).step st i
    L.keyAt r.2.env r.2.handle.key K ∧ r.2.handle.chain = chainStep st.handle.chain (i, r.1) ∧
      (r.1.status ≠ .ok → r.2.handle = st.handle) := by
  obtain ⟨w, call⟩ := i
  cases call with
  | setState p =>
    by_cases hp : p = NULL
    · simp [aesMachine, aesCall, zucAesCbcSetState, hp, Proc.exec_pure, chainStep, hkey]
    · simp [aesMachine, aesCall, zucAesCbcSetState, hp, Proc.exec_bind, chainStep, hkey]
  | getState p =>
    by_cases hp : p = NULL
    · simp [aesMachine, aesCall, zucAesCbcGetState, hp, Proc.exec_bind, chainStep, hkey]
    · simp [aesMachine, aesCall, zucAesCbcGetState, hp, Proc.exec_bind, chainStep, hkey]
  | pass dir inp len out =>
    have hcall := step_pass L hkey dir w inp len out
    refine ⟨hcall.key, ?_, hcall.failed⟩
    unfold chainStep
    split
    · rename_i hst
      rw [hcall.failed hst]
    · rename_i hst
      have hok := not_not.mp hst
      -- an empty pass leaves the chain; any other ends in a ciphertext block
      by_cases hlen : len = 0
      · subst hlen
        rw [hcall.chain hok]
        simp
      · rw [hcall.chain hok]
        simp only [if_neg hlen]
        rw [hcall.output hok, lastCiphertext_eq _ _ _ _ _ _ hlen (hcall.aligned hok)]

/-! ### Runs -/

/-- The last chaining value set, or left by a successful call, after a log. -/
def lastChain (c : AesBlock) (log : List (AesStep × AesReply)) : AesBlock := log.foldl chainStep c

/-- What is left after any calls: the key, and the chaining value the log tells. -/
theorem after_handle (L : CbcLaws h C) {K : List Byte} {st : AesState σ}
    (hkey : L.keyAt st.env st.handle.key K) (steps : List AesStep) :
    let st' := (aesMachine h).after st steps
    L.keyAt st'.env st'.handle.key K ∧
      st'.handle.chain = lastChain st.handle.chain ((aesMachine h).log st steps) := by
  induction steps generalizing st with
  | nil => exact ⟨hkey, rfl⟩
  | cons i steps ih =>
    obtain ⟨hnext, hchain, -⟩ := step_handle L hkey i
    obtain ⟨hlast, hrest⟩ := ih hnext
    refine ⟨hlast, ?_⟩
    rw [Machine.after_cons, hrest, hchain]
    rfl

/-- What a call is given to encrypt or decrypt. -/
def AesStep.input (i : AesStep) : List Byte :=
  match i.call with
  | .pass _ inp len _ => read i.world.mem inp len
  | _ => []

/-- What it leaves in its output buffer. -/
def AesReply.output (i : AesStep) (r : AesReply) : List Byte :=
  match i.call with
  | .pass _ _ len out => read r.mem out len
  | _ => []

/-- The message a log's calls were given, in order. -/
def message (log : List (AesStep × AesReply)) : List Byte := log.flatMap (fun e => e.1.input)

/-- What they delivered. -/
def delivered (log : List (AesStep × AesReply)) : List Byte :=
  log.flatMap (fun e => e.2.output e.1)

/-- A successful pass in one direction. -/
def Succeeded (dir : Direction) (e : AesStep × AesReply) : Prop :=
  (∃ inp len out, e.1.call = .pass dir inp len out) ∧ e.2.status = .ok

/-- Successful calls in one direction are one pass over the whole message. -/
theorem log_succeeded (L : CbcLaws h C) {K : List Byte} {dir : Direction} {st : AesState σ}
    (hkey : L.keyAt st.env st.handle.key K) {steps : List AesStep}
    (hsteps : ∀ e ∈ (aesMachine h).log st steps, Succeeded dir e) :
    let log := (aesMachine h).log st steps
    (message log).length % ZUC_AES_BLOCK_SIZE = 0 ∧
      delivered log = cbcBytes (C K) dir st.handle.chain (message log) ∧
      ((aesMachine h).after st steps).handle.chain =
        chainBytes (C K) dir st.handle.chain (message log) := by
  -- the first call does its part, and leaves the chain where the others go on
  induction steps generalizing st with
  | nil => simp [message, delivered]
  | cons i steps ih =>
    obtain ⟨w, call⟩ := i
    rw [Machine.log_cons] at hsteps ⊢
    obtain ⟨⟨inp, len, out, hcall⟩, hok⟩ := hsteps _ List.mem_cons_self
    obtain rfl : call = .pass dir inp len out := hcall
    have hpass := step_pass L hkey dir w inp len out
    have haligned := hpass.aligned hok
    have hinput : (read w.mem inp len).length % ZUC_AES_BLOCK_SIZE = 0 := by simpa using haligned
    obtain ⟨hrest, hdelivered, hchain⟩ := ih hpass.key
      (fun e he => hsteps e (List.mem_cons_of_mem _ he))
    rw [hpass.chain hok] at hdelivered hchain
    have hlength : (cbcBytes (C K) dir st.handle.chain (read w.mem inp len)).length = len := by
      rw [length_cbcBytes (by decide) _ _ hinput, length_read]
    have hout : read ((aesMachine h).step st ⟨w, .pass dir inp len out⟩).1.mem out len =
        cbcBytes (C K) dir st.handle.chain (read w.mem inp len) := by
      rw [hpass.output hok]
      exact read_write_exact _ _ hlength
    intro log
    have hmessage : message log = read w.mem inp len ++ message ((aesMachine h).log
        ((aesMachine h).step st ⟨w, .pass dir inp len out⟩).2 steps) := rfl
    have hwhole : delivered log = read ((aesMachine h).step st ⟨w, .pass dir inp len out⟩).1.mem
        out len ++ delivered ((aesMachine h).log
          ((aesMachine h).step st ⟨w, .pass dir inp len out⟩).2 steps) := rfl
    refine ⟨?_, ?_, ?_⟩
    · rw [hmessage, List.length_append, length_read]
      simp only [ZUC_AES_BLOCK_SIZE] at haligned hrest ⊢
      omega
    · rw [hwhole, hout, hdelivered, hmessage, cbcBytes_append (by decide) _ _ hinput hrest]
    · rw [Machine.after_cons, hchain, hmessage, chainBytes_append (by decide) _ _ hinput hrest]

/-! ### The contract -/

/-- The state after a `zuc_aes_new` with the key `K` that returned a handle. -/
def AesCreated (h : Handler (Call O) σ) (K : List Byte) (st : AesState σ) : Prop :=
  ∃ w s key w', read w.mem key K.length = K ∧
    (zucAesNew key K.length true).exec h w s = ⟨(.ok, some st.handle), w', st.env⟩

/-- Any calls later. -/
def AesReached (h : Handler (Call O) σ) (K : List Byte) (st : AesState σ) : Prop :=
  ∃ st₀ steps, AesCreated h K st₀ ∧ st = (aesMachine h).after st₀ steps

/-- A new handle's key is the caller's. -/
theorem AesCreated.key (L : CbcLaws h C) {K : List Byte} {st : AesState σ}
    (hst : AesCreated h K st) : L.keyAt st.env st.handle.key K := by
  obtain ⟨w, s, key, w', hread, hexec⟩ := hst
  simp only [zucAesNew, Proc.exec_bind, Proc.exec_ite, exec_zucIntReady, Proc.exec_pure,
    Bool.true_eq_false, if_false, exec_callocRecord] at hexec
  split at hexec
  · simp at hexec
  · split at hexec
    · simp at hexec
    · split at hexec
      · simp at hexec
      · cases hself : (h _ (.calloc .zucAes) s).1 with
        | none => simp [hself] at hexec
        | some self =>
          simp only [hself, importAesKey, Proc.exec_bind, exec_readMem, hread, exec_psa,
            Proc.exec_pure, Proc.exec_ite, ne_eq, zucIntFromPsa_eq_ok] at hexec
          split at hexec
          · rename_i hfail
            simp only [exec_freeRecord, Outcome.mk.injEq, Prod.mk.injEq,
              zucIntFromPsa_eq_ok] at hexec
            exact absurd hexec.1.1 hfail
          · rename_i hok
            simp only [exec_zucIntLiveAdd, Outcome.mk.injEq, Prod.mk.injEq, true_and,
              Option.some.injEq] at hexec
            obtain ⟨hhandle, -, henv⟩ := hexec
            rw [← hhandle, ← henv]
            exact L.importKey _ K (not_not.mp hok)

/-- It stays so, whatever is called. -/
theorem AesReached.key (L : CbcLaws h C) {K : List Byte} {st : AesState σ}
    (hst : AesReached h K st) : L.keyAt st.env st.handle.key K := by
  obtain ⟨st₀, steps, hcreated, rfl⟩ := hst
  exact (after_handle L (hcreated.key L) steps).1

/-- What the caller of an AES handle may rely on: its key gives the block cipher
`E`, and `reached` are the states it can be in. -/
structure CbcContract (h : Handler (Call O) σ) (E : BlockCipher AesBlock)
    (reached : AesState σ → Prop) : Prop where
  /-- the chaining value is the last one set, or left by a successful call -/
  chain : ∀ st steps, reached st →
    ((aesMachine h).after st steps).handle.chain =
      lastChain st.handle.chain ((aesMachine h).log st steps)
  /-- and it is what `zuc_aes_cbc_get_state` gives -/
  get : ∀ st w p, reached st → p ≠ NULL →
    let r := (aesMachine h).step st ⟨w, .getState p⟩
    r.1.status = .ok ∧ r.1.mem = write w.mem p st.handle.chain.1
  /-- a successful call writes the CBC result from it, and nothing else -/
  output : ∀ st w dir inp len out, reached st →
    let r := (aesMachine h).step st ⟨w, .pass dir inp len out⟩
    r.1.status = .ok → len % ZUC_AES_BLOCK_SIZE = 0 ∧
      r.1.mem = write w.mem out (cbcBytes E dir st.handle.chain (read w.mem inp len))
  /-- a call that fails leaves the handle, and what is outside its output buffer -/
  failed : ∀ st i, reached st →
    let r := (aesMachine h).step st i
    r.1.status ≠ .ok → r.2.handle = st.handle
  frame : ∀ st w dir inp len out x, reached st → x < out ∨ out + len ≤ x →
    ((aesMachine h).step st ⟨w, .pass dir inp len out⟩).1.mem x = w.mem x
  /-- of buffers, those that overlap without being the same are refused -/
  overlap : ∀ st w dir inp len out, reached st → ValidBuffer inp len → ValidBuffer out len →
    (((aesMachine h).step st ⟨w, .pass dir inp len out⟩).1.status = .errOverlap ↔
      0 < w.refcount ∧ len ≠ 0 ∧ len % ZUC_AES_BLOCK_SIZE = 0 ∧ inp ≠ out ∧
        ¬ Apart inp len out len)
  /-- how a message is cut into calls does not matter -/
  splits : ∀ dir st₁ st₂ steps₁ steps₂, reached st₁ → reached st₂ →
    st₁.handle.chain = st₂.handle.chain →
    let log₁ := (aesMachine h).log st₁ steps₁
    let log₂ := (aesMachine h).log st₂ steps₂
    (∀ e ∈ log₁, Succeeded dir e) → (∀ e ∈ log₂, Succeeded dir e) → message log₁ = message log₂ →
      delivered log₁ = delivered log₂ ∧
        ((aesMachine h).after st₁ steps₁).handle.chain =
          ((aesMachine h).after st₂ steps₂).handle.chain
  /-- decryption from where encryption started undoes it, and ends where it did -/
  roundTrip : ∀ st₁ st₂ steps₁ steps₂, reached st₁ → reached st₂ →
    st₁.handle.chain = st₂.handle.chain →
    let log₁ := (aesMachine h).log st₁ steps₁
    let log₂ := (aesMachine h).log st₂ steps₂
    (∀ e ∈ log₁, Succeeded .encrypt e) → (∀ e ∈ log₂, Succeeded .decrypt e) →
      message log₂ = delivered log₁ →
      delivered log₂ = message log₁ ∧
        ((aesMachine h).after st₂ steps₂).handle.chain =
          ((aesMachine h).after st₁ steps₁).handle.chain

/-- **AES-CBC handles compute CBC**, for every key, from every state they can be
in, over any sequence of calls. -/
theorem aes_cbc_contract (L : CbcLaws h C) (K : List Byte) :
    CbcContract h (C K) (AesReached h K) := by
  constructor
  case chain =>
    intro st steps hst
    exact (after_handle L (hst.key L) steps).2
  case get =>
    intro st w p hst hp
    simp [aesMachine, aesCall, zucAesCbcGetState, hp, Proc.exec_bind]
  case output =>
    intro st w dir inp len out hst r hok
    have hpass := step_pass L (hst.key L) dir w inp len out
    exact ⟨hpass.aligned hok, hpass.output hok⟩
  case failed =>
    intro st i hst r hfail
    exact (step_handle L (hst.key L) i).2.2 hfail
  case frame =>
    intro st w dir inp len out x hst hx
    exact (step_pass L (hst.key L) dir w inp len out).frame x hx
  case overlap =>
    intro st w dir inp len out hst hinp hout
    exact step_overlap L (hst.key L) dir w hinp hout
  case splits =>
    intro dir st₁ st₂ steps₁ steps₂ hst₁ hst₂ hchain log₁ log₂ hok₁ hok₂ hmessage
    -- both are one pass over the message
    obtain ⟨-, hdelivered₁, hchain₁⟩ := log_succeeded L (hst₁.key L) hok₁
    obtain ⟨-, hdelivered₂, hchain₂⟩ := log_succeeded L (hst₂.key L) hok₂
    refine ⟨?_, ?_⟩
    · rw [hdelivered₁, hdelivered₂, hchain, hmessage]
    · rw [hchain₁, hchain₂, hchain, hmessage]
  case roundTrip =>
    intro st₁ st₂ steps₁ steps₂ hst₁ hst₂ hchain log₁ log₂ hok₁ hok₂ hmessage
    obtain ⟨haligned, hdelivered₁, hchain₁⟩ := log_succeeded L (hst₁.key L) hok₁
    obtain ⟨-, hdelivered₂, hchain₂⟩ := log_succeeded L (hst₂.key L) hok₂
    refine ⟨?_, ?_⟩
    · rw [hdelivered₂, hmessage, hdelivered₁, ← hchain, cbcBytes_decrypt_encrypt (by decide) _ haligned]
    · rw [hchain₂, hmessage, hdelivered₁, hchain₁, ← hchain,
        chainBytes_decrypt_encrypt (by decide) _ haligned]

/-! ### Against the reference backend -/

theorem referencePsa_cipher_state (P : Primitives) {α : Type} {c : PsaCall referenceObjects α}
    (hc : CipherCall c) (s : ReferenceState) : next (referenceBackend P) c s = s := by
  cases hc with
  | encryptSetup op key alg =>
    cases alg with
    | cbcNoPadding =>
      simp only [next, referenceBackend, referencePsa]
      split <;> rfl
    | _ => rfl
  | decryptSetup op key alg =>
    cases alg with
    | cbcNoPadding =>
      simp only [next, referenceBackend, referencePsa]
      split <;> rfl
    | _ => rfl
  | setIv op iv => cases op <;> rfl
  | update op input size => cases op <;> rfl
  | finish op size => cases op <;> rfl
  | abort op => rfl

def referenceCbcLaws (P : Primitives) : CbcLaws (referenceBackend P) P.cipher where
  keyAt s id K := s.find id = some (aesKeyAttributes .cbcNoPadding, K)
  ready op dir K := op = .ready dir K
  started op dir K iv := op = .started dir K iv
  draining op rest := op = .drained ∧ rest = []
  importKey s K _ := ReferenceState.find_importKey P s _ K
  setup s dir id K hkey _ := by
    cases dir with
    | encrypt =>
      simp only [answer, cipherSetup, referenceBackend, referencePsa, hkey]
      rfl
    | decrypt =>
      simp only [answer, cipherSetup, referenceBackend, referencePsa, hkey]
      rfl
  setIv s op dir K iv hop _ := by
    subst hop
    exact congrArg _ (Block.ofBytes_val iv)
  update s op dir K iv bs size hop _ _ := by
    subst hop
    exact ⟨_, [], List.append_nil _, Output.full_delivers _, rfl, rfl⟩
  finish s op rest size hop _ := by
    obtain ⟨rfl, rfl⟩ := hop
    exact Output.full_delivers []
  keep c s id K hc hkey := by rwa [referencePsa_cipher_state P hc]
  keep_dropLocal s id K bs hkey := hkey

/-- A library that is ready, whose caller has a key at `0x100`, a chaining value at
`0x200` and a message of one block at `0x300`. -/
def aesKnownWorld : World where
  mem := write (write (write (fun _ => 0) 0x100 aesKnownKey)
    0x200 [0x00, 0x01, 0x02, 0x03, 0x04, 0x05, 0x06, 0x07, 0x08, 0x09, 0x0a, 0x0b, 0x0c, 0x0d, 0x0e,
      0x0f])
    0x300 [0x6b, 0xc1, 0xbe, 0xe2, 0x2e, 0x40, 0x9f, 0x96, 0xe9, 0x3d, 0x7e, 0x11, 0x73, 0x93, 0x17,
      0x2a]
  refcount := 1
  live := 0
  allocFailed := false

/-- The handle `zuc_aes_new` creates there, and the backend's state after it. -/
def aesKnownCreated : AesState ReferenceState where
  handle := { self := 0x10000, key := 1, chain := Block.ofBytes [] }
  env := ⟨[(1, aesKeyAttributes .cbcNoPadding, aesKnownKey)], 2, 0x11000⟩

/-- That handle is what the constructor makes. -/
theorem aesKnownCreated_created :
    AesCreated (referenceBackend knownPrimitives) aesKnownKey aesKnownCreated := by
  have hread : read aesKnownWorld.mem 0x100 aesKnownKey.length = aesKnownKey := by decide
  refine ⟨aesKnownWorld, .initial, 0x100, { aesKnownWorld with live := 1 }, hread, ?_⟩
  rfl

/-- The first block of a published AES-128-CBC example: the chaining value is set,
and the block is encrypted in place. -/
theorem aes_cbc_contract_known :
    let M := aesMachine (referenceBackend knownPrimitives)
    let st := M.after aesKnownCreated [⟨aesKnownWorld, .setState 0x200⟩]
    let r := M.step st ⟨aesKnownWorld, .pass .encrypt 0x300 16 0x300⟩
    r.1.status = .ok ∧ read r.1.mem 0x300 16 = aesKnownOutput.1 := by
  have hcontract := aes_cbc_contract (referenceCbcLaws knownPrimitives) aesKnownKey
  intro M st r
  have hreached : AesReached (referenceBackend knownPrimitives) aesKnownKey st :=
    ⟨_, _, aesKnownCreated_created, rfl⟩
  have hok : r.1.status = .ok := by decide +kernel
  obtain ⟨-, hmem⟩ := hcontract.output st aesKnownWorld .encrypt 0x300 16 0x300 hreached hok
  refine ⟨hok, ?_⟩
  have hvalue : cbcBytes (knownPrimitives.cipher aesKnownKey) .encrypt st.handle.chain
      (read aesKnownWorld.mem 0x300 16) = aesKnownOutput.1 := by decide
  rw [hmem, hvalue]
  exact read_write_exact _ _ aesKnownOutput.2

end Zucrypt
