import Zucrypt.ChunkedResults
import Zucrypt.NoLeak

/-! # CBC in chunks is CBC

`zucrypt_aes_cbc` sets the chaining value once, and each chunk leaves the next one its own.  The
output vector is apart from the input, so a chunk reads what the caller passed.

`ChunksPassed` is the invariant of the loop: up to the offset the output is one pass of CBC over the
input, and the handle's chaining value is what that pass leaves.  A chunk is a multiple of the block
but for the last one; where that is not whole, its pass is refused, and the function fails as a
whole.

It is for any backend that keeps `CbcLaws`.  That calls succeed where they have what they need
(`CbcSucceeds`) is asked for only to say that there is a result. -/
namespace Zucrypt
open Effects ByteMemory BlockChaining Machines Entry

variable {O : Objects} {σ α : Type} {h : Handler (Call O) σ} {C : List Byte → BlockCipher AesBlock}
  {H : RHeap O} {w : World} {s : σ} {a : ZucAes} {K : List Byte}

/-- The cipher calls of the backend do not fail, where they have what they need. -/
structure CbcSucceeds (L : CbcLaws h C) : Prop where
  importKey : ∀ s K, K.length = ZUC_AES_KEY_SIZE_128 ∨ K.length = ZUC_AES_KEY_SIZE_192 ∨
    K.length = ZUC_AES_KEY_SIZE_256 →
    (answer h (.importKey (aesKeyAttributes .cbcNoPadding) K) s).1 = .success
  setup : ∀ s dir id K, L.keyAt s id K →
    (answer h (cipherSetup dir O.cipherInit id .cbcNoPadding) s).1 = .success
  setIv : ∀ s op dir K (iv : AesBlock), L.ready op dir K →
    (answer h (.cipherSetIv op iv.1) s).1 = .success
  update : ∀ s op dir K iv bs size, L.started op dir K iv → bs.length % ZUC_AES_BLOCK_SIZE = 0 →
    bs.length ≤ size → (answer h (.cipherUpdate op bs size) s).1 = .success
  finish : ∀ s op rest size, L.draining op rest → rest.length ≤ size →
    (answer h (.cipherFinish op size) s).1 = .success

/-! ### One call -/

/-- A pass then succeeds. -/
theorem exec_cipherRun_ok (L : CbcLaws h C) (S : CbcSucceeds L) {id : KeyId} (hkey : L.keyAt s id K)
    (dir : Direction) (iv : AesBlock) (inp out : Nat) {len : Nat}
    (hlen : len % ZUC_AES_BLOCK_SIZE = 0) (hsize : len < sizeMax1) :
    ((cipherRun id dir iv inp len out).exec h w s).value = .ok := by
  have hinput : (read w.mem inp len).length % ZUC_AES_BLOCK_SIZE = 0 := by simpa using hlen
  have hsetup := S.setup s dir id K hkey
  have hready := L.setup s dir id K hkey hsetup
  simp only [cipherRun, Proc.exec_bind, exec_psa, hsetup, ne_eq, not_true_eq_false, if_false]
  generalize (answer h (cipherSetup dir O.cipherInit id .cbcNoPadding) s).2 = op₁ at hready ⊢
  generalize next h (cipherSetup dir O.cipherInit id .cbcNoPadding) s = s₁
  have hiv := S.setIv s₁ op₁ dir K iv hready
  have hstarted := L.setIv s₁ op₁ dir K iv hready hiv
  simp only [hiv, not_true_eq_false, if_false, Proc.exec_bind, exec_readMem, exec_psa,
    exec_writeOutput, World.noteAlloc_mem]
  generalize (answer h (.cipherSetIv op₁ iv.1) s₁).2 = op₂ at hstarted ⊢
  generalize next h (.cipherSetIv op₁ iv.1) s₁ = s₂
  have hu := S.update s₂ op₂ dir K iv (read w.mem inp len) len hstarted hinput
    (Nat.le_of_eq (length_read _ _ _))
  obtain ⟨ds, rest, hresult, ⟨hproduced, hds⟩, hdraining⟩ :=
    L.update s₂ op₂ dir K iv (read w.mem inp len) len hstarted hinput hu
  generalize answer h (.cipherUpdate op₂ (read w.mem inp len) len) s₂ = u at hu hproduced hdraining ⊢
  generalize next h (.cipherUpdate op₂ (read w.mem inp len) len) s₂ = s₃
  -- what is left of the buffer is what is left of the result
  have hlength : ds.length + rest.length = len := by
    rw [← List.length_append, hresult, length_cbcBytes (by decide) dir iv hinput, length_read]
  have hroom : sizeSub len ds.length = rest.length := by
    rw [sizeSub_of_le (by omega), Nat.mod_eq_of_lt (by omega)]
    omega
  have hf := S.finish s₃ u.2.1 rest rest.length hdraining (Nat.le_refl _)
  have hfinal := (L.finish s₃ u.2.1 rest rest.length hdraining hf).1
  have hsum : sizeAdd ds.length rest.length = len := by
    rw [sizeAdd, hlength, Nat.mod_eq_of_lt hsize]
  simp only [hu, not_true_eq_false, if_false, hproduced, hroom, Proc.exec_bind, exec_psa,
    exec_writeOutput, hf, hfinal, hsum, Proc.exec_pure]

/-- A call on a chunk, from the handle's chaining value. -/
theorem exec_zucAesCbc_chunk (L : CbcLaws h C) (hkey : L.keyAt s a.key K) (dir : Direction)
    (inp len out : Nat) : ∃ st a' w' s',
    (zucAesCbc dir (some a) inp len out).exec h w s = ⟨(st, some a'), w', s'⟩ ∧
      PassedCall L K ⟨a, s⟩ dir inp len out w (⟨st, w'.mem⟩, ⟨a', s'⟩) ∧ w'.refcount = w.refcount := by
  have hcall : PassedCall L K ⟨a, s⟩ dir inp len out w
      ((aesMachine h).step ⟨a, s⟩ ⟨w, .pass dir inp len out⟩) := step_pass L hkey dir w inp len out
  have hframe : ((zucAesCbc dir (some a) inp len out).exec h w s).world.refcount = w.refcount := by
    have hordinary : Ordinary (zucAesCbc (O := O) dir (some a) inp len out) := by
      cases dir with
      | encrypt => exact (discreet_zucAesCbcEncrypt (some a) inp len out).ordinary
      | decrypt => exact (discreet_zucAesCbcDecrypt (some a) inp len out).ordinary
    exact ((hordinary.frame w).exec h s fun _ _ => trivial).refcount
  have hvalue : ∃ st a', ((zucAesCbc dir (some a) inp len out).exec h w s).value = (st, some a') := by
    by_cases hstop : blockArgs (decide (0 < w.refcount)) inp len out ≠ .ok ∨ len = 0
    · rw [exec_zucAesCbc_stop s hstop]
      exact ⟨_, _, rfl⟩
    · obtain ⟨s', hexec, -⟩ := exec_zucAesCbc_run L (a := a) (s := s) hstop
      rw [hexec]
      exact ⟨_, _, rfl⟩
  obtain ⟨st, a', hvalue⟩ := hvalue
  refine ⟨st, a', _, _, Outcome.eq_of_value hvalue, ?_, hframe⟩
  have hstep : (aesMachine h).step ⟨a, s⟩ ⟨w, .pass dir inp len out⟩ =
      (⟨st, ((zucAesCbc dir (some a) inp len out).exec h w s).world.mem⟩,
        ⟨a', ((zucAesCbc dir (some a) inp len out).exec h w s).env⟩) := by
    show (AesReply.mk ((zucAesCbc dir (some a) inp len out).exec h w s).value.1 _,
      AesState.mk (((zucAesCbc dir (some a) inp len out).exec h w s).value.2.getD a) _) = _
    rw [hvalue]
    rfl
  rwa [hstep] at hcall

/-- It succeeds on whole blocks in buffers that are apart. -/
theorem exec_zucAesCbc_ok (L : CbcLaws h C) (S : CbcSucceeds L) (hkey : L.keyAt s a.key K)
    (dir : Direction) (inp len out : Nat) (hready : 0 < w.refcount) (hinp : ValidBuffer inp len)
    (hout : ValidBuffer out len) (hapart : Apart inp len out len)
    (haligned : len % ZUC_AES_BLOCK_SIZE = 0) :
    ((zucAesCbc dir (some a) inp len out).exec h w s).value.1 = .ok := by
  have hargs : blockArgs (decide (0 < w.refcount)) inp len out = .ok := by
    have hoverlap := zucIntOverlaps_eq_false hinp hout (.inr hapart)
    have hnull : ¬ (inp = NULL ∨ out = NULL) := not_or.mpr ⟨hinp.1, hout.1⟩
    simp [blockArgs, hready, hnull, haligned, hoverlap]
  by_cases hstop : blockArgs (decide (0 < w.refcount)) inp len out ≠ .ok ∨ len = 0
  · rw [exec_zucAesCbc_stop s hstop]
    exact hargs
  · obtain ⟨s', hexec, -⟩ := exec_zucAesCbc_run L (a := a) (s := s) hstop
    have hsize : len < sizeMax1 := by
      have hend := hinp.2
      omega
    rw [hexec]
    exact exec_cipherRun_ok L S hkey dir a.chain inp out haligned hsize

/-! ### All chunks -/

/-- What the loop has done from `offset` on. -/
structure ChunksPassed (L : CbcLaws h C) (K : List Byte) (dir : Direction) (chain : AesBlock)
    (bytes out total offset : Nat) (w : World) (st : ZucStatus) (w' : World) : Prop where
  aligned : st = .ok → (total - offset) % ZUC_AES_BLOCK_SIZE = 0
  output : st = .ok → w'.mem = write w.mem (out + offset)
    (cbcBytes (C K) dir chain (read w.mem (bytes + offset) (total - offset)))
  /-- however it ends, nothing outside the vector is written -/
  frame : ∀ x, x < out + offset ∨ out + total ≤ x → w'.mem x = w.mem x
  /-- where the backend does not fail, whole blocks are enough -/
  succeeds : CbcSucceeds L → 0 < w.refcount → ValidBuffer bytes total → ValidBuffer out total →
    (total - offset) % ZUC_AES_BLOCK_SIZE = 0 → st = .ok

theorem chunkLength_aligned {total offset : Nat} (h : (total - offset) % ZUC_AES_BLOCK_SIZE = 0) :
    chunkLength total offset % ZUC_AES_BLOCK_SIZE = 0 := by
  unfold chunkLength
  split
  · decide
  · exact h

/-- The loop is left where a chunk has failed. -/
theorem cbcLoop_failed {dir : Direction} {ptr bytes out total offset : Nat} {st : ZucStatus}
    (hst : st ≠ .ok) (aes : Option ZucAes) :
    (cbcLoop dir ptr bytes out total offset st aes : Entry O ZucStatus) = pure st := by
  rw [cbcLoop, if_pos hst, ite_self]

theorem exec_cbcLoop (L : CbcLaws h C) (hq : H.jump = none) (hkey : L.keyAt s a.key K) (dir : Direction)
    (ptr : Nat) {bytes out total offset : Nat} (hoffset : offset ≤ total)
    (hapart : Apart bytes total out total) : ∃ st w' s' H',
    (cbcLoop dir ptr bytes out total offset .ok (some a) H).exec h w s =
      ⟨(some st, H'), w', s'⟩ ∧ H'.jump = none ∧
    ChunksPassed L K dir a.chain bytes out total offset w st w' := by
  revert hoffset H w s a
  refine chunk_induction total (P := fun offset => ∀ {H : RHeap O} {w : World} {s : σ} {a : ZucAes},
    H.jump = none → L.keyAt s a.key K → offset ≤ total → ∃ st w' s' H',
    (cbcLoop dir ptr bytes out total offset .ok (some a) H).exec h w s =
      ⟨(some st, H'), w', s'⟩ ∧ H'.jump = none ∧
    ChunksPassed L K dir a.chain bytes out total offset w st w') ?_ ?_ offset
  · intro offset hdone H w s a hq hkey hoffset
    have hempty : total - offset = 0 := by omega
    refine ⟨.ok, w, s, H, ?_, hq, ?_, ?_, fun _ _ => rfl, fun _ _ _ _ _ => rfl⟩
    · rw [cbcLoop, if_neg hdone, Entry.exec_pure]
    · simp [hempty]
    · simp [hempty]
  · intro offset hless ih H w s a hq hkey hoffset
    obtain ⟨st₁, a₁, w₁, s₁, hcall, hpassed, hrefcount⟩ := exec_zucAesCbc_chunk (h := h) (w := w) L hkey
      dir (bytes + offset) (chunkLength total offset) (out + offset)
    have hnative : (native (zucAesCbc dir (some a) (bytes + offset) (chunkLength total offset)
        (out + offset)) H).exec h w s = ⟨(some (st₁, some a₁), H), w₁, s₁⟩ := by
      rw [Entry.exec_native, hcall]
    have hnext := chunkLength_le hoffset
    have hsplit : total - offset =
        chunkLength total offset + (total - (offset + chunkLength total offset)) := by omega
    have hstep : ∀ r, (cbcLoop dir ptr bytes out total (offset + chunkLength total offset) st₁ (some a₁)
          (H.setPointer ptr { H.pointer ptr with addr := some (.aes a₁) })).exec h w₁ s₁ = r →
        (cbcLoop dir ptr bytes out total offset .ok (some a) H).exec h w s = r := by
      rintro r rfl
      rw [cbcLoop, if_pos hless, if_neg (by simp), Entry.exec_bind hnative]
      refine (Entry.exec_bind (exec_setAddress ptr _)).trans ?_
      exact Entry.exec_bind (exec_checkUserInterrupt (by exact hq))
    have hframe : ∀ x, x < out + offset ∨ out + total ≤ x → w₁.mem x = w.mem x := fun x hx =>
      hpassed.frame x (by omega)
    by_cases hst : st₁ = .ok
    · subst hst
      have haligned : chunkLength total offset % ZUC_AES_BLOCK_SIZE = 0 := hpassed.aligned rfl
      have hmem : w₁.mem = write w.mem (out + offset) (cbcBytes (C K) dir a.chain
          (read w.mem (bytes + offset) (chunkLength total offset))) := hpassed.output rfl
      have hchain : a₁.chain = chainBytes (C K) dir a.chain
          (read w.mem (bytes + offset) (chunkLength total offset)) := hpassed.chain rfl
      have hlength : (cbcBytes (C K) dir a.chain
          (read w.mem (bytes + offset) (chunkLength total offset))).length =
          chunkLength total offset := by
        rw [length_cbcBytes (by decide) _ _ (by simpa using haligned), length_read]
      -- the rest of the input is as it was
      have hrest : read w₁.mem (bytes + (offset + chunkLength total offset))
          (total - (offset + chunkLength total offset)) =
          read w.mem (bytes + (offset + chunkLength total offset))
            (total - (offset + chunkLength total offset)) := by
        rw [hmem]
        refine read_write_apart _ ?_
        unfold Apart at hapart ⊢
        omega
      obtain ⟨st, w', s', H', hexec, hq', hpass⟩ := ih
        (H := H.setPointer ptr { H.pointer ptr with addr := some (.aes a₁) }) (w := w₁) hq hpassed.key hnext
      refine ⟨st, w', s', H', hstep _ hexec, hq', ?_, ?_, ?_, ?_⟩
      · intro hok
        have htail := hpass.aligned hok
        rw [hsplit, Nat.add_mod, haligned, htail]
        rfl
      · intro hok
        have htail := hpass.aligned hok
        rw [hpass.output hok, hrest, hmem, hchain, hsplit, read_add,
          cbcBytes_append (by decide) dir a.chain (by simpa using haligned) (by simpa using htail),
          ← write_write_append, hlength, Nat.add_assoc, Nat.add_assoc]
      · intro x hx
        rw [hpass.frame x (by omega), hframe x hx]
      · intro hS hready hbytes hout hwhole
        refine hpass.succeeds hS (hrefcount ▸ hready) hbytes hout ?_
        unfold ZUC_AES_BLOCK_SIZE at *
        omega
    · refine ⟨st₁, w₁, s₁, H.setPointer ptr { H.pointer ptr with addr := some (.aes a₁) }, hstep _ ?_,
        hq, fun hok => absurd hok hst, fun hok => absurd hok hst, hframe, ?_⟩
      · rw [cbcLoop_failed hst, Entry.exec_pure]
      · intro hS hready hbytes hout hwhole
        refine absurd ?_ hst
        have hok := exec_zucAesCbc_ok (w := w) L hS hkey dir (bytes + offset)
          (chunkLength total offset) (out + offset) hready ?_ ?_ ?_ (chunkLength_aligned hwhole)
        · rwa [hcall] at hok
        · unfold ValidBuffer NULL at hbytes ⊢
          omega
        · unfold ValidBuffer NULL at hout ⊢
          omega
        · unfold Apart at hapart ⊢
          omega

/-! ### The entry point -/

/-- The key lengths of AES. -/
def IsAesKeySize (n : Nat) : Prop :=
  n = ZUC_AES_KEY_SIZE_128 ∨ n = ZUC_AES_KEY_SIZE_192 ∨ n = ZUC_AES_KEY_SIZE_256

/-- A new context: if there is one, it has the key. -/
theorem exec_zucAesNew (L : CbcLaws h C) (w : World) (s : σ) (key n : Nat) : ∃ st aes w' s',
    (zucAesNew key n true).exec h w s = ⟨(st, aes), w', s'⟩ ∧ w'.mem = w.mem ∧
      w'.refcount = w.refcount ∧
      (st = .ok → ∃ a, aes = some a ∧ L.keyAt s' a.key (read w.mem key n)) ∧
      (CbcSucceeds L → 0 < w.refcount → key ≠ NULL → IsAesKeySize n →
        (h _ (.calloc .zucAes) s).1 ≠ none → st = .ok) := by
  refine ⟨((zucAesNew key n true).exec h w s).value.1, ((zucAesNew key n true).exec h w s).value.2,
    ((zucAesNew key n true).exec h w s).world, ((zucAesNew key n true).exec h w s).env, rfl,
    (silent_zucAesNew key n true).exec_mem h w s, ?_, ?_, ?_⟩
  · have hframe := ((silent_zucAesNew key n true).ordinary.frame w).exec h s fun _ _ => trivial
    exact hframe.refcount
  · intro hok
    have hsome := (zucAesNew_handsOut key n true).exec h w s
    obtain ⟨a, ha⟩ := Option.isSome_iff_exists.mp (hsome.mp hok)
    have hcreated : AesCreated h (read w.mem key n)
        ⟨a, ((zucAesNew key n true).exec h w s).env⟩ := by
      refine ⟨w, s, key, ((zucAesNew key n true).exec h w s).world, ?_, ?_⟩
      · rw [length_read]
      · rw [length_read]
        exact Outcome.ext (Prod.ext hok ha) rfl rfl
    exact ⟨a, ha, hcreated.key L⟩
  · intro hS hready hkey hn hcalloc
    obtain ⟨self, hself⟩ := Option.ne_none_iff_exists'.mp hcalloc
    have himport := hS.importKey (h _ (.calloc .zucAes) s).2 (read w.mem key n)
      (by rw [length_read]; exact hn)
    have hready : decide (0 < w.refcount) = true := decide_eq_true hready
    have hlength : ¬ (n ≠ ZUC_AES_KEY_SIZE_128 ∧ n ≠ ZUC_AES_KEY_SIZE_192 ∧
        n ≠ ZUC_AES_KEY_SIZE_256) := by
      unfold IsAesKeySize at hn
      omega
    simp only [zucAesNew, importAesKey, Proc.exec_bind, exec_zucIntReady, hready, Bool.true_eq_false,
      if_false, hkey, if_neg hlength, exec_callocRecord, hself, exec_readMem, exec_psa, himport,
      zucIntFromPsa_success, ne_eq, not_true_eq_false, exec_zucIntLiveAdd, Proc.exec_pure]

/-- An entry point fails with no value, or leaves the result in a vector of its own. -/
def LeavesBytes (d : List Byte) (r : Outcome (Option NativeResult × RHeap O) World σ) : Prop :=
  ∃ res H', r.value = (some res, H') ∧
    (res.status ≠ .ok ∧ res.value = .null ∨
      ∃ p, res = ⟨.ok, .raw p d.length []⟩ ∧ read r.world.mem p d.length = d)

/-- Nothing is stored outside one new vector. -/
def WritesOneVector (live : List (Nat × Nat)) (total : Nat) (w : World) (r : Outcome α World σ) : Prop :=
  r.world.mem = w.mem ∨ ∃ out, (∀ v ∈ live, Apart out total v.1 v.2) ∧
    ∀ x, x < out ∨ out + total ≤ x → r.world.mem x = w.mem x

/-- What the caller of `zucrypt_aes_cbc` passes for it to succeed. -/
structure CbcArgs (w : World) (data key iv : Sexp) : Prop where
  ready : 0 < w.refcount
  hasKey : key.RAW ≠ NULL
  keySize : IsAesKeySize key.XLENGTH
  hasIv : iv.RAW ≠ NULL
  buffer : ValidBuffer data.RAW data.XLENGTH
  whole : data.XLENGTH % ZUC_AES_BLOCK_SIZE = 0

/-- `zucrypt_aes_cbc`, once its context has been given the chaining value. -/
def cbcCall (dir : Direction) (ptr bytes total : Nat) (st : ZucStatus) (aes : Option ZucAes) :
    Entry O NativeResult := do
  let out ← allocVector total
  let st ← cbcLoop dir ptr bytes out total 0 st aes
  releasePtr ptr
  result st (.raw out total [])

theorem freshRun_cbcCall (L : CbcLaws h C) (hq : H.jump = none) (hkey : L.keyAt s a.key K)
    (hkeep : ∀ s n id K, L.keyAt s id K → L.keyAt (h _ (.allocRaw n) s).2 id K) (dir : Direction)
    (ptr : Nat) {bytes total : Nat} (htotal : total ≤ R.VECTOR_MAX) {live : List (Nat × Nat)}
    (hlive : (bytes, total) ∈ live) :
    FreshRun h live w s (cbcCall dir ptr bytes total .ok (some a) H) fun r =>
      LeavesBytes (cbcBytes (C K) dir a.chain (read w.mem bytes total)) r ∧
        WritesOneVector live total w r ∧ (CbcSucceeds L → 0 < w.refcount → ValidBuffer bytes total →
          total % ZUC_AES_BLOCK_SIZE = 0 → ∃ res H', r.value = (some res, H') ∧ res.status = .ok) := by
  unfold cbcCall
  refine FreshRun.of_vector hq htotal fun hvalid hapartAll => ?_
  have hapart := (hapartAll _ hlive).symm
  have hkey₁ := hkeep s total a.key K hkey
  have halloc := exec_allocVector (h := h) (w := w) (s := s) hq total
  generalize (h _ (.allocRaw total) s).1 = out at hvalid hapart hapartAll halloc ⊢
  obtain ⟨st, w₁, s₁, H₁, hloop, hq₁, hpass⟩ := exec_cbcLoop (w := w) L hq hkey₁ dir ptr
    (Nat.zero_le total) hapart
  obtain ⟨H₂, w₂, s₂, hrelease, hmem, hq₂⟩ := exec_releasePtr (h := h) (H := H₁) (w := w₁) (s := s₁) ptr
  rw [Entry.exec_bind halloc, Entry.exec_bind hloop, Entry.exec_bind hrelease,
    exec_result (hq₂.trans hq₁)]
  have houtput := hpass.output
  have haligned := hpass.aligned
  rw [Nat.sub_zero] at haligned
  rw [Nat.sub_zero, Nat.add_zero, Nat.add_zero] at houtput
  refine ⟨⟨_, _, rfl, ?_⟩, .inr ⟨out, hapartAll, fun x hx => ?_⟩,
    fun hS hready hbytes hwhole => ⟨_, _, rfl, ?_⟩⟩
  · by_cases hst : st = .ok
    · have hlength : (cbcBytes (C K) dir a.chain (read w.mem bytes total)).length = total := by
        rw [length_cbcBytes (by decide) _ _ (by simpa using haligned hst), length_read]
      refine .inr ⟨out, ?_, ?_⟩
      · rw [hlength, hst]
        rfl
      · rw [hmem, houtput hst]
        exact read_write_self _ _ _
    · exact .inl ⟨hst, if_neg hst⟩
  · rw [← hpass.frame x (by omega), ← hmem]
  · exact hpass.succeeds hS hready hbytes hvalid (by simpa using hwhole)

/-- A context that was given no chaining value processes nothing. -/
theorem freshRun_cbcCall_failed (hq : H.jump = none) (dir : Direction) (ptr bytes : Nat) {total : Nat}
    (htotal : total ≤ R.VECTOR_MAX) {st : ZucStatus} (hst : st ≠ .ok) (aes : Option ZucAes)
    (d : List Byte) {live : List (Nat × Nat)} :
    FreshRun h live w s (cbcCall dir ptr bytes total st aes H) fun r =>
      LeavesBytes d r ∧ WritesOneVector live total w r := by
  unfold cbcCall
  refine FreshRun.of_vector hq htotal fun _ _ => ?_
  have hloop : ∀ (out : Nat) {s : σ}, ((cbcLoop dir ptr bytes out total 0 st aes : Entry O _) H).exec h w s =
      ⟨(some st, H), w, s⟩ := by
    intro out s
    rw [cbcLoop_failed hst, Entry.exec_pure]
  obtain ⟨H₂, w₂, s₂, hrelease, hmem, hq₂⟩ := exec_releasePtr (h := h) (H := H) (w := w)
    (s := (h _ (.allocRaw total) s).2) ptr
  rw [Entry.exec_bind (exec_allocVector hq total), Entry.exec_bind (hloop _), Entry.exec_bind hrelease,
    exec_result (hq₂.trans hq)]
  exact ⟨⟨_, _, rfl, .inl ⟨hst, if_neg hst⟩⟩, .inl hmem⟩

theorem exec_setState (a : ZucAes) (iv : Nat) :
    (native (zucAesCbcSetState (some a) iv) H).exec h w s =
      ⟨(some (if iv = NULL then (.errInvalidArgument, some a)
        else (.ok, some { a with chain := blockAt w.mem iv })), H), w, s⟩ := by
  rw [Entry.exec_native]
  by_cases hiv : iv = NULL
  · simp only [zucAesCbcSetState, if_pos hiv, Proc.exec_pure]
  · simp only [zucAesCbcSetState, if_neg hiv, Proc.exec_bind, exec_readBlock, Proc.exec_pure]

theorem freshRun_zucryptAesCbc (L : CbcLaws h C) (hq : H.jump = none)
    (hkeep : ∀ s n id K, L.keyAt s id K → L.keyAt (h _ (.allocRaw n) s).2 id K) (data key iv : Sexp)
    (encrypt : Bool) (hdata : data.XLENGTH ≤ R.VECTOR_MAX) {live : List (Nat × Nat)}
    (hlive : (data.RAW, data.XLENGTH) ∈ live) :
    FreshRun h live w s (zucryptAesCbc data key iv encrypt H) fun r =>
      LeavesBytes (cbcBytes (C (key.bytes w.mem)) (if encrypt then .encrypt else .decrypt)
        (blockAt w.mem iv.RAW) (data.bytes w.mem)) r ∧
      WritesOneVector live data.XLENGTH w r ∧
      (CbcSucceeds L → CbcArgs w data key iv → (h _ (.calloc .zucAes) s).1 ≠ none →
        ∃ res H', r.value = (some res, H') ∧ res.status = .ok) := by
  obtain ⟨H₁, howner, hq₁, -⟩ := exec_ownerPtr (h := h) (w := w) (s := s) hq .aes none
  obtain ⟨st, aes, w₁, s₁, hnew, hmem, hrefcount, hgot, hsucceeds⟩ :=
    exec_zucAesNew L w s key.RAW key.XLENGTH
  have hnative : (native (zucAesNew key.RAW key.XLENGTH true) H₁).exec h w s =
      ⟨(some (st, aes), H₁), w₁, s₁⟩ := by
    rw [Entry.exec_native, hnew]
  unfold zucryptAesCbc
  refine .entry howner fun live₁ hlive₁ => ?_
  refine .entry hnative fun live₂ hlive₂ => ?_
  by_cases hst : st = .ok
  · obtain ⟨a, rfl, hkey⟩ := hgot hst
    rw [if_neg (by simpa using hst)]
    refine .entry (exec_setAddress _ _) fun live₃ hlive₃ => ?_
    refine .entry (exec_setState a iv.RAW) fun live₄ hlive₄ => ?_
    refine .entry (exec_setAddress _ _) fun live₅ hlive₅ => ?_
    have hall : ∀ v ∈ live, v ∈ live₅ := fun v hv =>
      hlive₅ v (hlive₄ v (hlive₃ v (hlive₂ v (hlive₁ v hv))))
    have hvector : ∀ r : Outcome (Option NativeResult × RHeap O) World σ,
        WritesOneVector live₅ data.XLENGTH w₁ r → WritesOneVector live data.XLENGTH w r := by
      unfold WritesOneVector
      rw [hmem]
      rintro r (hsame | ⟨out, hapart, hframe⟩)
      · exact .inl hsame
      · exact .inr ⟨out, fun v hv => hapart v (hall v hv), hframe⟩
    -- without an IV the state is not set, and the call ends there
    by_cases hiv : iv.RAW = NULL
    · rw [if_pos hiv]
      dsimp only
      refine (freshRun_cbcCall_failed (by exact hq₁) _ _ _ hdata (by simp) (some a) _).mono
        fun r hr => ⟨hr.1, hvector r hr.2, ?_⟩
      exact fun _ hargs _ => absurd hiv hargs.hasIv
    · rw [if_neg hiv]
      dsimp only
      refine (freshRun_cbcCall (a := { a with chain := blockAt w₁.mem iv.RAW }) L (by exact hq₁) hkey
        hkeep _ _ hdata (hall _ hlive)).mono fun r hr => ?_
      have hbytes := hr.1
      have hok := hr.2.2
      rw [hmem] at hbytes
      rw [hrefcount] at hok
      exact ⟨hbytes, hvector r hr.2.1, fun hS hargs _ => hok hS hargs.ready hargs.buffer hargs.whole⟩
  · rw [if_pos hst]
    refine FreshRun.of_exec (exec_result hq₁ st .null) ⟨⟨_, _, rfl, .inl ⟨hst, ?_⟩⟩, .inl hmem, ?_⟩
    · exact if_neg hst
    · exact fun hS hargs hcalloc =>
        absurd (hsucceeds hS hargs.ready hargs.hasKey hargs.keySize hcalloc) hst

end Zucrypt
