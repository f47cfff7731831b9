import Zucrypt.DigestTrace

/-! # What a caller of a digest or HMAC handle may rely on

The constructors hand out handles that have accumulated nothing: a digest handle because the
backend's setup says so, an HMAC handle because the key that was imported -- hashed first when it is
longer than a block, a zero byte when it is empty -- gives the same MACs as the caller's.

`StreamContract` is the interface as a caller sees it, over every sequence of calls on one handle:

* a run answers as the `accumulator` does, which only keeps the bytes of the updates it accepted;
* a finish that succeeds delivers the digest of those bytes, into the caller's buffer;
* a call that is refused, or whose buffer is too small, changes nothing;
* a finished handle refuses everything until it is reset;
* after a reset it answers as a new one does.

`digest_handles_contract` is that both kinds of handle keep it.  It rests on `Tracks` of
`DigestTrace`, the relation between a handle and the accumulator that one step keeps, and on the
constructors being related to the empty accumulator (`HashCreated.tracks`, `HmacCreated.tracks`).

The backend is any that computes digests and HMAC and does not fail (`HashLaws`, `MacLaws`): the
contract is about success, and what is left after a failure is in `FailStop`.  The algorithm must be
one that this build has, since the constructors refuse the others. -/
namespace Zucrypt
open Effects ByteMemory Machines KeyedHash

variable {O : Objects} {σ κ Op : Type} {h : Handler (Call O) σ}
  {H : PsaAlg → List Byte → List Byte}

/-! ### The key an HMAC handle is set up with -/

/-- What `import_hmac_key` imports for `K`. -/
def importedKey (H : PsaAlg → List Byte → List Byte) (alg : PsaAlg) (K : List Byte) : List Byte :=
  if (reduced (H alg) (psaHashBlockLength alg) K).length = 0 then [0]
  else reduced (H alg) (psaHashBlockLength alg) K

/-- A digest fits a block, which is why the hash of a long key can be a key. -/
theorem hashLength_le_block (LH : HashLaws h H) {alg : ZucAlg}
    (halg : zucIntDigestAvailable alg = true) (m : List Byte) :
    (H (zucIntPsaHash alg) m).length ≤ psaHashBlockLength (zucIntPsaHash alg) :=
  LH.length alg m halg ▸ zucAlgSize_le_block alg

/-- A block is not empty. -/
theorem block_pos {alg : ZucAlg} (halg : zucIntDigestAvailable alg = true) :
    1 ≤ psaHashBlockLength (zucIntPsaHash alg) := by
  cases alg <;> simp_all [zucIntDigestAvailable, zucIntPsaHash, psaHashBlockLength]

/-- The key imported gives the MACs of the caller's key. -/
theorem hmacOf_importedKey (LH : HashLaws h H) {alg : ZucAlg}
    (halg : zucIntDigestAvailable alg = true) (K m : List Byte) :
    hmacOf H (zucIntPsaHash alg) (importedKey H (zucIntPsaHash alg) K) m =
      hmacOf H (zucIntPsaHash alg) K m := by
  have hreduced := hmac_reduced (hashLength_le_block LH halg K) m
  unfold importedKey
  split
  · rename_i hempty
    rw [List.length_eq_zero_iff.mp hempty] at hreduced
    rw [hmacOf, ← hreduced]
    exact hmac_append_zeros (K := []) (n := 1) (by simpa using block_pos halg) m
  · exact hreduced

/-- The backend takes what is imported: it has a byte at least, and fits a block. -/
theorem importedKey_length (LH : HashLaws h H) {alg : ZucAlg}
    (halg : zucIntDigestAvailable alg = true) (K : List Byte) :
    1 ≤ (importedKey H (zucIntPsaHash alg) K).length ∧
      (importedKey H (zucIntPsaHash alg) K).length ≤ psaHashBlockLength (zucIntPsaHash alg) := by
  unfold importedKey
  split
  · exact ⟨Nat.le_refl 1, block_pos halg⟩
  · refine ⟨by omega, ?_⟩
    unfold reduced
    split
    · exact hashLength_le_block LH halg K
    · omega

/-- The import of a key that has been reduced. -/
theorem exec_importReducedKey (LH : HashLaws h H) (LM : MacLaws h H) {alg : ZucAlg}
    (halg : zucIntDigestAvailable alg = true) (w : World) (s : σ) (onStack K : List Byte) :
    ∃ id b s', (importReducedKey (.hmac (zucIntPsaHash alg)) onStack
        (reduced (H (zucIntPsaHash alg)) (psaHashBlockLength (zucIntPsaHash alg)) K)).exec h w s =
      ⟨(.ok, id), w.noteAlloc b, s'⟩ ∧
    LM.keyAt s' id (zucIntPsaHash alg) (importedKey H (zucIntPsaHash alg) K) := by
  obtain ⟨hone, hblock⟩ := importedKey_length LH halg K
  obtain ⟨hok, hkey⟩ := LM.importKey s (zucIntPsaHash alg) _
    ((zucIntDigestAvailable_iff alg).mp halg) hone hblock
  have hstored := LM.keep_dropLocal _ _ _ _ (secureZero onStack) hkey
  exact ⟨_, _, _, Outcome.ext (Prod.ext (zucIntFromPsa_eq_ok.mpr hok) rfl) rfl rfl, hstored⟩

/-- `import_hmac_key` succeeds for every key, and imports `importedKey`. -/
theorem exec_importHmacKey (LH : HashLaws h H) (LM : MacLaws h H) {alg : ZucAlg}
    (halg : zucIntDigestAvailable alg = true) (w : World) (s : σ) (key n : Nat) : ∃ id b s',
    (importHmacKey alg key n (.hmac (zucIntPsaHash alg))).exec h w s =
      ⟨(.ok, id), w.noteAlloc b, s'⟩ ∧
    LM.keyAt s' id (zucIntPsaHash alg) (importedKey H (zucIntPsaHash alg) (read w.mem key n)) := by
  have hlen := LH.length alg (read w.mem key n) halg
  rcases Nat.lt_or_ge (psaHashBlockLength (zucIntPsaHash alg)) n with hn | hn
  · obtain ⟨hok, hdigest, hprefix⟩ := LH.compute s (zucIntPsaHash alg) (read w.mem key n)
      ZUC_MAX_DIGEST_SIZE ((zucIntDigestAvailable_iff alg).mp halg)
      (hlen ▸ zucAlgSize_le_max alg)
    have hreduced := reduced_of_lt (H := H (zucIntPsaHash alg)) (K := read w.mem key n)
      (by simpa using hn)
    rw [List.prefix_iff_eq_take.mp hprefix, ← hdigest] at hreduced
    obtain ⟨id, b, s', hexec, hkey⟩ := exec_importReducedKey LH LM halg
      (w.noteAlloc (allocFails h (.hashCompute (zucIntPsaHash alg) (read w.mem key n)
        ZUC_MAX_DIGEST_SIZE) s))
      (next h (.hashCompute (zucIntPsaHash alg) (read w.mem key n) ZUC_MAX_DIGEST_SIZE) s)
      ((answer h (.hashCompute (zucIntPsaHash alg) (read w.mem key n) ZUC_MAX_DIGEST_SIZE)
        s).2.bytes.take ZUC_MAX_DIGEST_SIZE) (read w.mem key n)
    refine ⟨id, allocFails h (.hashCompute (zucIntPsaHash alg) (read w.mem key n)
      ZUC_MAX_DIGEST_SIZE) s || b, s', ?_, hkey⟩
    rw [hreduced] at hexec
    simp only [importHmacKey, Proc.exec_bind, exec_readMem, if_pos hn, exec_psa, hok, ne_eq,
      not_true_eq_false, if_false, List.take_take, hdigest, hlen,
      Nat.min_eq_left (zucAlgSize_le_max alg)] at hexec ⊢
    rw [hexec, World.noteAlloc_noteAlloc]
  · obtain ⟨id, b, s', hexec, hkey⟩ := exec_importReducedKey LH LM halg w s [] (read w.mem key n)
    refine ⟨id, b, s', ?_, hkey⟩
    rw [reduced_of_le (by simpa using hn)] at hexec
    simp only [importHmacKey, Proc.exec_bind, exec_readMem, if_neg (Nat.not_lt.mpr hn), hexec]

/-! ### Handles as the constructors hand them out -/

/-- The state after a `zuc_hash_new` that returned a handle. -/
def HashCreated (h : Handler (Call O) σ) (alg : ZucAlg) (st : StreamState Unit O.Hash σ) : Prop :=
  ∃ w s, (zucHashNew alg true).exec h w s = ⟨(.ok, some st.handle), st.world, st.env⟩

/-- The state after a `zuc_hmac_new` with the key `K` that returned a handle. -/
def HmacCreated (h : Handler (Call O) σ) (alg : ZucAlg) (K : List Byte)
    (st : StreamState KeyId O.Mac σ) : Prop :=
  ∃ w s key, read w.mem key K.length = K ∧
    (zucHmacNew alg key K.length true).exec h w s = ⟨(.ok, some st.handle), st.world, st.env⟩

/-- The constructor refuses an algorithm the build does not have. -/
theorem HashCreated.available {alg : ZucAlg} {st : StreamState Unit O.Hash σ}
    (hst : HashCreated h alg st) : zucIntDigestAvailable alg = true := by
  obtain ⟨w, s, hexec⟩ := hst
  by_contra halg
  rw [Bool.not_eq_true] at halg
  simp only [zucHashNew, Proc.exec_bind, Proc.exec_ite, exec_zucIntReady, Proc.exec_pure,
    Bool.true_eq_false, if_false, halg, if_true] at hexec
  split at hexec <;> simp at hexec

/-- So does the one of an HMAC handle. -/
theorem HmacCreated.available {alg : ZucAlg} {K : List Byte} {st : StreamState KeyId O.Mac σ}
    (hst : HmacCreated h alg K st) : zucIntDigestAvailable alg = true := by
  obtain ⟨w, s, key, -, hexec⟩ := hst
  by_contra halg
  rw [Bool.not_eq_true] at halg
  simp only [zucHmacNew, Proc.exec_bind, Proc.exec_ite, exec_zucIntReady, Proc.exec_pure,
    Bool.true_eq_false, if_false, halg, if_true] at hexec
  split at hexec
  · simp at hexec
  · split at hexec <;> simp at hexec

/-- A new digest handle has accumulated nothing. -/
theorem HashCreated.tracks (LH : HashLaws h H) {alg : ZucAlg} {st : StreamState Unit O.Hash σ}
    (hst : HashCreated h alg st) (hhash : (zucIntPsaHash alg).isHash = true) :
    Tracks (LH.stream hhash) alg st (some []) := by
  have halg := hst.available
  obtain ⟨hd, w', s'⟩ := st
  obtain ⟨w, s, hexec⟩ := hst
  simp only [zucHashNew, Proc.exec_bind, Proc.exec_ite, exec_zucIntReady, Proc.exec_pure,
    Bool.true_eq_false, if_false, halg, exec_callocRecord] at hexec
  split at hexec
  · simp at hexec
  · cases hself : (h _ (.calloc .zucHash) s).1 with
    | none => simp [hself] at hexec
    | some self =>
      obtain ⟨hok, habs⟩ := LH.setup (h _ (.calloc .zucHash) s).2 (zucIntPsaHash alg) hhash
      simp only [hself, Proc.exec_bind, exec_psa, hok, ne_eq, not_true_eq_false, if_false,
        exec_zucIntLiveAdd, Proc.exec_pure, Outcome.mk.injEq, Prod.mk.injEq, true_and,
        Option.some.injEq] at hexec
      obtain ⟨rfl, -, -⟩ := hexec
      exact ⟨rfl, rfl, rfl, rfl, habs, trivial⟩

/-- A new HMAC handle has accumulated nothing, under the key that was imported. -/
theorem HmacCreated.tracks_imported (LH : HashLaws h H) (LM : MacLaws h H) {alg : ZucAlg}
    {K : List Byte} {st : StreamState KeyId O.Mac σ} (hst : HmacCreated h alg K st) :
    Tracks (LM.stream (zucIntPsaHash alg) st.handle.key (importedKey H (zucIntPsaHash alg) K)) alg st
      (some []) := by
  have halg := hst.available
  obtain ⟨hd, w', s'⟩ := st
  obtain ⟨w, s, key, hK, hexec⟩ := hst
  simp only [zucHmacNew, Proc.exec_bind, Proc.exec_ite, exec_zucIntReady, Proc.exec_pure,
    Bool.true_eq_false, if_false, halg, exec_callocRecord] at hexec
  split at hexec
  · simp at hexec
  · split at hexec
    · simp at hexec
    · cases hself : (h _ (.calloc .zucHmac) s).1 with
      | none => simp [hself] at hexec
      | some self =>
        obtain ⟨id, b, s₁, himport, hkey⟩ :=
          exec_importHmacKey LH LM halg w (h _ (.calloc .zucHmac) s).2 key K.length
        obtain ⟨hok, habs⟩ := LM.setup s₁ id (zucIntPsaHash alg) _ hkey
        simp only [hself, Proc.exec_bind, himport, exec_psa, hok, ne_eq, not_true_eq_false,
          if_false, exec_zucIntLiveAdd, Proc.exec_pure, Outcome.mk.injEq, Prod.mk.injEq, true_and,
          Option.some.injEq] at hexec
        obtain ⟨rfl, -, rfl⟩ := hexec
        rw [hK] at hkey habs
        exact ⟨rfl, rfl, rfl, rfl, habs, LM.keep_setup _ _ _ _ _ _ _ hkey⟩

/-- That key gives the MACs of the caller's. -/
theorem HmacCreated.tracks (LH : HashLaws h H) (LM : MacLaws h H) {alg : ZucAlg} {K : List Byte}
    {st : StreamState KeyId O.Mac σ} (hst : HmacCreated h alg K st) :
    ∃ L : StreamLaws h macOps (.hmac (zucIntPsaHash alg)) st.handle.key
      (hmacOf H (zucIntPsaHash alg) K), Tracks L alg st (some []) := by
  rw [← funext (hmacOf_importedKey LH hst.available K)]
  exact ⟨_, hst.tracks_imported LH LM⟩

/-! ### The contract -/

/-- What a caller may rely on of the handles `created` describes, whose digests
are `size` bytes and given by `D`.  `log` is the run so far, `st'` the state it
reached. -/
structure StreamContract (h : Handler (Call O) σ) (B : StreamOps O κ Op)
    (created : StreamState κ Op σ → Prop) (size : Nat) (D : List Byte → List Byte) : Prop where
  /-- every run is a run of the accumulator -/
  refines : ∀ st, created st →
    Machine.Indistinguishable (streamMachine h B) st (accumulator size D) (some [])
  /-- a successful finish delivers the digest of the accepted bytes -/
  finish_ok : ∀ st steps mem out outSize cell, created st →
    let log := (streamMachine h B).log st steps
    let st' := (streamMachine h B).after st steps
    let r := (streamMachine h B).step st' ⟨mem, .finish out outSize cell⟩
    r.1.status = .ok → r.1.outLen = some size ∧ read r.2.world.mem out size = D (accepted log)
  /-- and writes nowhere else; no other call writes at all -/
  writes : ∀ st steps i x, created st →
    let st' := (streamMachine h B).after st steps
    let r := (streamMachine h B).step st' i
    (∀ out outSize cell, i.call = .finish out outSize cell → r.1.status = .ok →
      x < out ∨ out + outSize ≤ x) → r.2.world.mem x = i.mem x
  /-- a rejected call changes nothing that a later call could show -/
  rejected : ∀ st steps i, created st →
    let st' := (streamMachine h B).after st steps
    let r := (streamMachine h B).step st' i
    r.1.status = .errBadLength ∨ r.1.status = .errInvalidArgument →
      Machine.Indistinguishable (streamMachine h B) r.2 (streamMachine h B) st'
  /-- a finished handle takes no update and no finish -/
  finished : ∀ st steps i, created st →
    let log := (streamMachine h B).log st steps
    let st' := (streamMachine h B).after st steps
    finishedAfter log = true → i.call ≠ .reset →
      ((streamMachine h B).step st' i).1.status = .errInvalidArgument
  /-- a reset makes the handle a new one -/
  reset : ∀ st steps mem fresh, created st → created fresh →
    let st' := (streamMachine h B).after st steps
    let r := (streamMachine h B).step st' ⟨mem, .reset⟩
    r.1.status = .ok ∧ Machine.Indistinguishable (streamMachine h B) r.2 (streamMachine h B) fresh

/-! ### What the accumulator answers -/

section
variable {size : Nat} {D : List Byte → List Byte} {a : Option (List Byte)}

/-- A finish of the accumulator that succeeds had bytes to finish, and reports the digest's size. -/
theorem accumulator_finish_ok {mem : Memory} {out outSize : Nat} {cell : SizeCell}
    (hok : ((accumulator size D).step a ⟨mem, .finish out outSize cell⟩).1.status = .ok) :
    ∃ m, a = some m ∧
      ((accumulator size D).step a ⟨mem, .finish out outSize cell⟩).1.outLen = some size ∧
      ((accumulator size D).step a ⟨mem, .finish out outSize cell⟩).1.digest = D m := by
  by_cases hnull : out = NULL ∨ cell = none
  · simp [accumulator, if_pos hnull] at hok
  · obtain ⟨len, hcell⟩ := Option.ne_none_iff_exists'.mp (not_or.mp hnull).2
    cases a with
    | none => simp only [accumulator, if_neg hnull, reduceCtorEq] at hok
    | some m =>
      by_cases hshort : outSize < size
      · simp only [accumulator, if_neg hnull, if_pos hshort, reduceCtorEq] at hok
      · simp only [accumulator, if_neg hnull, if_neg hshort]
        exact ⟨m, rfl, hcell ▸ rfl, rfl⟩

/-- What the accumulator refuses for its arguments does not change it. -/
theorem accumulator_rejected {i : StreamStep}
    (hst : ((accumulator size D).step a i).1.status = .errBadLength ∨
      ((accumulator size D).step a i).1.status = .errInvalidArgument) :
    ((accumulator size D).step a i).2 = a := by
  obtain ⟨mem, call⟩ := i
  cases call with
  | update data n =>
    by_cases hnull : data = NULL ∧ n ≠ 0
    · simp only [accumulator, if_pos hnull]
    · cases a with
      | none => simp only [accumulator, if_neg hnull]
      | some m => simp only [accumulator, if_neg hnull, reduceCtorEq, or_self] at hst
  | finish out outSize cell =>
    by_cases hnull : out = NULL ∨ cell = none
    · simp only [accumulator, if_pos hnull]
    · cases a with
      | none => simp only [accumulator, if_neg hnull]
      | some m =>
        by_cases hshort : outSize < size
        · simp only [accumulator, if_neg hnull, if_pos hshort]
        · simp only [accumulator, if_neg hnull, if_neg hshort, reduceCtorEq, or_self] at hst
  | reset => simp only [accumulator, reduceCtorEq, or_self] at hst

/-- A finished accumulator takes nothing but a reset. -/
theorem accumulator_finished {i : StreamStep} (hi : i.call ≠ .reset) :
    ((accumulator size D).step none i).1.status = .errInvalidArgument := by
  obtain ⟨mem, call⟩ := i
  cases call with
  | update data n => by_cases hnull : data = NULL ∧ n ≠ 0 <;> simp only [accumulator, hnull, ite_self]
  | finish out outSize cell =>
    by_cases hnull : out = NULL ∨ cell = none <;> simp only [accumulator, hnull, if_true, if_false]
  | reset => exact absurd rfl hi

end

/-! ### Both kinds keep the contract -/

/-- The bytes a successful finish delivers are in the caller's buffer. -/
theorem streamMachine_delivered {B : StreamOps O κ Op} {st : StreamState κ Op σ} {mem : Memory}
    {out outSize : Nat} {cell : SizeCell}
    (hok : ((streamMachine h B).step st ⟨mem, .finish out outSize cell⟩).1.status = .ok) :
    ((streamMachine h B).step st ⟨mem, .finish out outSize cell⟩).1.digest =
      read ((streamMachine h B).step st ⟨mem, .finish out outSize cell⟩).2.world.mem out
        (((streamMachine h B).step st ⟨mem, .finish out outSize cell⟩).1.outLen.getD 0) := by
  simp only [streamMachine, StreamCall.delivered] at hok ⊢
  rw [if_pos hok]

/-- From a state that answers as the accumulator does: if that has `m` after some steps, a finish
with room for the digest delivers the one of `m`. -/
theorem finish_delivers {B : StreamOps O κ Op} {st : StreamState κ Op σ} {size : Nat}
    {D : List Byte → List Byte} {a : Option (List Byte)}
    (hst : Machine.Indistinguishable (streamMachine h B) st (accumulator size D) a)
    {steps : List StreamStep} {m : List Byte} (hm : (accumulator size D).after a steps = some m)
    (mem : Memory) {out outSize : Nat} (hout : out ≠ NULL) (hsize : size ≤ outSize) (len : Nat) :
    let r := (streamMachine h B).step ((streamMachine h B).after st steps)
      ⟨mem, .finish out outSize (some len)⟩
    r.1.status = .ok ∧ r.1.outLen = some size ∧ read r.2.world.mem out size = D m := by
  have hfinish := hst (steps ++ [⟨mem, .finish out outSize (some len)⟩])
  rw [Machine.log_concat, Machine.log_concat, hst steps, hm] at hfinish
  have hreply := (Prod.mk.inj (List.cons.inj (List.append_cancel_left hfinish)).1).2
  simp only [accumulator, hout, reduceCtorEq, or_self, if_false, Nat.not_lt.mpr hsize] at hreply
  intro r
  have hok : r.1.status = .ok := congrArg StreamReply.status hreply
  have hlen : r.1.outLen = some size := congrArg StreamReply.outLen hreply
  refine ⟨hok, hlen, ?_⟩
  have hdelivered := streamMachine_delivered hok
  rw [hlen] at hdelivered
  exact hdelivered.symm.trans (congrArg StreamReply.digest hreply)

/-- Handles that start beside the empty accumulator keep the contract. -/
theorem streamContract_of_tracks {B : StreamOps O κ Op} {created : StreamState κ Op σ → Prop}
    {alg : ZucAlg} {D : List Byte → List Byte} (hD : ∀ m, (D m).length = zucAlgSize alg)
    (htracks : ∀ st, created st → ∃ palg key, ∃ L : StreamLaws h B palg key D,
      Tracks L alg st (some [])) :
    StreamContract h B created (zucAlgSize alg) D := by
  have hrefines : ∀ st, created st → Machine.Indistinguishable (streamMachine h B) st
      (accumulator (zucAlgSize alg) D) (some []) := by
    intro st hst
    obtain ⟨palg, key, L, ht⟩ := htracks st hst
    exact streamMachine_accumulates hD ht
  constructor
  case refines => exact hrefines
  case finish_ok =>
    intro st steps mem out outSize cell hst log st' r hok
    obtain ⟨palg, key, L, ht⟩ := htracks st hst
    have hstep := (step_accumulates hD (tracks_after hD ht steps) ⟨mem, .finish out outSize cell⟩).1
    have hok' : ((accumulator (zucAlgSize alg) D).step
        ((accumulator (zucAlgSize alg) D).after (some []) steps) _).1.status = .ok := hstep ▸ hok
    obtain ⟨m, ha, hlen, hdigest⟩ := accumulator_finish_ok hok'
    rw [← hstep] at hlen hdigest
    -- what the handle accepted is what the accumulator has
    have hlog : accepted log = m := by
      rw [accumulator_after_log, ← hrefines st hst steps] at ha
      unfold accumulated at ha
      split at ha
      · exact absurd ha (by simp)
      · exact Option.some.inj ha
    refine ⟨hlen, ?_⟩
    rw [hlog, ← hdigest, streamMachine_delivered hok, hlen]
    rfl
  case writes =>
    intro st steps i x hst st' r hx
    obtain ⟨palg, key, L, ht⟩ := htracks st hst
    exact step_frame hD (tracks_after hD ht steps) i x hx
  case rejected =>
    intro st steps i hst st' r hrej
    obtain ⟨palg, key, L, ht⟩ := htracks st hst
    have ht' := tracks_after hD ht steps
    obtain ⟨hstep, hnext⟩ := step_accumulates hD ht' i
    rw [accumulator_rejected (hstep ▸ hrej)] at hnext
    exact (streamMachine_accumulates hD hnext).trans (streamMachine_accumulates hD ht').symm
  case finished =>
    intro st steps i hst log st' hfin hi
    obtain ⟨palg, key, L, ht⟩ := htracks st hst
    have hstep := (step_accumulates hD (tracks_after hD ht steps) i).1
    rw [accumulator_after_log, ← hrefines st hst steps, accumulated, if_pos hfin] at hstep
    exact hstep ▸ accumulator_finished hi
  case reset =>
    intro st steps mem fresh hst hfresh st' r
    obtain ⟨palg, key, L, ht⟩ := htracks st hst
    obtain ⟨hstep, hnext⟩ := step_reset (tracks_after hD ht steps) mem
    exact ⟨hstep ▸ rfl, (streamMachine_accumulates hD hnext).trans (hrefines fresh hfresh).symm⟩

/-! ### A run at known values -/

/-- A handle is finished, refuses more, and is reset; it takes `n` bytes at `data`, refuses a
buffer that is too small and a null pointer, and takes the `k` bytes that follow. -/
def busySteps (mem : Memory) (data n k : Nat) : List StreamStep :=
  [⟨mem, .update data k⟩, ⟨mem, .finish 0x100 32 (some 0)⟩, ⟨mem, .update data n⟩, ⟨mem, .reset⟩,
    ⟨mem, .update data n⟩, ⟨mem, .finish 0x100 31 (some 0)⟩, ⟨mem, .update NULL n⟩,
    ⟨mem, .update (data + n) k⟩]

def busyReplies : List ZucStatus :=
  [.ok, .ok, .errInvalidArgument, .ok, .ok, .errBadLength, .errInvalidArgument, .ok]

/-- There is a state after a constructor that succeeded. -/
theorem exists_hashCreated {alg : ZucAlg} {w : World} {s : σ}
    (hok : ((zucHashNew alg true).exec h w s).value.1 = .ok)
    (hmade : ((zucHashNew alg true).exec h w s).value.2.isSome = true) : ∃ st, HashCreated h alg st := by
  obtain ⟨hd, hhd⟩ := Option.isSome_iff_exists.mp hmade
  exact ⟨⟨hd, _, _⟩, w, s, Outcome.eq_of_value (Prod.ext hok hhd)⟩

/-- There is one for HMAC, of any key in memory. -/
theorem exists_hmacCreated {alg : ZucAlg} {w : World} {s : σ} (key : Nat) (K : List Byte)
    (hK : read w.mem key K.length = K)
    (hok : ((zucHmacNew alg key K.length true).exec h w s).value.1 = .ok)
    (hmade : ((zucHmacNew alg key K.length true).exec h w s).value.2.isSome = true) :
    ∃ st, HmacCreated h alg K st := by
  obtain ⟨hd, hhd⟩ := Option.isSome_iff_exists.mp hmade
  exact ⟨⟨hd, _, _⟩, w, s, key, hK, Outcome.eq_of_value (Prod.ext hok hhd)⟩

/-- What a handle answers that keeps the contract, and what it then delivers. -/
theorem StreamContract.busy {B : StreamOps O κ Op} {created : StreamState κ Op σ → Prop}
    {D : List Byte → List Byte} (hc : StreamContract h B created 32 D) {st : StreamState κ Op σ}
    (hst : created st) (mem : Memory) (data n k : Nat) (hdata : data ≠ NULL) (hn : n ≠ 0) :
    ((streamMachine h B).log st (busySteps mem data n k)).map (·.2.status) = busyReplies ∧
      read ((streamMachine h B).step ((streamMachine h B).after st (busySteps mem data n k))
        ⟨mem, .finish 0x100 64 (some 0)⟩).2.world.mem 0x100 32 = D (read mem data (n + k)) := by
  have hnext : data + n ≠ NULL := fun hnull => hdata (Nat.eq_zero_of_add_eq_zero_right hnull)
  have hout : 0x100 ≠ NULL := by decide
  have hlog := hc.refines st hst
  have hafter : (accumulator 32 D).after (some []) (busySteps mem data n k) =
      some (read mem data (n + k)) := by
    rw [read_add]
    simp [busySteps, accumulator, Machine.after, hdata, hnext, hn, hout]
  refine ⟨?_, (finish_delivers hlog hafter mem (by decide) (by decide) 0).2.2⟩
  rw [hlog]
  simp [busySteps, busyReplies, accumulator, Machine.log, hdata, hnext, hn, hout]

/-- **The interface of incremental digests and MACs.**  Against a backend whose
digests and MACs are correct and do not fail, every digest handle and every HMAC
handle, of any key, keeps the contract over any sequence of calls. -/
theorem digest_handles_contract (LH : HashLaws h H) (LM : MacLaws h H) (alg : ZucAlg)
    (halg : zucIntDigestAvailable alg = true) :
    StreamContract h hashOps (HashCreated h alg) (zucAlgSize alg) (H (zucIntPsaHash alg)) ∧
      ∀ K, StreamContract h macOps (HmacCreated h alg K) (zucAlgSize alg)
        (hmacOf H (zucIntPsaHash alg) K) := by
  have hlen := fun m => LH.length alg m halg
  refine ⟨streamContract_of_tracks hlen ?_, fun K => streamContract_of_tracks (fun m => hlen _) ?_⟩
  · exact fun st hst => ⟨_, _, _, hst.tracks LH ((zucIntDigestAvailable_iff alg).mp halg)⟩
  · exact fun st hst => ⟨_, _, hst.tracks LH LM⟩

/-- A digest and an HMAC handle against the reference backend, finished, reset and used again:
what they deliver is SHA-256 of `abc`, and a published MAC under a key longer than a block. -/
theorem digest_handles_contract_known :
    let h := referenceBackend knownPrimitives
    let abc := write readyWorld.mem 0x300 [0x61, 0x62, 0x63]
    let long := write (write readyWorld.mem 0x300 longKeyMessage) 0x400 longKey
    (∃ st, HashCreated h .sha256 st ∧
      let M := streamMachine h hashOps
      let steps := busySteps abc 0x300 1 2
      (M.log st steps).map (·.2.status) = busyReplies ∧
        read (M.step (M.after st steps) ⟨abc, .finish 0x100 64 (some 0)⟩).2.world.mem 0x100 32 =
          abcDigest) ∧
    (∃ st, HmacCreated h .sha256 longKey st ∧
      let M := streamMachine h macOps
      let steps := busySteps long 0x300 20 34
      (M.log st steps).map (·.2.status) = busyReplies ∧
        read (M.step (M.after st steps) ⟨long, .finish 0x100 64 (some 0)⟩).2.world.mem 0x100 32 =
          longKeyMac) := by
  intro h abc long
  obtain ⟨hhash, hmac⟩ := digest_handles_contract (h := h) (referenceHashLaws knownPrimitives)
    (referenceMacLaws knownPrimitives) .sha256 (by decide)
  constructor
  · obtain ⟨st, hst⟩ : ∃ st, HashCreated h .sha256 st :=
      exists_hashCreated (w := readyWorld) (s := .initial) rfl rfl
    obtain ⟨hreplies, hdigest⟩ := StreamContract.busy hhash hst abc 0x300 1 2 (by decide) (by decide)
    have hvalue : knownPrimitives.hash (zucIntPsaHash .sha256) (read abc 0x300 3) = abcDigest := by
      decide +kernel
    exact ⟨st, hst, hreplies, hdigest.trans hvalue⟩
  · obtain ⟨st, hst⟩ : ∃ st, HmacCreated h .sha256 longKey st :=
      exists_hmacCreated (w := { readyWorld with mem := long }) (s := .initial) 0x400 longKey
        (read_write_self _ _ _) (by decide +kernel) (by decide +kernel)
    obtain ⟨hreplies, hdigest⟩ :=
      StreamContract.busy (hmac longKey) hst long 0x300 20 34 (by decide) (by decide)
    have hvalue : hmacOf knownPrimitives.hash (zucIntPsaHash .sha256) longKey (read long 0x300 54) =
        longKeyMac := by
      decide +kernel
    exact ⟨st, hst, hreplies, hdigest.trans hvalue⟩

end Zucrypt
