import Zucrypt.ChunkedCbc
import Zucrypt.ChunkedFailures

/-! # Drivers in chunks, and at once

`DriversAgree` is what the functions that work in chunks promise: against a correct backend they
give what one call over the whole input gives, for inputs of every length and however a connection
cuts them; against any backend they give nothing unless every chunk has been processed; and no slice
of a vector is outside it.

`chunked_drivers_agree` has these three parts.  In the first, `zucrypt_hash` and `zucrypt_hmac` are
compared with the one-shot functions of the adapter over the same vector, `zucrypt_aes_cbc` with one
pass of CBC, and `crypt_hash` and `crypt_hmac` of a connection with the same functions of a raw
vector of what that yields.  The second (`FailsWhole`) is of any backend: a value was made by native
calls none of which failed.  The third (`SlicesCover`) is arithmetic, for vectors of any length.

The laws of the first part are those of digests, of MACs and of CBC, with no failures.  Keys must
survive the making of a vector (`hkeepMac`, `hkeepAes`), since the result is allocated between two
calls on one key; and a run is compared under the condition that R's allocator hands out memory that
no live vector has a part of (`FreshRun`), which is what makes it an allocator. -/
namespace Zucrypt
open Effects ByteMemory BlockChaining KeyedHash

variable {O : Objects} {σ : Type} {h : Handler (Call O) σ} {F : PsaAlg → List Byte → List Byte}
  {C : List Byte → BlockCipher AesBlock} {live : List (Nat × Nat)} {w : World} {s : σ} {H : RHeap O}

/-- Where a digest is to be had: the library is ready, there is memory for a context, and R
leaves the call alone. -/
structure DigestReady (h : Handler (Call O) σ) (record : Record) (algorithm : String) (H : RHeap O)
    (w : World) (s : σ) : Prop where
  available : availableAlgorithms.contains algorithm = true
  ready : 0 < w.refcount
  memory : (h _ (.calloc record) s).1 ≠ none
  still : H.jump = none

/-- A name of R's table is an algorithm the build has. -/
theorem digestAvailable_of_mem {algorithm : String}
    (hmem : availableAlgorithms.contains algorithm = true) :
    zucIntDigestAvailable (zucAlgByName (some algorithm)) = true := by
  have hfilter : algorithm ∈ availableAlgorithms := by simpa using hmem
  exact (List.mem_filter.mp hfilter).2

/-- R's check lets it through. -/
theorem checkAlgorithm_available {algorithm : String}
    (hmem : availableAlgorithms.contains algorithm = true) :
    checkAlgorithm (some algorithm) = .ok algorithm := by
  unfold checkAlgorithm
  dsimp only
  rw [if_neg (by simpa using hmem)]

/-! ### Digests -/

/-- `zuc_hash_compute` succeeds, and delivers the digest. -/
theorem exec_zucHashCompute (LH : HashLaws h F) {alg : ZucAlg} {data dataLen out outSize : Nat}
    (ha : DigestArgs w alg data dataLen out outSize) (s : σ) (len : Nat) :
    ((zucHashCompute alg data dataLen out outSize (some len)).exec h w s).value =
        (.ok, some (zucAlgSize alg)) ∧
      read ((zucHashCompute alg data dataLen out outSize (some len)).exec h w s).world.mem
          out (zucAlgSize alg) = F (zucIntPsaHash alg) (read w.mem data dataLen) := by
  have hlen := LH.length alg (read w.mem data dataLen) ha.available
  have hsize : (F (zucIntPsaHash alg) (read w.mem data dataLen)).length ≤ outSize := hlen ▸ ha.size
  obtain ⟨hok, hout⟩ := LH.compute s (zucIntPsaHash alg) (read w.mem data dataLen) outSize
    ((zucIntDigestAvailable_iff alg).mp ha.available) hsize
  have hread := hout.read_store (w.noteAlloc (allocFails h
    (.hashCompute (zucIntPsaHash alg) (read w.mem data dataLen) outSize) s)) out hsize
  rw [hlen] at hread
  simp only [zucHashCompute, Proc.exec_bind, exec_checkDigestArgs ha, ne_eq, not_true_eq_false,
    if_false, exec_readMem, exec_psa, exec_writeOutput, Proc.exec_pure, hok, zucIntFromPsa_success,
    hout.1, hlen]
  exact ⟨rfl, hread⟩

/-- `zucrypt_hash` leaves the digest of the whole vector. -/
theorem freshRun_zucryptHash (LH : HashLaws h F) {algorithm : String}
    (hready : DigestReady h .zucHash algorithm H w s) (data : Sexp)
    (hdata : data.XLENGTH ≠ 0 → data.RAW ≠ NULL) :
    FreshRun h live w s (zucryptHash data algorithm H)
      (LeavesDigest (zucAlgByName (some algorithm))
        (F (zucIntPsaHash (zucAlgByName (some algorithm))) (data.bytes w.mem))) := by
  have halg := digestAvailable_of_mem hready.available
  obtain ⟨hd, w₁, s₁, hnew, hmem, hhd, hc⟩ := exec_zucHashNew LH halg hready.ready hready.memory
  exact freshRun_digestCall hready.still hnew hmem hc hhd (fun m => LH.length _ m halg)
    (fun _ _ _ => trivial) hdata

/-- `zucrypt_hmac` leaves the MAC of the whole vector. -/
theorem freshRun_zucryptHmac (LH : HashLaws h F) (LM : MacLaws h F)
    (hkeep : ∀ s n id alg K, LM.keyAt s id alg K → LM.keyAt (h _ (.allocRaw n) s).2 id alg K)
    {algorithm : String} (hready : DigestReady h .zucHmac algorithm H w s) (data key : Sexp)
    (hdata : data.XLENGTH ≠ 0 → data.RAW ≠ NULL) (hkey : key.XLENGTH ≠ 0 → key.RAW ≠ NULL) :
    FreshRun h live w s (zucryptHmac data key algorithm H)
      (LeavesDigest (zucAlgByName (some algorithm))
        (hmacOf F (zucIntPsaHash (zucAlgByName (some algorithm))) (key.bytes w.mem)
          (data.bytes w.mem))) := by
  have halg := digestAvailable_of_mem hready.available
  obtain ⟨hd, w₁, s₁, hnew, hmem, hhd, hc⟩ := exec_zucHmacNew_collecting LH LM halg hready.ready
    key.RAW key.XLENGTH (fun hnull => hkey hnull.2 hnull.1) hready.memory
  have husable : ∀ s n, (LM.stream (zucIntPsaHash (zucAlgByName (some algorithm))) hd.key
      (importedKey F (zucIntPsaHash (zucAlgByName (some algorithm))) (key.bytes w.mem))).usable s →
      LM.keyAt (h _ (.allocRaw n) s).2 hd.key (zucIntPsaHash (zucAlgByName (some algorithm)))
        (importedKey F (zucIntPsaHash (zucAlgByName (some algorithm))) (key.bytes w.mem)) :=
    fun s n hs => hkeep s n _ _ _ hs
  rw [← hmacOf_importedKey LH halg]
  exact freshRun_digestCall hready.still hnew hmem hc hhd (fun m => hmacOf_length LH halg _ m)
    husable hdata

/-! ### Raw vectors and connections in R -/

/-- What `crypt_hash` gives for a raw vector. -/
theorem freshRun_cryptHash_raw (LH : HashLaws h F) {algorithm : String}
    (hready : DigestReady h .zucHash algorithm H w s) {p n : Nat} {attrs : List (String × Sexp)}
    (hdata : n ≠ 0 → p ≠ NULL) (st : RState) :
    FreshRun h live w s (cryptHash (.sexp (.raw p n attrs)) (some algorithm) H st)
      (GivesDigest (zucAlgByName (some algorithm))
        (F (zucIntPsaHash (zucAlgByName (some algorithm))) (read w.mem p n))) := by
  unfold cryptHash
  dsimp only
  refine .rfun (by rfl) fun live₁ _ => ?_
  rw [checkAlgorithm_available hready.available]
  refine .rfun (by rfl) fun live₂ _ => ?_
  exact freshRun_value (freshRun_zucryptHash LH hready (.raw p n attrs) hdata)
    (fun _ _ => rfl) st

/-- What `crypt_hmac` gives for a raw vector. -/
theorem freshRun_cryptHmac_raw (LH : HashLaws h F) (LM : MacLaws h F)
    (hkeep : ∀ s n id alg K, LM.keyAt s id alg K → LM.keyAt (h _ (.allocRaw n) s).2 id alg K)
    {algorithm : String} (hready : DigestReady h .zucHmac algorithm H w s) {p n k l : Nat}
    {attrs attrs' : List (String × Sexp)} (hdata : n ≠ 0 → p ≠ NULL) (hkey : l ≠ 0 → k ≠ NULL)
    (st : RState) :
    FreshRun h live w s
      (cryptHmac (.sexp (.raw p n attrs)) (.raw k l attrs') (some algorithm) H st)
      (GivesDigest (zucAlgByName (some algorithm))
        (hmacOf F (zucIntPsaHash (zucAlgByName (some algorithm))) (read w.mem k l)
          (read w.mem p n))) := by
  unfold cryptHmac
  dsimp only
  refine .rfun (by rfl) fun live₁ _ => ?_
  refine .rfun (by rfl) fun live₂ _ => ?_
  rw [checkAlgorithm_available hready.available]
  refine .rfun (by rfl) fun live₃ _ => ?_
  exact freshRun_value (freshRun_zucryptHmac LH LM hkeep hready (.raw p n attrs)
    (.raw k l attrs') hdata hkey) (fun _ _ => rfl) st

/-- What it gives for a connection: the same of what the connection yields. -/
theorem freshRun_cryptHash_connection (LH : HashLaws h F) {algorithm : String}
    (hready : DigestReady h .zucHash algorithm H w s) {i : Nat} {st : RState}
    (hst : (st.connection i).Readable) :
    FreshRun h live w s (cryptHash (.connection i) (some algorithm) H st)
      (GivesDigest (zucAlgByName (some algorithm))
        (F (zucIntPsaHash (zucAlgByName (some algorithm))) (st.connection i).chunks.flatten)) := by
  have halg := digestAvailable_of_mem hready.available
  obtain ⟨hd, w₁, s₁, hnew, -, hhd, hc⟩ := exec_zucHashNew LH halg hready.ready hready.memory
  obtain ⟨stream, H₁, hstream, hat, hq⟩ := exec_streamNew (K := hashKind) false
    (zucAlgByName (some algorithm)) hready.still hnew
  unfold cryptHash
  dsimp only
  rw [checkAlgorithm_available hready.available]
  refine .rfun (by rfl) fun live₁ _ => ?_
  exact freshRun_digestConnection dispatches_hash (fun _ _ _ => trivial)
    (fun m => LH.length _ m halg) hst hstream hq hat hc hhd

/-- What it gives for a connection, under the same key. -/
theorem freshRun_cryptHmac_connection (LH : HashLaws h F) (LM : MacLaws h F)
    (hkeep : ∀ s n id alg K, LM.keyAt s id alg K → LM.keyAt (h _ (.allocRaw n) s).2 id alg K)
    {algorithm : String} (hready : DigestReady h .zucHmac algorithm H w s) {k l : Nat}
    {attrs : List (String × Sexp)} (hkey : l ≠ 0 → k ≠ NULL) {i : Nat} {st : RState}
    (hst : (st.connection i).Readable) :
    FreshRun h live w s (cryptHmac (.connection i) (.raw k l attrs) (some algorithm) H st)
      (GivesDigest (zucAlgByName (some algorithm))
        (hmacOf F (zucIntPsaHash (zucAlgByName (some algorithm))) (read w.mem k l)
          (st.connection i).chunks.flatten)) := by
  have halg := digestAvailable_of_mem hready.available
  obtain ⟨hd, w₁, s₁, hnew, -, hhd, hc⟩ := exec_zucHmacNew_collecting LH LM halg hready.ready
    k l (fun hnull => hkey hnull.2 hnull.1) hready.memory
  obtain ⟨stream, H₁, hstream, hat, hq⟩ := exec_streamNew (K := hmacKind) true
    (zucAlgByName (some algorithm)) hready.still hnew
  have husable : ∀ s n, (LM.stream (zucIntPsaHash (zucAlgByName (some algorithm))) hd.key
      (importedKey F (zucIntPsaHash (zucAlgByName (some algorithm))) (read w.mem k l))).usable s →
      LM.keyAt (h _ (.allocRaw n) s).2 hd.key (zucIntPsaHash (zucAlgByName (some algorithm)))
        (importedKey F (zucIntPsaHash (zucAlgByName (some algorithm))) (read w.mem k l)) :=
    fun s n hs => hkeep s n _ _ _ hs
  unfold cryptHmac
  dsimp only
  refine .rfun (by rfl) fun live₁ _ => ?_
  rw [checkAlgorithm_available hready.available]
  refine .rfun (by rfl) fun live₂ _ => ?_
  rw [← hmacOf_importedKey LH halg]
  exact freshRun_digestConnection dispatches_hmac husable (fun m => hmacOf_length LH halg _ m) hst
    hstream hq hat hc hhd

/-! ### Against any backend -/

variable {st st' : RState} {w' : World} {s' : σ}

/-- What a digest function has done that returned a value. -/
def DigestDone (h : Handler (Call O) σ) {κ Op : Type} (K : DigestKind O κ Op)
    (new : ZucAlg → Adapter O (ZucStatus × Option (StreamHandle κ Op))) (key : Option Sexp)
    (data : Source) (algorithm : Option String) (H : RHeap O) (st : RState) (w : World) (s : σ)
    (value : Sexp) : Prop :=
  ∃ name, algorithm = some name ∧
    match data with
    | .connection i => StreamRun h name key (st.connection i) H w s value
    | data =>
      let alg := zucAlgByName (some name)
      DigestRun h K (new alg) alg data.argument w s ⟨.ok, value⟩

/-- A digest object is made of a result that succeeded. -/
theorem digestValue_ok {algorithm : String} {r : NativeResult} {value : Sexp}
    (hrun : (digestValue algorithm r st : Adapter O _).exec h w s = ⟨(.ok value, st'), w', s'⟩) :
    r = ⟨.ok, value⟩ := by
  unfold digestValue at hrun
  by_cases hst : r.status = .ok
  · rw [if_neg (by simpa using hst)] at hrun
    obtain ⟨rfl, -⟩ := RFun.exec_pure_ok hrun
    rw [← hst]
  · rw [if_pos hst] at hrun
    exact (RFun.exec_raise_ok hrun).elim

/-- R's check gives the name back. -/
theorem checkAlgorithm_ok {algorithm : Option String} {name : String}
    (hcheck : checkAlgorithm algorithm = .ok name) : algorithm = some name := by
  cases algorithm with
  | none => simp [checkAlgorithm] at hcheck
  | some a =>
    unfold checkAlgorithm at hcheck
    dsimp only at hcheck
    split at hcheck
    · exact (nomatch hcheck)
    · rw [Except.ok.inj hcheck]

/-- A value of `crypt_hash` is what its native calls made, and none has failed. -/
theorem cryptHash_done {data : Source} {algorithm : Option String} {value : Sexp}
    (hrun : (cryptHash data algorithm H st).exec h w s = ⟨(.ok value, st'), w', s'⟩) :
    DigestDone h hashKind (zucHashNew · true) none data algorithm H st w s value := by
  unfold cryptHash at hrun
  have hraw : ∀ data : Source,
      ((do
        RFun.check (checkRawOrConnection data.argument "data")
        let algorithm ← RFun.check (checkAlgorithm algorithm)
        let res ← RFun.entry (zucryptHash data.argument algorithm) H
        digestValue algorithm res.1 : RFun O Sexp) st).exec h w s = ⟨(.ok value, st'), w', s'⟩ →
      ∃ name, algorithm = some name ∧
        DigestRun h hashKind (zucHashNew (zucAlgByName (some name)) true) (zucAlgByName (some name))
          data.argument w s ⟨.ok, value⟩ := by
    intro data hrun
    obtain ⟨_, st₁, w₁, s₁, hdata, hrest⟩ := RFun.exec_bind_ok hrun
    obtain ⟨name, st₂, w₂, s₂, hname, hrest₁⟩ := RFun.exec_bind_ok hrest
    obtain ⟨⟨res, H₁⟩, st₃, w₃, s₃, hcall, hrest₂⟩ := RFun.exec_bind_ok hrest₁
    obtain ⟨-, rfl, rfl, rfl⟩ := RFun.exec_check_ok hdata
    obtain ⟨halgorithm, rfl, rfl, rfl⟩ := RFun.exec_check_ok hname
    obtain ⟨hentry, -⟩ := exec_entry_ok hcall
    obtain rfl : res = ⟨.ok, value⟩ := digestValue_ok hrest₂
    refine ⟨name, checkAlgorithm_ok halgorithm, ?_⟩
    exact (digestCall_outcome hentry).resolve_left fun hfail => hfail.1 rfl
  cases data with
  | connection i =>
    obtain ⟨name, st₁, w₁, s₁, hname, hrest⟩ := RFun.exec_bind_ok hrun
    obtain ⟨halgorithm, rfl, rfl, rfl⟩ := RFun.exec_check_ok hname
    exact ⟨name, checkAlgorithm_ok halgorithm, digestConnection_run hrest⟩
  | sexp x => exact hraw (.sexp x) hrun
  | pemText bytes => exact hraw (.pemText bytes) hrun
  | path contents => exact hraw (.path contents) hrun

/-- The same of `crypt_hmac`. -/
theorem cryptHmac_done {data : Source} {key : Sexp} {algorithm : Option String} {value : Sexp}
    (hrun : (cryptHmac data key algorithm H st).exec h w s = ⟨(.ok value, st'), w', s'⟩) :
    DigestDone h hmacKind (zucHmacNew · key.RAW key.XLENGTH true) (some key) data algorithm H st w s
      value := by
  unfold cryptHmac at hrun
  have hraw : ∀ data : Source,
      ((do
        RFun.check (checkRawOrConnection data.argument "data")
        RFun.check (checkRaw key "key" none)
        let algorithm ← RFun.check (checkAlgorithm algorithm)
        let res ← RFun.entry (zucryptHmac data.argument key algorithm) H
        digestValue algorithm res.1 : RFun O Sexp) st).exec h w s = ⟨(.ok value, st'), w', s'⟩ →
      ∃ name, algorithm = some name ∧
        DigestRun h hmacKind (zucHmacNew (zucAlgByName (some name)) key.RAW key.XLENGTH true)
          (zucAlgByName (some name)) data.argument w s ⟨.ok, value⟩ := by
    intro data hrun
    obtain ⟨_, st₁, w₁, s₁, hdata, hrest⟩ := RFun.exec_bind_ok hrun
    obtain ⟨_, st₂, w₂, s₂, hkey, hrest₁⟩ := RFun.exec_bind_ok hrest
    obtain ⟨name, st₃, w₃, s₃, hname, hrest₂⟩ := RFun.exec_bind_ok hrest₁
    obtain ⟨⟨res, H₁⟩, st₄, w₄, s₄, hcall, hrest₃⟩ := RFun.exec_bind_ok hrest₂
    obtain ⟨-, rfl, rfl, rfl⟩ := RFun.exec_check_ok hdata
    obtain ⟨-, rfl, rfl, rfl⟩ := RFun.exec_check_ok hkey
    obtain ⟨halgorithm, rfl, rfl, rfl⟩ := RFun.exec_check_ok hname
    obtain ⟨hentry, -⟩ := exec_entry_ok hcall
    obtain rfl : res = ⟨.ok, value⟩ := digestValue_ok hrest₃
    refine ⟨name, checkAlgorithm_ok halgorithm, ?_⟩
    exact (digestCall_outcome hentry).resolve_left fun hfail => hfail.1 rfl
  -- a connection is read in chunks; all else is one vector
  cases data with
  | connection i =>
    obtain ⟨_, st₁, w₁, s₁, hkey, hrest⟩ := RFun.exec_bind_ok hrun
    obtain ⟨name, st₂, w₂, s₂, hname, hrest₁⟩ := RFun.exec_bind_ok hrest
    obtain ⟨-, rfl, rfl, rfl⟩ := RFun.exec_check_ok hkey
    obtain ⟨halgorithm, rfl, rfl, rfl⟩ := RFun.exec_check_ok hname
    exact ⟨name, checkAlgorithm_ok halgorithm, digestConnection_run hrest₁⟩
  | sexp x => exact hraw (.sexp x) hrun
  | pemText bytes => exact hraw (.pemText bytes) hrun
  | path contents => exact hraw (.path contents) hrun

/-- A value of a driver is that of its native calls, and none of those has failed. -/
structure FailsWhole (h : Handler (Call O) σ) : Prop where
  hash : ∀ {w w' s s'} {H H' : RHeap O} {data algorithm r},
    (zucryptHash data algorithm H).exec h w s = ⟨(some r, H'), w', s'⟩ →
    r.status ≠ .ok ∧ r.value = .null ∨
      DigestRun h hashKind (zucHashNew (zucAlgByName (some algorithm)) true)
        (zucAlgByName (some algorithm)) data w s r
  hmac : ∀ {w w' s s'} {H H' : RHeap O} {data key algorithm r},
    (zucryptHmac data key algorithm H).exec h w s = ⟨(some r, H'), w', s'⟩ →
    r.status ≠ .ok ∧ r.value = .null ∨
      DigestRun h hmacKind (zucHmacNew (zucAlgByName (some algorithm)) key.RAW key.XLENGTH true)
        (zucAlgByName (some algorithm)) data w s r
  cbc : ∀ {w w' s s'} {H H' : RHeap O} {data key iv encrypt r},
    (zucryptAesCbc data key iv encrypt H).exec h w s = ⟨(some r, H'), w', s'⟩ →
    r.status ≠ .ok ∧ r.value = .null ∨
      CbcRun h (if encrypt then .encrypt else .decrypt) data key iv w s r
  /-- the functions over them raise a condition in the other case -/
  cryptHash : ∀ {w w' s s'} {H : RHeap O} {st st' data algorithm value},
    (cryptHash data algorithm H st).exec h w s = ⟨(.ok value, st'), w', s'⟩ →
    DigestDone h hashKind (zucHashNew · true) none data algorithm H st w s value
  cryptHmac : ∀ {w w' s s'} {H : RHeap O} {st st' data key algorithm value},
    (cryptHmac data key algorithm H st).exec h w s = ⟨(.ok value, st'), w', s'⟩ →
    DigestDone h hmacKind (zucHmacNew · key.RAW key.XLENGTH true) (some key) data algorithm H st w s
      value

/-! ### The drivers -/

/-- An entry point leaves the digest that one call over the whole input gives, into whatever
buffer that is called with. -/
def LeavesSame (alg : ZucAlg) (data : Sexp) (w : World) (h : Handler (Call O) σ)
    (compute : Nat → Nat → SizeCell → Adapter O (ZucStatus × SizeCell))
    (r : Outcome (Option NativeResult × RHeap O) World σ) : Prop :=
  ∃ p H', r.value = (some ⟨.ok, .raw p (zucAlgSize alg) []⟩, H') ∧
    ∀ s out outSize len, DigestArgs w alg data.RAW data.XLENGTH out outSize →
      let one := (compute out outSize (some len)).exec h w s
      one.value = (.ok, some (zucAlgSize alg)) ∧
        read r.world.mem p (zucAlgSize alg) = read one.world.mem out (zucAlgSize alg)

/-- What the functions that work in chunks promise, against one backend. -/
structure DriversAgree (h : Handler (Call O) σ) (F : PsaAlg → List Byte → List Byte)
    (C : List Byte → BlockCipher AesBlock) : Prop where
  hash : ∀ {live w s} {H : RHeap O} {algorithm data}, DigestReady h .zucHash algorithm H w s →
    (data.XLENGTH ≠ 0 → data.RAW ≠ NULL) →
    FreshRun h live w s (zucryptHash data algorithm H)
      (LeavesSame (zucAlgByName (some algorithm)) data w h fun out outSize len =>
        zucHashCompute (zucAlgByName (some algorithm)) data.RAW data.XLENGTH out outSize len)
  hmac : ∀ {live w s} {H : RHeap O} {algorithm data key}, DigestReady h .zucHmac algorithm H w s →
    (data.XLENGTH ≠ 0 → data.RAW ≠ NULL) → (key.XLENGTH ≠ 0 → key.RAW ≠ NULL) →
    FreshRun h live w s (zucryptHmac data key algorithm H)
      (LeavesSame (zucAlgByName (some algorithm)) data w h fun out outSize len =>
        zucHmacCompute (zucAlgByName (some algorithm)) key.RAW key.XLENGTH data.RAW data.XLENGTH out
          outSize len)
  /-- `zucrypt_aes_cbc`: one pass of CBC, from the initialisation vector -/
  cbc : ∀ {live w s} {H : RHeap O} {data key iv encrypt}, H.jump = none →
    data.XLENGTH ≤ R.VECTOR_MAX → (data.RAW, data.XLENGTH) ∈ live →
    FreshRun h live w s (zucryptAesCbc data key iv encrypt H) fun r =>
      LeavesBytes (cbcBytes (C (key.bytes w.mem)) (if encrypt then .encrypt else .decrypt)
        (blockAt w.mem iv.RAW) (data.bytes w.mem)) r ∧
      WritesOneVector live data.XLENGTH w r ∧
      (CbcArgs w data key iv → (h _ (.calloc .zucAes) s).1 ≠ none →
        ∃ res H', r.value = (some res, H') ∧ res.status = .ok)
  /-- `crypt_hash` of a connection, and of a raw vector of what that yields -/
  hashConnection : ∀ {live live' w w' s s'} {H H' : RHeap O} {algorithm i st st' p n attrs},
    (st.connection i).Readable → (n ≠ 0 → p ≠ NULL) →
    read w'.mem p n = (st.connection i).chunks.flatten →
    DigestReady h .zucHash algorithm H w s → DigestReady h .zucHash algorithm H' w' s' →
    ∃ d, FreshRun h live w s (cryptHash (.connection i) (some algorithm) H st)
        (GivesDigest (zucAlgByName (some algorithm)) d) ∧
      FreshRun h live' w' s' (cryptHash (.sexp (.raw p n attrs)) (some algorithm) H' st')
        (GivesDigest (zucAlgByName (some algorithm)) d) ∧
      d = F (zucIntPsaHash (zucAlgByName (some algorithm))) (st.connection i).chunks.flatten
  hmacConnection : ∀ {live live' w w' s s'} {H H' : RHeap O}
      {algorithm i st st' p n attrs k l kattrs k' l' kattrs'},
    (st.connection i).Readable → (n ≠ 0 → p ≠ NULL) → (l ≠ 0 → k ≠ NULL) → (l' ≠ 0 → k' ≠ NULL) →
    read w'.mem p n = (st.connection i).chunks.flatten → read w'.mem k' l' = read w.mem k l →
    DigestReady h .zucHmac algorithm H w s → DigestReady h .zucHmac algorithm H' w' s' →
    ∃ d, FreshRun h live w s (cryptHmac (.connection i) (.raw k l kattrs) (some algorithm) H st)
        (GivesDigest (zucAlgByName (some algorithm)) d) ∧
      FreshRun h live' w' s'
        (cryptHmac (.sexp (.raw p n attrs)) (.raw k' l' kattrs') (some algorithm) H' st')
        (GivesDigest (zucAlgByName (some algorithm)) d) ∧
      d = hmacOf F (zucIntPsaHash (zucAlgByName (some algorithm))) (read w.mem k l)
        (st.connection i).chunks.flatten

/-- The slices of a vector are in it, one after the other, and are all of it. -/
def SlicesCover (total : Nat) : Prop :=
  (∀ c ∈ slices total 0, 0 < c.2 ∧ c.2 ≤ ZUCRYPT_CHUNK ∧ c.1 + c.2 ≤ total) ∧
    ∀ m p, (slices total 0).flatMap (fun c => read m (p + c.1) c.2) = read m p total

/-- The slices of a vector cover it. -/
theorem slicesCover (total : Nat) : SlicesCover total := by
  refine ⟨fun c hc => (slices_within c hc).2, fun m p => ?_⟩
  rw [slices_read m p (Nat.zero_le total)]
  rfl

/-- What fails gives nothing, whatever the backend does. -/
theorem failsWhole (h : Handler (Call O) σ) : FailsWhole h where
  hash hrun := digestCall_outcome hrun
  hmac hrun := digestCall_outcome hrun
  cbc hrun := zucryptAesCbc_outcome hrun
  cryptHash hrun := cryptHash_done hrun
  cryptHmac hrun := cryptHmac_done hrun

/-- What succeeds gives what the computation at once does. -/
theorem driversAgree (LH : HashLaws h F) (LM : MacLaws h F) (LC : CbcLaws h C) (hC : CbcSucceeds LC)
    (hkeepMac : ∀ s n id alg K, LM.keyAt s id alg K → LM.keyAt (h _ (.allocRaw n) s).2 id alg K)
    (hkeepAes : ∀ s n id K, LC.keyAt s id K → LC.keyAt (h _ (.allocRaw n) s).2 id K) :
    DriversAgree h F C where
  hash hready hdata := (freshRun_zucryptHash LH hready _ hdata).mono fun r hr => by
    obtain ⟨p, H', hvalue, hread⟩ := hr
    refine ⟨p, H', hvalue, fun s out outSize len ha => ?_⟩
    obtain ⟨hone, hout⟩ := exec_zucHashCompute LH ha s len
    exact ⟨hone, hread.trans hout.symm⟩
  hmac hready hdata hkey := (freshRun_zucryptHmac LH LM hkeepMac hready _ _ hdata hkey).mono fun r hr => by
    obtain ⟨p, H', hvalue, hread⟩ := hr
    refine ⟨p, H', hvalue, fun s out outSize len ha => ?_⟩
    obtain ⟨hone, hout⟩ := exec_zucHmacCompute LH LM ha (fun hnull => hkey hnull.2 hnull.1) s len
    exact ⟨hone, hread.trans hout.symm⟩
  cbc hq hdata hlive := (freshRun_zucryptAesCbc LC hq hkeepAes _ _ _ _ hdata hlive).mono fun r hr =>
    ⟨hr.1, hr.2.1, hr.2.2 hC⟩
  hashConnection hst hdata hcontents hready hready' := by
    refine ⟨_, freshRun_cryptHash_connection LH hready hst, ?_, rfl⟩
    rw [← hcontents]
    exact freshRun_cryptHash_raw LH hready' hdata _
  hmacConnection hst hdata hkey hkey' hcontents hkeys hready hready' := by
    refine ⟨_, freshRun_cryptHmac_connection LH LM hkeepMac hready hkey hst, ?_, rfl⟩
    rw [← hcontents, ← hkeys]
    exact freshRun_cryptHmac_raw LH LM hkeepMac hready' hdata hkey' _

/-! ### Against the reference backend -/

theorem referenceCbcSucceeds (P : Primitives) : CbcSucceeds (referenceCbcLaws P) where
  importKey s K _ := rfl
  setup s dir id K hkey := by
    have hkey : s.find id = some (aesKeyAttributes .cbcNoPadding, K) := hkey
    cases dir with
    | encrypt =>
      simp only [answer, cipherSetup, referenceBackend, referencePsa, hkey]
    | decrypt =>
      simp only [answer, cipherSetup, referenceBackend, referencePsa, hkey]
  setIv s op dir K iv hop := by
    subst hop
    rfl
  update s op dir K iv bs size hop _ _ := by
    subst hop
    rfl
  finish s op rest size hop _ := by
    obtain ⟨rfl, rfl⟩ := hop
    rfl

/-- Vectors, each in memory that neither an older one nor one of `live` has a part of. -/
def AllApart (live : List (Nat × Nat)) : List (Nat × Nat) → Prop
  | [] => True
  | v :: vs =>
    (ValidBuffer v.1 v.2 ∧ ∀ u ∈ live, Apart v.1 v.2 u.1 u.2) ∧ AllApart (v :: live) vs

/-- A run is one of an allocator if the vectors it made are apart from the live ones and each other.
-/
theorem freshVectors_of {t : List (Event (Call O))} {vs : List (Nat × Nat)}
    (hmade : t.filterMap madeVector = vs) (hapart : AllApart live vs) : FreshVectors live t := by
  induction t generalizing live vs with
  | nil => trivial
  | cons e t ih =>
    subst hmade
    cases he : madeVector e with
    | none =>
      rw [List.filterMap_cons_none he] at hapart
      refine ⟨fun v hv => ?_, ?_⟩
      · rw [he] at hv
        cases hv
      · rw [he]
        exact ih rfl hapart
    | some v =>
      rw [List.filterMap_cons_some he] at hapart
      obtain ⟨hv, hrest⟩ := hapart
      refine ⟨fun u hu _ => ?_, ?_⟩
      · rw [he] at hu
        rw [← Option.some.inj hu]
        exact hv
      · rw [he]
        exact ih rfl hrest

/-- A run that makes one vector, of memory no other has a part of. -/
theorem freshVectors_one {t : List (Event (Call O))} {v : Nat × Nat}
    (hmade : t.filterMap madeVector = [v]) (hvalid : ValidBuffer v.1 v.2)
    (hapart : ∀ u ∈ live, Apart v.1 v.2 u.1 u.2) : FreshVectors live t :=
  freshVectors_of hmade ⟨⟨hvalid, hapart⟩, trivial⟩

/-- **Chunked and streamed drivers agree with the computation at once**, and fail where one of
their chunks fails. -/
theorem chunked_drivers_agree (LH : HashLaws h F) (LM : MacLaws h F) (LC : CbcLaws h C)
    (hC : CbcSucceeds LC)
    (hkeepMac : ∀ s n id alg K, LM.keyAt s id alg K → LM.keyAt (h _ (.allocRaw n) s).2 id alg K)
    (hkeepAes : ∀ s n id K, LC.keyAt s id K → LC.keyAt (h _ (.allocRaw n) s).2 id K) :
    DriversAgree h F C ∧ (∀ {τ : Type} (h' : Handler (Call O) τ), FailsWhole h') ∧
      ∀ total, SlicesCover total :=
  ⟨driversAgree LH LM LC hC hkeepMac hkeepAes, failsWhole, slicesCover⟩

/-- The published block of AES-128-CBC, by `zucrypt_aes_cbc`; and SHA-256 of `abc`, by `crypt_hash`
of a connection that yields it in two chunks, and of a raw vector. -/
theorem chunked_drivers_agree_known :
    let h := referenceBackend knownPrimitives
    let H : RHeap referenceObjects := ⟨[], none⟩
    let c : Connection := ⟨true, none, .works, true, true, [[0x61], [0x62, 0x63]], .complete, by decide⟩
    let w : World := { readyWorld with mem := write readyWorld.mem 0x300 [0x61, 0x62, 0x63] }
    let r := (zucryptAesCbc (.raw 0x300 16 []) (.raw 0x100 16 []) (.raw 0x200 16 []) true H).exec h
      aesKnownWorld .initial
    (LeavesBytes aesKnownOutput.1 r ∧ ∃ res H', r.value = (some res, H') ∧ res.status = .ok) ∧
    GivesDigest .sha256 abcDigest
      ((cryptHash (.connection 0) (some "sha256") H ⟨fun _ => c⟩).exec h readyWorld .initial) ∧
    GivesDigest .sha256 abcDigest
      ((cryptHash (.sexp (.raw 0x300 3 [])) (some "sha256") H ⟨fun _ => c⟩).exec h w .initial) := by
  intro h H c w r
  obtain ⟨hagree, -, -⟩ := chunked_drivers_agree (h := h) (referenceHashLaws knownPrimitives)
    (referenceMacLaws knownPrimitives) (referenceCbcLaws knownPrimitives)
    (referenceCbcSucceeds knownPrimitives) (fun _ _ _ _ _ hkey => hkey) (fun _ _ _ _ hkey => hkey)
  refine ⟨?_, ?_⟩
  · have hlive : ((Sexp.raw 0x300 16 []).RAW, (Sexp.raw 0x300 16 []).XLENGTH) ∈ [(0x300, 16)] := by decide
    have hrun : FreshRun h [(0x300, 16)] aesKnownWorld .initial
        (zucryptAesCbc (.raw 0x300 16 []) (.raw 0x100 16 []) (.raw 0x200 16 []) true H) _ :=
      hagree.cbc rfl (by decide) hlive
    have hargs : CbcArgs aesKnownWorld (.raw 0x300 16 []) (.raw 0x100 16 []) (.raw 0x200 16 []) :=
      ⟨by decide, by decide, .inl rfl, by decide, ⟨by decide, by decide⟩, by decide⟩
    obtain ⟨hbytes, -, hok⟩ := hrun (freshVectors_one (v := (0x11000, 16)) (by decide +kernel)
      ⟨by decide, by decide⟩ (by unfold Apart; decide))
    have hvalue : cbcBytes (knownPrimitives.cipher ((Sexp.raw 0x100 16 []).bytes aesKnownWorld.mem))
        .encrypt (blockAt aesKnownWorld.mem 0x200) ((Sexp.raw 0x300 16 []).bytes aesKnownWorld.mem) =
        aesKnownOutput.1 := by decide +kernel
    refine ⟨?_, hok hargs (by decide +kernel)⟩
    rw [← hvalue]
    exact hbytes
  · have hc : c.Readable := ⟨rfl, .inl rfl, rfl, rfl, rfl, by decide⟩
    have hready (w : World) (hw : 0 < w.refcount) : DigestReady h .zucHash "sha256" H w .initial :=
      ⟨by decide +kernel, hw, by decide +kernel, rfl⟩
    obtain ⟨d, hconnection, hraw, hd⟩ : ∃ d,
        FreshRun h [] readyWorld .initial (cryptHash (.connection 0) (some "sha256") H ⟨fun _ => c⟩)
          (GivesDigest .sha256 d) ∧
        FreshRun h [] w .initial (cryptHash (.sexp (.raw 0x300 3 [])) (some "sha256") H ⟨fun _ => c⟩)
          (GivesDigest .sha256 d) ∧
        d = knownPrimitives.hash (zucIntPsaHash .sha256) c.chunks.flatten :=
      hagree.hashConnection hc (by decide) (by decide +kernel) (hready _ (by decide))
        (hready _ (by decide))
    have hvalue : d = abcDigest := hd.trans (by decide +kernel)
    rw [hvalue] at hconnection hraw
    have hapart : AllApart [] [(0x11000, 1), (0x11001, 2), (0x11003, 32)] :=
      ⟨⟨⟨by decide, by decide⟩, by simp⟩, ⟨⟨by decide, by decide⟩, by simp [Apart]⟩,
        ⟨⟨by decide, by decide⟩, by simp [Apart]⟩, trivial⟩
    refine ⟨hconnection (freshVectors_of (by decide +kernel) hapart), hraw (freshVectors_one
      (v := (0x11000, 32)) (by decide +kernel) ⟨by decide, by decide⟩ (by simp))⟩

end Zucrypt
