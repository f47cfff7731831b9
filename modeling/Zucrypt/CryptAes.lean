import Zucrypt.ChunkedDrivers

/-! # AES-CBC in R

`R/aes.R` and the checks it makes (`R/conditions.R`).  Arguments are looked at in one order, the
first that is wrong raises, and nothing has been called then.  What is decrypted is what was
encrypted, wherever the vectors are by then.

`crypt_aes_cbc_round_trip` has the two parts.  The first is of any three objects: `aesProblem` names
the argument that is wrong, and the condition is of its class and names the algorithm.  The second
is of a run that passes: the result is a new vector with one pass of CBC, the three vectors keep
their bytes, and a later decryption of that result with the same key and initialisation vector, at
whatever addresses and in whatever state of the library, gives the data back.

The backend's passes are CBC and do not fail (`CbcLaws`, `CbcSucceeds`), and a key survives the
making of the result's vector (`hkeep`).  Vectors are apart from one another as R's are
(`CbcVectors`). -/
namespace Zucrypt
open Effects ByteMemory BlockChaining

variable {O : Objects} {σ : Type}

/-! ### Arguments -/

/-- `aes_algorithm`. -/
def aesAlgorithm (key : Sexp) : String :=
  if key.isRaw = true ∧ (8 * key.XLENGTH = 128 ∨ 8 * key.XLENGTH = 192 ∨ 8 * key.XLENGTH = 256) then
    "aes-" ++ toString (8 * key.XLENGTH) ++ "-cbc"
  else
    "aes-cbc"

/-- `check_aes_key`. -/
def checkAesKey (key : Sexp) : Except Condition Unit := do
  checkRaw key "key" (some "aes-cbc")
  if key.XLENGTH ≠ 16 ∧ key.XLENGTH ≠ 24 ∧ key.XLENGTH ≠ 32 then
    throw (zucryptAbort "zucrypt_bad_length"
      ("`key` must be 16, 24 or 32 bytes (AES-128, AES-192 or " ++
        "AES-256), not " ++ toString key.XLENGTH ++ ". This function takes a key, never a " ++
        "password: deriving one is the caller's responsibility.") (some "aes-cbc") none)

/-- `check_aes_iv`. -/
def checkAesIv (iv : Sexp) (algorithm : String) : Except Condition Unit := do
  checkRaw iv "iv" (some algorithm)
  if iv.XLENGTH ≠ 16 then
    throw (zucryptAbort "zucrypt_bad_length"
      ("`iv` must be exactly 16 bytes, not " ++ toString iv.XLENGTH ++ ".") (some algorithm) none)

/-- `check_block_multiple`. -/
def checkBlockMultiple (data : Sexp) (algorithm : String) : Except Condition Unit := do
  checkRaw data "data" (some algorithm)
  if data.XLENGTH % 16 ≠ 0 then
    throw (zucryptAbort "zucrypt_bad_length"
      ("`data` must be a multiple of 16 bytes, not " ++ toString data.XLENGTH ++ ". " ++
        "No padding is added or removed; if your format uses " ++ "PKCS#7, apply it yourself.")
      (some algorithm) none)

/-! ### The functions -/

/-- `crypt_aes_cbc_encrypt_nopad` and `crypt_aes_cbc_decrypt_nopad`. -/
def cryptAesCbcNopad (encrypt : Bool) (data key iv : Sexp) (H : RHeap O) : RFun O Sexp := do
  RFun.check (checkAesKey key)
  let algorithm := aesAlgorithm key
  RFun.check (checkAesIv iv algorithm)
  RFun.check (checkBlockMultiple data algorithm)
  let res ← RFun.entry (zucryptAesCbc data key iv encrypt) H
  if res.1.status ≠ .ok then
    RFun.raise (abortNative res.1.status (some algorithm))
  else
    return res.1.value

/-- `crypt_aes_cbc_encrypt_nopad`. -/
def cryptAesCbcEncryptNopad (data key iv : Sexp) (H : RHeap O) : RFun O Sexp :=
  cryptAesCbcNopad true data key iv H

/-- `crypt_aes_cbc_decrypt_nopad`. -/
def cryptAesCbcDecryptNopad (data key iv : Sexp) (H : RHeap O) : RFun O Sexp :=
  cryptAesCbcNopad false data key iv H

/-! ### What is refused -/

/-- The arguments in the order they are looked at, and whether their length is right. -/
def aesArguments (data key iv : Sexp) : List (Sexp × Bool) :=
  [(key, key.XLENGTH == 16 || key.XLENGTH == 24 || key.XLENGTH == 32), (iv, iv.XLENGTH == 16),
    (data, data.XLENGTH % 16 == 0)]

/-- The first argument that is no raw vector, or not of a right length. -/
def aesProblem (data key iv : Sexp) : Option Sexp :=
  ((aesArguments data key iv).find? fun a => !(a.1.isRaw && a.2)).map Prod.fst

/-- What a condition about an argument says: its class, and the algorithm where that is known. -/
structure Complains (c : Condition) (x : Sexp) (algorithm : String) : Prop where
  cls : c.cls = if x.isRaw then "zucrypt_bad_length" else "zucrypt_invalid_argument"
  algorithm : c.algorithm = some algorithm

section
variable {x data key iv : Sexp} {algorithm : String}

/-- What is not a raw vector is named as the argument that is wrong. -/
theorem checkRaw_complains (hx : x.isRaw = false) (arg algorithm : String) :
    ∃ c, checkRaw x arg (some algorithm) = .error c ∧ Complains c x algorithm := by
  refine ⟨_, if_pos hx, ?_, rfl⟩
  rw [hx]
  rfl

/-- A check of the type and then of the length. -/
theorem check_length {p : Prop} [Decidable p] {arg message : String} {ok : Bool}
    (hp : p ↔ ok = false) {e : Except Condition Unit}
    (he : e = (do
      checkRaw x arg (some algorithm)
      if p then
        throw (zucryptAbort "zucrypt_bad_length" message (some algorithm) none))) :
    (x.isRaw && ok) = true ∧ e = .ok () ∨
      (x.isRaw && ok) = false ∧ ∃ c, e = .error c ∧ Complains c x algorithm := by
  subst he
  cases hx : x.isRaw with
  | false =>
    obtain ⟨c, hc, hcomplains⟩ := checkRaw_complains hx arg algorithm
    refine .inr ⟨rfl, c, ?_, hcomplains⟩
    rw [hc]
    rfl
  | true =>
    rw [checkRaw_ok hx]
    cases hok : ok with
    | false =>
      refine .inr ⟨rfl, _, if_pos (hp.mpr hok), ?_, rfl⟩
      rw [hx]
      rfl
    | true =>
      refine .inl ⟨rfl, if_neg fun h => ?_⟩
      rw [hp.mp h] at hok
      cases hok

/-- A key passes if it is raw and has one of three lengths. -/
theorem checkAesKey_cases (key : Sexp) :
    let ok := key.XLENGTH == 16 || key.XLENGTH == 24 || key.XLENGTH == 32
    (key.isRaw && ok) = true ∧ checkAesKey key = .ok () ∨
      (key.isRaw && ok) = false ∧ ∃ c, checkAesKey key = .error c ∧ Complains c key "aes-cbc" := by
  intro ok
  refine check_length ?_ rfl
  simp [ok, and_assoc]

/-- An initialisation vector passes if it is raw and one block. -/
theorem checkAesIv_cases (iv : Sexp) (algorithm : String) :
    (iv.isRaw && iv.XLENGTH == 16) = true ∧ checkAesIv iv algorithm = .ok () ∨
      (iv.isRaw && iv.XLENGTH == 16) = false ∧
        ∃ c, checkAesIv iv algorithm = .error c ∧ Complains c iv algorithm :=
  check_length (by simp) rfl

/-- Data passes if it is raw and whole blocks. -/
theorem checkBlockMultiple_cases (data : Sexp) (algorithm : String) :
    (data.isRaw && data.XLENGTH % 16 == 0) = true ∧ checkBlockMultiple data algorithm = .ok () ∨
      (data.isRaw && data.XLENGTH % 16 == 0) = false ∧
        ∃ c, checkBlockMultiple data algorithm = .error c ∧ Complains c data algorithm :=
  check_length (by simp) rfl

/-- The label of a key that has no length of AES's. -/
theorem aesAlgorithm_of_wrong
    (h : (key.isRaw && (key.XLENGTH == 16 || key.XLENGTH == 24 || key.XLENGTH == 32)) = false) :
    aesAlgorithm key = "aes-cbc" := by
  refine if_neg fun hkey => ?_
  simp only [hkey.1, Bool.true_and, Bool.or_eq_false_iff, beq_eq_false_iff_ne] at h
  omega

end

section
variable {h : Handler (Call O) σ} {w : World} {s : σ} {data key iv : Sexp} {H : RHeap O}
  {st : RState}

/-- The first argument that is wrong raises, before anything is called; if there is none, the
entry point is called. -/
theorem cryptAesCbcNopad_cases (data key iv : Sexp) (encrypt : Bool) :
    (aesProblem data key iv = none ∧
      ∀ (H : RHeap O) (st : RState), cryptAesCbcNopad encrypt data key iv H st =
        (RFun.entry (zucryptAesCbc data key iv encrypt) H >>= fun res =>
          if res.1.status ≠ .ok then RFun.raise (abortNative res.1.status (some (aesAlgorithm key)))
          else pure res.1.value) st) ∨
    ∃ x c, aesProblem data key iv = some x ∧ Complains c x (aesAlgorithm key) ∧
      ∀ (H : RHeap O) (st : RState), cryptAesCbcNopad encrypt data key iv H st = pure (.error c, st) := by
  unfold aesProblem aesArguments cryptAesCbcNopad
  rcases checkAesKey_cases key with ⟨hkey, hcheckKey⟩ | ⟨hkey, c, hcheckKey, hc⟩
  · rcases checkAesIv_cases iv (aesAlgorithm key) with ⟨hiv, hcheckIv⟩ | ⟨hiv, c, hcheckIv, hc⟩
    · rcases checkBlockMultiple_cases data (aesAlgorithm key) with
        ⟨hdata, hcheckData⟩ | ⟨hdata, c, hcheckData, hc⟩
      · refine .inl ⟨?_, fun H st => ?_⟩
        · simp only [List.find?, Option.map, hkey, hiv, hdata, Bool.not_true]
        · simp only [hcheckKey, hcheckIv, hcheckData]
          rfl
      · refine .inr ⟨data, c, ?_, hc, fun H st => ?_⟩
        · simp only [List.find?, Option.map, hkey, hiv, hdata, Bool.not_true, Bool.not_false]
        · simp only [hcheckKey, hcheckIv, hcheckData]
          rfl
    · refine .inr ⟨iv, c, ?_, hc, fun H st => ?_⟩
      · simp only [List.find?, Option.map, hkey, hiv, Bool.not_true, Bool.not_false]
      · simp only [hcheckKey, hcheckIv]
        rfl
  · refine .inr ⟨key, c, ?_, ?_, fun H st => ?_⟩
    · simp only [List.find?, Option.map, hkey, Bool.not_false]
    · rw [aesAlgorithm_of_wrong hkey]
      exact hc
    · rw [hcheckKey]
      rfl

/-! ### What is computed -/

/-- What a caller passes, in vectors R knows of, to a library that is ready and has memory. -/
structure CbcVectors (h : Handler (Call O) σ) (H : RHeap O) (live : List (Nat × Nat)) (w : World)
    (s : σ) (data key iv : Sexp) : Prop where
  still : H.jump = none
  ready : 0 < w.refcount
  memory : (h _ (.calloc .zucAes) s).1 ≠ none
  accepted : aesProblem data key iv = none
  buffers : ∀ x ∈ [data, key, iv], ValidBuffer x.RAW x.XLENGTH ∧ x.XLENGTH ≤ R.VECTOR_MAX ∧
    (x.RAW, x.XLENGTH) ∈ live

/-- Vectors that pass are arguments of the entry point. -/
theorem CbcVectors.args (hv : CbcVectors h H live w s data key iv) :
    CbcArgs w data key iv ∧ iv.XLENGTH = 16 := by
  have hall := hv.accepted
  simp only [aesProblem, aesArguments, Option.map_eq_none_iff, List.find?_eq_none, List.mem_cons, List.not_mem_nil, or_false,
    forall_eq_or_imp, forall_eq, Bool.not_eq_true', Bool.not_eq_false, Bool.and_eq_true,
    Bool.or_eq_true, beq_iff_eq] at hall
  obtain ⟨⟨-, hkey⟩, ⟨-, hiv⟩, -, hdata⟩ := hall
  have hbuffer := fun x hx => (hv.buffers x hx).1
  refine ⟨⟨hv.ready, (hbuffer key (by simp)).1, ?_, (hbuffer iv (by simp)).1,
    hbuffer data (by simp), hdata⟩, hiv⟩
  unfold IsAesKeySize ZUC_AES_KEY_SIZE_128 ZUC_AES_KEY_SIZE_192 ZUC_AES_KEY_SIZE_256
  omega

/-- A vector the entry point was given keeps its bytes. -/
theorem WritesOneVector.bytes {r : Outcome (Option NativeResult × RHeap O) World σ} {n : Nat}
    (hr : WritesOneVector live n w r) {x : Sexp} (hx : (x.RAW, x.XLENGTH) ∈ live) :
    x.bytes r.world.mem = x.bytes w.mem := by
  rcases hr with hsame | ⟨out, hapart, hframe⟩
  · rw [hsame]
  · have hx := hapart _ hx
    refine read_congr fun i hi hi' => hframe i ?_
    unfold Apart at hx
    dsimp only at hx
    omega

/-- What R gets for its three vectors: CBC of the data in a vector of its own, and the
vectors as they were. -/
theorem freshRun_cryptAesCbcNopad {C : List Byte → BlockCipher AesBlock} (L : CbcLaws h C)
    (S : CbcSucceeds L)
    (hkeep : ∀ s n id K, L.keyAt s id K → L.keyAt (h _ (.allocRaw n) s).2 id K)
    (hv : CbcVectors h H live w s data key iv) (encrypt : Bool) :
    FreshRun h live w s (cryptAesCbcNopad encrypt data key iv H st) fun r =>
      ∃ p, r.value = (.ok (.raw p data.XLENGTH []), st) ∧
        read r.world.mem p data.XLENGTH =
          cbcBytes (C (key.bytes w.mem)) (if encrypt then .encrypt else .decrypt)
            (blockAt w.mem iv.RAW) (data.bytes w.mem) ∧
        ∀ x ∈ [data, key, iv], x.bytes r.world.mem = x.bytes w.mem := by
  have hargs := hv.args.1
  have hdata := (hv.buffers data (by simp)).2
  rcases cryptAesCbcNopad_cases (O := O) data key iv encrypt with ⟨-, hrun⟩ | ⟨a, c, ha, -⟩
  · rw [hrun]
    have hentry := freshRun_zucryptAesCbc (w := w) (s := s) L hv.still hkeep data key iv encrypt
      hdata.1 hdata.2
    have hlength : (cbcBytes (C (key.bytes w.mem)) (if encrypt then .encrypt else .decrypt)
        (blockAt w.mem iv.RAW) (data.bytes w.mem)).length = data.XLENGTH := by
      rw [length_cbcBytes (by decide) _ _ (by rw [Sexp.bytes, length_read]; exact hargs.whole),
        Sexp.bytes, length_read]
    show FreshRun h live w s (RFun.seq (RFun.entry _ H) _ st) _
    unfold RFun.seq
    -- in C first; then R passes on what came
    refine FreshRun.andThen (R := fun r => ∃ p H', r.value = (.ok (⟨.ok, .raw p data.XLENGTH []⟩, H'), st) ∧
      read r.world.mem p data.XLENGTH = cbcBytes (C (key.bytes w.mem)) (if encrypt then .encrypt else .decrypt)
        (blockAt w.mem iv.RAW) (data.bytes w.mem) ∧
      ∀ x ∈ [data, key, iv], x.bytes r.world.mem = x.bytes w.mem) ?_ ?_
    · unfold RFun.entry
      refine FreshRun.andThen hentry ?_
      rintro r ⟨⟨res, H', hvalue, hbytes⟩, hwrites, hok⟩
      obtain ⟨res', H'', hvalue', hst⟩ := hok S hargs hv.memory
      obtain ⟨rfl, rfl⟩ : res' = res ∧ H'' = H' := by
        rw [hvalue] at hvalue'
        exact ⟨(Option.some.inj (congrArg Prod.fst hvalue')).symm, (congrArg Prod.snd hvalue').symm⟩
      rcases hbytes with ⟨hst', -⟩ | ⟨p, rfl, hread⟩
      · exact absurd hst hst'
      · rw [hlength] at hread hvalue
        refine ⟨p, H'', ?_, ?_, fun x hx => ?_⟩
        · rw [hvalue]
          rfl
        · rw [hvalue]
          exact hread
        · rw [hvalue]
          exact hwrites.bytes (hv.buffers x hx).2.2
    · rintro r ⟨p, H', hvalue, hread, hsame⟩
      refine ⟨p, ?_, ?_, ?_⟩
      · rw [hvalue]
        rfl
      · rw [hvalue]
        exact hread
      · rw [hvalue]
        exact hsame
  · rw [hv.accepted] at ha
    cases ha

end

/-- **R's AES-CBC gives back what it was given.**  Arguments that are wrong are refused before
anything is called, the first of them named by its class; others are encrypted, as one pass of
CBC and leaving all vectors alone, and the same key and initialisation vector decrypt the result,
wherever the three are in memory by then. -/
theorem crypt_aes_cbc_round_trip {h : Handler (Call O) σ} {C : List Byte → BlockCipher AesBlock}
    (L : CbcLaws h C) (S : CbcSucceeds L)
    (hkeep : ∀ s n id K, L.keyAt s id K → L.keyAt (h _ (.allocRaw n) s).2 id K) :
    (∀ data key iv x encrypt, aesProblem data key iv = some x →
      ∃ c, Complains c x (aesAlgorithm key) ∧ ∀ (H : RHeap O) st w s,
        (cryptAesCbcNopad encrypt data key iv H st).exec h w s = ⟨(.error c, st), w, s⟩) ∧
    ∀ {live w s} {H : RHeap O} {st data key iv}, CbcVectors h H live w s data key iv →
      FreshRun h live w s (cryptAesCbcEncryptNopad data key iv H st) fun r =>
        ∃ p, r.value = (.ok (.raw p data.XLENGTH []), st) ∧
          read r.world.mem p data.XLENGTH =
            cbcBytes (C (key.bytes w.mem)) .encrypt (blockAt w.mem iv.RAW) (data.bytes w.mem) ∧
          (∀ x ∈ [data, key, iv], x.bytes r.world.mem = x.bytes w.mem) ∧
          ∀ {live' w' s'} {H' : RHeap O} {st' data' key' iv'},
            CbcVectors h H' live' w' s' data' key' iv' →
            data'.bytes w'.mem = read r.world.mem p data.XLENGTH →
            key'.bytes w'.mem = key.bytes w.mem → iv'.bytes w'.mem = iv.bytes w.mem →
            FreshRun h live' w' s' (cryptAesCbcDecryptNopad data' key' iv' H' st') fun r' =>
              ∃ p', r'.value = (.ok (.raw p' data.XLENGTH []), st') ∧
                read r'.world.mem p' data.XLENGTH = data.bytes w.mem ∧
                ∀ x ∈ [data', key', iv'], x.bytes r'.world.mem = x.bytes w'.mem := by
  constructor
  · intro data key iv x encrypt hx
    rcases cryptAesCbcNopad_cases (O := O) data key iv encrypt with ⟨hnone, -⟩ | ⟨y, c, hy, hc, hrun⟩
    · rw [hnone] at hx
      cases hx
    · obtain rfl := Option.some.inj (hy.symm.trans hx)
      refine ⟨c, hc, fun H st w s => ?_⟩
      rw [hrun, Proc.exec_pure]
  · intro live w s H st data key iv hv
    refine (freshRun_cryptAesCbcNopad L S hkeep hv true).mono ?_
    rintro r ⟨p, hvalue, hread, hsame⟩
    refine ⟨p, hvalue, hread, hsame, ?_⟩
    intro live' w' s' H' st' data' key' iv' hv' hdata hkey hiv
    have hlength : data'.XLENGTH = data.XLENGTH := by
      have hlengths := congrArg List.length hdata
      rwa [Sexp.bytes, length_read, length_read] at hlengths
    -- the same block, although in another vector
    have hblock : blockAt w'.mem iv'.RAW = blockAt w.mem iv.RAW := by
      unfold Sexp.bytes at hiv
      rw [hv.args.2, hv'.args.2] at hiv
      exact Subtype.ext hiv
    refine (freshRun_cryptAesCbcNopad L S hkeep hv' false).mono ?_
    rintro r' ⟨p', hvalue', hread', hsame'⟩
    rw [hlength] at hvalue' hread'
    refine ⟨p', hvalue', ?_, hsame'⟩
    rw [hread', hdata, hkey, hblock, hread]
    exact cbcBytes_decrypt_encrypt (by decide) _
      (by rw [Sexp.bytes, length_read]; exact hv.args.1.whole)

/-- The published block of AES-128-CBC, encrypted from R. -/
def aesKnownEncrypted : Outcome (Except Condition Sexp × RState) World ReferenceState :=
  (cryptAesCbcEncryptNopad (.raw 0x300 16 []) (.raw 0x100 16 []) (.raw 0x200 16 []) ⟨[], none⟩
    noConnections).exec (referenceBackend knownPrimitives) aesKnownWorld .initial

/-- Vectors of the known run are apart from what it makes. -/
theorem aesKnown_buffers (place : Nat) (hplace : place ≠ NULL) (hsmall : place < 0x20000) :
    ∀ x ∈ [Sexp.raw place 16 [], .raw 0x100 16 [], .raw 0x200 16 []],
      ValidBuffer x.RAW x.XLENGTH ∧ x.XLENGTH ≤ R.VECTOR_MAX ∧
        (x.RAW, x.XLENGTH) ∈ [(place, 16), (0x100, 16), (0x200, 16)] := by
  intro x hx
  simp only [List.mem_cons, List.not_mem_nil, or_false] at hx
  rcases hx with rfl | rfl | rfl
  · exact ⟨⟨hplace, Nat.lt_trans (Nat.add_lt_add_right hsmall 16) (by decide)⟩,
      (by decide : 16 ≤ R.VECTOR_MAX), List.mem_cons_self⟩
  · exact ⟨⟨by decide, by decide⟩, by decide, List.mem_cons_of_mem _ List.mem_cons_self⟩
  · exact ⟨⟨by decide, by decide⟩, by decide,
      List.mem_cons_of_mem _ (List.mem_cons_of_mem _ List.mem_cons_self)⟩

/-- It is the block that is published, and is decrypted to what it was made of. -/
theorem crypt_aes_cbc_round_trip_known :
    read aesKnownEncrypted.world.mem 0x11000 16 = aesKnownOutput.1 ∧
      let r := (cryptAesCbcDecryptNopad (.raw 0x11000 16 []) (.raw 0x100 16 []) (.raw 0x200 16 [])
        ⟨[], none⟩ noConnections).exec (referenceBackend knownPrimitives) aesKnownEncrypted.world
          aesKnownEncrypted.env
      ∃ p, r.value = (.ok (.raw p 16 []), noConnections) ∧
        read r.world.mem p 16 = read aesKnownWorld.mem 0x300 16 := by
  obtain ⟨-, hall⟩ := crypt_aes_cbc_round_trip (referenceCbcLaws knownPrimitives)
    (referenceCbcSucceeds knownPrimitives) (fun _ _ _ _ hkey => hkey)
  have hv : CbcVectors (referenceBackend knownPrimitives) ⟨[], none⟩ [(0x300, 16), (0x100, 16), (0x200, 16)]
      aesKnownWorld .initial (.raw 0x300 16 []) (.raw 0x100 16 []) (.raw 0x200 16 []) :=
    ⟨rfl, by decide, by decide +kernel, by decide, aesKnown_buffers _ (by decide) (by decide)⟩
  have hrun : FreshRun (referenceBackend knownPrimitives) _ aesKnownWorld .initial (cryptAesCbcEncryptNopad (.raw 0x300 16 [])
      (.raw 0x100 16 []) (.raw 0x200 16 []) ⟨[], none⟩ noConnections) _ := hall hv
  obtain ⟨p, hvalue, hread, hsame, hback⟩ := hrun (freshVectors_one (v := (0x11000, 16))
    (by decide +kernel) ⟨by decide, by decide⟩ (by unfold Apart; decide))
  have hplace : p = 0x11000 := by
    have hnumber : (match aesKnownEncrypted.value.1 with | .ok x => x.RAW | .error _ => 0) = 0x11000 := by
      decide +kernel
    rwa [show aesKnownEncrypted.value = _ from hvalue] at hnumber
  subst hplace
  have hcipher : cbcBytes (knownPrimitives.cipher ((Sexp.raw 0x100 16 []).bytes aesKnownWorld.mem)) .encrypt
      (blockAt aesKnownWorld.mem 0x200) ((Sexp.raw 0x300 16 []).bytes aesKnownWorld.mem) =
      aesKnownOutput.1 := by decide +kernel
  have hv' : CbcVectors (referenceBackend knownPrimitives) ⟨[], none⟩
      [(0x11000, 16), (0x100, 16), (0x200, 16)] aesKnownEncrypted.world aesKnownEncrypted.env
      (.raw 0x11000 16 []) (.raw 0x100 16 []) (.raw 0x200 16 []) :=
    ⟨rfl, by decide +kernel, by decide +kernel, by decide, aesKnown_buffers _ (by decide) (by decide)⟩
  have hrun' : FreshRun _ _ aesKnownEncrypted.world aesKnownEncrypted.env
      (cryptAesCbcDecryptNopad (.raw 0x11000 16 []) (.raw 0x100 16 []) (.raw 0x200 16 []) ⟨[], none⟩
        noConnections) _ :=
    hback hv' rfl (hsame _ (by simp)) (hsame _ (by simp))
  have hfresh : FreshVectors [(0x11000, 16), (0x100, 16), (0x200, 16)]
      ((cryptAesCbcDecryptNopad (.raw 0x11000 16 []) (.raw 0x100 16 []) (.raw 0x200 16 []) ⟨[], none⟩
        noConnections aesKnownEncrypted.world).trace (referenceBackend knownPrimitives)
          aesKnownEncrypted.env) :=
    freshVectors_one (v := (0x12010, 16)) (by decide +kernel) ⟨by decide, by decide⟩
      (by unfold Apart; decide)
  have hdone := hrun' hfresh
  refine ⟨hread.trans hcipher, ?_⟩
  exact hdone.imp fun p hp => ⟨hp.1, hp.2.1⟩

end Zucrypt
