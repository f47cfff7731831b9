import Zucrypt.Aead
import Zucrypt.HashLaws

/-! # What a correct GCM backend makes of the one-shot calls

`AeadLaws` says that the backend's multipart operation, driven as setup, nonce, associated data if
any, data if any, and finish or verification, computes a given AEAD scheme and fails only where that
refuses.  Steps for an empty part are left out, and the operation has to take that for the empty
part.

How much of the data the backend delivers before the end is its own affair: it may hold back some
(`DataTaken`), and gives the rest when it finishes.  So the laws are kept by a backend that delivers
block by block, and by one that holds everything back (`referenceAeadLaws`).

From them follows what `zuc_aead_encrypt` and `zuc_aead_decrypt` leave in the caller's memory,
wherever the tag is (`exec_zucAeadEncrypt_seal`, `exec_zucAeadDecrypt_open`), and then what they
give where all buffers are apart. -/
namespace Zucrypt
open Effects ByteMemory BlockChaining AuthenticatedEncryption

variable {O : Objects} {σ : Type}

/-- The attributes of an AEAD key. -/
abbrev gcmKeyAttributes : PsaKeyAttributes := aesKeyAttributes .gcm

/-- The key lengths of AES. -/
def AesKeyLength (n : Nat) : Prop :=
  n = ZUC_AES_KEY_SIZE_128 ∨ n = ZUC_AES_KEY_SIZE_192 ∨ n = ZUC_AES_KEY_SIZE_256

/-- The backend's multipart GCM is `G`, and fails only where `G` refuses. -/
structure AeadLaws (h : Handler (Call O) σ) (G : Scheme ZUC_GCM_TAG_SIZE) where
  /-- the key an identifier stands for -/
  keyAt : σ → KeyId → List Byte → Prop
  /-- set up with a key -/
  ready : O.Aead → Direction → List Byte → Prop
  /-- given a nonce, associated data and data, of which it has delivered a part of
  the result -/
  begun : O.Aead → Direction → List Byte → List Byte → List Byte → List Byte → List Byte → Prop
  importKey : ∀ s K, AesKeyLength K.length →
    (answer h (.importKey gcmKeyAttributes K) s).1 = .success ∧
      keyAt (next h (.importKey gcmKeyAttributes K) s)
        (answer h (.importKey gcmKeyAttributes K) s).2 K
  setup : ∀ s dir id K, keyAt s id K →
    (answer h (aeadSetup dir O.aeadInit id .gcm) s).1 = .success ∧
      ready (answer h (aeadSetup dir O.aeadInit id .gcm) s).2 dir K
  setNonce : ∀ s op dir K N, ready op dir K → N.length = ZUC_GCM_NONCE_SIZE →
    (answer h (.aeadSetNonce op N) s).1 = .success ∧
      begun (answer h (.aeadSetNonce op N) s).2 dir K N [] [] []
  updateAd : ∀ s op dir K N A, begun op dir K N [] [] [] → A ≠ [] →
    (answer h (.aeadUpdateAd op A) s).1 = .success ∧
      begun (answer h (.aeadUpdateAd op A) s).2 dir K N A [] []
  update : ∀ s op dir K N A X size, begun op dir K N A [] [] → X ≠ [] → X.length ≤ size →
    (answer h (.aeadUpdate op X size) s).1 = .success ∧
      ∃ D, D.length ≤ X.length ∧ (answer h (.aeadUpdate op X size) s).2.2.Delivers D ∧
        begun (answer h (.aeadUpdate op X size) s).2.1 dir K N A X D
  finish : ∀ s op K N A X D size, begun op .encrypt K N A X D → X.length - D.length ≤ size →
    (answer h (.aeadFinish op size ZUC_GCM_TAG_SIZE) s).1 = .success ∧
      (∃ rest, D ++ rest = (G.encrypt K N A X).1 ∧
        (answer h (.aeadFinish op size ZUC_GCM_TAG_SIZE) s).2.2.1.Delivers rest) ∧
      (answer h (.aeadFinish op size ZUC_GCM_TAG_SIZE) s).2.2.2.Delivers (G.encrypt K N A X).2
  accept : ∀ s op K N A X D size T P, begun op .decrypt K N A X D → X.length - D.length ≤ size →
    G.decrypt K N A X T = some P →
      (answer h (.aeadVerify op size T) s).1 = .success ∧
        ∃ rest, D ++ rest = P ∧ (answer h (.aeadVerify op size T) s).2.2.Delivers rest
  refuse : ∀ s op K N A X D size T, begun op .decrypt K N A X D → X.length - D.length ≤ size →
    G.decrypt K N A X T = none →
      (answer h (.aeadVerify op size T) s).1 = .errorInvalidSignature

variable {h : Handler (Call O) σ} {G : Scheme ZUC_GCM_TAG_SIZE} (L : AeadLaws h G)

/-! ### Step by step -/

section
variable {w : World} {s : σ} {a : AeadProgress O} {dir : Direction} {K N A X D : List Byte}

/-- Nonce and associated data have been taken. -/
structure HeaderTaken (dir : Direction) (K N A : List Byte) (m : Memory) (a : AeadProgress O)
    (w : World) : Prop where
  ps : a.ps = .success
  begun : L.begun a.op dir K N A [] []
  produced : a.produced = 0
  mem : w.mem = m

theorem exec_aeadNonce {nonceLen : Nat} (hps : a.ps = .success) (hnone : a.produced = 0)
    (hop : L.ready a.op dir K) (hlen : nonceLen = ZUC_GCM_NONCE_SIZE) (nonce : Nat) :
    let r := (aeadNonce nonce nonceLen a).exec h w s
    HeaderTaken L dir K (read w.mem nonce nonceLen) [] w.mem r.value r.world := by
  obtain ⟨hok, hbegun⟩ := L.setNonce s a.op dir K (read w.mem nonce nonceLen) hop (by simpa using hlen)
  simp only [aeadNonce, if_pos hps, Proc.exec_bind, exec_readMem, exec_psa, Proc.exec_pure]
  exact ⟨hok, hbegun, hnone, rfl⟩

theorem exec_aeadAd {m : Memory} (ht : HeaderTaken L dir K N [] m a w) (aad aadLen : Nat) :
    let r := (aeadAd aad aadLen a).exec h w s
    HeaderTaken L dir K N (read m aad aadLen) m r.value r.world := by
  obtain ⟨hps, hop, hnone, hmem⟩ := ht
  by_cases hlen : aadLen = 0
  · subst hlen
    rw [aeadAd, if_neg (by simp), Proc.exec_pure]
    exact ⟨hps, hop, hnone, hmem⟩
  · have hne : read w.mem aad aadLen ≠ [] := by
      rintro hnil
      exact hlen (by simpa using congrArg List.length hnil)
    obtain ⟨hok, hbegun⟩ := L.updateAd s a.op dir K N (read w.mem aad aadLen) hop hne
    simp only [aeadAd, if_pos (And.intro hps hlen), Proc.exec_bind, exec_readMem, exec_psa,
      Proc.exec_pure]
    exact ⟨hok, hmem ▸ hbegun, hnone, hmem⟩

/-- The data has been taken, and a part of the result is in the output buffer. -/
structure DataTaken (dir : Direction) (K N A X : List Byte) (len out : Nat) (m : Memory)
    (D : List Byte) (a : AeadProgress O) (w : World) : Prop where
  ps : a.ps = .success
  begun : L.begun a.op dir K N A X D
  room : D.length ≤ len
  produced : a.produced = D.length
  output : read w.mem out D.length = D
  frame : ∀ x, x < out ∨ out + len ≤ x → w.mem x = m x

theorem exec_aeadData {m : Memory} (ht : HeaderTaken L dir K N A m a w) (inp len out : Nat) : ∃ D,
    let r := (aeadData inp len out a).exec h w s
    DataTaken L dir K N A (read m inp len) len out m D r.value r.world := by
  obtain ⟨hps, hop, hnone, hmem⟩ := ht
  by_cases hlen : len = 0
  · subst hlen
    refine ⟨[], ?_⟩
    rw [aeadData, if_neg (by simp), Proc.exec_pure]
    exact ⟨hps, hop, Nat.le_refl 0, hnone, rfl, fun x _ => congrFun hmem x⟩
  · have hne : read w.mem inp len ≠ [] := by
      rintro hnil
      exact hlen (by simpa using congrArg List.length hnil)
    obtain ⟨hok, D, hroom, hD, hbegun⟩ :=
      L.update s a.op dir K N A (read w.mem inp len) len hop hne (by simp)
    rw [length_read] at hroom
    refine ⟨D, ?_⟩
    simp only [aeadData, if_pos (And.intro hps hlen), Proc.exec_bind, exec_readMem, exec_psa,
      exec_writeOutput, Proc.exec_pure]
    refine ⟨hok, hmem ▸ hbegun, hroom, hD.1, hD.read_store _ _ hroom, fun x hx => ?_⟩
    exact (write_take_outside w.mem _ hx).trans (congrFun hmem x)

/-- The rest of the result completes what is in the output buffer. -/
theorem read_rest (m : Memory) {out len : Nat} {D rest : List Byte} {o : Output}
    (hread : read m out D.length = D) (ho : o.Delivers rest) (hlen : D.length + rest.length = len)
    {room : Nat} (hroom : rest.length ≤ room) :
    read (write m (out + D.length) (o.bytes.take room)) out len = D ++ rest := by
  have hrest : rest <+: o.bytes.take room := List.prefix_take_iff.mpr ⟨ho.2, hroom⟩
  rw [← hlen, read_add, read_write_apart _ (by unfold Apart; omega), hread,
    read_write_prefix _ _ hrest]

/-- The last step of an encryption, wherever the tag goes: it is stored last. -/
theorem exec_aeadLast_seal {len out : Nat} (tag : Nat) {m : Memory}
    (ht : DataTaken L .encrypt K N A X len out m D a w) (hX : X.length = len)
    (hsize : len < sizeMax1) :
    let r := (aeadLast .encrypt len out tag ZUC_GCM_TAG_SIZE a).exec h w s
    r.value.ps = .success ∧ r.value.produced + r.value.finished = len ∧
      r.value.tagOut = ZUC_GCM_TAG_SIZE ∧
      (∃ m' bs, read m' out len = (G.encrypt K N A X).1 ∧ bs.length ≤ ZUC_GCM_TAG_SIZE ∧
        r.world.mem = write m' tag bs) ∧
      read r.world.mem tag ZUC_GCM_TAG_SIZE = (G.encrypt K N A X).2 := by
  obtain ⟨hps, hop, hroom, hproduced, hout, -⟩ := ht
  have hsub : sizeSub len D.length = len - D.length := by
    rw [sizeSub_of_le hroom, Nat.mod_eq_of_lt (by omega)]
  obtain ⟨hok, ⟨rest, hresult, hrest⟩, htagOut⟩ :=
    L.finish s a.op K N A X D (len - D.length) hop (by omega)
  have htotal : D.length + rest.length = len := by
    rw [← List.length_append, hresult, G.length_ciphertext, hX]
  have htagLen := G.length_tag K N A X
  simp only [aeadLast, if_pos hps, Proc.exec_bind, exec_psa, exec_writeOutput, Proc.exec_pure,
    hproduced, hsub]
  refine ⟨hok, ?_, htagOut.1.trans htagLen, ?_, ?_⟩
  · rw [hrest.1]
    exact htotal
  · have hmore := read_rest w.mem hout hrest htotal (show rest.length ≤ len - D.length by omega)
    rw [hresult] at hmore
    refine ⟨_, _, ?_, List.length_take_le _ _, rfl⟩
    rwa [rest_eq hroom]
  · have hread := htagOut.read_store (((w.noteAlloc (allocFails h
      (.aeadFinish a.op (len - D.length) ZUC_GCM_TAG_SIZE) s)).store
        (if len ≠ 0 then out + D.length else out) ((answer h
          (.aeadFinish a.op (len - D.length) ZUC_GCM_TAG_SIZE) s).2.2.1.bytes.take
            (len - D.length)))) tag (Nat.le_of_eq htagLen)
    rwa [htagLen] at hread

/-- The last step of a decryption, wherever the tag is: it is read last. -/
theorem exec_aeadLast_open {len out : Nat} (tag tagLen : Nat) {m : Memory}
    (ht : DataTaken L .decrypt K N A X len out m D a w) (hX : X.length = len)
    (hsize : len < sizeMax1) :
    let r := (aeadLast .decrypt len out tag tagLen a).exec h w s
    match G.decrypt K N A X (read w.mem tag tagLen) with
    | some P => r.value.ps = .success ∧ r.value.produced + r.value.finished = len ∧
        read r.world.mem out len = P
    | none => r.value.ps = .errorInvalidSignature := by
  obtain ⟨hps, hop, hroom, hproduced, hout, -⟩ := ht
  have hsub : sizeSub len D.length = len - D.length := by
    rw [sizeSub_of_le hroom, Nat.mod_eq_of_lt (by omega)]
  simp only [aeadLast, if_pos hps, Proc.exec_bind, exec_readMem, exec_psa, exec_writeOutput,
    Proc.exec_pure, hproduced, hsub]
  cases hdec : G.decrypt K N A X (read w.mem tag tagLen) with
  | none => exact L.refuse s a.op K N A X D _ _ hop (by omega) hdec
  | some P =>
    obtain ⟨hok, rest, hresult, hrest⟩ := L.accept s a.op K N A X D _ _ P hop
      (show X.length - D.length ≤ len - D.length by omega) hdec
    have htotal : D.length + rest.length = len := by
      rw [← List.length_append, hresult, G.length_of_decrypt hdec, hX]
    have hmore := read_rest w.mem hout hrest htotal (show rest.length ≤ len - D.length by omega)
    rw [hresult] at hmore
    refine ⟨hok, ?_, ?_⟩
    · rw [hrest.1]
      exact htotal
    · rwa [rest_eq hroom]

end

/-! ### The whole call -/

/-- Arguments of a call that are otherwise valid: the tag may be of any length. -/
structure GcmCall (w : World) (alg : ZucAlg)
    (key keyLen nonce nonceLen aad aadLen inp len out tag tagLen : Nat) : Prop where
  ready : 0 < w.refcount
  alg : alg = .aesGcm
  key : key ≠ NULL
  keyLen : AesKeyLength keyLen
  nonce : nonce ≠ NULL
  nonceLen : nonceLen = ZUC_GCM_NONCE_SIZE
  aad : aadLen ≠ 0 → aad ≠ NULL
  data : len ≠ 0 → ValidBuffer inp len ∧ ValidBuffer out len ∧ (inp = out ∨ Apart inp len out len)
  tagApart : Apart out len tag tagLen
  tag : tag ≠ NULL

section
variable {w : World} {alg : ZucAlg} {key keyLen nonce nonceLen aad aadLen inp len out tag tagLen : Nat}

theorem GcmCall.size
    (hc : GcmCall w alg key keyLen nonce nonceLen aad aadLen inp len out tag tagLen) :
    len < sizeMax1 := by
  by_cases hlen : len = 0
  · rw [hlen]
    decide
  · have := (hc.data hlen).1.2
    omega

theorem GcmCall.args (hc : GcmCall w alg key keyLen nonce nonceLen aad aadLen inp len out tag tagLen)
    (htag : tagLen = ZUC_GCM_TAG_SIZE) (dir : Direction) :
    aeadArgs (decide (0 < w.refcount)) dir alg key keyLen nonce nonceLen aad aadLen inp len out tag
      tagLen = .ok := by
  refine aeadArgs_eq_ok.mpr ?_
  constructor
  case ready => exact decide_eq_true hc.ready
  case key => exact hc.key
  case nonce => exact hc.nonce
  case tag => exact hc.tag
  case aad => exact hc.aad
  case data =>
    intro hlen
    obtain ⟨hinp, hout, -⟩ := hc.data hlen
    exact ⟨hinp.1, hout.1⟩
  case alg => exact hc.alg
  case keyLen => exact hc.keyLen
  case nonceLen => exact hc.nonceLen
  case tagLen => exact htag
  case overlap =>
    intro hlen
    obtain ⟨hinp, hout, happart⟩ := hc.data hlen
    exact zucIntOverlaps_eq_false hinp hout happart

/-- A received tag of another length is an authentication failure. -/
theorem GcmCall.args_of_tagLen
    (hc : GcmCall w alg key keyLen nonce nonceLen aad aadLen inp len out tag tagLen)
    (htag : tagLen ≠ ZUC_GCM_TAG_SIZE) :
    aeadArgs (decide (0 < w.refcount)) .decrypt alg key keyLen nonce nonceLen aad aadLen inp len out
      tag tagLen = .errAuth := by
  have hnull : ¬ (key = NULL ∨ nonce = NULL ∨ tag = NULL ∨ (aad = NULL ∧ aadLen ≠ 0) ∨
      ((inp = NULL ∨ out = NULL) ∧ len ≠ 0)) := by
    rintro (h | h | h | ⟨h, hlen⟩ | ⟨h, hlen⟩)
    · exact hc.key h
    · exact hc.nonce h
    · exact hc.tag h
    · exact hc.aad hlen h
    · obtain ⟨hinp, hout, -⟩ := hc.data hlen
      exact h.elim hinp.1 hout.1
  have hlens : ¬ ((keyLen ≠ ZUC_AES_KEY_SIZE_128 ∧ keyLen ≠ ZUC_AES_KEY_SIZE_192 ∧
      keyLen ≠ ZUC_AES_KEY_SIZE_256) ∨ nonceLen ≠ ZUC_GCM_NONCE_SIZE) := by
    rintro (⟨h₁, h₂, h₃⟩ | h)
    · rcases hc.keyLen with h | h | h
      · exact h₁ h
      · exact h₂ h
      · exact h₃ h
    · exact h hc.nonceLen
  unfold aeadArgs
  rw [if_neg (by simp [hc.ready]), if_neg hnull, if_neg (by simp [hc.alg, psaAeadAlg]), if_neg hlens,
    if_pos htag]

/-- The key is imported and the operation driven up to its last step. -/
theorem exec_aeadRun (halg : alg = .aesGcm) (hkeyLen : AesKeyLength keyLen)
    (hnonceLen : nonceLen = ZUC_GCM_NONCE_SIZE) (dir : Direction) (w : World) (s : σ)
    (key nonce aad aadLen inp len out tag tagLen : Nat) : ∃ k D a w' s',
    DataTaken L dir (read w.mem key keyLen) (read w.mem nonce nonceLen) (read w.mem aad aadLen)
        (read w.mem inp len) len out w.mem D a w' ∧
      (aeadRun dir alg key keyLen nonce nonceLen aad aadLen inp len out tag tagLen).exec h w s =
        (do let a ← aeadLast dir len out tag tagLen a
            aeadEnd dir len tagLen k a : Adapter O ZucStatus).exec h w' s' := by
  have hpalg : psaAeadAlg alg = .gcm := by rw [halg]; rfl
  obtain ⟨himport, hkey⟩ := L.importKey s (read w.mem key keyLen) (by simpa using hkeyLen)
  obtain ⟨hsetup, hready⟩ := L.setup _ dir _ _ hkey
  have hk : zucIntFromPsa (answer h (.importKey gcmKeyAttributes (read w.mem key keyLen)) s).1 = .ok :=
    zucIntFromPsa_eq_ok.mpr himport
  simp only [aeadRun, importAeadKey, hpalg, Proc.exec_bind, exec_readMem, exec_psa, Proc.exec_pure,
    hk, ne_eq, not_true_eq_false, if_false]
  generalize (answer h (.importKey gcmKeyAttributes (read w.mem key keyLen)) s).2 = k
    at hsetup hready ⊢
  generalize next h (.importKey gcmKeyAttributes (read w.mem key keyLen)) s = s₁ at hsetup hready ⊢
  generalize hw₁ : (w.noteAlloc (allocFails h
    (.importKey gcmKeyAttributes (read w.mem key keyLen)) s)).noteAlloc
      (allocFails h (aeadSetup dir O.aeadInit k .gcm) s₁) = w₁
  have hmem : w₁.mem = w.mem := by
    subst hw₁
    rfl
  have hnonce := exec_aeadNonce L (w := w₁) (s := next h (aeadSetup dir O.aeadInit k .gcm) s₁)
    (a := { ps := _, op := _ }) hsetup rfl hready hnonceLen nonce
  rw [hmem] at hnonce
  generalize (aeadNonce nonce nonceLen _).exec h w₁ _ = r₁ at hnonce ⊢
  have had := exec_aeadAd L (s := r₁.env) hnonce aad aadLen
  generalize (aeadAd aad aadLen _).exec h r₁.world r₁.env = r₂ at had ⊢
  obtain ⟨D, hdata⟩ := exec_aeadData L (s := r₂.env) had inp len out
  exact ⟨k, D, _, _, _, hdata, rfl⟩

/-- The end of a pass that succeeded. -/
theorem exec_aeadEnd_ok {dir : Direction} {a : AeadProgress O} (w : World) (s : σ) (k : KeyId)
    (tagLen : Nat) (hps : a.ps = .success) (hlen : a.produced + a.finished = len) (hsize : len < sizeMax1)
    (htag : dir = .encrypt → a.tagOut = tagLen) :
    ((aeadEnd dir len tagLen k a).exec h w s).value = .ok ∧
      ((aeadEnd dir len tagLen k a).exec h w s).world.mem = w.mem := by
  have hsum : sizeAdd a.produced a.finished = len := by
    rw [sizeAdd, hlen, Nat.mod_eq_of_lt hsize]
  have hcomplete : ¬ (sizeAdd a.produced a.finished ≠ len ∨ (dir = .encrypt ∧ a.tagOut ≠ tagLen)) := by
    rintro (h | ⟨hdir, h⟩)
    · exact h hsum
    · exact h (htag hdir)
  simp only [aeadEnd, hps, ne_eq, not_true_eq_false, if_false, Proc.exec_bind, exec_psa,
    Proc.exec_pure]
  refine ⟨?_, rfl⟩
  rw [if_neg hcomplete]

include L in
/-- What `zuc_aead_encrypt` leaves where the arguments pass, wherever the tag goes. -/
theorem exec_zucAeadEncrypt_seal
    (hc : AeadArgs (decide (0 < w.refcount)) alg key keyLen nonce nonceLen aad aadLen inp len out tag
      ZUC_GCM_TAG_SIZE) (hsize : len < sizeMax1) (s : σ) :
    let r := (zucAeadEncrypt alg key keyLen nonce nonceLen aad aadLen inp len out tag
      ZUC_GCM_TAG_SIZE).exec h w s
    let sealed := G.encrypt (read w.mem key keyLen) (read w.mem nonce nonceLen)
      (read w.mem aad aadLen) (read w.mem inp len)
    r.value = .ok ∧
      (∃ m' bs, read m' out len = sealed.1 ∧ bs.length ≤ ZUC_GCM_TAG_SIZE ∧
        r.world.mem = write m' tag bs) ∧
      read r.world.mem tag ZUC_GCM_TAG_SIZE = sealed.2 := by
  have hargs : aeadArgs (decide (0 < w.refcount)) .encrypt alg key keyLen nonce nonceLen aad aadLen
      inp len out tag ZUC_GCM_TAG_SIZE = .ok := aeadArgs_eq_ok.mpr hc
  obtain ⟨k, D, a, w', s', hdata, hrun⟩ := exec_aeadRun L hc.alg hc.keyLen hc.nonceLen .encrypt w s
    key nonce aad aadLen inp len out tag ZUC_GCM_TAG_SIZE
  obtain ⟨hps, htotal, htagOut, hout, htagData⟩ :=
    exec_aeadLast_seal L (s := s') tag hdata (by simp) hsize
  rw [Proc.exec_bind] at hrun
  generalize (aeadLast .encrypt len out tag ZUC_GCM_TAG_SIZE a).exec h w' s' = r
    at hps htotal htagOut hout htagData hrun
  obtain ⟨hok, hmem⟩ := exec_aeadEnd_ok (h := h) r.world r.env k _ hps htotal hsize
    (fun _ : Direction.encrypt = .encrypt => htagOut)
  rw [← hmem] at hout htagData
  simp only [zucAeadEncrypt, checkAeadArgs, Proc.exec_bind, exec_zucIntReady, Proc.exec_pure, hargs,
    ne_eq, not_true_eq_false, if_false, hrun, settleEncrypt, hok]
  exact ⟨trivial, hout, htagData⟩

include L in
/-- `zuc_aead_encrypt` gives the scheme's ciphertext and tag. -/
theorem exec_zucAeadEncrypt
    (hc : GcmCall w alg key keyLen nonce nonceLen aad aadLen inp len out tag tagLen)
    (htag : tagLen = ZUC_GCM_TAG_SIZE) (s : σ) :
    let r := (zucAeadEncrypt alg key keyLen nonce nonceLen aad aadLen inp len out tag tagLen).exec h
      w s
    let sealed := G.encrypt (read w.mem key keyLen) (read w.mem nonce nonceLen)
      (read w.mem aad aadLen) (read w.mem inp len)
    r.value = .ok ∧ read r.world.mem out len = sealed.1 ∧
      read r.world.mem tag ZUC_GCM_TAG_SIZE = sealed.2 := by
  subst htag
  obtain ⟨hok, ⟨m', bs, hout, hbs, hmem⟩, htagData⟩ :=
    exec_zucAeadEncrypt_seal L (aeadArgs_eq_ok.mp (hc.args rfl .encrypt)) hc.size s
  refine ⟨hok, ?_, htagData⟩
  have haway : Apart tag bs.length out len := by
    have := hc.tagApart
    unfold Apart at this ⊢
    omega
  rw [hmem, read_write_apart _ haway, hout]

include L in
/-- What `zuc_aead_decrypt` gives where the arguments pass, wherever the tag is: the tag
verified is the one there once a part `D` of the plaintext has been stored. -/
theorem exec_zucAeadDecrypt_open
    (hc : AeadArgs (decide (0 < w.refcount)) alg key keyLen nonce nonceLen aad aadLen inp len out tag
      tagLen) (hsize : len < sizeMax1) (s : σ) :
    let r := (zucAeadDecrypt alg key keyLen nonce nonceLen aad aadLen inp len tag tagLen out).exec h
      w s
    ∃ D a w', DataTaken L .decrypt (read w.mem key keyLen) (read w.mem nonce nonceLen)
        (read w.mem aad aadLen) (read w.mem inp len) len out w.mem D a w' ∧
      match G.decrypt (read w.mem key keyLen) (read w.mem nonce nonceLen) (read w.mem aad aadLen)
        (read w.mem inp len) (read w'.mem tag tagLen) with
      | some P => r.value = .ok ∧ read r.world.mem out len = P
      | none => r.value = .errAuth := by
  have hargs : aeadArgs (decide (0 < w.refcount)) .decrypt alg key keyLen nonce nonceLen aad aadLen
      inp len out tag tagLen = .ok := aeadArgs_eq_ok.mpr hc
  obtain ⟨k, D, a, w', s', hdata, hrun⟩ := exec_aeadRun L hc.alg hc.keyLen hc.nonceLen .decrypt w s
    key nonce aad aadLen inp len out tag tagLen
  refine ⟨D, a, w', hdata, ?_⟩
  have hlast := exec_aeadLast_open L (s := s') tag tagLen hdata (by simp) hsize
  rw [Proc.exec_bind] at hrun
  -- the tag is read after the plaintext is written, so it is the one in that memory
  generalize (aeadLast .decrypt len out tag tagLen a).exec h w' s' = r at hlast hrun
  simp only [zucAeadDecrypt, checkAeadArgs, Proc.exec_bind, exec_zucIntReady, Proc.exec_pure,
    hargs, ne_eq, not_true_eq_false, if_false, hrun]
  cases hdec : G.decrypt (read w.mem key keyLen) (read w.mem nonce nonceLen)
    (read w.mem aad aadLen) (read w.mem inp len) (read w'.mem tag tagLen) with
  | some P =>
    rw [hdec] at hlast
    obtain ⟨hps, htotal, hout⟩ := hlast
    obtain ⟨hok, hmem⟩ := exec_aeadEnd_ok (h := h) r.world r.env k tagLen hps htotal
      hsize (fun hdir : Direction.decrypt = .encrypt => absurd hdir (by simp))
    rw [← hmem] at hout
    simp only [settleDecrypt, hok, ne_eq, not_true_eq_false, false_and, if_false, Proc.exec_pure]
    exact ⟨trivial, hout⟩
  | none =>
    rw [hdec] at hlast
    have hps : r.value.ps = .errorInvalidSignature := hlast
    have hfail : ((aeadEnd .decrypt len tagLen k r.value).exec h r.world r.env).value =
        .errAuth := by
      simp only [aeadEnd, hps, ne_eq, reduceCtorEq, not_false_eq_true, if_true, Proc.exec_bind,
        exec_psa, Proc.exec_pure]
    simp only [settleDecrypt, hfail, Proc.exec_ite, Proc.exec_bind, Proc.exec_pure]
    split <;> rfl

/-- Data stored away from the tag leaves it as it was. -/
theorem DataTaken.tag_kept {dir : Direction} {K N A X D : List Byte} {m : Memory}
    {a : AeadProgress O} {w' : World} (ht : DataTaken L dir K N A X len out m D a w')
    (happart : Apart out len tag tagLen) : read w'.mem tag tagLen = read m tag tagLen := by
  refine read_congr (fun x hx hx' => ht.frame x ?_)
  unfold Apart at happart
  omega

include L in
/-- `zuc_aead_decrypt` gives what the scheme does, and otherwise fails to authenticate. -/
theorem exec_zucAeadDecrypt
    (hc : GcmCall w alg key keyLen nonce nonceLen aad aadLen inp len out tag tagLen) (s : σ) :
    let r := (zucAeadDecrypt alg key keyLen nonce nonceLen aad aadLen inp len tag tagLen out).exec h
      w s
    match G.decrypt (read w.mem key keyLen) (read w.mem nonce nonceLen) (read w.mem aad aadLen)
      (read w.mem inp len) (read w.mem tag tagLen) with
    | some P => r.value = .ok ∧ read r.world.mem out len = P
    | none => r.value = .errAuth := by
  by_cases htag : tagLen = ZUC_GCM_TAG_SIZE
  · obtain ⟨D, a, w', hdata, hend⟩ :=
      exec_zucAeadDecrypt_open L (aeadArgs_eq_ok.mp (hc.args htag .decrypt)) hc.size s
    rw [hdata.tag_kept L hc.tagApart] at hend
    exact hend
  · have hargs := hc.args_of_tagLen htag
    rw [G.decrypt_of_tag_length (by simpa using htag)]
    simp only [zucAeadDecrypt, checkAeadArgs, Proc.exec_bind, exec_zucIntReady, Proc.exec_pure,
      hargs, ne_eq, reduceCtorEq, not_false_eq_true, if_true]

end

/-! ### The reference backend -/

/-- It holds all data back, so that nothing has been delivered before the end. -/
def referenceAeadLaws (P : Primitives) : AeadLaws (referenceBackend P) P.gcm where
  keyAt s id K := s.find id = some (gcmKeyAttributes, K)
  ready op dir K := op = .ready dir K
  begun op dir K N A X D := op = .begun dir K N A X ∧ D = []
  importKey s K _ := ⟨rfl, ReferenceState.find_importKey P s _ K⟩
  setup s dir id K hkey := by
    cases dir with
    | encrypt =>
      simp only [answer, aeadSetup, referenceBackend, referencePsa, hkey]
      exact ⟨trivial, rfl⟩
    | decrypt =>
      simp only [answer, aeadSetup, referenceBackend, referencePsa, hkey]
      exact ⟨trivial, rfl⟩
  setNonce s op dir K N hop _ := by
    subst hop
    exact ⟨rfl, rfl, rfl⟩
  updateAd s op dir K N A hop _ := by
    obtain ⟨rfl, -⟩ := hop
    exact ⟨rfl, rfl, rfl⟩
  update s op dir K N A X size hop _ _ := by
    obtain ⟨rfl, -⟩ := hop
    exact ⟨rfl, [], Nat.zero_le _, Output.full_delivers [], rfl, rfl⟩
  finish s op K N A X D size hop _ := by
    obtain ⟨rfl, rfl⟩ := hop
    exact ⟨rfl, ⟨_, List.nil_append _, Output.full_delivers _⟩, Output.full_delivers _⟩
  accept s op K N A X D size T bs hop _ hdec := by
    obtain ⟨rfl, rfl⟩ := hop
    simp only [answer, referenceBackend, referencePsa, hdec]
    exact ⟨trivial, bs, List.nil_append _, Output.full_delivers _⟩
  refuse s op K N A X D size T hop _ hdec := by
    obtain ⟨rfl, rfl⟩ := hop
    simp only [answer, referenceBackend, referencePsa, hdec]

end Zucrypt
