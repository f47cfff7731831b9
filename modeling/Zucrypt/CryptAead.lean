import Zucrypt.AeadLaws
import Zucrypt.RValues

/-! # AES-GCM, in C and from R

`R/aead.R` and its entry point `zucrypt_aes_gcm`, over the one-shot calls.  The nonce and the tag
travel as attributes of the ciphertext, and `NULL` stands for no associated data.

`aes_gcm_exact` is that both levels compute the scheme the backend's operation does, and accept
exactly what it makes:

* encryption succeeds, and leaves the scheme's ciphertext and tag;
* decryption succeeds, with a plaintext, exactly if ciphertext and tag are what the scheme makes
  of that plaintext; otherwise it is `ZUC_ERR_AUTH`, and from R a `zucrypt_auth_error`;
* a tag received in another length is refused as one, and is not cut to fit.

The arguments are any that are otherwise valid (`GcmCall` in C, `GcmVectors` from R), in place or
apart.  Of the backend it is assumed that it computes some scheme and does not fail (`AeadLaws`),
and of R's allocator that a new vector shares no byte with a live one (`VectorLaws`): the result is
made while the arguments are still needed.  `exec_zucryptAesGcm_encrypt` and
`exec_zucryptAesGcm_decrypt` carry the C result through the entry point, and the two lemmas after
them through the R function. -/
namespace Zucrypt
open Effects ByteMemory BlockChaining AuthenticatedEncryption

variable {O : Objects} {σ : Type}

/-- `zucrypt_aes_gcm`; `encrypt` is its logical argument.  On encryption the value is
`list(ciphertext, tag)`. -/
def zucryptAesGcm (data key iv aad tag : Sexp) (encrypt : Bool) : Adapter O NativeResult := do
  let len := data.XLENGTH
  let out ← allocRaw len
  if encrypt then
    let t ← allocRaw ZUC_GCM_TAG_SIZE
    let st ← zucAeadEncrypt .aesGcm key.RAW key.XLENGTH iv.RAW iv.XLENGTH aad.RAW aad.XLENGTH
      (if len ≠ 0 then data.RAW else NULL) len (if len ≠ 0 then out else NULL) t ZUC_GCM_TAG_SIZE
    return nativeResult st (.list [.raw out len [], .raw t ZUC_GCM_TAG_SIZE []])
  else
    let st ← zucAeadDecrypt .aesGcm key.RAW key.XLENGTH iv.RAW iv.XLENGTH aad.RAW aad.XLENGTH
      (if len ≠ 0 then data.RAW else NULL) len tag.RAW tag.XLENGTH (if len ≠ 0 then out else NULL)
    return nativeResult st (.raw out len [])

/-- The label a condition carries. -/
def gcmLabel (key : Sexp) : String :=
  if key.isRaw = true ∧ (8 * key.XLENGTH = 128 ∨ 8 * key.XLENGTH = 192 ∨ 8 * key.XLENGTH = 256) then
    "aes-" ++ toString (8 * key.XLENGTH) ++ "-gcm"
  else
    "aes-gcm"

/-- `check_gcm_args`. -/
def checkGcmArgs (data key iv aad : Sexp) : Except Condition String := do
  let algorithm := gcmLabel key
  checkRaw data "data" algorithm
  checkRaw key "key" algorithm
  if key.XLENGTH ≠ 16 ∧ key.XLENGTH ≠ 24 ∧ key.XLENGTH ≠ 32 then
    throw (zucryptAbort "zucrypt_bad_length"
      ("`key` must be 16, 24 or 32 bytes (AES-128, AES-192 or " ++
        "AES-256), not " ++ toString key.XLENGTH ++ ". This function takes a key, never a " ++
        "password: crypt_pbkdf2() derives one.") algorithm none)
  else
    checkRaw iv "iv" algorithm
    if iv.XLENGTH ≠ 12 then
      throw (zucryptAbort "zucrypt_bad_length"
        ("`iv` must be exactly 12 bytes, not " ++ toString iv.XLENGTH ++ ".") algorithm none)
    else
      match aad with
      | .null => return algorithm
      | aad =>
        checkRaw aad "aad" algorithm
        return algorithm

/-- `crypt_aes_gcm_encrypt`, of an `iv` that has been drawn or given. -/
def cryptAesGcmEncrypt (data key iv aad : Sexp) : Adapter O (Except Condition Sexp) := do
  match checkGcmArgs data key iv aad with
  | .error c => return .error c
  | .ok algorithm =>
    let res ← zucryptAesGcm data key iv aad .null true
    if res.status ≠ .ok then
      return .error (abortNative res.status algorithm)
    else
      let out := res.value.item 0
      let out := out.setAttr "iv" iv
      let out := out.setAttr "tag" (res.value.item 1)
      return .ok out

/-- `crypt_aes_gcm_decrypt`; an `iv` or `tag` that is not given is the attribute. -/
def cryptAesGcmDecrypt (data key : Sexp) (iv tag : Option Sexp) (aad : Sexp) :
    Adapter O (Except Condition Sexp) := do
  let iv := iv.getD (data.attr "iv")
  let tag := tag.getD (data.attr "tag")
  match checkGcmArgs data key iv aad with
  | .error c => return .error c
  | .ok algorithm =>
    match checkRaw tag "tag" (some algorithm) with
    | .error c => return .error c
    | .ok () =>
      let res ← zucryptAesGcm data key iv aad tag false
      if res.status ≠ .ok then
        return .error (abortNative res.status algorithm)
      else
        return .ok res.value

/-! ### The entry point -/

section
variable {h : Handler (Call O) σ} {G : Scheme ZUC_GCM_TAG_SIZE} {w : World} {s : σ}
  {data key iv aad tag : Sexp}

/-- Arguments the R functions accept, in vectors R knows of. -/
structure GcmVectors (V : VectorLaws h) (s : σ) (data key iv aad : Sexp) : Prop where
  keyLen : AesKeyLength key.XLENGTH
  ivLen : iv.XLENGTH = ZUC_GCM_NONCE_SIZE
  room : V.room s (data.XLENGTH + ZUC_GCM_TAG_SIZE)
  data : V.Holds s data
  key : V.Holds s key
  iv : V.Holds s iv
  aad : aad = .null ∨ V.Holds s aad

/-- Arguments of an otherwise valid call pass the checks of `R/aead.R`. -/
theorem checkGcmArgs_ok {V : VectorLaws h} (hv : GcmVectors V s data key iv aad) :
    checkGcmArgs data key iv aad = .ok (gcmLabel key) := by
  have hkey : ¬ (key.XLENGTH ≠ 16 ∧ key.XLENGTH ≠ 24 ∧ key.XLENGTH ≠ 32) := by
    rintro ⟨h₁, h₂, h₃⟩
    rcases hv.keyLen with h | h | h
    · exact h₁ h
    · exact h₂ h
    · exact h₃ h
  have hiv : ¬ (iv.XLENGTH ≠ 12) := not_not.mpr hv.ivLen
  simp only [checkGcmArgs, checkRaw_ok hv.data.1, checkRaw_ok hv.key.1, checkRaw_ok hv.iv.1, bind,
    Except.bind, if_neg hkey, if_neg hiv]
  cases aad with
  | null => rfl
  | raw ptr len attrs => rfl
  | list items => exact absurd hv.aad (by simp [VectorLaws.Holds, Sexp.isRaw])
  | other c => exact absurd hv.aad (by simp [VectorLaws.Holds, Sexp.isRaw])

/-- A pointer is only passed with something behind it. -/
theorem read_ifNonempty (m : Memory) (p n : Nat) :
    read m (if n ≠ 0 then p else NULL) n = read m p n := by
  split
  · rfl
  · rename_i hn
    rw [not_not.mp hn]
    rfl

/-- What the entry point passes on are arguments of an otherwise valid call. -/
theorem GcmVectors.call {V : VectorLaws h} (hv : GcmVectors V s data key iv aad)
    (hready : 0 < w.refcount) {out tag tagLen : Nat} (hout : ValidBuffer out data.XLENGTH)
    (hapart : Apart out data.XLENGTH data.RAW data.XLENGTH) (htag : tag ≠ NULL)
    (htagApart : Apart out data.XLENGTH tag tagLen) :
    GcmCall w .aesGcm key.RAW key.XLENGTH iv.RAW iv.XLENGTH aad.RAW aad.XLENGTH
      (if data.XLENGTH ≠ 0 then data.RAW else NULL) data.XLENGTH
      (if data.XLENGTH ≠ 0 then out else NULL) tag tagLen := by
  constructor
  case ready => exact hready
  case alg => rfl
  case key => exact hv.key.2.1.1
  case keyLen => exact hv.keyLen
  case nonce => exact hv.iv.2.1.1
  case nonceLen => exact hv.ivLen
  case aad =>
    intro hlen
    rcases hv.aad with rfl | hheld
    · exact absurd rfl hlen
    · exact hheld.2.1.1
  case data =>
    intro hlen
    rw [if_pos hlen, if_pos hlen]
    exact ⟨hv.data.2.1, hout, Or.inr hapart.symm⟩
  case tagApart =>
    split
    · exact htagApart
    · rename_i hlen
      exact Or.inr (Or.inr (Or.inl (not_not.mp hlen)))
  case tag => exact htag

variable (L : AeadLaws h G) (V : VectorLaws h)

include L in
/-- The entry point makes two vectors, and hangs the second on the first. -/
theorem exec_zucryptAesGcm_encrypt (hv : GcmVectors V s data key iv aad) (hready : 0 < w.refcount)
    (tag : Sexp) : ∃ out t,
    let r := (zucryptAesGcm data key iv aad tag true).exec h w s
    let sealed := G.encrypt (key.bytes w.mem) (iv.bytes w.mem) (aad.bytes w.mem) (data.bytes w.mem)
    r.value = ⟨.ok, .list [.raw out data.XLENGTH [], .raw t ZUC_GCM_TAG_SIZE []]⟩ ∧
      read r.world.mem out data.XLENGTH = sealed.1 ∧
      read r.world.mem t ZUC_GCM_TAG_SIZE = sealed.2 := by
  obtain ⟨hout, hfresh, hlive, -, hroom⟩ := V.alloc s data.XLENGTH ZUC_GCM_TAG_SIZE hv.room
  generalize hanswer : h _ (.allocRaw data.XLENGTH) s = x at hout hfresh hlive hroom
  obtain ⟨ht, hfreshTag, -⟩ := V.alloc x.2 ZUC_GCM_TAG_SIZE 0 hroom
  generalize hanswerTag : h _ (.allocRaw ZUC_GCM_TAG_SIZE) x.2 = y at ht hfreshTag
  have hdata := hfresh _ _ hv.data.2.2
  have htag := (hfreshTag _ _ hlive).symm
  obtain ⟨hok, hciphertext, htagData⟩ :=
    exec_zucAeadEncrypt L (hv.call (w := w) hready hout hdata ht.1 htag) rfl y.2
  rw [read_ifNonempty] at hciphertext htagData
  rw [read_ifNonempty] at hciphertext
  refine ⟨x.1, y.1, ?_, ?_, ?_⟩
  · simp only [zucryptAesGcm, Proc.exec_bind, exec_allocRaw, hanswer, hanswerTag, if_true,
      Proc.exec_pure, hok, nativeResult]
  · simp only [zucryptAesGcm, Proc.exec_bind, exec_allocRaw, hanswer, hanswerTag, if_true,
      Proc.exec_pure]
    exact hciphertext
  · simp only [zucryptAesGcm, Proc.exec_bind, exec_allocRaw, hanswer, hanswerTag, if_true,
      Proc.exec_pure]
    exact htagData

include L in
/-- The entry point makes one, which is dropped if the tag is wrong. -/
theorem exec_zucryptAesGcm_decrypt (hv : GcmVectors V s data key iv aad) (hready : 0 < w.refcount)
    {tag : Sexp} (htag : V.Holds s tag) : ∃ out,
    let r := (zucryptAesGcm data key iv aad tag false).exec h w s
    match G.decrypt (key.bytes w.mem) (iv.bytes w.mem) (aad.bytes w.mem) (data.bytes w.mem)
      (tag.bytes w.mem) with
    | some P => r.value = ⟨.ok, .raw out data.XLENGTH []⟩ ∧ read r.world.mem out data.XLENGTH = P
    | none => r.value = ⟨.errAuth, .null⟩ := by
  obtain ⟨hout, hfresh, -⟩ := V.alloc s data.XLENGTH ZUC_GCM_TAG_SIZE hv.room
  generalize hanswer : h _ (.allocRaw data.XLENGTH) s = x at hout hfresh
  have hdata := hfresh _ _ hv.data.2.2
  obtain ⟨-, htagBuffer, htagLive⟩ := htag
  have hdec := exec_zucAeadDecrypt L (hv.call (w := w) hready hout hdata htagBuffer.1
    (hfresh _ _ htagLive)) x.2
  rw [read_ifNonempty] at hdec
  refine ⟨x.1, ?_⟩
  simp only [zucryptAesGcm, Proc.exec_bind, exec_allocRaw, hanswer, Bool.false_eq_true, if_false,
    Proc.exec_pure]
  have hbytes : ∀ y : Sexp, y.bytes w.mem = read w.mem y.RAW y.XLENGTH := fun y => rfl
  rw [hbytes key, hbytes iv, hbytes aad, hbytes data, hbytes tag]
  cases hopen : G.decrypt (read w.mem key.RAW key.XLENGTH) (read w.mem iv.RAW iv.XLENGTH)
    (read w.mem aad.RAW aad.XLENGTH) (read w.mem data.RAW data.XLENGTH)
    (read w.mem tag.RAW tag.XLENGTH) with
  | some P =>
    rw [hopen] at hdec
    obtain ⟨hok, hplaintext⟩ := hdec
    rw [read_ifNonempty] at hplaintext
    exact ⟨by rw [hok]; rfl, hplaintext⟩
  | none =>
    rw [hopen] at hdec
    show nativeResult _ _ = _
    rw [show _ = ZucStatus.errAuth from hdec]
    rfl

/-! ### From R -/

include L in
/-- `crypt_aes_gcm_encrypt` gives the scheme's ciphertext, with nonce and tag. -/
theorem exec_cryptAesGcmEncrypt (hv : GcmVectors V s data key iv aad) (hready : 0 < w.refcount) :
    let r := (cryptAesGcmEncrypt data key iv aad).exec h w s
    let sealed := G.encrypt (key.bytes w.mem) (iv.bytes w.mem) (aad.bytes w.mem) (data.bytes w.mem)
    ∃ out, r.value = .ok out ∧ out.bytes r.world.mem = sealed.1 ∧ out.attr "iv" = iv ∧
      (out.attr "tag").bytes r.world.mem = sealed.2 := by
  obtain ⟨out, t, hvalue, hciphertext, htag⟩ := exec_zucryptAesGcm_encrypt L V hv hready .null
  have hsealed : (Sexp.list [.raw out data.XLENGTH [], .raw t ZUC_GCM_TAG_SIZE []]).item 0 =
      .raw out data.XLENGTH [] := rfl
  have htagItem : (Sexp.list [.raw out data.XLENGTH [], .raw t ZUC_GCM_TAG_SIZE []]).item 1 =
      .raw t ZUC_GCM_TAG_SIZE [] := rfl
  simp only [cryptAesGcmEncrypt, checkGcmArgs_ok hv, Proc.exec_bind, hvalue, ne_eq,
    not_true_eq_false, if_false, Proc.exec_pure, hsealed, htagItem]
  exact ⟨_, rfl, hciphertext, rfl, htag⟩

include L in
/-- `crypt_aes_gcm_decrypt` gives what the scheme does, and otherwise signals
`zucrypt_auth_error`. -/
theorem exec_cryptAesGcmDecrypt {iv' tag' : Option Sexp}
    (hv : GcmVectors V s data key (iv'.getD (data.attr "iv")) aad) (hready : 0 < w.refcount)
    (htag : V.Holds s (tag'.getD (data.attr "tag"))) :
    let r := (cryptAesGcmDecrypt data key iv' tag' aad).exec h w s
    match G.decrypt (key.bytes w.mem) ((iv'.getD (data.attr "iv")).bytes w.mem) (aad.bytes w.mem)
      (data.bytes w.mem) ((tag'.getD (data.attr "tag")).bytes w.mem) with
    | some P => ∃ out, r.value = .ok out ∧ out.bytes r.world.mem = P ∧ out.attributes = []
    | none => ∃ c, r.value = .error c ∧ c.cls = "zucrypt_auth_error" := by
  obtain ⟨out, hentry⟩ := exec_zucryptAesGcm_decrypt L V hv hready htag
  simp only [cryptAesGcmDecrypt, checkGcmArgs_ok hv, checkRaw_ok htag.1]
  cases hopen : G.decrypt (key.bytes w.mem) ((iv'.getD (data.attr "iv")).bytes w.mem)
    (aad.bytes w.mem) (data.bytes w.mem) ((tag'.getD (data.attr "tag")).bytes w.mem) with
  | some P =>
    rw [hopen] at hentry
    obtain ⟨hvalue, hplaintext⟩ := hentry
    simp only [Proc.exec_bind, hvalue, ne_eq, not_true_eq_false, if_false, Proc.exec_pure]
    exact ⟨_, rfl, hplaintext, rfl⟩
  | none =>
    rw [hopen] at hentry
    have hvalue : ((zucryptAesGcm data key (iv'.getD (data.attr "iv")) aad
      (tag'.getD (data.attr "tag")) false).exec h w s).value = ⟨.errAuth, .null⟩ := hentry
    simp only [Proc.exec_bind, hvalue, ne_eq, reduceCtorEq, not_false_eq_true, if_true,
      Proc.exec_pure]
    exact ⟨_, rfl, rfl⟩

end

/-! ### Exact acceptance -/

/-- **AES-GCM is computed, and accepted, exactly.**  With `G` the scheme the
backend's operation computes: encryption succeeds and gives `G`'s ciphertext and tag;
decryption succeeds with a plaintext if and only if ciphertext and tag are what `G`
makes of it, and otherwise is an authentication failure, for a received tag of any
length.  The same holds from R, with nonce and tag in attributes; associated data
that is `NULL` has no bytes, as `raw(0)` has none. -/
theorem aes_gcm_exact {h : Handler (Call O) σ} {G : Scheme ZUC_GCM_TAG_SIZE} (L : AeadLaws h G)
    (V : VectorLaws h) :
    (∀ w s alg key keyLen nonce nonceLen aad aadLen inp len out tag,
      GcmCall w alg key keyLen nonce nonceLen aad aadLen inp len out tag ZUC_GCM_TAG_SIZE →
        let r := (zucAeadEncrypt alg key keyLen nonce nonceLen aad aadLen inp len out tag
          ZUC_GCM_TAG_SIZE).exec h w s
        r.value = .ok ∧ G.encrypt (read w.mem key keyLen) (read w.mem nonce nonceLen)
          (read w.mem aad aadLen) (read w.mem inp len) =
            (read r.world.mem out len, read r.world.mem tag ZUC_GCM_TAG_SIZE)) ∧
    (∀ w s alg key keyLen nonce nonceLen aad aadLen inp len out tag tagLen,
      GcmCall w alg key keyLen nonce nonceLen aad aadLen inp len out tag tagLen →
        let r := (zucAeadDecrypt alg key keyLen nonce nonceLen aad aadLen inp len tag tagLen
          out).exec h w s
        (∀ P, (r.value = .ok ∧ read r.world.mem out len = P) ↔
          G.encrypt (read w.mem key keyLen) (read w.mem nonce nonceLen) (read w.mem aad aadLen) P =
            (read w.mem inp len, read w.mem tag tagLen)) ∧
        (r.value ≠ .ok → r.value = .errAuth) ∧
        (tagLen ≠ ZUC_GCM_TAG_SIZE → r.value = .errAuth)) ∧
    (∀ w s data key iv aad, 0 < w.refcount → GcmVectors V s data key iv aad →
      let r := (cryptAesGcmEncrypt data key iv aad).exec h w s
      ∃ out, r.value = .ok out ∧ out.attr "iv" = iv ∧
        G.encrypt (key.bytes w.mem) (iv.bytes w.mem) (aad.bytes w.mem) (data.bytes w.mem) =
          (out.bytes r.world.mem, (out.attr "tag").bytes r.world.mem)) ∧
    (∀ w s data key iv tag aad, 0 < w.refcount →
      GcmVectors V s data key (iv.getD (data.attr "iv")) aad →
      V.Holds s (tag.getD (data.attr "tag")) →
        let r := (cryptAesGcmDecrypt data key iv tag aad).exec h w s
        (∀ P, (∃ out, r.value = .ok out ∧ out.bytes r.world.mem = P ∧ out.attributes = []) ↔
          G.encrypt (key.bytes w.mem) ((iv.getD (data.attr "iv")).bytes w.mem) (aad.bytes w.mem) P =
            (data.bytes w.mem, (tag.getD (data.attr "tag")).bytes w.mem)) ∧
        ∀ c, r.value = .error c → c.cls = "zucrypt_auth_error") := by
  refine ⟨?encrypt, ?decrypt, ?encryptR, ?decryptR⟩
  case encrypt =>
    intro w s alg key keyLen nonce nonceLen aad aadLen inp len out tag hc r
    obtain ⟨hok, hciphertext, htag⟩ := exec_zucAeadEncrypt L hc rfl s
    refine ⟨hok, ?_⟩
    rw [hciphertext, htag]
  case decrypt =>
    intro w s alg key keyLen nonce nonceLen aad aadLen inp len out tag tagLen hc r
    have hdec := exec_zucAeadDecrypt L hc s
    refine ⟨fun P => ?_, fun hne => ?_, fun htag => ?_⟩
    · rw [← G.decrypt_eq_some]
      -- either `G` has a plaintext for what was received, or none
      split at hdec
      · rename_i P' hP
        rw [hP, Option.some.injEq]
        exact ⟨fun hr => hdec.2.symm.trans hr.2, fun hP' => ⟨hdec.1, hdec.2.trans hP'⟩⟩
      · rename_i hP
        rw [hP]
        exact ⟨fun hr => absurd (hdec.symm.trans hr.1) (by simp), fun hP' => absurd hP' (by simp)⟩
    · split at hdec
      · exact absurd hdec.1 hne
      · exact hdec
    · rwa [G.decrypt_of_tag_length (by simpa using htag)] at hdec
  case encryptR =>
    intro w s data key iv aad hready hv r
    obtain ⟨out, hout, hciphertext, hiv, htag⟩ := exec_cryptAesGcmEncrypt L V hv hready
    refine ⟨out, hout, hiv, ?_⟩
    rw [hciphertext, htag]
  case decryptR =>
    intro w s data key iv tag aad hready hv htag r
    have hdec := exec_cryptAesGcmDecrypt L V hv hready htag
    refine ⟨fun P => ?_, fun c hc => ?_⟩
    · rw [← G.decrypt_eq_some]
      split at hdec
      · rename_i P' hP
        obtain ⟨out, hout, hbytes, hattrs⟩ := hdec
        rw [hP, Option.some.injEq]
        refine ⟨?_, fun hP' => ⟨out, hout, hbytes.trans hP', hattrs⟩⟩
        rintro ⟨out', hout', hbytes', -⟩
        obtain rfl := Except.ok.inj (hout.symm.trans hout')
        exact hbytes.symm.trans hbytes'
      · rename_i hP
        obtain ⟨c, hc, -⟩ := hdec
        rw [hP]
        refine ⟨?_, fun hP' => absurd hP' (by simp)⟩
        rintro ⟨out', hout', -⟩
        exact absurd (hc.symm.trans hout') (by simp)
    · split at hdec
      · obtain ⟨out, hout, -⟩ := hdec
        exact absurd (hout.symm.trans hc) (by simp)
      · obtain ⟨c', hc', hcls⟩ := hdec
        rwa [← Except.error.inj (hc'.symm.trans hc)]

/-- AES-128-GCM of a zero block under the zero key and nonce, in place and from R. -/
theorem aes_gcm_exact_known :
    let h := referenceBackend knownPrimitives
    let r := (zucAeadEncrypt .aesGcm 0x100 16 0x200 12 NULL 0 0x300 16 0x300 0x400 16).exec h
      readyWorld .initial
    let r' := (cryptAesGcmEncrypt (.raw 0x300 16 []) (.raw 0x100 16 []) (.raw 0x200 12 []) .null).exec
      h readyWorld .initial
    (r.value = .ok ∧
      (gcmKnownBlock, gcmKnownTag) = (read r.world.mem 0x300 16, read r.world.mem 0x400 16)) ∧
    ∃ out, r'.value = .ok out ∧ out.attr "iv" = .raw 0x200 12 [] ∧
      (gcmKnownBlock, gcmKnownTag) = (out.bytes r'.world.mem, (out.attr "tag").bytes r'.world.mem) := by
  obtain ⟨hencrypt, -, hencryptR, -⟩ :=
    aes_gcm_exact (referenceAeadLaws knownPrimitives) (referenceVectorLaws knownPrimitives)
  have hzero : ∀ p n, read readyWorld.mem p n = List.replicate n 0 := by
    intro p n
    refine List.eq_replicate_iff.mpr ⟨length_read _ p n, fun b hb => ?_⟩
    obtain ⟨i, -, rfl⟩ := List.mem_map.mp hb
    rfl
  have hsealed : knownPrimitives.gcm.encrypt (List.replicate 16 0) (List.replicate 12 0) []
      (List.replicate 16 0) = (gcmKnownBlock, gcmKnownTag) := by decide
  constructor
  · have hcall : GcmCall readyWorld .aesGcm 0x100 16 0x200 12 NULL 0 0x300 16 0x300 0x400 16 := by
      constructor
      case data => exact fun _ => ⟨⟨by decide, by decide⟩, ⟨by decide, by decide⟩, Or.inl rfl⟩
      case tagApart => exact Or.inl (by decide)
      case aad => exact fun h => absurd rfl h
      case keyLen => exact Or.inl rfl
      all_goals decide
    obtain ⟨hok, houtput⟩ :=
      hencrypt readyWorld .initial .aesGcm 0x100 16 0x200 12 NULL 0 0x300 16 0x300 0x400 hcall
    rw [hzero, hzero, hzero, hzero] at houtput
    exact ⟨hok, hsealed.symm.trans houtput⟩
  · have hheld : ∀ p n, p ≠ NULL → p + n ≤ 0x10000 →
        (referenceVectorLaws knownPrimitives).Holds .initial (.raw p n []) := by
      intro p n hp hn
      exact ⟨rfl, ⟨hp, Nat.lt_of_le_of_lt hn (by decide)⟩, hn⟩
    have hvectors : GcmVectors (referenceVectorLaws knownPrimitives) .initial (.raw 0x300 16 [])
        (.raw 0x100 16 []) (.raw 0x200 12 []) .null := by
      constructor
      case keyLen => exact Or.inl rfl
      case ivLen => rfl
      case room => exact ⟨by decide, by decide⟩
      case data => exact hheld 0x300 16 (by decide) (by decide)
      case key => exact hheld 0x100 16 (by decide) (by decide)
      case iv => exact hheld 0x200 12 (by decide) (by decide)
      case aad => exact Or.inl rfl
    obtain ⟨out, hok, hiv, houtput⟩ := hencryptR readyWorld .initial _ _ _ _ (by decide) hvectors
    refine ⟨out, hok, hiv, hsealed.symm.trans ?_⟩
    rw [← houtput]
    simp only [Sexp.bytes, hzero]
    rfl

end Zucrypt
