import Zucrypt.MadeKeys

/-! # What is written of a key

`zuc_pkey_write` of any handle, public or private, in terms of the handle's key: the encoding
depends on the key, the format and which half is asked for, and on nothing else.  What the caller
gets of it is `KeyOperations.deliver`.

A public half is encoded from what the backend exports (`KeyUse`), a private one from the handle's
own material: PKCS#1 is the material of an RSA key, and PKCS#8 and SEC1 are put together around it,
in a buffer whose size is the right one (`meets_encodeInto`).  `meets_zucPkeyWrite_any` has a case
for each kind of key. -/
namespace Zucrypt
open Effects ByteMemory

variable {O : Objects}

/-- The encoding of a key pair, whose public half is `half`. -/
def privateEncoding (key half : RefKey) (format : ZucPkeyFormat) :
    Except ZucStatus (List Byte × String) :=
  let type := algOfPsa key.type key.bits
  let pkcs1 := decide (format = .pkcs1Der ∨ format = .pkcs1Pem)
  match format with
  | .other _ => .error .errInvalidArgument
  | _ =>
    if type = .rsa then
      if pkcs1 then .ok (key.material, "RSA PRIVATE KEY")
      else if 0xFFFF - 64 < key.material.length then .error .errInternal
      else .ok ((rsaPrivateKeyInfo key.material).encode, "PRIVATE KEY")
    else if type = .x25519 then
      if pkcs1 then .error .errUnsupported
      else .ok ((x25519PrivateKeyInfo key.material).encode, "PRIVATE KEY")
    else
      half.exported.map fun point =>
        if pkcs1 then ((ecPrivateKey type key.material point true).encode, "EC PRIVATE KEY")
        else ((ecPrivateKeyInfo type key.material point).encode, "PRIVATE KEY")

/-- The encoding of the half of a key that is asked for. -/
def KeyOperations.encodingOf (F : KeyOperations) (T : KeyTheory O) (key : RefKey)
    (format : ZucPkeyFormat) (publicOnly : Bool) : Except ZucStatus (List Byte × String) :=
  if key.type.isKeyPair && !publicOnly then privateEncoding key (T.publicHalf key) format
  else F.encode (T.publicHalf key) format

/-! ### Sizes -/

/-- Other than RSA keys, the keys the adapter knows are on curves of at most 521 bits. -/
theorem bits_le_of_algOfPsa {type : PsaKeyType} {bits : Nat} (hknown : algOfPsa type bits ≠ .none)
    (hrsa : type.isRsa = false) : bits ≤ 521 := by
  unfold algOfPsa at hknown
  rw [if_neg (by simp [hrsa])] at hknown
  by_contra hlong
  revert hknown
  split
  · rw [if_neg (by omega), if_neg (by omega), if_neg (by omega)]
    exact fun h => h rfl
  · rw [if_neg (by omega)]
    exact fun h => h rfl
  · exact fun h => h rfl

theorem exportSize_le {key : RefKey} (hbits : key.bits ≤ 521) (hrsa : key.type.isRsa = false) :
    exportSize key ≤ 133 := by
  have hbytes : psaBitsToBytes key.bits ≤ 66 := by
    unfold psaBitsToBytes
    omega
  unfold exportSize psaExportKeyOutputSize psaExportPublicKeyOutputSize
  cases htype : key.type with
  | rsaKeyPair => simp [htype, PsaKeyType.isRsa] at hrsa
  | rsaPublicKey => simp [htype, PsaKeyType.isRsa] at hrsa
  | eccKeyPair family =>
    simp only [PsaKeyType.isKeyPair, if_true]
    omega
  | eccPublicKey family =>
    show 2 * psaBitsToBytes key.bits + 1 ≤ 133
    omega
  | _ => simp [PsaKeyType.isKeyPair, PsaKeyType.isRsa, PsaKeyType.eccFamily]

section
variable {T : KeyTheory O} {L : StoreLaw O StoredKey} {w : World} {S : KeyStore StoredKey}
  {handle : ZucPkey} {key : RefKey}

theorem Loads.isRsa (h : Loads T handle key) (hec : handle.type ≠ .rsa) : key.type.isRsa = false := by
  rw [← isRsa_publicHalf T]
  exact Bool.eq_false_iff.mpr fun hrsa => hec (h.type_eq_rsa.mpr hrsa)

/-- The material of a curve key is short, -/
theorem Holds.length_material_le (h : Holds T handle key) (hec : handle.type ≠ .rsa) :
    key.material.length ≤ 133 := by
  have hrsa := h.isRsa hec
  have hbits := bits_le_of_algOfPsa (h.type ▸ h.known) hrsa
  exact Nat.le_trans h.fits (exportSize_le hbits hrsa)

/-- and so is that of its public half, if it is exported. -/
theorem Loads.length_publicHalf_le (h : Loads T handle key) (hec : handle.type ≠ .rsa)
    (hfits : (T.publicHalf key).Fits) : (T.publicHalf key).material.length ≤ 133 := by
  have hrsa : (T.publicHalf key).type.isRsa = false := (isRsa_publicHalf T key).trans (h.isRsa hec)
  have hbits : (T.publicHalf key).bits ≤ 521 := by
    rw [T.publicHalf_bits]
    exact bits_le_of_algOfPsa (h.type ▸ h.known) (h.isRsa hec)
  exact Nat.le_trans hfits (exportSize_le hbits hrsa)

/-! ### The private encoders -/

/-- A block filled exactly with an encoding. -/
theorem givesEncoding_holding (p : Nat) (bs : List Byte) (label : String) :
    GivesEncoding (.ok (bs, label)) (.ok ⟨.holding p bs, label⟩) := by
  have hok := GivesEncoding.ok ⟨.holding p bs, label⟩
    (show (HeapBytes.holding p bs).len = (HeapBytes.holding p bs).bytes.length by
      rw [HeapBytes.bytes_holding]
      rfl)
  simpa only [HeapBytes.bytes_holding] using hok

theorem meets_encodeInto {total : Nat} {write : Cursor → Cursor} {bs : List Byte}
    (hfill : FillsExactly total write bs) :
    Meets L w S (encodeInto total write) fun r w' _ =>
      w' = w ∧ ∃ p, r = some (HeapBytes.holding p bs) := by
  obtain ⟨rfl, hwrite⟩ := hfill
  refine Meets.bind (Meets.mallocBytes fun p => Meets.pure ⟨rfl, p, ?_⟩)
  rw [Option.map_some, hwrite]
  rfl

theorem meets_x25519Encode (h : Holds T handle key) (htype : handle.type = .x25519) :
    Meets L w S (x25519Encode handle false) fun r w' _ =>
      SameButCount w w' ∧
        GivesEncoding (.ok ((x25519PrivateKeyInfo key.material).encode, "PRIVATE KEY")) r := by
  have hlen := h.length_material_le (by rw [htype]; decide)
  have hbody : tlvSize (x25519Body key.material.length) ≤ 0xFFFF := by
    have hk := tlvSize_le key.material.length
    have hinner := tlvSize_le (tlvSize key.material.length)
    have hoid : tlvSize OID_X25519.length = 7 := by decide
    have houter := tlvSize_le (x25519Body key.material.length)
    unfold x25519Body at *
    omega
  obtain ⟨htotal, hwrites⟩ := x25519_exact hbody
  have hfill := hwrites.fillsExactly htotal
  rw [← h.material] at hfill
  refine Meets.neg (by simp) ((meets_encodeInto hfill).andThen ?_)
  rintro _ w' S' ⟨rfl, p, rfl⟩
  refine Meets.pure ⟨.refl w', ?_⟩
  rw [h.material]
  exact givesEncoding_holding p _ _

theorem meets_nistEncode (hL : L.Implies T.law) (h : Holds T handle key) (hready : 0 < w.refcount)
    (hrsa : handle.type ≠ .rsa) (pkcs1 : Bool) :
    Meets L w S (nistEncode handle pkcs1) fun r w' _ =>
      SameButCount w w' ∧
        GivesEncoding ((T.publicHalf key).exported.map fun point =>
          if pkcs1 then ((ecPrivateKey handle.type key.material point true).encode, "EC PRIVATE KEY")
          else ((ecPrivateKeyInfo handle.type key.material point).encode, "PRIVATE KEY")) r := by
  refine (meets_publicDer hL h hready).andThen fun r w' S' hr => ?_
  obtain ⟨hw, hr⟩ := hr
  -- without the public point there is no encoding
  by_cases hfits : (T.publicHalf key).Fits
  case neg =>
    rw [RefKey.exported, if_neg hfits] at hr ⊢
    cases hr
    exact Meets.pure ⟨hw, .error _⟩
  have hpoint := h.length_publicHalf_le hrsa hfits
  have hd := h.length_material_le hrsa
  rw [RefKey.exported, if_pos hfits] at hr ⊢
  generalize (T.publicHalf key).material = q at hr hpoint ⊢
  cases hr with
  | ok point hlen =>
    have hsec1 := ecSec1Size_le handle.type key.material.length point.bytes.length true
    have hinfo := ecInfoSize_le handle.type key.material.length point.bytes.length
    simp only [Except.map]
    cases pkcs1 with
    | true =>
      obtain ⟨htotal, hwrites⟩ := ecSec1_exact handle.type key.material point.bytes true (by omega)
      have hfill := hwrites.fillsExactly htotal
      rw [← h.material] at hfill
      simp only [if_true]
      refine (meets_encodeInto hfill).andThen ?_
      rintro _ w'' S'' ⟨rfl, p, rfl⟩
      refine Meets.bind (Meets.freeBytes (Meets.pure ⟨hw, ?_⟩))
      rw [h.material]
      exact givesEncoding_holding p _ _
    | false =>
      obtain ⟨htotal, hwrites⟩ := ecInfo_exact handle.type key.material point.bytes (by omega)
      have hfill := hwrites.fillsExactly htotal
      rw [← h.material] at hfill
      simp only [Bool.false_eq_true, if_false]
      refine (meets_encodeInto hfill).andThen ?_
      rintro _ w'' S'' ⟨rfl, p, rfl⟩
      refine Meets.bind (Meets.freeBytes (Meets.pure ⟨hw, ?_⟩))
      rw [h.material]
      exact givesEncoding_holding p _ _

theorem meets_rsaEncode_private (h : Holds T handle key) (hrsa : handle.type = .rsa)
    (format : ZucPkeyFormat) (half : RefKey) :
    Meets L w S (rsaEncode handle format true) fun r w' _ =>
      SameButCount w w' ∧ GivesEncoding (privateEncoding key half format) r := by
  have htype : algOfPsa key.type key.bits = .rsa := h.type.symm.trans hrsa
  -- PKCS #1 is the material itself
  have hpkcs1 : Meets L w S (rsaEncode handle .pkcs1Der true) fun r w' _ =>
      SameButCount w w' ∧ GivesEncoding (.ok (key.material, "RSA PRIVATE KEY")) r := by
    unfold rsaEncode
    refine Meets.pos (by simp) (Meets.pos rfl (Meets.bind ?_))
    refine Meets.mallocBytes fun p => Meets.pure ⟨.refl w, ?_⟩
    rw [h.length, h.material]
    exact (GivesBytes.of_eq (bytes_copy p key.material) rfl).labelled "RSA PRIVATE KEY"
  -- the other wraps it, if two bytes are enough for its length
  have hinfo : Meets L w S (do
      let der ← pkcs8Wrap handle.der.bytes
      return der.map (⟨·, "PRIVATE KEY"⟩) : Adapter O (Except ZucStatus Encoding)) fun r w' _ =>
        SameButCount w w' ∧ GivesEncoding (if 0xFFFF - 64 < key.material.length then .error .errInternal
          else .ok ((rsaPrivateKeyInfo key.material).encode, "PRIVATE KEY")) r := by
    rw [h.material]
    by_cases hlong : 0xFFFF - 64 < key.material.length
    · refine Meets.bind (Meets.pos hlong (Meets.pure (Meets.pure ⟨.refl w, ?_⟩)))
      rw [if_pos hlong]
      exact .error _
    · obtain ⟨htotal, hwrites⟩ := pkcs8_exact (Nat.not_lt.mp hlong)
      have hfill := (hwrites.fillsExactly htotal).2
      refine Meets.bind (Meets.neg hlong (Meets.bind (Meets.mallocBytes fun p => Meets.pure ?_)))
      refine Meets.pure ⟨.refl w, ?_⟩
      rw [if_neg hlong, Except.map]
      have hblock : HeapBytes.mk (pkcs8Write ⟨.fresh p (pkcs8Total key.material.length), 0⟩
          key.material).buf (pkcs8Total key.material.length) =
            .holding p (rsaPrivateKeyInfo key.material).encode := by
        have hwrite : pkcs8Write ⟨.fresh p (pkcs8Total key.material.length), 0⟩ key.material = _ :=
          hfill p
        rw [hwrite, htotal]
        rfl
      rw [hblock]
      exact givesEncoding_holding p _ _
  have hv : privateEncoding key half format =
      match format with
      | .other _ => .error .errInvalidArgument
      | _ =>
        if format = .pkcs1Der ∨ format = .pkcs1Pem then .ok (key.material, "RSA PRIVATE KEY")
        else if 0xFFFF - 64 < key.material.length then .error .errInternal
        else .ok ((rsaPrivateKeyInfo key.material).encode, "PRIVATE KEY") := by
    unfold privateEncoding
    cases format <;> simp [htype]
  rw [hv]
  unfold rsaEncode
  cases format with
  | other value => exact Meets.pure ⟨.refl w, .error _⟩
  | pkcs1Der => exact hpkcs1
  | pkcs1Pem => exact hpkcs1
  | infoDer => exact Meets.neg (by simp) (Meets.pos rfl hinfo)
  | infoPem => exact Meets.neg (by simp) (Meets.pos rfl hinfo)

theorem meets_ecEncode_private (hL : L.Implies T.law) (h : Holds T handle key)
    (hready : 0 < w.refcount) (hrsa : handle.type ≠ .rsa) (format : ZucPkeyFormat) :
    Meets L w S (ecEncode handle format true) fun r w' _ =>
      SameButCount w w' ∧ GivesEncoding (privateEncoding key (T.publicHalf key) format) r := by
  have htype : algOfPsa key.type key.bits = handle.type := h.type.symm
  have hnone : Meets L w S (pure (.error .errUnsupported) : Adapter O (Except ZucStatus Encoding))
      fun r w' _ => SameButCount w w' ∧ GivesEncoding (.error .errUnsupported) r :=
    Meets.pure ⟨.refl w, .error _⟩
  have hsec1 := meets_nistEncode (S := S) hL h hready hrsa true
  have hinfo := meets_nistEncode (S := S) hL h hready hrsa false
  unfold ecEncode privateEncoding
  rw [htype]
  by_cases hx : handle.type = .x25519
  · have hx25519 := meets_x25519Encode (L := L) (w := w) (S := S) h hx
    cases format with
    | other value => exact Meets.pure ⟨.refl w, .error _⟩
    | pkcs1Der => simpa [hx, x25519Encode] using hnone
    | pkcs1Pem => simpa [hx, x25519Encode] using hnone
    | infoDer => simpa [hx] using hx25519
    | infoPem => simpa [hx] using hx25519
  · cases format with
    | other value => exact Meets.pure ⟨.refl w, .error _⟩
    | pkcs1Der => simpa [hrsa, hx] using hsec1
    | pkcs1Pem => simpa [hrsa, hx] using hsec1
    | infoDer => simpa [hrsa, hx] using hinfo
    | infoPem => simpa [hrsa, hx] using hinfo

/-! ### Writing -/

/-- `zuc_pkey_write`, of any handle. -/
def writeOutcomeOf (F : KeyOperations) (T : KeyTheory O) (key : RefKey) (format : ZucPkeyFormat)
    (publicOnly : Bool) (out outSize : Nat) (outLen : SizeCell) (m : Memory) : CallOutcome :=
  if out = NULL ∨ outLen.store 0 = none then
    ((.errInvalidArgument, outLen.store 0), m)
  else
    F.deliver (F.encodingOf T key format publicOnly) format out outSize (outLen.store 0) m

theorem meets_zucPkeyWrite_any (hL : L.Implies T.law) {F : KeyOperations} (hF : L.Implies (F.law T))
    (h : Holds T handle key) (hready : 0 < w.refcount) (format : ZucPkeyFormat) (publicOnly : Bool)
    (out outSize : Nat) (outLen : SizeCell) :
    Meets L w S (zucPkeyWrite (some handle) format publicOnly out outSize outLen) fun r w' _ =>
      (r, w'.mem) = writeOutcomeOf F T key format publicOnly out outSize outLen w.mem := by
  refine meets_watched_endsIn hready fun w₀ hmem hready => ?_
  rw [← hmem, writeOutcomeOf]
  unfold pkeyWriteImpl
  by_cases hargs : out = NULL ∨ outLen.store 0 = none
  · simp only [if_pos hargs]
    exact Meets.pure ⟨rfl, rfl⟩
  simp only [if_neg hargs]
  refine Meets.bind (Meets.ready (Meets.neg (by simp [hready]) ?_))
  have hrest := meets_deliver format (fun _ => hF) w₀ (F.encodingOf T key format publicOnly) out outSize
    (outLen.store 0)
  rw [h.kind]
  unfold KeyOperations.encodingOf at hrest ⊢
  -- which half is written, and of what kind the key is
  cases hpair : key.type.isKeyPair && !publicOnly with
  | true =>
    rw [hpair] at hrest
    by_cases hrsa : handle.type = .rsa
    · exact Meets.neg (not_not.mpr hrsa)
        ((meets_rsaEncode_private h hrsa format _).andThen hrest)
    · exact Meets.pos hrsa ((meets_ecEncode_private hL h hready hrsa format).andThen hrest)
  | false =>
    rw [hpair] at hrest
    by_cases hrsa : handle.type = .rsa
    · exact Meets.neg (not_not.mpr hrsa)
        ((meets_rsaEncode hL hF h hready hrsa format).andThen hrest)
    · exact Meets.pos hrsa ((meets_ecEncode hL hF h hrsa format).andThen hrest)

/-- PKCS#1 of an RSA key, in DER, is the key's material; what the backend would make of
other formats does not matter. -/
theorem meets_zucPkeyWrite_pkcs1 (hL : L.Implies T.law) (F : KeyOperations) (h : Holds T handle key)
    (hready : 0 < w.refcount) (hrsa : handle.type = .rsa) (out outSize : Nat) (outLen : SizeCell) :
    Meets L w S (zucPkeyWrite (some handle) .pkcs1Der false out outSize outLen) fun r w' _ =>
      (r, w'.mem) = writeOutcomeOf F T key .pkcs1Der false out outSize outLen w.mem := by
  refine meets_watched_endsIn hready fun w₀ hmem hready => ?_
  rw [← hmem, writeOutcomeOf]
  unfold pkeyWriteImpl
  by_cases hargs : out = NULL ∨ outLen.store 0 = none
  · simp only [if_pos hargs]
    exact Meets.pure ⟨rfl, rfl⟩
  simp only [if_neg hargs]
  refine Meets.bind (Meets.ready (Meets.neg (by simp [hready]) ?_))
  have hrest := meets_deliver (T := T) (L := L) (F := F) .pkcs1Der (fun hder => absurd (.inl rfl) hder) w₀
    (F.encodingOf T key .pkcs1Der false) out outSize (outLen.store 0)
  rw [h.kind]
  unfold KeyOperations.encodingOf at hrest ⊢
  cases hpair : key.type.isKeyPair && !false with
  | true =>
    rw [hpair] at hrest
    exact Meets.neg (not_not.mpr hrsa)
      ((meets_rsaEncode_private h hrsa .pkcs1Der _).andThen hrest)
  | false =>
    rw [hpair] at hrest
    have hpublic := meets_publicPkcs1 (S := S) hL h hready
    have hhalf := h.type_eq_rsa.mp hrsa
    refine Meets.neg (not_not.mpr hrsa) (Meets.andThen ?_ hrest)
    unfold rsaEncode KeyOperations.encode
    simpa [hhalf] using hpublic

end

end Zucrypt
