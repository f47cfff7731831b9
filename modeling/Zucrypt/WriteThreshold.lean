import Zucrypt.KeyWriting
import Zucrypt.PublicHalf
import Zucrypt.RsaSchemes

/-! # How large a buffer `zuc_pkey_write` needs

The backend's writer of PEM (`mbedtls_pem_write_buffer`, `tf-psa-crypto/lib/pem.c`) wants room for
the NUL after the text, and `zuc_pkey_write` does not count that NUL in what it reports.  So DER
fits in a buffer of exactly the length reported, and PEM in none that is shorter than one byte more.

`ExactThreshold` says of a handle and a format that a buffer of exactly the reported length is what
it takes: with that much room the call succeeds, with less it fails, and a successful call reports
that length.  `write_threshold_iff` is that this holds of the DER formats and of no other.

The key may be any that was made, from whatever source (`Made`), and the backend any that keeps a
law of its keys and has memory for everyone (`CalmBackend`): a call may fail for want of memory
whatever its buffer is.  The writer of PEM is the vendored one (`hpem`), since the byte is lost
between that and the adapter.  The handle must be one that can be written in the format at all
(`hsome`): of one that cannot there is no length to speak of. -/
namespace Zucrypt
open Effects ByteMemory

variable {O : Objects}

/-! ### The writer of PEM -/

/-- The octets of a C string. -/
def strOctets (s : String) : List Byte := s.toList.map fun c => UInt8.ofNat c.toNat

/-- What `mbedtls_base64_encode` says it needs for `n` bytes, a NUL included. -/
def base64Size (n : Nat) : Nat :=
  if n = 0 then 0 else (n / 3 + if n % 3 ≠ 0 then 1 else 0) * 4 + 1

/-- The loop of `mbedtls_pem_write_buffer`: lines of 64 characters. -/
def pemLines (c : List Byte) : List Byte :=
  if c = [] then [] else c.take 64 ++ [10] ++ pemLines (c.drop 64)
termination_by c.length
decreasing_by
  rename_i hne
  have := List.length_pos_of_ne_nil hne
  rw [List.length_drop]
  omega

/-- `mbedtls_pem_write_buffer`. -/
def mbedtlsPemWriteBuffer (header footer : String) (der : List Byte) (bufLen : Nat) :
    PsaStatus × Output :=
  let useLen := base64Size der.length
  let addLen := (strOctets header).length + (strOctets footer).length +
    (if 2 < useLen then useLen - 2 else 0) / 64 + 1
  if bufLen < useLen + addLen then
    (.errorBufferTooSmall, ⟨[], useLen + addLen⟩)
  else
    let text := strOctets header ++ pemLines (base64 der) ++ strOctets footer ++ [0]
    (.success, ⟨text ++ List.replicate (bufLen - text.length) 0, text.length⟩)

/-- Base64 has four characters for each three bytes begun. -/
theorem length_base64 (bs : List Byte) : (base64 bs).length = (bs.length + 2) / 3 * 4 := by
  induction bs using base64.induct with
  | case1 a b c rest ih =>
    simp only [base64, List.length_cons, ih]
    omega
  | case2 a b => simp [base64]
  | case3 a => simp [base64]
  | case4 => simp [base64]

/-- What the vendored encoder says it needs counts a NUL. -/
theorem base64Size_eq {bs : List Byte} (h : bs ≠ []) : base64Size bs.length = (base64 bs).length + 1 := by
  have hlen := List.length_pos_of_ne_nil h
  rw [base64Size, if_neg (by omega), length_base64]
  split <;> omega

/-- Each line of 64 characters, and the last, has a newline more. -/
theorem length_pemLines (c : List Byte) : (pemLines c).length = c.length + (c.length + 63) / 64 := by
  induction hn : c.length using Nat.strong_induction_on generalizing c with
  | _ n ih =>
    subst hn
    rw [pemLines]
    split
    · rename_i hnil
      simp [hnil]
    · rename_i hne
      have hpos := List.length_pos_of_ne_nil hne
      have hrest := ih (c.drop 64).length (by rw [List.length_drop]; omega) (c.drop 64) rfl
      simp only [List.length_append, List.length_take, List.length_singleton, hrest,
        List.length_drop]
      omega

/-- The text between two lines, without the NUL. -/
def pemBody (header footer : String) (der : List Byte) : List Byte :=
  strOctets header ++ pemLines (base64 der) ++ strOctets footer

/-- The writer needs one byte more than the text has. -/
theorem mbedtlsPemWriteBuffer_eq (header footer : String) (der : List Byte) (bufLen : Nat) :
    mbedtlsPemWriteBuffer header footer der bufLen =
      if bufLen < (pemBody header footer der).length + 1 then
        (.errorBufferTooSmall, ⟨[], (pemBody header footer der).length + 1⟩)
      else
        (.success, ⟨pemBody header footer der ++ [0] ++
          List.replicate (bufLen - ((pemBody header footer der).length + 1)) 0,
          (pemBody header footer der).length + 1⟩) := by
  have hsize : base64Size der.length + ((strOctets header).length + (strOctets footer).length +
      (if 2 < base64Size der.length then base64Size der.length - 2 else 0) / 64 + 1) =
        (pemBody header footer der).length + 1 := by
    have hlines := length_pemLines (base64 der)
    by_cases hder : der = []
    · subst hder
      have hnil : base64 [] = [] := by simp [base64]
      have hnone : (pemLines []).length = 0 := by rw [← hnil, hlines, hnil, List.length_nil]
      simp [pemBody, hnil, hnone, base64Size]
    · have hchars := length_base64 der
      have hpos := List.length_pos_of_ne_nil hder
      simp only [pemBody, List.length_append, hlines, base64Size_eq hder]
      rw [if_pos (by omega)]
      omega
  simp only [mbedtlsPemWriteBuffer, hsize, pemBody, List.length_append, List.length_singleton]

/-! ### Thresholds -/

/-- The call writes `bytes` in a buffer of at least `size`, and in a shorter one zeros; it
touches nothing else. -/
structure WritesFrom (size : Nat) (bytes : List Byte) (m : Memory) (out outSize : Nat)
    (r : CallOutcome) : Prop where
  fits : size ≤ outSize → r.1 = (.ok, some bytes.length) ∧ read r.2 out bytes.length = bytes
  short : outSize < size → r.1 = (.errBadLength, some 0) ∧ read r.2 out outSize = List.replicate outSize 0
  inside : ∀ a, a < out ∨ out + outSize ≤ a → r.2 a = m a

/-- `zuc_pkey_write` of this handle needs a buffer of exactly the length it reports. -/
def ExactThreshold {σ : Type} (h : Handler (Call O) σ) (handle : ZucPkey) (format : ZucPkeyFormat)
    (publicOnly : Bool) : Prop :=
  ∃ bytes : List Byte, ∀ (w : World) (s : σ) (out outSize len : Nat), 0 < w.refcount → out ≠ NULL →
    let r := (zucPkeyWrite (some handle) format publicOnly out outSize (some len)).exec h w s
    WritesFrom bytes.length bytes w.mem out outSize (r.value, r.world.mem)

/-- The call succeeds with some buffer. -/
def WritesSomewhere {σ : Type} (h : Handler (Call O) σ) (handle : ZucPkey) (format : ZucPkeyFormat)
    (publicOnly : Bool) : Prop :=
  ∃ (w : World) (s : σ) (out outSize len n : Nat), 0 < w.refcount ∧
    ((zucPkeyWrite (some handle) format publicOnly out outSize (some len)).exec h w s).value =
      (.ok, some n)

/-- The text of an encoding, and in DER the encoding itself. -/
def written (e : List Byte × String) (format : ZucPkeyFormat) : List Byte :=
  if format = .pkcs1Der ∨ format = .infoDer then e.1
  else pemBody ("-----BEGIN " ++ e.2 ++ "-----\n") ("-----END " ++ e.2 ++ "-----\n") e.1

/-- The room the writer wants for it. -/
def neededSize (e : List Byte × String) (format : ZucPkeyFormat) : Nat :=
  (written e format).length + if format = .pkcs1Der ∨ format = .infoDer then 0 else 1

/-- What the caller gets of an encoding. -/
theorem deliver_writesFrom {F : KeyOperations} (hpem : F.pem = mbedtlsPemWriteBuffer)
    (e : List Byte × String) (format : ZucPkeyFormat) {out : Nat} (hout : out ≠ NULL) (outSize : Nat)
    (m : Memory) :
    WritesFrom (neededSize e format) (written e format) m out outSize
      (F.deliver (.ok e) format out outSize (some 0) m) := by
  unfold KeyOperations.deliver KeyOperations.give neededSize written
  by_cases hder : format = .pkcs1Der ∨ format = .infoDer
  · simp only [if_pos hder, Nat.add_zero]
    by_cases hsize : outSize < e.1.length
    · simp only [if_pos hsize, ne_eq, reduceCtorEq, not_false_eq_true, if_true]
      obtain ⟨hzero, hsame⟩ := zeroed_spec m outSize hout fun _ _ => rfl
      exact ⟨fun hle => absurd hsize (Nat.not_lt.mpr hle), fun _ => ⟨rfl, hzero⟩, hsame⟩
    · simp only [if_neg hsize, ne_eq, not_true_eq_false, if_false]
      refine ⟨fun _ => ⟨rfl, read_write_self _ _ _⟩, fun hlt => absurd hlt hsize, fun a ha => ?_⟩
      exact write_apply_outside _ (by omega)
  · -- PEM needs room for the terminator, which is not reported
    simp only [if_neg hder, hpem, mbedtlsPemWriteBuffer_eq, List.append_assoc]
    generalize pemBody _ _ _ = text
    by_cases hsize : outSize < text.length + 1
    · simp only [if_pos hsize, ne_eq, reduceCtorEq, not_false_eq_true, if_true, List.take_nil,
        write_nil]
      obtain ⟨hzero, hsame⟩ := zeroed_spec m outSize hout fun _ _ => rfl
      exact ⟨fun hle => absurd hsize (Nat.not_lt.mpr hle), fun _ => ⟨rfl, hzero⟩, hsame⟩
    · simp only [if_neg hsize, ne_eq, not_true_eq_false, if_false, reduceCtorEq, false_or,
        Nat.add_eq_zero_iff, Nat.one_ne_zero, and_false, Nat.add_sub_cancel]
      refine ⟨fun _ => ⟨rfl, ?_⟩, fun hlt => absurd hlt hsize, fun a ha => ?_⟩
      · show read (write m out _) out text.length = text
        refine read_write_prefix _ out (List.prefix_take_iff.mpr ⟨⟨_, rfl⟩, ?_⟩)
        exact Nat.le_of_succ_le (Nat.not_lt.mp hsize)
      · exact write_take_outside _ _ ha

/-! ### A key without an encoding -/

theorem exported_ne_ok (key : RefKey) : key.exported ≠ .error .ok := by
  unfold RefKey.exported
  split <;> simp

/-- An encoding that fails has a reason. -/
theorem info_ne_ok (F : KeyOperations) (half : RefKey) : F.info half ≠ .error .ok := by
  unfold KeyOperations.info
  split
  · split <;> simp
  · split <;> simp

/-- The reason stays what it was. -/
theorem map_ne_error {ε α β : Type} {v : Except ε α} {st : ε} (f : α → β) (h : v ≠ .error st) :
    v.map f ≠ .error st := by
  cases v with
  | error e => simpa [Except.map] using h
  | ok a => simp [Except.map]

/-- A public encoding that fails has a reason. -/
theorem encode_ne_ok (F : KeyOperations) (half : RefKey) (format : ZucPkeyFormat) :
    F.encode half format ≠ .error .ok := by
  unfold KeyOperations.encode
  split
  · simp
  · split
    · split
      · exact map_ne_error _ (exported_ne_ok half)
      · simp
    · exact map_ne_error _ (info_ne_ok F half)

/-- So has a private one. -/
theorem privateEncoding_ne_ok (key half : RefKey) (format : ZucPkeyFormat) :
    privateEncoding key half format ≠ .error .ok := by
  unfold privateEncoding
  split
  · simp
  · dsimp only
    split_ifs <;> first | exact map_ne_error _ (exported_ne_ok half) | simp

/-- No key is refused with `ZUC_OK`. -/
theorem encodingOf_ne_ok (F : KeyOperations) (T : KeyTheory O) (key : RefKey) (format : ZucPkeyFormat)
    (publicOnly : Bool) : F.encodingOf T key format publicOnly ≠ .error .ok := by
  unfold KeyOperations.encodingOf
  split
  · exact privateEncoding_ne_ok _ _ _
  · exact encode_ne_ok F _ _

/-! ### The call -/

section
variable {σ : Type} {T : KeyTheory O} {F : KeyOperations} {L : StoreLaw O StoredKey}
  {h : Handler (Call O) σ} {store : σ → KeyStore StoredKey} {handle : ZucPkey} {key : RefKey}
  {format : ZucPkeyFormat} {publicOnly : Bool}

/-- `zuc_pkey_write` against this backend is what `meets_zucPkeyWrite_any` says of all. -/
theorem exec_zucPkeyWrite (hh : CalmBackend L h store) (hL : L.Implies T.law)
    (hF : L.Implies (F.law T)) (hkey : Holds T handle key) (format : ZucPkeyFormat)
    (publicOnly : Bool) {w : World} (hready : 0 < w.refcount) (s : σ) (out outSize len : Nat) :
    let r := (zucPkeyWrite (some handle) format publicOnly out outSize (some len)).exec h w s
    (r.value, r.world.mem) = writeOutcomeOf F T key format publicOnly out outSize (some len) w.mem :=
  Meets.exec hh (meets_zucPkeyWrite_any hL hF hkey hready format publicOnly out outSize (some len))

/-- If it succeeds once, the key has an encoding. -/
theorem exists_encoding (hh : CalmBackend L h store) (hL : L.Implies T.law)
    (hF : L.Implies (F.law T)) (hkey : Holds T handle key)
    (hsome : WritesSomewhere h handle format publicOnly) :
    ∃ e, F.encodingOf T key format publicOnly = .ok e := by
  obtain ⟨w, s, out, outSize, len, n, hready, hok⟩ := hsome
  have hrun := congrArg Prod.fst
    (exec_zucPkeyWrite hh hL hF hkey format publicOnly hready s out outSize len)
  simp only at hrun
  rw [hok] at hrun
  cases he : F.encodingOf T key format publicOnly with
  | ok e => exact ⟨e, rfl⟩
  | error st =>
    rw [writeOutcomeOf, he] at hrun
    split at hrun
    · cases hrun
    · have hst : .ok = st := congrArg Prod.fst hrun
      exact absurd (hst ▸ he) (encodingOf_ne_ok F T key format publicOnly)

/-- What it does with a buffer, of any size. -/
theorem exec_writesFrom (hh : CalmBackend L h store) (hL : L.Implies T.law)
    (hF : L.Implies (F.law T)) (hpem : F.pem = mbedtlsPemWriteBuffer) (hkey : Holds T handle key)
    {e : List Byte × String} (he : F.encodingOf T key format publicOnly = .ok e) {w : World}
    (hready : 0 < w.refcount) (s : σ) {out : Nat} (hout : out ≠ NULL) (outSize len : Nat) :
    let r := (zucPkeyWrite (some handle) format publicOnly out outSize (some len)).exec h w s
    WritesFrom (neededSize e format) (written e format) w.mem out outSize (r.value, r.world.mem) := by
  have hrun := exec_zucPkeyWrite hh hL hF hkey format publicOnly hready s out outSize len
  simp only at hrun ⊢
  rw [hrun, writeOutcomeOf, if_neg (by simp [hout, SizeCell.store]), he]
  exact deliver_writesFrom hpem e format hout outSize w.mem

/-- DER needs what it has. -/
theorem exactThreshold_of_der (hh : CalmBackend L h store) (hL : L.Implies T.law)
    (hF : L.Implies (F.law T)) (hpem : F.pem = mbedtlsPemWriteBuffer) (hkey : Holds T handle key)
    {e : List Byte × String} (he : F.encodingOf T key format publicOnly = .ok e)
    (hder : format.IsDer) : ExactThreshold h handle format publicOnly := by
  have hneeds : neededSize e format = (written e format).length :=
    congrArg ((written e format).length + ·) (if_pos hder)
  refine ⟨written e format, fun w s out outSize len hready hout => ?_⟩
  rw [← hneeds]
  exact exec_writesFrom hh hL hF hpem hkey he hready s hout outSize len

/-- PEM never has what it needs: in a buffer of the length reported, the NUL is missing. -/
theorem not_exactThreshold_of_pem (hh : CalmBackend L h store) (hL : L.Implies T.law)
    (hF : L.Implies (F.law T)) (hpem : F.pem = mbedtlsPemWriteBuffer) (hkey : Holds T handle key)
    (hsome : WritesSomewhere h handle format publicOnly) (hder : ¬ format.IsDer) :
    ¬ ExactThreshold h handle format publicOnly := by
  obtain ⟨e, he⟩ := exists_encoding hh hL hF hkey hsome
  obtain ⟨w, s, _, _, len, _, hready, _⟩ := hsome
  rintro ⟨bytes, hexact⟩
  have hneeds : neededSize e format = (written e format).length + 1 := congrArg _ (if_neg hder)
  have hout : (1 : Nat) ≠ NULL := by decide
  have hrun := fun outSize => exec_writesFrom hh hL hF hpem hkey he hready s hout outSize len
  have hclaim := fun outSize => hexact w s 1 outSize len hready hout
  -- a buffer with room for all tells the two lengths are one
  have hlen : bytes.length = (written e format).length := by
    have hlarge := (hrun (bytes.length + neededSize e format)).fits (Nat.le_add_left _ _)
    have hlarge' := (hclaim (bytes.length + neededSize e format)).fits (Nat.le_add_right _ _)
    simpa using hlarge'.1.symm.trans hlarge.1
  have hshort := (hrun bytes.length).short (by rw [hneeds, hlen]; exact Nat.lt_succ_self _)
  have hfits := (hclaim bytes.length).fits (Nat.le_refl _)
  have hboth := hfits.1.symm.trans hshort.1
  simp at hboth

/-- The length `zuc_pkey_write` reports is the size it needs in DER, and in PEM never. -/
theorem write_threshold_iff (hh : CalmBackend L h store) (hL : L.Implies T.law)
    (hF : L.Implies (F.law T)) (hpem : F.pem = mbedtlsPemWriteBuffer) (hmade : Made L handle)
    (hsome : WritesSomewhere h handle format publicOnly) :
    ExactThreshold h handle format publicOnly ↔ format.IsDer := by
  obtain ⟨key, hkey⟩ := hmade.holds hL
  obtain ⟨e, he⟩ := exists_encoding hh hL hF hkey hsome
  constructor
  · intro hexact
    by_contra hder
    exact not_exactThreshold_of_pem hh hL hF hpem hkey hsome hder hexact
  · exact exactThreshold_of_der hh hL hF hpem hkey he

end

/-! ### An RSA key -/

/-- RSA keys, with the backend's writer of PEM. -/
def pemOperations : KeyOperations :=
  { rsaOperations knownPrimitives with pem := mbedtlsPemWriteBuffer }

def pemLaw : StoreLaw keyObjects StoredKey := keyLaw referenceTheory pemOperations []

/-- The backend with that writer keeps its law. -/
theorem pemLaw_calm :
    CalmBackend pemLaw (keyBackend referenceTheory pemOperations) KeyState.store :=
  keyBackend_calm (fun _ => rfl) noVectors_below

/-- The law says what keys are. -/
theorem pemLaw_theory : pemLaw.Implies referenceTheory.law :=
  (StoreLaw.and_left _ _).trans (StoreLaw.and_left _ _)

/-- And what is done with them. -/
theorem pemLaw_operations : pemLaw.Implies (pemOperations.law referenceTheory) :=
  (StoreLaw.and_left _ _).trans (StoreLaw.and_right _ _)

/-- A private RSA key is written in PKCS#1. -/
theorem encodingOf_private_pkcs1 (F : KeyOperations) (k : Rsa.PrivateKey) {format : ZucPkeyFormat}
    (hformat : format = .pkcs1Der ∨ format = .pkcs1Pem) :
    F.encodingOf referenceTheory (rsaPrivateRef k) format false =
      .ok ((rsaPrivateRef k).material, "RSA PRIVATE KEY") := by
  rcases hformat with rfl | rfl <;> rfl

/-- The key is written, if the buffer is large enough. -/
theorem usualKey_writesSomewhere {handle : ZucPkey}
    (hkey : Holds referenceTheory handle (rsaPrivateRef Rsa.usualKey)) {format : ZucPkeyFormat}
    (hformat : format = .pkcs1Der ∨ format = .pkcs1Pem) :
    WritesSomewhere (keyBackend referenceTheory pemOperations) handle format false := by
  have hready : 0 < readyWorld.refcount := by decide
  have he := encodingOf_private_pkcs1 pemOperations Rsa.usualKey hformat
  generalize ((rsaPrivateRef Rsa.usualKey).material, "RSA PRIVATE KEY") = e at he
  have hout : (1 : Nat) ≠ NULL := by decide
  have hrun := exec_writesFrom pemLaw_calm pemLaw_theory pemLaw_operations rfl hkey he hready
    KeyState.initial hout (neededSize e format) 0
  exact ⟨_, _, _, _, _, _, hready, (hrun.fits (Nat.le_refl _)).1⟩

/-- A private key that was imported, written in DER and in PEM. -/
theorem write_threshold_usual : ∃ handle, Made pemLaw handle ∧
    (ExactThreshold (keyBackend referenceTheory pemOperations) handle .pkcs1Der false ↔
      ZucPkeyFormat.IsDer .pkcs1Der) ∧
    (ExactThreshold (keyBackend referenceTheory pemOperations) handle .pkcs1Pem false ↔
      ZucPkeyFormat.IsDer .pkcs1Pem) := by
  obtain ⟨handle, hmade, hkey⟩ := exists_private_handle_of pemLaw_calm pemLaw_theory Rsa.usualKey
    size_usualKey fits_usualKey
  have hholds : Holds referenceTheory handle (rsaPrivateRef Rsa.usualKey) := ⟨hkey, fits_usualKey⟩
  exact ⟨handle, hmade,
    write_threshold_iff pemLaw_calm pemLaw_theory pemLaw_operations rfl hmade
      (usualKey_writesSomewhere hholds (.inl rfl)),
    write_threshold_iff pemLaw_calm pemLaw_theory pemLaw_operations rfl hmade
      (usualKey_writesSomewhere hholds (.inr rfl))⟩

/-- Its PEM does not fit in a buffer of the length reported. -/
theorem usualKey_pem_one_more : ∃ handle, Made pemLaw handle ∧
    WritesSomewhere (keyBackend referenceTheory pemOperations) handle .pkcs1Pem false ∧
    ¬ ExactThreshold (keyBackend referenceTheory pemOperations) handle .pkcs1Pem false := by
  obtain ⟨handle, hmade, hkey⟩ := exists_private_handle_of pemLaw_calm pemLaw_theory Rsa.usualKey
    size_usualKey fits_usualKey
  have hholds : Holds referenceTheory handle (rsaPrivateRef Rsa.usualKey) := ⟨hkey, fits_usualKey⟩
  have hsome := usualKey_writesSomewhere hholds (.inr rfl)
  refine ⟨handle, hmade, hsome, ?_⟩
  refine not_exactThreshold_of_pem pemLaw_calm pemLaw_theory pemLaw_operations rfl hholds hsome ?_
  rintro (h | h) <;> cases h

end Zucrypt
