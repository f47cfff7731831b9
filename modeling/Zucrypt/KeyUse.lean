import Zucrypt.KeyMaking

/-! # Public operations, in terms of keys

What the operations that need no private key do, told by the public half of the handle's key alone.
`KeyOperations` is what the backend makes of a key, a signature and a point; given that, each
operation is a function of the half, the arguments and the caller's memory.

The functions of one name here (`exportOutcome`, `writeOutcome` and so on) are those functions.
There is one lemma for each operation, that it `Meets` its function; its proof follows the source
from the argument checks to the end, and where a key is loaded for it, the law of the store says
that it is the handle's.

An operation that is told by the half gives the same for two handles with one half, so that nothing
has to be compared between two runs. -/
namespace Zucrypt
open Effects ByteMemory

variable {O : Objects}

/-- A handle on this key, which is one that fits. -/
structure Holds (T : KeyTheory O) (handle : ZucPkey) (key : RefKey) : Prop extends
    Loads T handle key where
  fits : key.Fits

/-- What a key may be used for. -/
def StoredKey.Permits (m : StoredKey) (alg : PsaAlg) (usage : PsaKeyUsage) : Prop :=
  m.alg = alg ∧ usage ∈ m.usage

/-- What a backend does with keys; `encrypt` is for one draw of the padding's
randomness. -/
structure KeyOperations where
  verify : RefKey → PsaAlg → List Byte → List Byte → PsaStatus
  encrypt : RefKey → PsaAlg → List Byte → Nat → PsaStatus × Output
  agree : RefKey → PsaAlg → List Byte → Nat → PsaStatus × Output
  publicInfo : RefKey → Nat → Except PsaStatus (List Byte)
  pem : String → String → List Byte → Nat → PsaStatus × Output
  publicInfo_le : ∀ {key size der}, publicInfo key size = .ok der → der.length ≤ size

/-- The backend verifies and encrypts with the public half of a key, whichever it was
given, and writes that half. -/
def KeyOperations.law (F : KeyOperations) (T : KeyTheory O) : StoreLaw O StoredKey where
  makes _ _ := True
  allows
    | ⟨.psa (.verifyHash _ alg hash signature), r⟩, m =>
      m.Permits alg .verifyHash → r.answer = F.verify (T.publicHalf m.key) alg hash signature
    | ⟨.psa (.asymmetricEncrypt _ alg input size), r⟩, m =>
      m.Permits alg .encrypt → r.answer = F.encrypt (T.publicHalf m.key) alg input size
    | ⟨.psa (.rawKeyAgreement alg _ peer size), r⟩, m =>
      m.Permits alg .derive → r.answer = F.agree m.key alg peer size
    | ⟨.psa (.pkCopyPublicFromPsa _ _), r⟩, m =>
      .exportable ∈ m.usage → r.answer.1 = .success ∧ T.held r.answer.2 = some (T.publicHalf m.key)
    | _, _ => True
  elsewhere
    | ⟨.psa (.pkWritePubkeyDer pk size), r⟩ =>
      ∀ key, T.held pk = some key → r.answer = F.publicInfo key size
    | ⟨.psa (.pemWriteBuffer header footer der size), r⟩ => r.answer = F.pem header footer der size
    | _ => True

/-! ### The public half -/

/-- The material of a key, unless that is longer than the buffer it is exported into. -/
def RefKey.exported (key : RefKey) : Except ZucStatus (List Byte) :=
  if key.Fits then .ok key.material else .error .errBadLength

/-- A block that holds these bytes, or this error. -/
inductive GivesBytes : Except ZucStatus (List Byte) → Except ZucStatus HeapBytes → Prop
  | error (st : ZucStatus) : GivesBytes (.error st) (.error st)
  | ok (der : HeapBytes) (length : der.len = der.bytes.length) : GivesBytes (.ok der.bytes) (.ok der)

theorem GivesBytes.of_eq {der : HeapBytes} {bs : List Byte} (h : der.bytes = bs)
    (hlen : der.len = bs.length) : GivesBytes (.ok bs) (.ok der) := by
  subst h
  exact .ok der hlen

theorem bytes_copy (p : Nat) (bs : List Byte) :
    HeapBytes.bytes ⟨(HeapBuf.fresh p bs.length).store 0 bs, bs.length⟩ = bs := by
  have h := bytes_stored (o := ⟨bs, bs.length⟩) p (Nat.le_refl _) (Nat.le_refl _)
  rw [List.take_of_length_le (Nat.le_refl _)] at h
  exact h.trans (List.take_length)

section
variable {T : KeyTheory O} {L : StoreLaw O StoredKey} {w : World} {S : KeyStore StoredKey}
  {handle : ZucPkey} {key : RefKey}

/-- `public_der`, of a handle on any key. -/
theorem meets_publicDer (hL : L.Implies T.law) (h : Holds T handle key) (hready : 0 < w.refcount) :
    Meets L w S (publicDer handle) fun r w' _ =>
      SameButCount w w' ∧ GivesBytes (T.publicHalf key).exported r := by
  by_cases hkind : handle.isPrivate = false
  · have hpublic : T.publicHalf key = key := T.publicHalf_public (h.kind.symm.trans hkind)
    refine Meets.pos hkind (Meets.bind (Meets.mallocBytes fun p => Meets.pure ⟨.refl w, ?_⟩))
    rw [hpublic, RefKey.exported, if_pos h.fits, h.length, h.material]
    exact .of_eq (bytes_copy p _) rfl
  · refine Meets.neg hkind ((meets_pkeyPublicImpl hL h.toLoads hready).andThen fun r w' S' hr => ?_)
    obtain ⟨hw, hr⟩ := hr
    unfold HandsKey at hr
    split at hr
    · rename_i hfits
      obtain ⟨pub, rfl, hpub⟩ := hr
      refine Meets.neg (by simp) (Meets.bind (Meets.freeRecord (Meets.bind (Meets.liveAdd ?_))))
      refine Meets.pure ⟨⟨hw.mem, hw.refcount, hw.allocFailed⟩, ?_⟩
      rw [RefKey.exported, if_pos hfits]
      exact .of_eq hpub.material hpub.length
    · rename_i hlong
      subst hr
      refine Meets.pos (by simp) (Meets.pure ⟨hw, ?_⟩)
      rw [RefKey.exported, if_neg hlong]
      exact .error _

/-- `SubjectPublicKeyInfo`, as `spki_der` takes it from the writer. -/
def KeyOperations.info (F : KeyOperations) (half : RefKey) : Except ZucStatus (List Byte) :=
  match F.publicInfo half ZUC_PKEY_MAX_WRITE_SIZE with
  | .error ps => .error (if ps = .errorInsufficientMemory then .errMemory else .errBackend)
  | .ok der => if der = [] then .error .errBackend else .ok der

/-- The writer fills the block from its end, and the encoding is then moved to its start. -/
theorem bytes_moved (p : Nat) {size : Nat} {der : List Byte} (h : der.length ≤ size) :
    HeapBytes.bytes ⟨((HeapBuf.fresh p size).store (size - der.length) der).store 0 der, der.length⟩ =
      der := by
  have hsize : ((HeapBuf.fresh p size).store (size - der.length) der).cells.length = size := by
    simp only [HeapBuf.store, HeapBuf.fresh, List.length_append, List.length_take, List.length_map,
      List.length_drop, List.length_replicate]
    omega
  generalize (HeapBuf.fresh p size).store (size - der.length) der = b at hsize
  simp only [HeapBytes.bytes, HeapBuf.bytes, HeapBuf.store, List.take_zero, List.nil_append, hsize,
    Nat.sub_zero]
  have hall : (der.map some).take size = der.map some :=
    List.take_of_length_le (by rw [List.length_map]; exact h)
  rw [hall, List.take_left' (List.length_map some), List.map_map]
  simp [Function.comp_def]

/-- `spki_der`, of a handle on any key. -/
theorem meets_spkiDer (hL : L.Implies T.law) {F : KeyOperations} (hF : L.Implies (F.law T))
    (h : Loads T handle key) :
    Meets L w S (spkiDer handle) fun r w' _ => w' = w ∧ GivesBytes (F.info (T.publicHalf key)) r := by
  refine (meets_pkeyImport hL h .none .exportable).andThen fun id w' S' hid => ?_
  obtain ⟨hok, rfl, hS⟩ := hid
  refine Meets.neg (not_not.mpr hok) (Meets.bind (Meets.use hS (fun _ => rfl) fun pk hpk => ?_))
  obtain ⟨hsuccess, hheld⟩ := hF.allows _ _ hpk (List.mem_singleton_self _)
  refine Meets.bind (Meets.destroy (Meets.neg (not_not.mpr hsuccess) ?_))
  refine Meets.bind (Meets.mallocBytes fun p => Meets.bind (Meets.elsewhere (fun _ => rfl) ?_))
  intro der hder
  have hder := hF.elsewhere _ hder _ hheld
  refine Meets.bind (Meets.elsewhere (fun _ => rfl) fun _ _ => ?_)
  rw [hder, KeyOperations.info]
  cases hinfo : F.publicInfo (T.publicHalf key) ZUC_PKEY_MAX_WRITE_SIZE with
  | error ps => exact Meets.bind (Meets.freeBytes (Meets.pure ⟨rfl, .error _⟩))
  | ok der =>
    simp only
    by_cases hempty : der = []
    · rw [if_pos hempty, if_pos hempty]
      exact Meets.bind (Meets.freeBytes (Meets.pure ⟨rfl, .error _⟩))
    · rw [if_neg hempty, if_neg hempty]
      exact Meets.pure ⟨rfl, .of_eq (bytes_moved p (F.publicInfo_le hinfo)) rfl⟩

/-! ### Writing and exporting -/

/-- What a call returns, and the caller's memory after it. -/
abbrev CallOutcome : Type := (ZucStatus × SizeCell) × Memory

/-- The call ends so. -/
def EndsIn (v : CallOutcome) (w : World) (r : ZucStatus × SizeCell) (w' : World)
    (_ : KeyStore StoredKey) : Prop := (r, w'.mem) = v ∧ w'.allocFailed = w.allocFailed

theorem meets_watched_endsIn {impl : Adapter O (ZucStatus × SizeCell)} {v : CallOutcome}
    (hready : 0 < w.refcount)
    (h : ∀ w₀ : World, w₀.mem = w.mem → 0 < w₀.refcount → Meets L w₀ S impl (EndsIn v w₀)) :
    Meets L w S (watched impl) fun r w' _ => (r, w'.mem) = v := by
  refine Meets.watched fun w₀ hmem hcount hcalm => ?_
  refine (h w₀ hmem (hcount ▸ hready)).mono fun r w' S' hr => ?_
  exact ⟨hr.2.trans hcalm, hr.1⟩

/-- `zuc_pkey_export`, of the public half. -/
def exportOutcome (half : RefKey) (out outSize : Nat) (outLen : SizeCell) (m : Memory) : CallOutcome :=
  let outLen := outLen.store 0
  if out = NULL ∨ outLen = none then
    ((.errInvalidArgument, outLen), m)
  else
    match half.exported with
    | .error st => ((st, outLen), m)
    | .ok bytes =>
      if outSize < bytes.length then ((.errBadLength, outLen), m)
      else ((.ok, outLen.store bytes.length), write m out bytes)

theorem meets_zucPkeyExport (hL : L.Implies T.law) (h : Holds T handle key) (hready : 0 < w.refcount)
    (out outSize : Nat) (outLen : SizeCell) :
    Meets L w S (zucPkeyExport (some handle) true out outSize outLen) fun r w' _ =>
      (r, w'.mem) = exportOutcome (T.publicHalf key) out outSize outLen w.mem := by
  refine meets_watched_endsIn hready fun w₀ hmem hready => ?_
  rw [← hmem, exportOutcome]
  refine Meets.bind (Meets.ready (Meets.neg (by simp [hready]) ?_))
  by_cases hargs : out = NULL ∨ outLen.store 0 = none
  · simp only [if_pos hargs]
    exact Meets.pure ⟨rfl, rfl⟩
  simp only [if_neg hargs]
  refine Meets.neg (by simp) ((meets_publicDer hL h hready).andThen fun r w' S' hr => ?_)
  obtain ⟨hw, hr⟩ := hr
  generalize (T.publicHalf key).exported = v at hr ⊢
  cases hr with
  | error st => exact Meets.pure ⟨by rw [hw.mem], hw.allocFailed⟩
  | ok der hlen =>
    simp only [hlen]
    by_cases hsize : outSize < der.bytes.length
    · rw [if_pos hsize, if_pos hsize]
      exact Meets.bind (Meets.freeBytes (Meets.pure ⟨by rw [hw.mem], hw.allocFailed⟩))
    · rw [if_neg hsize, if_neg hsize]
      refine Meets.bind (Meets.writeMem (Meets.bind (Meets.freeBytes (Meets.pure ⟨?_, hw.allocFailed⟩))))
      rw [World.store_mem, hw.mem]

/-- The encoding of a public key. -/
def KeyOperations.encode (F : KeyOperations) (half : RefKey) (format : ZucPkeyFormat) :
    Except ZucStatus (List Byte × String) :=
  match format with
  | .other _ => .error .errInvalidArgument
  | _ =>
    if format = .pkcs1Der ∨ format = .pkcs1Pem then
      if half.type.isRsa then half.exported.map (·, "RSA PUBLIC KEY") else .error .errUnsupported
    else
      (F.info half).map (·, "PUBLIC KEY")

/-- A block that holds this encoding, or this error. -/
inductive GivesEncoding : Except ZucStatus (List Byte × String) → Except ZucStatus Encoding → Prop
  | error (st : ZucStatus) : GivesEncoding (.error st) (.error st)
  | ok (e : Encoding) (length : e.der.len = e.der.bytes.length) :
    GivesEncoding (.ok (e.der.bytes, e.label)) (.ok e)

theorem GivesBytes.labelled {v : Except ZucStatus (List Byte)} {r : Except ZucStatus HeapBytes}
    (h : GivesBytes v r) (label : String) : GivesEncoding (v.map (·, label)) (r.map (⟨·, label⟩)) := by
  cases h with
  | error st => exact .error st
  | ok der hlen => exact .ok ⟨der, label⟩ hlen

theorem isRsa_publicHalf (T : KeyTheory O) (key : RefKey) :
    (T.publicHalf key).type.isRsa = key.type.isRsa := by
  rw [T.publicHalf_type]
  cases key.type <;> rfl

theorem algOfPsa_eq_rsa {type : PsaKeyType} {bits : Nat} :
    algOfPsa type bits = .rsa ↔ type.isRsa = true := by
  unfold algOfPsa
  cases htype : type.isRsa with
  | true => simp
  | false =>
    refine iff_of_false ?_ (by simp)
    rw [if_neg (by simp)]
    split
    · split_ifs <;> simp
    · split_ifs <;> simp
    · simp

theorem Loads.type_eq_rsa (h : Loads T handle key) :
    handle.type = .rsa ↔ (T.publicHalf key).type.isRsa = true := by
  rw [isRsa_publicHalf, h.type, algOfPsa_eq_rsa]

theorem meets_publicInfo (hL : L.Implies T.law) {F : KeyOperations} (hF : L.Implies (F.law T))
    (h : Holds T handle key) :
    Meets L w S (do
      let der ← spkiDer handle
      return der.map (⟨·, "PUBLIC KEY"⟩) : Adapter O (Except ZucStatus Encoding)) fun r w' _ =>
        SameButCount w w' ∧
          GivesEncoding ((F.info (T.publicHalf key)).map (·, "PUBLIC KEY")) r := by
  refine (meets_spkiDer hL hF h.toLoads).andThen fun r w' S' hr => Meets.pure ?_
  obtain ⟨rfl, hr⟩ := hr
  exact ⟨.refl w', hr.labelled _⟩

/-- PKCS#1, of the public half of a handle's key. -/
theorem meets_publicPkcs1 (hL : L.Implies T.law) (h : Holds T handle key) (hready : 0 < w.refcount) :
    Meets L w S (do
      let der ← publicDer handle
      return der.map (⟨·, "RSA PUBLIC KEY"⟩) : Adapter O (Except ZucStatus Encoding)) fun r w' _ =>
        SameButCount w w' ∧
          GivesEncoding ((T.publicHalf key).exported.map (·, "RSA PUBLIC KEY")) r := by
  refine (meets_publicDer hL h hready).andThen fun r w' S' hr => Meets.pure ⟨hr.1, ?_⟩
  exact hr.2.labelled _

/-- `rsaEncode`, of the public half of a handle's key. -/
theorem meets_rsaEncode (hL : L.Implies T.law) {F : KeyOperations} (hF : L.Implies (F.law T))
    (h : Holds T handle key) (hready : 0 < w.refcount) (hrsa : handle.type = .rsa)
    (format : ZucPkeyFormat) :
    Meets L w S (rsaEncode handle format false) fun r w' _ =>
      SameButCount w w' ∧ GivesEncoding (F.encode (T.publicHalf key) format) r := by
  have hhalf := h.type_eq_rsa.mp hrsa
  have hinfo := meets_publicInfo (w := w) (S := S) hL hF h
  have hpkcs1 := meets_publicPkcs1 (S := S) hL h hready
  unfold rsaEncode KeyOperations.encode
  cases format with
  | other value => exact Meets.pure ⟨.refl w, .error _⟩
  | pkcs1Der => simpa [hhalf] using hpkcs1
  | pkcs1Pem => simpa [hhalf] using hpkcs1
  | infoDer => simpa using hinfo
  | infoPem => simpa using hinfo

/-- `ec_encode`, of the public half of a handle's key. -/
theorem meets_ecEncode (hL : L.Implies T.law) {F : KeyOperations} (hF : L.Implies (F.law T))
    (h : Holds T handle key) (hec : handle.type ≠ .rsa) (format : ZucPkeyFormat) :
    Meets L w S (ecEncode handle format false) fun r w' _ =>
      SameButCount w w' ∧ GivesEncoding (F.encode (T.publicHalf key) format) r := by
  have hhalf : (T.publicHalf key).type.isRsa = false :=
    Bool.eq_false_iff.mpr fun hrsa => hec (h.type_eq_rsa.mpr hrsa)
  have hinfo := meets_publicInfo (w := w) (S := S) hL hF h
  have hnone : Meets L w S (pure (.error .errUnsupported) : Adapter O (Except ZucStatus Encoding))
      fun r w' _ => SameButCount w w' ∧ GivesEncoding (.error .errUnsupported) r :=
    Meets.pure ⟨.refl w, .error _⟩
  unfold ecEncode KeyOperations.encode
  cases format with
  | other value => exact Meets.pure ⟨.refl w, .error _⟩
  | pkcs1Der => simpa [hhalf] using hnone
  | pkcs1Pem => simpa [hhalf] using hnone
  | infoDer => simpa using hinfo
  | infoPem => simpa using hinfo

/-- What `pkey_write_impl` gives the caller of an encoding, and the memory then. -/
def KeyOperations.give (F : KeyOperations) (e : List Byte × String) (format : ZucPkeyFormat)
    (out outSize : Nat) (m : Memory) : (ZucStatus × Nat) × Memory :=
  if format = .pkcs1Der ∨ format = .infoDer then
    if outSize < e.1.length then ((.errBadLength, 0), m)
    else ((.ok, e.1.length), write m out e.1)
  else
    let r := F.pem ("-----BEGIN " ++ e.2 ++ "-----\n") ("-----END " ++ e.2 ++ "-----\n") e.1 outSize
    (if r.1 = .errorBufferTooSmall then (.errBadLength, 0)
      else if r.1 ≠ .success ∨ r.2.len = 0 then (.errBackend, 0)
      else (.ok, r.2.len - 1), write m out (r.2.bytes.take outSize))

/-- A format that is DER itself. -/
def ZucPkeyFormat.IsDer (format : ZucPkeyFormat) : Prop := format = .pkcs1Der ∨ format = .infoDer

/-- The writer of PEM is the backend's, and is not called for DER. -/
theorem meets_writeEncoding {F : KeyOperations} (format : ZucPkeyFormat)
    (hF : ¬ format.IsDer → L.Implies (F.law T)) (e : Encoding)
    (hlen : e.der.len = e.der.bytes.length) (out outSize : Nat) :
    Meets L w S (writeEncoding e format out outSize) fun r w' _ =>
      (r, w'.mem) = F.give (e.der.bytes, e.label) format out outSize w.mem ∧
        w'.allocFailed = w.allocFailed := by
  unfold writeEncoding KeyOperations.give
  by_cases hder : format = .pkcs1Der ∨ format = .infoDer
  · rw [if_pos hder, if_pos hder, hlen]
    by_cases hsize : outSize < e.der.bytes.length
    · simp only [if_pos hsize]
      exact Meets.pure ⟨rfl, rfl⟩
    · simp only [if_neg hsize]
      exact Meets.bind (Meets.writeMem (Meets.pure ⟨rfl, rfl⟩))
  · rw [if_neg hder, if_neg hder]
    refine Meets.bind (Meets.elsewhere (fun _ => rfl) fun r hr => ?_)
    have hr := (hF hder).elsewhere _ hr
    rw [hr]
    dsimp only
    generalize F.pem _ _ _ _ = r
    refine Meets.bind (Meets.writeOutput ?_)
    by_cases hsmall : r.1 = .errorBufferTooSmall
    · rw [if_pos hsmall, if_pos hsmall]
      exact Meets.pure ⟨rfl, rfl⟩
    rw [if_neg hsmall, if_neg hsmall]
    by_cases hfailed : r.1 ≠ .success ∨ r.2.len = 0
    · rw [if_pos hfailed, if_pos hfailed]
      exact Meets.pure ⟨rfl, rfl⟩
    · rw [if_neg hfailed, if_neg hfailed]
      exact Meets.pure ⟨rfl, rfl⟩

/-- Memory after `zuc_secure_zero`. -/
def zeroed (m : Memory) (p n : Nat) : Memory :=
  if p = NULL ∨ n = 0 then m else write m p (List.replicate n 0)

/-- A wiped buffer, of a memory that differs in it only. -/
theorem zeroed_spec {m' : Memory} (m : Memory) {p : Nat} (n : Nat) (hp : p ≠ NULL)
    (hsame : ∀ a, a < p ∨ p + n ≤ a → m a = m' a) :
    read (zeroed m p n) p n = List.replicate n 0 ∧
      ∀ a, a < p ∨ p + n ≤ a → zeroed m p n a = m' a := by
  unfold zeroed
  by_cases hnone : p = NULL ∨ n = 0
  · obtain rfl : n = 0 := hnone.resolve_left hp
    rw [if_pos (.inr rfl)]
    exact ⟨rfl, hsame⟩
  · rw [if_neg hnone]
    refine ⟨read_write_exact _ p List.length_replicate, fun a ha => ?_⟩
    rw [write_apply_outside _ (by rw [List.length_replicate]; exact ha)]
    exact hsame a ha

theorem meets_zucSecureZero {p n : Nat} {Q : Unit → World → KeyStore StoredKey → Prop}
    (h : Q () { w with mem := zeroed w.mem p n } S) : Meets L w S (zucSecureZero p n) Q := by
  unfold zeroed at h
  refine Meets.ite (fun hnone => ?_) fun hsome => ?_
  · rw [if_pos hnone] at h
    exact Meets.pure h
  · rw [if_neg hsome] at h
    exact Meets.writeMem h

/-- The end of `pkey_write_impl`, of an encoding or a refusal. -/
def KeyOperations.deliver (F : KeyOperations) (v : Except ZucStatus (List Byte × String))
    (format : ZucPkeyFormat) (out outSize : Nat) (outLen : SizeCell) (m : Memory) : CallOutcome :=
  match v with
  | .error st => ((st, outLen), m)
  | .ok e =>
    let r := F.give e format out outSize m
    if r.1.1 ≠ .ok then ((r.1.1, outLen), zeroed r.2 out outSize)
    else ((.ok, outLen.store r.1.2), r.2)

theorem meets_deliver {F : KeyOperations} (format : ZucPkeyFormat)
    (hF : ¬ format.IsDer → L.Implies (F.law T)) (w₀ : World)
    (v : Except ZucStatus (List Byte × String)) (out outSize : Nat) (outLen : SizeCell) (r : Except ZucStatus Encoding) (w' : World)
    (S' : KeyStore StoredKey) : SameButCount w₀ w' ∧ GivesEncoding v r →
    Meets L w' S' (match r with
      | .error st => return (st, outLen)
      | .ok e => do
        let r ← writeEncoding e format out outSize
        freeBytes (e.der.buf.wipe e.der.len)
        if r.1 ≠ .ok then
          zucSecureZero out outSize
          return (r.1, outLen)
        else
          return (.ok, outLen.store r.2) : Adapter O (ZucStatus × SizeCell))
      (EndsIn (F.deliver v format out outSize outLen w₀.mem) w₀) := by
  rintro ⟨hw, hr⟩
  cases hr with
  | error st => exact Meets.pure ⟨by rw [hw.mem]; rfl, hw.allocFailed⟩
  | ok e hlen =>
    refine (meets_writeEncoding format hF e hlen out outSize).andThen fun r w₁ S₁ hr => ?_
    rw [hw.mem] at hr
    obtain ⟨hgive, hcalm⟩ := hr
    simp only [KeyOperations.deliver, ← hgive]
    refine Meets.bind (Meets.freeBytes ?_)
    -- what a failure has left in `out` is wiped
    by_cases hok : r.1 ≠ .ok
    · rw [if_pos hok, if_pos hok]
      exact Meets.bind (meets_zucSecureZero (Meets.pure ⟨rfl, hcalm.trans hw.allocFailed⟩))
    · rw [if_neg hok, if_neg hok]
      exact Meets.pure ⟨rfl, hcalm.trans hw.allocFailed⟩

/-- A handle on a public key, as far as the operations look at one. -/
def RefKey.asHandle (half : RefKey) : ZucPkey where
  self := NULL
  type := algOfPsa half.type half.bits
  ptype := half.type
  isPrivate := false
  bits := half.bits
  der := .holding NULL half.material

theorem Loads.type_asHandle (h : Loads T handle key) : handle.type = (T.publicHalf key).asHandle.type := by
  rw [h.type, RefKey.asHandle, T.publicHalf_type, T.publicHalf_bits, algOfPsa_publicKey]

theorem Loads.bits_asHandle (h : Loads T handle key) : handle.bits = (T.publicHalf key).asHandle.bits := by
  rw [h.bits, RefKey.asHandle, T.publicHalf_bits]

/-- What is checked before a signature is looked at is of the public half. -/
theorem Loads.verifyArgs (h : Loads T handle key) (scheme hash : ZucAlg) (digestLen sigLen : Nat) :
    Zucrypt.verifyArgs handle scheme hash digestLen sigLen =
      Zucrypt.verifyArgs (T.publicHalf key).asHandle scheme hash digestLen sigLen := by
  have hfits : schemeFits handle scheme = schemeFits (T.publicHalf key).asHandle scheme := by
    unfold schemeFits
    rw [h.type_asHandle]
  have hsize : signatureSize handle = signatureSize (T.publicHalf key).asHandle := by
    rw [signatureSize, signatureSize, ecBytes, ecBytes, h.type_asHandle, h.bits_asHandle]
  rw [Zucrypt.verifyArgs, Zucrypt.verifyArgs, hfits, hsize]

/-- How the backend is asked, if the arguments are good, is all that is left open. -/
theorem meets_pkeyVerifyHashImpl (hL : L.Implies T.law) (h : Loads T handle key)
    (hready : 0 < w.refcount) {scheme hash : ZucAlg} {digest digestLen sig sigLen : Nat}
    (hargs : ¬ (digest = NULL ∨ (sig = NULL ∧ sigLen ≠ 0))) {R : ZucStatus → Prop}
    (hrefused : verifyArgs handle scheme hash digestLen sigLen ≠ .ok →
      R (verifyArgs handle scheme hash digestLen sigLen))
    (hasked : verifyArgs handle scheme hash digestLen sigLen = .ok → ∀ id r,
      L.allows ⟨.psa (.verifyHash id (signAlg scheme hash) (read w.mem digest digestLen)
        (read w.mem sig sigLen)), r⟩ ⟨key, signAlg scheme hash, [.verifyHash]⟩ →
      R (verifyStatus r.answer)) :
    Meets L w S (pkeyVerifyHashImpl (some handle) scheme hash digest digestLen sig sigLen)
      fun st w' _ => R st ∧ w' = w := by
  refine Meets.neg hargs (Meets.bind (Meets.ready (Meets.neg (by simp [hready]) ?_)))
  refine Meets.ite (fun hbad => Meets.pure ⟨hrefused hbad, rfl⟩) fun hgood => ?_
  refine (meets_pkeyImport hL h (signAlg scheme hash) .verifyHash).andThen fun id w' S' hid => ?_
  obtain ⟨hok, rfl, hS⟩ := hid
  refine Meets.neg (not_not.mpr hok) (Meets.bind (Meets.readMem (Meets.bind (Meets.readMem ?_))))
  refine Meets.bind (Meets.use hS (fun _ => rfl) fun r hr => ?_)
  exact Meets.bind (Meets.destroy (Meets.pure ⟨hasked (not_not.mp hgood) _ r hr, rfl⟩))

/-- The watch around verification. -/
theorem meets_zucPkeyVerifyHash {k : Option ZucPkey} {scheme hash : ZucAlg}
    {digest digestLen sig sigLen : Nat} {R : ZucStatus → Prop}
    (h : ∀ w₀ : World, w₀.mem = w.mem → w₀.refcount = w.refcount →
      Meets L w₀ S (pkeyVerifyHashImpl k scheme hash digest digestLen sig sigLen)
        fun st w' _ => R st ∧ w' = w₀) :
    Meets L w S (zucPkeyVerifyHash k scheme hash digest digestLen sig sigLen) fun st w' _ =>
      R st ∧ w' = { w with allocFailed := false } := by
  refine Meets.bind (Meets.of_done rfl ((h { w with allocFailed := false } rfl rfl).andThen ?_))
  rintro st w' S' ⟨hst, rfl⟩
  exact Meets.of_done rfl ⟨by rwa [if_neg (by simp)], rfl⟩

/-- What `pkey_agree_impl` makes of the backend's answer, and of the secret. -/
def agreeStatus (type : ZucAlg) (ps : PsaStatus) (secret : List Byte) : ZucStatus :=
  let st : ZucStatus := if ps = .success then .ok
    else if ps = .errorInsufficientMemory then .errMemory
    else .errInvalidArgument
  if st = .ok ∧ type = .x25519 ∧ ∀ b ∈ secret, b = 0 then .errInvalidArgument else st

/-- `zuc_pkey_agree`, of one's own key and the public half of the peer's. -/
def agreeOutcome (F : KeyOperations) (own : ZucPkey) (key half : RefKey) (out outSize : Nat)
    (outLen : SizeCell) (m : Memory) : CallOutcome :=
  let outLen := outLen.store 0
  if out = NULL ∨ outLen = none then
    ((.errInvalidArgument, outLen), m)
  else if own.type = .rsa ∨ zucAlgAvailable .ecdh = false then
    ((.errUnsupported, outLen), m)
  else if own.isPrivate = false ∨ half.asHandle.type ≠ own.type then
    ((.errInvalidArgument, outLen), m)
  else if outSize < ecBytes own then
    ((.errBadLength, outLen), m)
  else
    match half.exported with
    | .error st => ((st, outLen), m)
    | .ok point =>
      let r := F.agree key .ecdh point outSize
      let m' := write m out (r.2.bytes.take outSize)
      let st := agreeStatus own.type r.1 (read m' out r.2.len)
      if st ≠ .ok then ((st, outLen), zeroed m' out outSize)
      else ((.ok, outLen.store r.2.len), m')

theorem meets_agreeRun (hL : L.Implies T.law) {F : KeyOperations} (hF : L.Implies (F.law T))
    (h : Loads T handle key) (point : List Byte) (out outSize : Nat) :
    Meets L w S (agreeRun handle point out outSize) fun r w' _ =>
      let a := F.agree key .ecdh point outSize
      w' = w.store out (a.2.bytes.take outSize) ∧ r.2 = a.2.len ∧
        r.1 = if a.1 = .success then .ok
          else if a.1 = .errorInsufficientMemory then .errMemory
          else .errInvalidArgument := by
  refine (meets_pkeyImport hL h .ecdh .derive).andThen fun id w' S' hid => ?_
  obtain ⟨hok, rfl, hS⟩ := hid
  refine Meets.neg (not_not.mpr hok) (Meets.bind (Meets.use hS (fun _ => rfl) fun r hr => ?_))
  rw [hF.allows _ _ hr ⟨rfl, List.mem_singleton_self _⟩]
  exact Meets.bind (Meets.writeOutput (Meets.bind (Meets.destroy (Meets.pure ⟨rfl, rfl, rfl⟩))))

theorem meets_zucPkeyAgree (hL : L.Implies T.law) {F : KeyOperations} (hF : L.Implies (F.law T))
    {own : ZucPkey} {ownKey : RefKey} (hown : Loads T own ownKey) (h : Holds T handle key)
    (hready : 0 < w.refcount) (out outSize : Nat) (outLen : SizeCell) :
    Meets L w S (zucPkeyAgree (some own) (some handle) out outSize outLen) fun r w' _ =>
      (r, w'.mem) = agreeOutcome F own ownKey (T.publicHalf key) out outSize outLen w.mem := by
  refine meets_watched_endsIn hready fun w₀ hmem hready => ?_
  rw [← hmem]
  unfold agreeOutcome pkeyAgreeImpl
  simp only [← h.type_asHandle]
  refine Meets.bind (Meets.ready (Meets.neg (by simp [hready]) ?_))
  -- the checks, in the order the function makes them
  by_cases hargs : out = NULL ∨ outLen.store 0 = none
  · simp only [if_pos hargs]
    exact Meets.pure ⟨rfl, rfl⟩
  simp only [if_neg hargs]
  by_cases hkind : own.type = .rsa ∨ zucAlgAvailable .ecdh = false
  · simp only [if_pos hkind]
    exact Meets.pure ⟨rfl, rfl⟩
  simp only [if_neg hkind]
  by_cases hcurve : own.isPrivate = false ∨ handle.type ≠ own.type
  · simp only [if_pos hcurve]
    exact Meets.pure ⟨rfl, rfl⟩
  simp only [if_neg hcurve]
  by_cases hroom : outSize < ecBytes own
  · simp only [if_pos hroom]
    exact Meets.pure ⟨rfl, rfl⟩
  simp only [if_neg hroom]
  refine (meets_publicDer hL h hready).andThen fun point w' S' hpoint => ?_
  obtain ⟨hw, hpoint⟩ := hpoint
  generalize (T.publicHalf key).exported = v at hpoint ⊢
  cases hpoint with
  | error st => exact Meets.pure ⟨by rw [hw.mem], hw.allocFailed⟩
  | ok point hlen =>
    refine (meets_agreeRun hL hF hown point.bytes out outSize).andThen fun r w₁ S₁ hr => ?_
    obtain ⟨rfl, hsize, hstatus⟩ := hr
    refine Meets.bind (Meets.freeBytes (Meets.bind (Meets.readMem ?_)))
    have hst : (if r.1 = .ok ∧ own.type = .x25519 ∧
        ∀ b ∈ read (w'.store out ((F.agree ownKey .ecdh point.bytes outSize).2.bytes.take outSize)).mem
          out r.2, b = 0 then ZucStatus.errInvalidArgument else r.1) =
        agreeStatus own.type (F.agree ownKey .ecdh point.bytes outSize).1
          (read (write w₀.mem out ((F.agree ownKey .ecdh point.bytes outSize).2.bytes.take outSize)) out
            (F.agree ownKey .ecdh point.bytes outSize).2.len) := by
      rw [agreeStatus, hstatus, hsize, World.store_mem, hw.mem]
    simp only [hst]
    -- what was agreed is wiped unless it is handed out
    by_cases hfailed : agreeStatus own.type (F.agree ownKey .ecdh point.bytes outSize).1
        (read (write w₀.mem out ((F.agree ownKey .ecdh point.bytes outSize).2.bytes.take outSize)) out
          (F.agree ownKey .ecdh point.bytes outSize).2.len) ≠ .ok
    · rw [if_pos hfailed, if_pos hfailed]
      refine Meets.bind (meets_zucSecureZero (Meets.pure ⟨?_, hw.allocFailed⟩))
      rw [World.store_mem, hw.mem]
    · rw [if_neg hfailed, if_neg hfailed]
      refine Meets.pure ⟨?_, hw.allocFailed⟩
      rw [World.store_mem, hw.mem, hsize]

end

end Zucrypt
