import Zucrypt.CryptSignatures
import Zucrypt.PublicHalf

/-! # Verification is a verdict

`SignatureScheme` is what signatures are accepted; its law is what a backend then answers for a key,
an algorithm and a digest that fit, and a signature of the length all signatures have.  From that,
`zuc_pkey_verify_hash` says of any bytes whether they are such a signature, and nothing else.

`crypt_signature_verify` does the same, of keys whose public half it can have: the half of a private
key is exported first, and may be longer than the buffer for it.  `verification_verdict_iff` states
both.  In C the verdict is unconditional: any handle that was made, any bytes as signature, of any
length; the bytes are refused with `ZUC_ERR_AUTH` where they are not accepted, also where they have
the wrong length, which the adapter checks itself.  From R it is an equivalence: the verdict is
given, as a value or as a condition as the caller asks, exactly if the key is public or its public
half fits.

The scheme and the digest must fit the key, and the digest have its length, since the call says
something else otherwise.  The laws (`hL`, `hV`) are what a key store and its verification are
documented to do; `haligned` is that elliptic-curve keys have the sizes of the curves, on which the
length of an ECDSA signature rests.

The proof follows the calls inward.  `meets_verdict` is the C function, with `Loads.signsWith` and
`Loads.signatureSize_eq` for the two things it computes from the handle; `rmeets_verified` and
`rmeets_verifyDigest` are the entry point, and `rmeets_publicOf` the step that may not succeed. -/
namespace Zucrypt
open Effects ByteMemory

variable {O : Objects}

/-! ### Schemes -/

/-- The hash a signature algorithm is over. -/
def PsaAlg.signedHash : PsaAlg → PsaAlg
  | .rsaPkcs1v15Sign hash => hash
  | .rsaPss hash => hash
  | .ecdsa hash => hash
  | .deterministicEcdsa hash => hash
  | _ => .none

/-- The algorithm is one for signatures with keys of this type. -/
def PsaAlg.signsWith (alg : PsaAlg) (type : PsaKeyType) : Bool :=
  match alg with
  | .rsaPkcs1v15Sign _ => type.isRsa
  | .rsaPss _ => type.isRsa
  | .ecdsa _ => type.eccFamily = some .secpR1
  | .deterministicEcdsa _ => type.eccFamily = some .secpR1
  | _ => false

/-- The length of a signature: that of the modulus, or of two coordinates. -/
def signatureOctets (key : RefKey) : Nat :=
  if key.type.isRsa then psaBitsToBytes key.bits else 2 * psaBitsToBytes key.bits

/-- Which signatures are accepted, with a public key, of a digest. -/
structure SignatureScheme where
  accepts : RefKey → PsaAlg → List Byte → List Byte → Prop
  length : ∀ {key alg digest signature}, accepts key alg digest signature →
    signature.length = signatureOctets key

/-- The backend accepts the signatures of the scheme, and says of any other of that length
that it is not one, or not an argument. -/
def SignatureScheme.law (V : SignatureScheme) (T : KeyTheory O) : StoreLaw O StoredKey where
  makes _ _ := True
  allows
    | ⟨.psa (.verifyHash _ alg digest signature), r⟩, m =>
      m.Permits alg .verifyHash → alg.signsWith m.key.type = true →
      digest.length = psaHashLength alg.signedHash → signature.length = signatureOctets m.key →
        (r.answer = .success ↔ V.accepts (T.publicHalf m.key) alg digest signature) ∧
        (r.answer ≠ .success → r.answer = .errorInvalidSignature ∨ r.answer = .errorInvalidArgument)
    | _, _ => True
  elsewhere _ := True

/-- Keys of RSA have a modulus of whole octets. -/
def KeyTheory.Aligned (T : KeyTheory O) : Prop :=
  ∀ key, T.Genuine key → key.type.isRsa = true → 8 ∣ key.bits

/-- Success, or that the signature is not one, as it is accepted or not. -/
def Verdict (accepted : Prop) (st : ZucStatus) : Prop :=
  (st = .ok ↔ accepted) ∧ (st ≠ .ok → st = .errAuth)

/-- A refusal is the verdict on what is not accepted. -/
theorem verdict_refused {accepted : Prop} (h : ¬ accepted) : Verdict accepted .errAuth :=
  ⟨iff_of_false (by simp) h, fun _ => rfl⟩

/-! ### `zuc_pkey_verify_hash` -/

section
variable {T : KeyTheory O} {L : StoreLaw O StoredKey} {w : World} {S : KeyStore StoredKey}
  {handle : ZucPkey} {key : RefKey}

/-- The scheme's hash is the digest's, where the build has it. -/
theorem schemeHash_eq {hash : ZucAlg} (hhash : zucIntDigestAvailable hash = true) :
    schemeHash hash = zucIntPsaHash hash := if_pos hhash

/-- A digest of this build has an algorithm. -/
theorem zucIntPsaHash_ne_none {hash : ZucAlg} (hhash : zucIntDigestAvailable hash = true) :
    zucIntPsaHash hash ≠ .none := by
  rw [zucIntDigestAvailable, Bool.and_eq_true_iff] at hhash
  exact bne_iff_ne.mp hhash.1

/-- Keys of the NIST curves are ECDSA keys. -/
theorem isNistCurve_algOfPsa {type : PsaKeyType} {bits : Nat}
    (h : isNistCurve (algOfPsa type bits) = true) :
    type.isRsa = false ∧ type.eccFamily = some .secpR1 := by
  unfold algOfPsa at h
  cases htype : type.isRsa with
  | true =>
    rw [htype, if_pos rfl] at h
    exact absurd h (by decide)
  | false =>
    rw [htype, if_neg (by simp)] at h
    refine ⟨rfl, ?_⟩
    split at h
    · assumption
    · split at h <;> exact absurd h (by decide)
    · exact absurd h (by decide)

/-- A scheme that fits the handle is an algorithm for its key. -/
theorem Loads.signsWith (h : Loads T handle key) {scheme hash : ZucAlg}
    (hhash : zucIntDigestAvailable hash = true) (hfits : schemeFits handle scheme = true) :
    signAlg scheme hash ≠ .none ∧ (signAlg scheme hash).signsWith key.type = true ∧
      (signAlg scheme hash).signedHash = zucIntPsaHash hash := by
  have hsome := zucIntPsaHash_ne_none hhash
  have hrsa : handle.type = .rsa → key.type.isRsa = true := by
    rw [h.type]
    exact algOfPsa_eq_rsa.mp
  have hec : isNistCurve handle.type = true → key.type.eccFamily = some .secpR1 := by
    rw [h.type]
    exact fun hcurve => (isNistCurve_algOfPsa hcurve).2
  unfold signAlg
  rw [schemeHash_eq hhash, if_neg hsome]
  cases scheme with
  | rsaPkcs1v15Sign => exact ⟨by simp, hrsa (of_decide_eq_true hfits), rfl⟩
  | rsaPss => exact ⟨by simp, hrsa (of_decide_eq_true hfits), rfl⟩
  | ecdsa => exact ⟨by simp, decide_eq_true (hec hfits), rfl⟩
  | ecdsaDeterministic => exact ⟨by simp, decide_eq_true (hec hfits), rfl⟩
  | _ => exact absurd hfits (by simp [schemeFits])

/-- The length checked is that of a signature. -/
theorem Loads.signatureSize_eq (h : Loads T handle key) (haligned : T.Aligned) :
    signatureSize handle = signatureOctets key := by
  have hrsa : handle.type = .rsa ↔ key.type.isRsa = true := by
    rw [h.type]
    exact algOfPsa_eq_rsa
  unfold signatureSize signatureOctets ecBytes psaBitsToBytes
  rw [h.bits]
  by_cases htype : key.type.isRsa = true
  · rw [if_pos (hrsa.mpr htype), if_pos htype]
    obtain ⟨octets, hoctets⟩ := haligned key h.genuine htype
    omega
  · rw [if_neg (fun hhandle => htype (hrsa.mp hhandle)), if_neg htype]

/-- Both halves of a pair have signatures of one length. -/
theorem signatureOctets_publicHalf (T : KeyTheory O) (key : RefKey) :
    signatureOctets (T.publicHalf key) = signatureOctets key := by
  rw [signatureOctets, signatureOctets, isRsa_publicHalf, T.publicHalf_bits]

/-- Of any bytes, `zuc_pkey_verify_hash` says whether they are accepted. -/
theorem meets_verdict {V : SignatureScheme} (hL : L.Implies T.law) (hV : L.Implies (V.law T))
    (haligned : T.Aligned) (h : Loads T handle key) (hready : 0 < w.refcount) {scheme hash : ZucAlg}
    {digest digestLen sig sigLen : Nat} (hfits : schemeFits handle scheme = true)
    (hhash : zucIntDigestAvailable hash = true) (hdigest : digest ≠ NULL)
    (hlen : digestLen = zucAlgSize hash) (hsig : sig ≠ NULL ∨ sigLen = 0) :
    Meets L w S (zucPkeyVerifyHash (some handle) scheme hash digest digestLen sig sigLen)
      fun st w' _ => Verdict (V.accepts (T.publicHalf key) (signAlg scheme hash)
        (read w.mem digest digestLen) (read w.mem sig sigLen)) st ∧
          w' = { w with allocFailed := false } := by
  obtain ⟨halg, hsigns, hsigned⟩ := h.signsWith hhash hfits
  have hsize := h.signatureSize_eq haligned
  have hargs : verifyArgs handle scheme hash digestLen sigLen =
      if sigLen ≠ signatureOctets key then .errAuth else .ok := by
    rw [verifyArgs, if_neg halg, if_neg (by simp [hfits]), if_neg (not_not.mpr hlen), hsize]
  refine meets_zucPkeyVerifyHash fun w₀ hmem hcount => ?_
  rw [← hmem]
  refine meets_pkeyVerifyHashImpl hL h (hcount ▸ hready) ?_ (fun hbad => ?_) fun hgood id r hr => ?_
  · rintro (hnull | ⟨hnull, hpos⟩)
    · exact hdigest hnull
    · exact hsig.elim (fun hne => hne hnull) hpos
  · -- a signature of another length is not accepted
    have hother : sigLen ≠ signatureOctets key := by
      intro heq
      rw [hargs, if_neg (not_not.mpr heq)] at hbad
      exact hbad rfl
    rw [hargs, if_pos hother]
    refine verdict_refused fun haccepts => hother ?_
    have hlength := V.length haccepts
    rwa [length_read, signatureOctets_publicHalf] at hlength
  · -- of this length it is the backend that decides
    have hsame : sigLen = signatureOctets key := by
      by_contra hother
      rw [hargs, if_pos hother] at hgood
      exact absurd hgood (by simp)
    obtain ⟨hiff, hother⟩ := hV.allows _ _ hr ⟨rfl, List.mem_singleton_self _⟩ hsigns
      (by rw [length_read, hlen, hsigned, psaHashLength_eq hhash]) (by rw [length_read, hsame])
    by_cases hok : r.answer = .success
    · rw [hok]
      exact ⟨iff_of_true rfl (hiff.mp hok), fun hne => absurd rfl hne⟩
    · have hrefused : verifyStatus r.answer = .errAuth := by
        rw [verifyStatus, if_pos (hother hok)]
      rw [hrefused]
      exact verdict_refused fun haccepts => hok (hiff.mpr haccepts)

end

/-! ### `crypt_signature_verify` -/

/-- A raw vector R knows of, with these bytes. -/
structure HoldsVector (live : List (Nat × Nat)) (m : Memory) (x : Sexp) (bs : List Byte) : Prop where
  isRaw : x.isRaw = true
  valid : ValidBuffer x.RAW x.XLENGTH
  mem : (x.RAW, x.XLENGTH) ∈ live
  bytes : x.bytes m = bs

/-- A new vector leaves the others as they are. -/
theorem HoldsVector.store {live : List (Nat × Nat)} {w : World} {x : Sexp} {bs new : List Byte} {p : Nat}
    (h : HoldsVector live w.mem x bs) (hapart : ∀ v ∈ live, Apart p new.length v.1 v.2) :
    HoldsVector ((p, new.length) :: live) (w.store p new).mem x bs where
  isRaw := h.isRaw
  valid := h.valid
  mem := List.mem_cons_of_mem _ h.mem
  bytes := by
    rw [← h.bytes, Sexp.bytes, World.store_mem]
    exact read_write_apart _ (hapart _ h.mem)

/-- A new vector holds what was stored in it. -/
theorem holdsVector_new {live : List (Nat × Nat)} {w : World} {p : Nat} {bs : List Byte}
    (hp : ValidBuffer p bs.length) :
    HoldsVector ((p, bs.length) :: live) (w.store p bs).mem (.raw p bs.length []) bs :=
  ⟨rfl, hp, List.mem_cons_self, read_write_self _ _ _⟩

/-- Whatever `data` and `hash` are, this is the digest, and the signature is still there. -/
def Digests (L : StoreLaw O StoredKey) (live : List (Nat × Nat)) (w : World) (S : KeyStore StoredKey)
    (st : RState) (data : Source) (hash : HashArgument O) (sig : Sexp) (name : String)
    (digest signature : List Byte) : Prop :=
  RMeets L live w S (signatureDigest data hash st) fun r w' _ live' =>
    0 < w'.refcount ∧ ∃ md st', r = (.ok (md, name), st') ∧ digestName md = .ok name ∧
      HoldsVector live' w'.mem md digest ∧ HoldsVector live' w'.mem sig signature

/-- `TRUE`, or `zucrypt_auth_error`, as the signature is accepted or not. -/
def RVerdict (accepted : Prop) (r : Except Condition Bool) : Prop :=
  match r with
  | .ok value => value = true ∧ accepted
  | .error c => c.cls = "zucrypt_auth_error" ∧ ¬ accepted

/-- A verdict on what comes to the same. -/
theorem RVerdict.congr {accepted accepted' : Prop} (h : accepted ↔ accepted')
    {r : Except Condition Bool} (hr : RVerdict accepted r) : RVerdict accepted' r := by
  cases r with
  | ok value => exact ⟨hr.1, h.mp hr.2⟩
  | error c => exact ⟨hr.1, fun haccepts => hr.2 (h.mpr haccepts)⟩

/-- The raw vectors that are accepted: signatures of RSA as they are, and those of ECDSA in
DER, without attributes. -/
def AcceptsVector (V : SignatureScheme) (half : RefKey) (alg : PsaAlg) (digest : List Byte) (sig : Sexp)
    (signature : List Byte) : Prop :=
  if half.type.isRsa then
    V.accepts half alg digest signature
  else
    sig.attributes = [] ∧ ∃ r s, r < 256 ^ psaBitsToBytes half.bits ∧ s < 256 ^ psaBitsToBytes half.bits ∧
      signature = R.ecdsaSignature r s ∧
      V.accepts half alg digest
        (Der.fixed (psaBitsToBytes half.bits) r ++ Der.fixed (psaBitsToBytes half.bits) s)

section
variable {T : KeyTheory O} {L : StoreLaw O StoredKey} {w : World} {S : KeyStore StoredKey}
  {live : List (Nat × Nat)} {handle : ZucPkey} {key : RefKey} {object : KeyObject}

/-- What `digest_name` accepts has the length of its algorithm. -/
theorem digestName_eq_ok {md : Sexp} {name : String} (h : digestName md = .ok name) :
    md.XLENGTH = zucAlgSize (zucAlgByName name) ∧ zucIntDigestAvailable (zucAlgByName name) = true := by
  unfold digestName at h
  split at h
  · rename_i hlookup
    cases h
    simp only [digestNames, List.lookup_cons, List.lookup_nil] at hlookup
    split at hlookup
    · rename_i hlen
      cases hlookup
      exact ⟨(beq_iff_eq.mp hlen).trans (by decide), by decide⟩
    split at hlookup
    · rename_i hlen
      cases hlookup
      exact ⟨(beq_iff_eq.mp hlen).trans (by decide), by decide⟩
    split at hlookup
    · rename_i hlen
      cases hlookup
      exact ⟨(beq_iff_eq.mp hlen).trans (by decide), by decide⟩
    split at hlookup
    · rename_i hlen
      cases hlookup
      exact ⟨(beq_iff_eq.mp hlen).trans (by decide), by decide⟩
    · cases hlookup
  · cases h

/-- The object `new_key` makes of a handle. -/
def objectOf (handle : ZucPkey) : KeyObject :=
  ⟨some handle, [if handle.isPrivate then "crypt_key" else "crypt_pubkey", keyFamilies handle.type]⟩

/-- What the class says of the handle's family. -/
theorem inherits_rsa (handle : ZucPkey) :
    (objectOf handle).inherits "crypt_rsa" = true ↔ handle.type = .rsa := by
  unfold KeyObject.inherits objectOf
  cases handle.isPrivate <;> cases handle.type <;> simp [keyFamilies]

/-- The same for ECDSA. -/
theorem inherits_ecdsa (handle : ZucPkey) :
    (objectOf handle).inherits "crypt_ecdsa" = true ↔ isNistCurve handle.type = true := by
  unfold KeyObject.inherits objectOf isNistCurve
  cases handle.isPrivate <;> cases handle.type <;> simp [keyFamilies]

/-- No key is of both families. -/
theorem rsa_ne_nist {handle : ZucPkey} (h : handle.type = .rsa) : isNistCurve handle.type = false := by
  rw [h]
  rfl

/-- The schemes there are for a key object. -/
theorem signatureScheme_eq_ok {pss : Bool} {scheme : String}
    (h : signatureScheme (objectOf handle) pss false = .ok scheme) :
    (handle.type = .rsa ∧ scheme = if pss then "rsa-pss" else "rsa-pkcs1v15-sign") ∨
      (isNistCurve handle.type = true ∧ pss = false ∧ scheme = "ecdsa") := by
  unfold signatureScheme at h
  by_cases hrsa : (objectOf handle).inherits "crypt_rsa" = true
  · rw [if_pos hrsa, if_neg (by simp)] at h
    exact Or.inl ⟨(inherits_rsa handle).mp hrsa, (Except.ok.inj h).symm⟩
  rw [if_neg hrsa] at h
  by_cases hec : (objectOf handle).inherits "crypt_ecdsa" = true
  · rw [if_pos hec] at h
    cases pss with
    | true => cases h
    | false => exact Or.inr ⟨(inherits_ecdsa handle).mp hec, rfl, (Except.ok.inj h).symm⟩
  · rw [if_neg hec] at h
    cases h

/-- The scheme chosen for a key object fits its handle. -/
theorem schemeFits_of_ok {pss : Bool} {scheme : String}
    (h : signatureScheme (objectOf handle) pss false = .ok scheme) :
    schemeFits handle (zucAlgByName scheme) = true := by
  rcases signatureScheme_eq_ok h with ⟨hrsa, rfl⟩ | ⟨hec, -, rfl⟩
  · cases pss with
    | true => exact decide_eq_true hrsa
    | false => exact decide_eq_true hrsa
  · exact hec

/-- The scheme is chosen by the family alone. -/
theorem signatureScheme_congr {other : ZucPkey} (h : other.type = handle.type) (pss : Bool) :
    signatureScheme (objectOf other) pss false = signatureScheme (objectOf handle) pss false := by
  have hrsa : (objectOf other).inherits "crypt_rsa" = (objectOf handle).inherits "crypt_rsa" :=
    Bool.eq_iff_iff.mpr ((inherits_rsa other).trans (h ▸ (inherits_rsa handle).symm))
  have hec : (objectOf other).inherits "crypt_ecdsa" = (objectOf handle).inherits "crypt_ecdsa" :=
    Bool.eq_iff_iff.mpr ((inherits_ecdsa other).trans (h ▸ (inherits_ecdsa handle).symm))
  unfold signatureScheme
  rw [hrsa, hec]

/-- The length of a curve's numbers, in R's table and from the handle. -/
theorem Loads.curveBytes_eq (h : Loads T handle key) (hec : isNistCurve handle.type = true) :
    curveBytes handle.type = some (psaBitsToBytes key.bits) ∧ 1 ≤ psaBitsToBytes key.bits ∧
      psaBitsToBytes key.bits ≤ 66 := by
  have hcurve : isNistCurve (algOfPsa key.type key.bits) = true := h.type ▸ hec
  obtain ⟨hrsa, hfamily⟩ := isNistCurve_algOfPsa hcurve
  rw [h.type]
  unfold algOfPsa at hcurve ⊢
  rw [hrsa, if_neg (by simp), hfamily] at hcurve ⊢
  simp only at hcurve ⊢
  split at hcurve
  · rename_i hbits
    rw [hbits]
    decide
  split at hcurve
  · rename_i hbits
    rw [hbits]
    decide
  split at hcurve
  · rename_i hbits
    rw [hbits]
    decide
  · exact absurd hcurve (by decide)

/-- The end of `crypt_signature_verify`: the entry point, and its verdict as a value or a
condition. -/
theorem rmeets_verified {V : SignatureScheme} (hL : L.Implies T.law) (hV : L.Implies (V.law T))
    (haligned : T.Aligned) (h : Loads T handle key) (hready : 0 < w.refcount) {pss : Bool}
    {scheme name : String} (hscheme : signatureScheme (objectOf handle) pss false = .ok scheme)
    {md sig : Sexp} {digest signature : List Byte} (hname : digestName md = .ok name)
    (hmd : HoldsVector live w.mem md digest) (hsig : HoldsVector live w.mem sig signature)
    (st : RState) :
    RMeets L live w S ((do
      let status ← RFun.native (zucryptPkeyVerify (some handle) scheme name md sig)
      if status ≠ .ok then
        RFun.raise (abortNative status (some scheme))
      else
        return true : RFun O Bool) st) fun r _ _ _ =>
      RVerdict (V.accepts (T.publicHalf key) (signAlg (zucAlgByName scheme) (zucAlgByName name)) digest
        signature) r.1 := by
  obtain ⟨hlen, hhash⟩ := digestName_eq_ok hname
  -- the signature may be empty, and then nothing is read of it
  have hnull : (if sig.XLENGTH ≠ 0 then sig.RAW else NULL) ≠ NULL ∨ sig.XLENGTH = 0 := by
    by_cases hempty : sig.XLENGTH = 0
    · exact Or.inr hempty
    · rw [if_pos hempty]
      exact Or.inl hsig.valid.1
  have hread : read w.mem (if sig.XLENGTH ≠ 0 then sig.RAW else NULL) sig.XLENGTH = signature := by
    by_cases hempty : sig.XLENGTH = 0
    · rw [← hsig.bytes, Sexp.bytes, hempty]
      rfl
    · rw [if_pos hempty]
      exact hsig.bytes
  rw [RFun.native_bind]
  refine RMeets.bind (RMeets.of_meets (meets_verdict hL hV haligned h hready
    (schemeFits_of_ok hscheme) hhash hmd.valid.1 hlen hnull) ?_)
  intro status w' S' live' hstatus _
  obtain ⟨⟨hok, hauth⟩, -⟩ := hstatus
  rw [hread, show read w.mem md.RAW md.XLENGTH = digest from hmd.bytes] at hok
  by_cases hgood : status = .ok
  · rw [if_neg (not_not.mpr hgood)]
    exact RMeets.pure ⟨rfl, hok.mp hgood⟩
  · rw [if_pos hgood, hauth hgood]
    exact RMeets.pure ⟨rfl, fun haccepts => hgood (hok.mpr haccepts)⟩

/-- `verifyDigest`, with a key that has been read. -/
theorem rmeets_verifyDigest {V : SignatureScheme} (hL : L.Implies T.law) (hV : L.Implies (V.law T))
    (haligned : T.Aligned) (h : Loads T handle key) (hready : 0 < w.refcount) {pss : Bool}
    {scheme name : String} (hscheme : signatureScheme (objectOf handle) pss false = .ok scheme)
    {md sig : Sexp} {digest signature : List Byte} (hname : digestName md = .ok name)
    (hmd : HoldsVector live w.mem md digest) (hsig : HoldsVector live w.mem sig signature)
    (st : RState) :
    RMeets L live w S (verifyDigest md name sig (objectOf handle) pss st) fun r _ _ _ =>
      RVerdict (AcceptsVector V (T.publicHalf key) (signAlg (zucAlgByName scheme) (zucAlgByName name))
        digest sig signature) r.1 := by
  have hhalf : (T.publicHalf key).type.isRsa = key.type.isRsa := isRsa_publicHalf T key
  have hinfo : pkeyInfo (objectOf handle).handle = .ok ⟨handle.type, handle.bits, handle.isPrivate⟩ := rfl
  unfold verifyDigest
  rw [hinfo, RFun.check_ok_bind, hscheme, RFun.check_ok_bind]
  unfold signatureInput AcceptsVector
  rw [hhalf, T.publicHalf_bits]
  rcases signatureScheme_eq_ok hscheme with ⟨hrsa, -⟩ | ⟨hec, -, -⟩
  · have hkey : key.type.isRsa = true := algOfPsa_eq_rsa.mp (h.type ▸ hrsa)
    have hother : ¬ (objectOf handle).inherits "crypt_ecdsa" = true := by
      rw [inherits_ecdsa, rsa_ne_nist hrsa]
      simp
    rw [if_neg hother, RFun.pure_bind, if_pos hkey]
    exact rmeets_verified hL hV haligned h hready hscheme hname hmd hsig st
  · obtain ⟨hcurve, hone, hmax⟩ := h.curveBytes_eq hec
    have hkey : key.type.isRsa = false := (isNistCurve_algOfPsa (h.type ▸ hec)).1
    have hints : psaBitsToBytes key.bits ≤ R.INTEGER_MAX := Nat.le_trans hmax (by decide)
    rw [if_pos ((inherits_ecdsa handle).mpr hec), hcurve]
    simp only
    rw [RFun.bind_assoc, RFun.native_bind, if_neg (by simp [hkey])]
    refine RMeets.bind (RMeets.of_done rfl ?_)
    -- the encoding is taken apart, or refused
    have hraw : ecdsaRawVector w.mem sig (psaBitsToBytes key.bits) =
        if sig.attributes = [] then R.ecdsaRaw signature (psaBitsToBytes key.bits) else none := by
      rw [← hsig.bytes]
      cases sig with
      | raw ptr len attrs => cases attrs <;> rfl
      | _ => exact absurd hsig.isRaw (by simp [Sexp.isRaw])
    rw [hraw]
    have hvalid : ∀ r s, r < 256 ^ psaBitsToBytes key.bits → s < 256 ^ psaBitsToBytes key.bits →
        R.ecdsaRaw (R.ecdsaSignature r s) (psaBitsToBytes key.bits) =
          some (Der.fixed (psaBitsToBytes key.bits) r ++ Der.fixed (psaBitsToBytes key.bits) s) :=
      fun r s hr hs => R.ecdsaRaw_ecdsaSignature hone (Nat.lt_of_le_of_lt hints (by decide))
        (.of_lt hints hr) (.of_lt hints hs)
    cases hout : (if sig.attributes = [] then R.ecdsaRaw signature (psaBitsToBytes key.bits) else none) with
    | none =>
      simp only
      rw [RFun.raise_bind]
      refine RMeets.pure ⟨rfl, ?_⟩
      rintro ⟨hattrs, r, s, hr, hs, rfl, -⟩
      rw [if_pos hattrs, hvalid r s hr hs] at hout
      cases hout
    | some bytes =>
      obtain ⟨hattrs, hout⟩ := Option.ite_none_right_eq_some.mp hout
      obtain ⟨r, s, hr, hs, hsignature, hbytes⟩ := R.eq_ecdsaSignature_of_ecdsaRaw hone hints hout
      have hlen : bytes.length ≤ R.VECTOR_MAX := by
        rw [hbytes, List.length_append, Der.length_fixed hr, Der.length_fixed hs]
        exact Nat.le_trans (Nat.add_le_add hmax hmax) (by decide)
      simp only
      rw [RFun.native_bind]
      refine RMeets.bind (RMeets.newRaw hlen fun p hp hapart => ?_)
      have hready : 0 < (w.store p bytes).refcount := hready
      refine (rmeets_verified hL hV haligned h hready hscheme hname (hmd.store hapart)
        (holdsVector_new hp) st).mono fun result _ _ _ hresult => hresult.congr ?_
      constructor
      · exact fun haccepts => ⟨hattrs, r, s, hr, hs, hsignature, hbytes ▸ haccepts⟩
      · rintro ⟨-, r', s', hr', hs', hsignature', haccepts⟩
        rw [hsignature', hvalid r' s' hr' hs'] at hout
        rwa [← Option.some.inj hout]

/-- A public handle has an object of the public class, -/
theorem inherits_pubkey (handle : ZucPkey) :
    (objectOf handle).inherits "crypt_pubkey" = true ↔ handle.isPrivate = false := by
  unfold KeyObject.inherits objectOf
  cases handle.isPrivate <;> cases handle.type <;> simp [keyFamilies]

/-- and a private one of the private class. -/
theorem inherits_key (handle : ZucPkey) :
    (objectOf handle).inherits "crypt_key" = true ↔ handle.isPrivate = true := by
  unfold KeyObject.inherits objectOf
  cases handle.isPrivate <;> cases handle.type <;> simp [keyFamilies]

/-- `public_of`: an object on the public half, if that fits its buffer. -/
theorem rmeets_publicOf (hL : L.Implies T.law) (h : Loads T handle key) (hready : 0 < w.refcount)
    (st : RState) :
    RMeets L live w S (publicOf (objectOf handle) st) fun r w' _ live' =>
      w'.mem = w.mem ∧ w'.refcount = w.refcount ∧ (∀ v ∈ live, v ∈ live') ∧
        if (T.publicHalf key).Fits then
          ∃ pub, r = (.ok (objectOf pub), st) ∧ Loads T pub (T.publicHalf key)
        else
          r = (.error (abortNative .errBadLength (some "rsa")), st) := by
  have hinfo : pkeyInfo (objectOf handle).handle = .ok ⟨handle.type, handle.bits, handle.isPrivate⟩ := rfl
  unfold publicOf
  rw [hinfo, RFun.check_ok_bind, RFun.native_bind]
  refine RMeets.bind (RMeets.of_meets (meets_zucPkeyPublic_hands hL h hready) ?_)
  intro r w' S' live' hr hlive
  obtain ⟨hmem, hcount, hr⟩ := hr
  unfold HandsKey at hr
  split at hr
  · rename_i hfits
    obtain ⟨pub, rfl, hpub⟩ := hr
    refine RMeets.pure ⟨hmem, hcount, hlive, ?_⟩
    rw [if_pos hfits]
    exact ⟨pub, rfl, hpub⟩
  · rename_i hlong
    subst hr
    refine RMeets.pure ⟨hmem, hcount, hlive, ?_⟩
    rw [if_neg hlong]

/-- What reads as it did is still there. -/
theorem HoldsVector.of_mem_eq {live' : List (Nat × Nat)} {m m' : Memory} {x : Sexp} {bs : List Byte}
    (h : HoldsVector live m x bs) (hmem : m' = m) (hlive : ∀ v ∈ live, v ∈ live') :
    HoldsVector live' m' x bs :=
  ⟨h.isRaw, h.valid, hlive _ h.mem, by rw [hmem, h.bytes]⟩

/-- A raw vector is taken as it is. -/
theorem keyInput_raw {sig : Sexp} (hraw : sig.isRaw = true) (arg : String) :
    (keyInput (.sexp sig) arg : RFun O Sexp) = pure sig := by
  cases sig with
  | raw ptr len attrs => rfl
  | _ => exact absurd hraw (by simp [Sexp.isRaw])

/-- A public key is used as it is. -/
theorem cryptReadPubkey_public (h : handle.isPrivate = false) :
    (cryptReadPubkey (.object (objectOf handle)) : RFun O KeyObject) = pure (objectOf handle) :=
  if_pos ((inherits_pubkey handle).mpr h)

/-- Of a private key the public half is made. -/
theorem cryptReadPubkey_private (h : handle.isPrivate = true) :
    (cryptReadPubkey (.object (objectOf handle)) : RFun O KeyObject) = publicOf (objectOf handle) := by
  have hother : ¬ (objectOf handle).inherits "crypt_pubkey" = true := by
    rw [inherits_pubkey, h]
    simp
  exact (if_neg hother).trans (if_pos ((inherits_key handle).mpr h))

/-- `crypt_signature_verify` gives the verdict exactly if it can have the public half. -/
theorem rmeets_cryptSignatureVerify {V : SignatureScheme} (hL : L.Implies T.law)
    (hV : L.Implies (V.law T)) (haligned : T.Aligned) (h : Loads T handle key) {pss : Bool}
    {scheme name : String} (hscheme : signatureScheme (objectOf handle) pss false = .ok scheme)
    {data : Source} {hash : HashArgument O} {sig : Sexp} {digest signature : List Byte} {st : RState}
    (hdigest : Digests L live w S st data hash sig name digest signature) :
    RMeets L live w S (cryptSignatureVerify data (.sexp sig) hash (.object (objectOf handle)) (some pss)
      st) fun r _ _ _ =>
        RVerdict (AcceptsVector V (T.publicHalf key)
          (signAlg (zucAlgByName scheme) (zucAlgByName name)) digest sig signature) r.1 ↔
            (handle.isPrivate = true → (T.publicHalf key).Fits) := by
  unfold cryptSignatureVerify
  have hflag : checkFlag (some pss) "pss" = .ok pss := rfl
  rw [hflag, RFun.check_ok_bind]
  refine RMeets.seq hdigest fun r w' S' live' hr => ?_
  obtain ⟨hready, md, st', rfl, hname, hmd, hsig⟩ := hr
  simp only
  rw [keyInput_raw hsig.isRaw, RFun.pure_bind]
  by_cases hpublic : handle.isPrivate = false
  · -- a public key is taken as it is
    rw [cryptReadPubkey_public hpublic, RFun.pure_bind]
    refine (rmeets_verifyDigest hL hV haligned h hready hscheme hname hmd hsig st').mono ?_
    exact fun r _ _ _ hr => iff_of_true hr fun hprivate => absurd hprivate (by simp [hpublic])
  · have hprivate : handle.isPrivate = true := by simpa using hpublic
    -- of a private key the public half is made first
    rw [cryptReadPubkey_private hprivate]
    refine RMeets.seq (rmeets_publicOf hL h hready st') fun r w₁ S₁ live₁ hr => ?_
    obtain ⟨hmem, hcount, hlive, hr⟩ := hr
    split at hr
    · rename_i hfits
      obtain ⟨pub, rfl, hpub⟩ := hr
      have htype : pub.type = handle.type := by
        rw [hpub.type, h.type, T.publicHalf_type, T.publicHalf_bits, algOfPsa_publicKey]
      have hverdict := rmeets_verifyDigest (S := S₁) hL hV haligned hpub (hcount ▸ hready)
        ((signatureScheme_congr htype pss).trans hscheme) hname (hmd.of_mem_eq hmem hlive)
        (hsig.of_mem_eq hmem hlive) st'
      rw [publicHalf_publicHalf] at hverdict
      exact hverdict.mono fun r _ _ _ hr => iff_of_true hr fun _ => hfits
    · rename_i hlong
      subst hr
      exact RMeets.pure (iff_of_false (fun hverdict => absurd hverdict.1 (by decide))
        fun hfits => hlong (hfits hprivate))

end

/-! ### The verdicts -/

/-- **Verification is a verdict.**  `zuc_pkey_verify_hash` says of any bytes, with any handle
of a caller and a scheme and digest that fit, whether they are accepted.
`crypt_signature_verify` says it of any raw vector exactly if the key is public, or its public
half fits the buffer it is exported into. -/
theorem verification_verdict_iff {T : KeyTheory O} {V : SignatureScheme} {L : StoreLaw O StoredKey}
    (hL : L.Implies T.law) (hV : L.Implies (V.law T)) (haligned : T.Aligned) {handle : ZucPkey}
    (hmade : Made L handle) : ∃ key, Loads T handle key ∧
    (∀ (w : World) (S : KeyStore StoredKey) (scheme hash : ZucAlg) (digest digestLen sig sigLen : Nat),
      0 < w.refcount → schemeFits handle scheme = true → zucIntDigestAvailable hash = true →
      digest ≠ NULL → digestLen = zucAlgSize hash → (sig ≠ NULL ∨ sigLen = 0) →
      Meets L w S (zucPkeyVerifyHash (some handle) scheme hash digest digestLen sig sigLen)
        fun st _ _ => Verdict (V.accepts (T.publicHalf key) (signAlg scheme hash)
          (read w.mem digest digestLen) (read w.mem sig sigLen)) st) ∧
    (∀ (live : List (Nat × Nat)) (w : World) (S : KeyStore StoredKey) (st : RState) (object : KeyObject)
      (pss : Bool) (scheme name : String) (data : Source) (hash : HashArgument O) (sig : Sexp)
      (digest signature : List Byte), newKey (some handle) = .ok object →
      signatureScheme object pss false = .ok scheme →
      Digests L live w S st data hash sig name digest signature →
      RMeets L live w S (cryptSignatureVerify data (.sexp sig) hash (.object object) (some pss) st)
        fun r _ _ _ =>
          RVerdict (AcceptsVector V (T.publicHalf key)
            (signAlg (zucAlgByName scheme) (zucAlgByName name)) digest sig signature) r.1 ↔
              (handle.isPrivate = true → (T.publicHalf key).Fits)) := by
  obtain ⟨key, hholds⟩ := hmade.holds hL
  have h : Loads T handle key := hholds.toLoads
  refine ⟨key, h, ?_, ?_⟩
  · intro w S scheme hash digest digestLen sig sigLen hready hfits hhash hdigest hlen hsig
    refine (meets_verdict hL hV haligned h hready hfits hhash hdigest hlen hsig).mono ?_
    exact fun st _ _ hst => hst.1
  · intro live w S st object pss scheme name data hash sig digest signature hobject hscheme hdigest
    obtain rfl := Except.ok.inj hobject
    exact rmeets_cryptSignatureVerify hL hV haligned h hscheme hdigest

/-! ### Keys on either side -/

theorem vectorless_watched {α : Type} {impl : Adapter O (ZucStatus × α)} (h : Vectorless impl) :
    Vectorless (watched impl) :=
  (Vectorless.of_done fun _ => ⟨_, _, rfl⟩).bind fun _ => h.bind fun _ =>
    (Vectorless.of_done fun _ => ⟨_, _, rfl⟩).bind fun _ => .pure _

/-- Importing a key makes no vector. -/
theorem vectorless_pkeyImport (key : ZucPkey) (alg : PsaAlg) (usage : PsaKeyUsage) :
    Vectorless (pkeyImport key alg usage : Adapter O _) := (Vectorless.psa _).bind fun _ => .pure _

/-- Nor does `malloc`. -/
theorem vectorless_mallocBytes (n : Nat) : Vectorless (mallocBytes n : Adapter O _) :=
  (Vectorless.perform fun _ => rfl).bind fun _ => .pure _

/-- Nor does `free`, -/
theorem vectorless_freeBytes (b : HeapBuf) : Vectorless (freeBytes b : Adapter O _) :=
  Vectorless.perform fun _ => rfl

/-- of a structure either. -/
theorem vectorless_freeRecord (what : Record) (p : Nat) :
    Vectorless (freeRecord what p : Adapter O _) := Vectorless.perform fun _ => rfl

/-- Nor does freeing what may not be there. -/
theorem vectorless_freeIf {α : Type} {free : α → Adapter O Unit} (h : ∀ a, Vectorless (free a))
    (x : Option α) : Vectorless (freeIf free x) := by
  cases x with
  | none => exact .pure _
  | some a => exact h a

/-- Nor does making a handle of a key. -/
theorem vectorless_pkeyFromPsa (id : KeyId) (wantPrivate : Bool) :
    Vectorless (pkeyFromPsa id wantPrivate : Adapter O _) := by
  refine (Vectorless.psa _).bind fun attr => .ite (.pure _) (.ite (.pure _) ?_)
  refine (Vectorless.perform fun _ => rfl).bind fun self => (vectorless_mallocBytes _).bind fun buf => ?_
  have hmemory : Vectorless (do
      freeIf (freeRecord .zucPkey) self
      freeIf freeBytes buf
      return (.errMemory, none) : Adapter O (ZucStatus × Option ZucPkey)) :=
    (vectorless_freeIf (vectorless_freeRecord _) _).bind fun _ =>
      (vectorless_freeIf vectorless_freeBytes _).bind fun _ => .pure _
  cases self with
  | none => exact hmemory
  | some self =>
    cases buf with
    | none => exact hmemory
    | some buf =>
      refine (Vectorless.psa _).bind fun r => .ite ?_ ?_
      · exact (vectorless_freeBytes _).bind fun _ => (vectorless_freeRecord _ _).bind fun _ => .pure _
      · exact (Vectorless.of_done fun _ => ⟨_, _, rfl⟩).bind fun _ => .pure _

/-- So `zuc_pkey_public` makes none. -/
theorem vectorless_zucPkeyPublic (handle : ZucPkey) :
    Vectorless (zucPkeyPublic (some handle) true : Adapter O _) := by
  refine vectorless_watched (.ite (.pure _) ?_)
  refine (Vectorless.of_done fun _ => ⟨_, _, rfl⟩).bind fun _ => .ite (.pure _) ?_
  refine (vectorless_pkeyImport _ _ _).bind fun _ => .ite (.pure _) ?_
  exact (vectorless_pkeyFromPsa _ _).bind fun _ => (Vectorless.psa _).bind fun _ => .pure _

/-- The reference keys have the sizes of their curves. -/
theorem referenceTheory_aligned : referenceTheory.Aligned := by
  intro key hkey hrsa
  have hkey : readRsa key.type key.material = some key := hkey
  cases htype : key.type with
  | rsaPublicKey =>
    rw [htype] at hkey
    obtain ⟨k, -, rfl⟩ := of_readRsa_public hkey
    exact k.aligned
  | rsaKeyPair =>
    rw [htype] at hkey
    obtain ⟨k, -, rfl⟩ := of_readRsa_private hkey
    exact k.aligned
  | _ =>
    rw [htype] at hrsa
    cases hrsa

/-- The signatures of RFC 8017. -/
def rsaScheme : SignatureScheme where
  accepts key alg digest signature :=
    (rsaOperations knownPrimitives).verify key alg digest signature = .success ∧
      signature.length = signatureOctets key
  length h := h.2

/-- The backend verifies as RFC 8017 says. -/
theorem rsaOperations_verify (key : RefKey) (alg : PsaAlg) (digest signature : List Byte) :
    let r := (rsaOperations knownPrimitives).verify key alg digest signature
    r = .success ∨ r = .errorInvalidSignature ∨ r = .errorInvalidArgument := by
  intro r
  unfold r rsaOperations
  simp only
  split
  · exact Or.inr (Or.inr rfl)
  · rename_i k hk
    have hgood : ∀ good : Bool, (if good then PsaStatus.success else .errorInvalidSignature) = .success ∨
        (if good then PsaStatus.success else .errorInvalidSignature) = .errorInvalidSignature := by
      intro good
      cases good <;> simp
    split
    · exact Or.inr (Or.inr rfl)
    · exact (hgood _).imp_right Or.inl

/-- So it keeps the scheme's law. -/
theorem rsaKeyLaw_scheme : rsaKeyLaw.Implies (rsaScheme.law referenceTheory) := by
  refine ⟨fun _ _ _ => trivial, fun e m hm => ?_, fun _ _ => trivial⟩
  have hF := rsaKeyLaw_operations.allows e m hm
  obtain ⟨op, r⟩ := e
  cases op with
  | psa c =>
    cases c with
    | verifyHash id alg digest signature =>
      intro hpermits _ _ hlen
      have hr : r.answer = _ := hF hpermits
      rw [← signatureOctets_publicHalf referenceTheory m.key] at hlen
      rw [hr]
      refine ⟨⟨fun h => ⟨h, hlen⟩, And.left⟩, fun hne => ?_⟩
      exact (rsaOperations_verify _ _ _ _).resolve_left hne
    | _ => trivial
  | _ => trivial

/-- A digest, and the signature of it with a known key. -/
def knownDigest : List Byte := (List.range 32).map UInt8.ofNat

def knownSignature : List Byte :=
  Der.octets 86213659109702260006256739640510358053950415929327529810996309756947577276382780138973284385238147420286246962275186904693807788980539672819220062908125090000233116183767629186755147055194543915483643321767295384378869290761998224878803775675114566789197949019073901282742044425286019076383349655649653490339

/-- A caller's memory with both. -/
def signingWorld : World := (readyWorld.store 0x1000 knownDigest).store 0x2000 knownSignature

theorem length_knownSignature : knownSignature.length = 128 := by decide +kernel

/-- The digest is where the call is told. -/
theorem read_knownDigest : read signingWorld.mem 0x1000 32 = knownDigest := by
  have hapart : Apart 0x2000 knownSignature.length 0x1000 32 := by
    rw [length_knownSignature]
    exact Or.inr (Or.inl (by decide))
  exact (read_write_apart _ hapart).trans (read_write_self readyWorld.mem 0x1000 knownDigest)

/-- And so is the signature. -/
theorem read_knownSignature : read signingWorld.mem 0x2000 128 = knownSignature := by
  rw [← length_knownSignature]
  exact read_write_self _ 0x2000 knownSignature

/-- It is the signature of that digest. -/
theorem accepts_known : rsaScheme.accepts (rsaPublicRef Rsa.usualKey.toPublicKey)
    (.rsaPkcs1v15Sign .sha256) knownDigest knownSignature := by
  constructor <;> decide +kernel

/-- A signature of RFC 8017 verifies. -/
theorem verification_verdict_iff_known : ∃ handle, Made rsaKeyLaw handle ∧
    Meets rsaKeyLaw signingWorld KeyState.initial.store
      (zucPkeyVerifyHash (some handle) .rsaPkcs1v15Sign .sha256 0x1000 32 0x2000 128)
      fun st _ _ => st = .ok := by
  obtain ⟨handle, hmade, hkey⟩ := exists_private_handle Rsa.usualKey size_usualKey fits_usualKey
  refine ⟨handle, hmade, ?_⟩
  obtain ⟨key, hloads, hverify, -⟩ := verification_verdict_iff rsaKeyLaw_theory rsaKeyLaw_scheme
    referenceTheory_aligned hmade
  obtain rfl := hloads.unique hkey
  have hfits : schemeFits handle .rsaPkcs1v15Sign = true := by
    refine decide_eq_true ?_
    rw [hkey.type]
    exact algOfPsa_eq_rsa.mpr rfl
  refine (hverify signingWorld _ .rsaPkcs1v15Sign .sha256 0x1000 32 0x2000 128 (by decide) hfits
    (by decide) (by decide) rfl (Or.inl (by decide))).mono fun st _ _ hst => hst.1.mpr ?_
  have halg : signAlg .rsaPkcs1v15Sign .sha256 = .rsaPkcs1v15Sign .sha256 := rfl
  have hhalf : referenceTheory.publicHalf (rsaPrivateRef Rsa.usualKey) =
      rsaPublicRef Rsa.usualKey.toPublicKey := referenceTheory_rsa.publicHalf _ size_usualKey
  rw [read_knownDigest, read_knownSignature, halg, hhalf]
  exact accepts_known

/-! ### A public half that does not fit -/

theorem fits_wideKey : (rsaPrivateRef Rsa.wideKey).Fits := by decide +kernel

theorem not_fits_wideKey : ¬ (rsaPublicRef Rsa.wideKey.toPublicKey).Fits := by decide +kernel

/-- A run of `public_of` of a key whose public half does not fit. -/
theorem exists_publicOf_refused {handle : ZucPkey} {key : RefKey}
    (hloads : Loads referenceTheory handle key) (hlong : ¬ (referenceTheory.publicHalf key).Fits)
    (live : List (Nat × Nat)) (w : World) (hready : 0 < w.refcount) (st : RState) :
    ∃ t w' S', Runs (publicOf (objectOf handle) st w) t
        ((.error (abortNative .errBadLength (some "rsa")), st), w') ∧
      (∀ e ∈ t, Calm e) ∧ FreshVectors live t ∧ rsaKeyLaw.Obeys KeyState.initial.store t S' := by
  obtain ⟨r, w', S', hran⟩ := exists_ran_rsa (zucPkeyPublic (some handle) true) w
  obtain ⟨-, -, hr⟩ := (meets_zucPkeyPublic_hands (S := KeyState.initial.store) rsaKeyLaw_theory hloads
    hready).of_ran hran
  rw [HandsKey, if_neg hlong] at hr
  subst hr
  obtain ⟨t, hrun, hcalm, hobeys⟩ := hran
  refine ⟨t, w', S', ?_, hcalm, (vectorless_zucPkeyPublic handle).freshVectors hrun, hobeys⟩
  have hinfo : pkeyInfo (objectOf handle).handle = .ok ⟨handle.type, handle.bits, handle.isPrivate⟩ := rfl
  unfold publicOf
  rw [hinfo, RFun.check_ok_bind, RFun.native_bind]
  exact Runs.bind_iff.mpr ⟨t, _, [], (List.append_nil t).symm, hrun, .done _⟩

/-- With a private key whose exponent is long, `crypt_signature_verify` gives no verdict. -/
theorem verification_verdict_missed : ∃ handle, Made rsaKeyLaw handle ∧
    ¬ RMeets rsaKeyLaw [(0x1000, 32), (0x2000, 128)] signingWorld KeyState.initial.store
      (cryptSignatureVerify (.sexp (.raw 0x1000 32 [])) (.sexp (.raw 0x2000 128 [])) .null
        (.object (objectOf handle)) (some false) noConnections) fun r _ _ _ =>
          RVerdict (AcceptsVector rsaScheme (rsaPublicRef Rsa.wideKey.toPublicKey)
            (.rsaPkcs1v15Sign .sha256) knownDigest (.raw 0x2000 128 []) knownSignature) r.1 := by
  obtain ⟨handle, hmade, hkey⟩ := exists_private_handle Rsa.wideKey size_wideKey fits_wideKey
  have hhalf : referenceTheory.publicHalf (rsaPrivateRef Rsa.wideKey) =
      rsaPublicRef Rsa.wideKey.toPublicKey := referenceTheory_rsa.publicHalf _ size_wideKey
  have hlong : ¬ (referenceTheory.publicHalf (rsaPrivateRef Rsa.wideKey)).Fits := by
    rw [hhalf]
    exact not_fits_wideKey
  refine ⟨handle, hmade, fun hmeets => ?_⟩
  obtain ⟨t, w', S', hrun, hcalm, hfresh, hobeys⟩ := exists_publicOf_refused hkey hlong
    [(0x1000, 32), (0x2000, 128)] signingWorld (by decide) noConnections
  have hstart : (cryptSignatureVerify (.sexp (.raw 0x1000 32 [])) (.sexp (.raw 0x2000 128 [])) .null
      (.object (objectOf handle)) (some false) noConnections : Adapter keyObjects _) =
        (publicOf (objectOf handle) >>= fun pubkey =>
          verifyDigest (.raw 0x1000 32 []) "sha256" (.raw 0x2000 128 []) pubkey false) noConnections := by
    rw [← cryptReadPubkey_private hkey.kind]
    rfl
  have hwhole : Runs (cryptSignatureVerify (.sexp (.raw 0x1000 32 [])) (.sexp (.raw 0x2000 128 [])) .null
      (.object (objectOf handle)) (some false) noConnections signingWorld) t
        ((.error (abortNative .errBadLength (some "rsa")), noConnections), w') := by
    rw [hstart]
    exact Runs.bind_iff.mpr ⟨t, _, [], (List.append_nil t).symm, hrun, .done _⟩
  have hverdict := hmeets t _ w' hwhole hcalm hfresh S' hobeys
  exact absurd hverdict.1 (by decide)

end Zucrypt
