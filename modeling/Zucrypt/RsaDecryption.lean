import Zucrypt.KeyVectors
import Zucrypt.PublicHalf

/-! # RSA decryption that fails

`crypt_rsa_decrypt` of `R/sign.R`, the entry point under it, and what a caller learns of a
ciphertext that is not decrypted: nothing.  Whatever the backend found wrong with it, the status,
the length, the buffer and the condition are the same.

`decrypt_failures_alike` compares any two runs that fail, with any ciphertexts, of any length, and
any memory: in C both return `ZUC_ERR_AUTH`, report a length of 0, and leave zeros in the whole
buffer; and from R both raise one and the same condition.

A handle on a private RSA key is used, with a scheme the build supports; all else is reported before
the ciphertext is looked at.  No allocation fails, since a failure of memory is reported as one and
says nothing of the ciphertext; and so the backend must not report one where there was none
(`decryptLaw`), which is the one thing that is asked of its decryption.  What it decrypts, and why
it does not, is up to it. -/
namespace Zucrypt
open Effects ByteMemory

variable {O : Objects}

/-! ### The functions -/

/-- `check_rsa`. -/
def checkRsa (key : KeyObject) : Except Condition Unit :=
  if key.inherits "crypt_rsa" = false then
    .error (zucryptAbort "zucrypt_invalid_argument" "RSA encryption needs an RSA key." none none)
  else
    .ok ()

/-- What `rsa_scheme` returns. -/
structure RsaScheme where
  scheme : String
  hash : Option String
  deriving DecidableEq, Repr

/-- `rsa_scheme`; of `oaep_hash`, `none` is what is not one string. -/
def R.rsaScheme (oaep : Option Bool) (oaepHash : Option String) : Except Condition RsaScheme := do
  let oaep ← checkFlag oaep "oaep"
  if oaep = false then
    return ⟨"rsa-pkcs1v15-crypt", none⟩
  else
    match oaepHash with
    | some name =>
      if name ∈ ["sha1", "sha256", "sha384", "sha512"] then
        return ⟨"rsa-oaep", some name⟩
      else
        .error (zucryptAbort "zucrypt_invalid_argument"
          "`oaep_hash` must be \"sha1\", \"sha256\", \"sha384\" or \"sha512\"." (some "rsa-oaep") none)
    | none =>
      .error (zucryptAbort "zucrypt_invalid_argument"
        "`oaep_hash` must be \"sha1\", \"sha256\", \"sha384\" or \"sha512\"." (some "rsa-oaep") none)

/-- `zucrypt_pkey_crypt`. -/
def zucryptPkeyCrypt (handle : Option ZucPkey) (scheme : String) (hash : Option String) (data : Sexp)
    (encrypt : Bool) : Adapter O NativeResult := do
  let cap := match handle with
    | none => 1
    | some key => zucPkeyBits (some key) / 8 + 1
  let n := data.XLENGTH
  let buf ← allocRaw cap
  match handle with
  | none => trimmed .errInvalidArgument buf cap 0
  | some key =>
    if encrypt then
      let r ← zucPkeyEncrypt (some key) (zucAlgByName (some scheme)) (zucAlgByName hash)
        (if n ≠ 0 then data.RAW else NULL) n buf cap (some 0)
      trimmed r.1 buf cap (r.2.getD 0)
    else
      let r ← zucPkeyDecrypt (some key) (zucAlgByName (some scheme)) (zucAlgByName hash)
        (if n ≠ 0 then data.RAW else buf) n buf cap (some 0)
      trimmed r.1 buf cap (r.2.getD 0)

/-- `crypt_rsa_decrypt`. -/
def cryptRsaDecrypt (data : Sexp) (key : KeyArgument) (password : Sexp) (oaep : Option Bool)
    (oaepHash : Option String) : RFun O Sexp := do
  let s ← RFun.check (R.rsaScheme oaep oaepHash)
  RFun.check (checkRaw data "data" (some s.scheme))
  RFun.check (noPassword password)
  let key ← cryptReadKey key .null
  let _ ← RFun.check (pkeyInfo key.handle)
  RFun.check (checkRsa key)
  let res ← RFun.native (zucryptPkeyCrypt key.handle s.scheme s.hash data false)
  if res.status ≠ .ok then
    RFun.raise (abortNative res.status (some s.scheme))
  else
    return res.value

/-! ### The native call -/

/-- A backend says that there is no memory only where an allocation failed, and R's allocator
does not return `NULL`. -/
def decryptLaw : StoreLaw O StoredKey where
  makes _ _ := True
  allows
    | ⟨.psa (.asymmetricDecrypt _ _ _ _), r⟩, _ =>
      r.answer.1 = .errorInsufficientMemory → r.allocFailed = true
    | _, _ => True
  elsewhere
    | ⟨.allocRaw _, p⟩ => p ≠ NULL
    | _ => True

/-- What is left of a decryption that failed. -/
structure RevealsNothing (out outSize : Nat) (m : Memory) (r : ZucStatus × SizeCell) (m' : Memory) :
    Prop where
  result : r = (.errAuth, some 0)
  wiped : read m' out outSize = List.replicate outSize 0
  outside : ∀ a, a < out ∨ out + outSize ≤ a → m' a = m a

section
variable {T : KeyTheory O} {L : StoreLaw O StoredKey} {w : World} {S : KeyStore StoredKey}
  {handle : ZucPkey} {key : RefKey} {scheme hash : ZucAlg} {inp len out outSize old : Nat}

/-- `zuc_pkey_decrypt` succeeds, or fails in the one way there is. -/
theorem meets_zucPkeyDecrypt (hL : L.Implies T.law) (hD : L.Implies decryptLaw)
    (h : Loads T handle key) (hrsa : handle.type = .rsa) (hprivate : handle.isPrivate = true)
    (halg : cryptAlg scheme hash ≠ .none) (hready : 0 < w.refcount) (hinp : inp ≠ NULL)
    (hout : out ≠ NULL) :
    Meets L w S (zucPkeyDecrypt (some handle) scheme hash inp len out outSize (some old))
      fun r w' _ => r.1 ≠ .ok → RevealsNothing out outSize w.mem r w'.mem := by
  refine Meets.watched fun w₀ hmem hcount hcalm => ?_
  rw [← hmem]
  unfold pkeyDecryptImpl
  have hready : 0 < w₀.refcount := hcount ▸ hready
  refine Meets.neg (by simp [hinp, hout, SizeCell.store]) ?_
  refine Meets.bind (Meets.ready (Meets.neg (by simp [hready]) ?_))
  refine Meets.neg (by simp [hprivate]) (Meets.neg (by simp [halg, hrsa]) ?_)
  refine (meets_pkeyImport hL h (cryptAlg scheme hash) .decrypt).andThen fun id w' S' hid => ?_
  obtain ⟨hok, rfl, hS⟩ := hid
  refine Meets.neg (not_not.mpr hok) (Meets.bind (Meets.readMem (Meets.bind ?_)))
  refine Meets.use_calm hS (fun _ => rfl) fun r hcalm' hr => ?_
  -- no allocation failed, so this is not what the backend says
  have hmemory : r.answer.1 ≠ .errorInsufficientMemory := by
    intro hnone
    have hfailed := hD.allows _ _ hr hnone
    rw [hcalm'] at hfailed
    cases hfailed
  refine Meets.bind (Meets.writeOutput (Meets.bind (Meets.destroy ?_)))
  refine Meets.ite (fun hfailed => ?_) fun _ => ?_
  · refine Meets.bind (meets_zucSecureZero (Meets.pure ⟨hcalm, fun _ => ?_⟩))
    obtain ⟨hzero, hsame⟩ := zeroed_spec (w'.store out (r.answer.2.bytes.take outSize)).mem
      outSize hout fun a ha => write_take_outside w'.mem _ ha
    exact ⟨by rw [if_neg hmemory]; rfl, hzero, hsame⟩
  · exact Meets.pure ⟨hcalm, fun hne => absurd rfl hne⟩

/-! ### The R function -/

theorem meets_trimmed_status {st : ZucStatus} {buf size : Nat} :
    Meets L w S (trimmed st buf size len) fun res _ _ => res.status = st := by
  unfold trimmed
  refine Meets.ite (fun _ => ?_) fun hok => ?_
  · exact Meets.bind (meets_zucSecureZero (Meets.pure rfl))
  · obtain rfl : st = .ok := not_not.mp hok
    refine Meets.bind (Meets.perform (fun _ => rfl) fun p _ => ?_)
    refine Meets.bind (Meets.readMem (Meets.bind (Meets.writeMem ?_)))
    exact Meets.bind (meets_zucSecureZero (Meets.pure rfl))

/-- A new vector is somewhere. -/
theorem meets_allocRaw_ne (hD : L.Implies decryptLaw) {n : Nat} {Q : Nat → World → KeyStore StoredKey → Prop}
    (h : ∀ p, p ≠ NULL → Q p w S) : Meets L w S (allocRaw n) Q := by
  refine Ensures.perform_iff.mpr fun p _ S' hS => ?_
  obtain ⟨helse, rfl⟩ := (Meets.step_nothing (e := ⟨.allocRaw n, p⟩) rfl).mp
    (StoreLaw.obeys_singleton.mp hS)
  exact h p (hD.elsewhere _ helse)

/-- The entry point decrypts, or says that it could not. -/
theorem meets_zucryptPkeyCrypt (hL : L.Implies T.law) (hD : L.Implies decryptLaw)
    (h : Loads T handle key) (hrsa : handle.type = .rsa) (hprivate : handle.isPrivate = true)
    (hready : 0 < w.refcount) {name : String} {digest : Option String}
    (halg : cryptAlg (zucAlgByName (some name)) (zucAlgByName digest) ≠ .none) {data : Sexp}
    (hdata : data.XLENGTH ≠ 0 → data.RAW ≠ NULL) :
    Meets L w S (zucryptPkeyCrypt (some handle) name digest data false) fun res _ _ =>
      res.status = .ok ∨ res.status = .errAuth := by
  unfold zucryptPkeyCrypt
  refine Meets.bind (meets_allocRaw_ne hD fun buf hbuf => ?_)
  refine Meets.neg (by simp) (Meets.andThen
    (meets_zucPkeyDecrypt hL hD h hrsa hprivate halg hready ?_ hbuf) fun r w' S' hr => ?_)
  · split
    · exact hdata ‹_›
    · exact hbuf
  · refine meets_trimmed_status.mono fun res _ _ hres => ?_
    by_cases hok : r.1 = .ok
    · exact .inl (hres.trans hok)
    · exact .inr (hres.trans (congrArg Prod.fst (hr hok).result))

/-- Both schemes, with every digest, are ones the build supports. -/
theorem cryptAlg_rsaScheme {oaep : Option Bool} {oaepHash : Option String} {s : RsaScheme}
    (hs : R.rsaScheme oaep oaepHash = .ok s) :
    cryptAlg (zucAlgByName (some s.scheme)) (zucAlgByName s.hash) ≠ .none := by
  unfold R.rsaScheme checkFlag at hs
  cases oaep with
  | none => cases hs
  | some b =>
    cases b with
    | false =>
      obtain rfl : (⟨"rsa-pkcs1v15-crypt", none⟩ : RsaScheme) = s := Except.ok.inj hs
      decide
    | true =>
      cases oaepHash with
      | none => cases hs
      | some name =>
        by_cases hname : name ∈ ["sha1", "sha256", "sha384", "sha512"]
        · have hs : (⟨"rsa-oaep", some name⟩ : RsaScheme) = s := by
            simpa [hname, bind, Except.bind, pure, Except.pure] using hs
          subst hs
          simp only [List.mem_cons, List.not_mem_nil, or_false] at hname
          rcases hname with rfl | rfl | rfl | rfl <;> decide
        · simp [hname, bind, Except.bind] at hs

/-- The condition of a decryption that failed: it depends on the arguments other than `data`. -/
def decryptCondition (password : Sexp) (oaep : Option Bool) (oaepHash : Option String) : Condition :=
  match R.rsaScheme oaep oaepHash with
  | .error c => c
  | .ok s =>
    match noPassword password with
    | .error c => c
    | .ok () => abortNative .errAuth (some s.scheme)

/-- The object of a private handle is one that R decrypts with. -/
theorem inherits_private (hprivate : handle.isPrivate = true) :
    (objectOf handle).inherits "crypt_key" = true := by
  simp [KeyObject.inherits, objectOf, hprivate]

/-- Whatever condition it raises, it is that one. -/
theorem meets_cryptRsaDecrypt (hL : L.Implies T.law) (hD : L.Implies decryptLaw)
    (h : Loads T handle key) (hrsa : handle.type = .rsa) (hprivate : handle.isPrivate = true)
    (hready : 0 < w.refcount) {data : Sexp} (hraw : data.isRaw = true)
    (hdata : data.XLENGTH ≠ 0 → data.RAW ≠ NULL) (password : Sexp) (oaep : Option Bool)
    (oaepHash : Option String) (st : RState) :
    Meets L w S (cryptRsaDecrypt data (.object (objectOf handle)) password oaep oaepHash st)
      fun r _ _ => ∀ c, r.1 = .error c → c = decryptCondition password oaep oaepHash := by
  unfold cryptRsaDecrypt decryptCondition
  cases hs : R.rsaScheme oaep oaepHash with
  | error c =>
    refine Meets.pure ?_
    rintro _ ⟨⟩
    rfl
  | ok s =>
    have hcheck : checkRaw data "data" (some s.scheme) = .ok () := by
      rw [checkRaw, if_neg (by simp [hraw])]
    rw [RFun.check_ok_bind, hcheck, RFun.check_ok_bind]
    cases hp : noPassword password with
    | error c =>
      refine Meets.pure ?_
      rintro _ ⟨⟩
      rfl
    | ok u =>
      have hread : (cryptReadKey (.object (objectOf handle)) .null : RFun O KeyObject) =
          pure (objectOf handle) := if_pos (inherits_private hprivate)
      have hkind : checkRsa (objectOf handle) = .ok () := by
        rw [checkRsa, if_neg (by simp [(inherits_rsa handle).mpr hrsa])]
      have hinfo : pkeyInfo (objectOf handle).handle =
          .ok ⟨handle.type, handle.bits, handle.isPrivate⟩ := rfl
      rw [RFun.check_ok_bind, hread, RFun.pure_bind, hinfo, RFun.check_ok_bind, hkind,
        RFun.check_ok_bind, RFun.native_bind]
      refine (meets_zucryptPkeyCrypt hL hD h hrsa hprivate hready (cryptAlg_rsaScheme hs) hdata).andThen
        fun res w' S' hres => ?_
      -- no other status comes out of C
      rcases hres with hok | hauth
      · rw [if_neg (by simp [hok])]
        refine Meets.pure ?_
        rintro _ ⟨⟩
      · rw [if_pos (by simp [hauth]), hauth]
        refine Meets.pure ?_
        rintro _ ⟨⟩
        rfl

/-! ### Two runs -/

/-- `zuc_pkey_decrypt` of some input did not succeed; it returned `r` and left this in `out`. -/
def DecryptFails (L : StoreLaw O StoredKey) (handle : ZucPkey) (scheme hash : ZucAlg)
    (out outSize : Nat) (r : ZucStatus × SizeCell) (left : List Byte) : Prop :=
  ∃ w S inp len old w' S', 0 < w.refcount ∧ inp ≠ NULL ∧
    Ran L w S (zucPkeyDecrypt (some handle) scheme hash inp len out outSize (some old)) r w' S' ∧
    r.1 ≠ .ok ∧ left = read w'.mem out outSize

/-- `crypt_rsa_decrypt` of some raw vector raised the condition. -/
def RsaDecryptRaises (L : StoreLaw O StoredKey) (handle : ZucPkey) (password : Sexp)
    (oaep : Option Bool) (oaepHash : Option String) (c : Condition) : Prop :=
  ∃ w S data st st' w' S', 0 < w.refcount ∧ data.isRaw = true ∧
    (data.XLENGTH ≠ 0 → data.RAW ≠ NULL) ∧
    Ran L w S (cryptRsaDecrypt data (.object (objectOf handle)) password oaep oaepHash st)
      (.error c, st') w' S'

/-- No two failures of RSA decryption differ. -/
theorem decrypt_failures_alike (hL : L.Implies T.law) (hD : L.Implies decryptLaw)
    (hmade : Made L handle) (hrsa : handle.type = .rsa) (hprivate : handle.isPrivate = true) :
    (∀ scheme hash out outSize, cryptAlg scheme hash ≠ .none → out ≠ NULL → ∀ r r' left left',
      DecryptFails L handle scheme hash out outSize r left →
      DecryptFails L handle scheme hash out outSize r' left' →
      (r, left) = (r', left') ∧ (r, left) = ((.errAuth, some 0), List.replicate outSize 0)) ∧
    (∀ password oaep oaepHash c c', RsaDecryptRaises L handle password oaep oaepHash c →
      RsaDecryptRaises L handle password oaep oaepHash c' → c = c') := by
  obtain ⟨key, hkey⟩ := hmade.holds hL
  constructor
  · intro scheme hash out outSize halg hout
    have hone : ∀ r left, DecryptFails L handle scheme hash out outSize r left →
        (r, left) = ((.errAuth, some 0), List.replicate outSize 0) := by
      rintro r left ⟨w, S, inp, len, old, w', S', hready, hinp, hran, hfailed, rfl⟩
      have hnothing : RevealsNothing out outSize w.mem r w'.mem :=
        (meets_zucPkeyDecrypt hL hD hkey.toLoads hrsa hprivate halg hready hinp hout).of_ran hran hfailed
      rw [hnothing.result, hnothing.wiped]
    intro r r' left left' h h'
    exact ⟨(hone r left h).trans (hone r' left' h').symm, hone r left h⟩
  · intro password oaep oaepHash
    have hone : ∀ c, RsaDecryptRaises L handle password oaep oaepHash c →
        c = decryptCondition password oaep oaepHash := by
      rintro c ⟨w, S, data, st, st', w', S', hready, hraw, hdata, hran⟩
      exact (meets_cryptRsaDecrypt hL hD hkey.toLoads hrsa hprivate hready hraw hdata password oaep
        oaepHash st).of_ran hran c rfl
    intro c c' h h'
    exact (hone c h).trans (hone c' h').symm

end

/-! ### A backend that decrypts nothing -/

/-- It has no RSA decryption. -/
def refusesDecryption : StoreLaw keyObjects StoredKey where
  makes _ _ := True
  allows
    | ⟨.psa (.asymmetricDecrypt _ _ _ _), r⟩, _ => r.answer.1 = .errorNotSupported
    | _, _ => True
  elsewhere
    | ⟨.allocRaw _, p⟩ => p ≠ NULL
    | _ => True

/-- A backend that refuses does not blame memory. -/
theorem refusesDecryption_decryptLaw : refusesDecryption.Implies decryptLaw where
  makes _ _ _ := trivial
  allows := by
    rintro ⟨op, r⟩ m h
    cases op with
    | psa c =>
      cases c with
      | asymmetricDecrypt id alg input size =>
        intro hmemory
        have hanswer : r.answer.1 = .errorNotSupported := h
        rw [hanswer] at hmemory
        cases hmemory
      | _ => trivial
    | _ => trivial
  elsewhere := by
    rintro ⟨op, r⟩ h
    cases op with
    | psa c => cases c <;> trivial
    | allocRaw n => exact h
    | _ => trivial

/-- The law of the reference backend, which refuses what it does not know. -/
def refusingLaw : StoreLaw keyObjects StoredKey := rsaKeyLaw.and refusesDecryption

/-- There is such a backend, -/
theorem refusingLaw_calm :
    CalmBackend refusingLaw (keyBackend referenceTheory (rsaOperations knownPrimitives))
      KeyState.store := by
  refine CalmBackend.and (keyBackend_calm (fun _ => rfl) noVectors_below) fun γ op s => ?_
  refine ⟨fun _ => trivial, fun m => ?_, ?_⟩
  · cases op with
    | psa c => cases c <;> trivial
    | _ => trivial
  · cases op with
    | psa c => cases c <;> trivial
    | allocRaw n => exact (by decide : vectorBase ≠ NULL)
    | _ => trivial

/-- with RSA keys, -/
theorem refusingLaw_theory : refusingLaw.Implies referenceTheory.law :=
  (StoreLaw.and_left _ _).trans rsaKeyLaw_theory

/-- that never reports a lack of memory. -/
theorem refusingLaw_decrypt : refusingLaw.Implies decryptLaw :=
  (StoreLaw.and_right _ _).trans refusesDecryption_decryptLaw

/-- With such a backend nothing is decrypted. -/
theorem meets_zucPkeyDecrypt_refused {w : World} {S : KeyStore StoredKey} {handle : ZucPkey}
    {key : RefKey} (h : Loads referenceTheory handle key) (hready : 0 < w.refcount)
    {scheme hash : ZucAlg} (inp len out outSize old : Nat) :
    Meets refusingLaw w S (zucPkeyDecrypt (some handle) scheme hash inp len out outSize (some old))
      fun r _ _ => r.1 ≠ .ok := by
  refine Meets.watched fun w₀ _ hcount hcalm => ?_
  unfold pkeyDecryptImpl
  have hready : 0 < w₀.refcount := hcount ▸ hready
  refine Meets.ite (fun _ => Meets.pure ⟨hcalm, by simp⟩) fun _ => ?_
  refine Meets.bind (Meets.ready (Meets.neg (by simp [hready]) ?_))
  refine Meets.ite (fun _ => Meets.pure ⟨hcalm, by simp⟩) fun _ => ?_
  refine Meets.ite (fun _ => Meets.pure ⟨hcalm, by simp⟩) fun _ => ?_
  refine (meets_pkeyImport refusingLaw_theory h (cryptAlg scheme hash) .decrypt).andThen
    fun id w' S' hid => ?_
  obtain ⟨hok, rfl, hS⟩ := hid
  refine Meets.neg (not_not.mpr hok) (Meets.bind (Meets.readMem (Meets.bind ?_)))
  refine Meets.use hS (fun _ => rfl) fun r hr => ?_
  have hanswer : r.answer.1 = .errorNotSupported := hr.2
  refine Meets.bind (Meets.writeOutput (Meets.bind (Meets.destroy ?_)))
  refine Meets.pos (by simp [hanswer]) (Meets.bind (meets_zucSecureZero (Meets.pure ⟨hcalm, ?_⟩)))
  split <;> simp

/-- So each ciphertext has a run that fails. -/
theorem exists_decryptFails {handle : ZucPkey} {key : RefKey}
    (h : Loads referenceTheory handle key) (scheme hash : ZucAlg) (inp len : Nat)
    (hinp : inp ≠ NULL) (out outSize : Nat) :
    ∃ r left, DecryptFails refusingLaw handle scheme hash out outSize r left := by
  have hready : 0 < readyWorld.refcount := by decide
  obtain ⟨r, w', s', hran⟩ := refusingLaw_calm.exists_ran
    (zucPkeyDecrypt (some handle) scheme hash inp len out outSize (some 0)) readyWorld .initial
  have hfailed := (meets_zucPkeyDecrypt_refused h hready inp len out outSize 0).of_ran hran
  exact ⟨r, _, readyWorld, _, inp, len, 0, w', _, hready, hinp, hran, hfailed, rfl⟩

/-- Nothing at all, and 3 bytes, of which neither is a ciphertext. -/
theorem decrypt_failures_alike_usual : ∃ handle r r' left left',
    DecryptFails refusingLaw handle .rsaOaep .sha1 0x5000 16 r left ∧
    DecryptFails refusingLaw handle .rsaOaep .sha1 0x5000 16 r' left' ∧
    (r, left) = (r', left') := by
  obtain ⟨handle, hmade, hkey⟩ := exists_private_handle_of refusingLaw_calm refusingLaw_theory
    Rsa.usualKey size_usualKey fits_usualKey
  have hrsa : handle.type = .rsa := hkey.type_eq_rsa.mpr (isRsa_publicHalf _ _)
  obtain ⟨r, left, h⟩ := exists_decryptFails hkey .rsaOaep .sha1 0x4000 0 (by decide) 0x5000 16
  obtain ⟨r', left', h'⟩ := exists_decryptFails hkey .rsaOaep .sha1 0x4000 3 (by decide) 0x5000 16
  refine ⟨handle, r, r', left, left', h, h', ?_⟩
  exact ((decrypt_failures_alike refusingLaw_theory refusingLaw_decrypt hmade hrsa hkey.kind).1
    .rsaOaep .sha1 0x5000 16 (by decide) (by decide) r r' left left' h h').1

end Zucrypt
