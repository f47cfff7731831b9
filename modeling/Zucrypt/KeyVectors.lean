import Zucrypt.KeyWriting
import Zucrypt.PkeyOrdinary
import Zucrypt.Verification

/-! # Keys written for R

The entry points that return what is written of a key, and the R functions over them.  A
vector of the greatest size is filled and what was written is copied out of it
(`trimmed`); the first is then wiped. -/
namespace Zucrypt
open Effects ByteMemory

variable {O : Objects}

/-- `zucrypt_pkey_write`. -/
def zucryptPkeyWrite (handle : Option ZucPkey) (format : ZucPkeyFormat) (publicOnly : Bool) :
    Adapter O NativeResult := do
  let buf ← allocRaw ZUC_PKEY_MAX_WRITE_SIZE
  match handle with
  | none => trimmed .errInvalidArgument buf ZUC_PKEY_MAX_WRITE_SIZE 0
  | some key =>
    let r ← zucPkeyWrite (some key) format publicOnly buf ZUC_PKEY_MAX_WRITE_SIZE (some 0)
    trimmed r.1 buf ZUC_PKEY_MAX_WRITE_SIZE (r.2.getD 0)

/-- `zucrypt_pkey_export`. -/
def zucryptPkeyExport (handle : Option ZucPkey) (publicOnly : Bool) : Adapter O NativeResult := do
  let buf ← allocRaw ZUC_PKEY_MAX_WRITE_SIZE
  match handle with
  | none => trimmed .errInvalidArgument buf ZUC_PKEY_MAX_WRITE_SIZE 0
  | some key =>
    let r ← zucPkeyExport (some key) publicOnly buf ZUC_PKEY_MAX_WRITE_SIZE (some 0)
    trimmed r.1 buf ZUC_PKEY_MAX_WRITE_SIZE (r.2.getD 0)

/-- `check_key_object`. -/
def checkKeyObject (x : KeyObject) : Except Condition Unit := do
  if ¬ (x.inherits "crypt_key" ∨ x.inherits "crypt_pubkey") then
    throw (zucryptAbort "zucrypt_invalid_argument"
      ("`x` must be a key from crypt_read_key(), crypt_read_pubkey(), crypt_rsa_keygen() or " ++
        "crypt_rsa_key().") none none)
  let _ ← pkeyInfo x.handle
  return ()

/-- The value of a native result, or the condition `abort_native` makes of it. -/
def valueOr (res : NativeResult) (algorithm : Option String) : Except Condition Sexp :=
  if res.status ≠ .ok then .error (abortNative res.status algorithm) else .ok res.value

/-- `write_key`. -/
def writeKey (x : KeyObject) (format : ZucPkeyFormat) (publicOnly : Bool) : RFun O Sexp := do
  RFun.check (checkKeyObject x)
  let res ← RFun.native (zucryptPkeyWrite x.handle format publicOnly)
  RFun.check (valueOr res (some "rsa"))

/-- `export_key`. -/
def exportKey (x : KeyObject) (publicOnly : Bool) : RFun O Sexp := do
  let res ← RFun.native (zucryptPkeyExport x.handle publicOnly)
  RFun.check (valueOr res none)

/-! ### What is copied out -/

section
variable {L : StoreLaw O StoredKey} {live : List (Nat × Nat)} {w : World}
  {S : KeyStore StoredKey}

theorem rmeets_allocRaw {n : Nat} (hn : n ≤ R.VECTOR_MAX)
    {Q : Nat → World → KeyStore StoredKey → List (Nat × Nat) → Prop}
    (h : ∀ p, ValidBuffer p n → (∀ v ∈ live, Apart p n v.1 v.2) → Q p w S ((p, n) :: live)) :
    RMeets L live w S (allocRaw n) Q := by
  refine Ensures.perform_iff.mpr fun p _ hfresh S' hS => ?_
  obtain ⟨-, rfl⟩ := (Meets.step_nothing (e := ⟨.allocRaw n, p⟩) rfl).mp
    (StoreLaw.obeys_singleton.mp hS)
  obtain ⟨hvalid, hapart⟩ := hfresh.1 (p, n) rfl hn
  exact h p hvalid hapart

/-- A native result: a vector of these bytes, or a status and nothing. -/
def GivesVector (live : List (Nat × Nat)) (m : Memory) (st : ZucStatus) (bs : List Byte)
    (r : NativeResult) : Prop :=
  if st = .ok then ∃ v, r = ⟨.ok, v⟩ ∧ HoldsVector live m v bs else r = ⟨st, .null⟩

/-- Wiping a buffer leaves a vector apart from it as it is. -/
theorem read_zeroed_apart {m : Memory} {buf size p n : Nat} (h : Apart p n buf size) :
    read (zeroed m buf size) p n = read m p n := by
  unfold zeroed
  split
  · rfl
  · refine read_write_apart _ ?_
    rw [List.length_replicate]
    exact h.symm

theorem rmeets_trimmed {st : ZucStatus} {buf size len : Nat} (hbuf : (buf, size) ∈ live)
    (hlen : st = .ok → len ≤ size) (hsize : size ≤ R.VECTOR_MAX) :
    RMeets L live w S (trimmed st buf size len) fun r w' _ live' =>
      w'.refcount = w.refcount ∧ (∀ v ∈ live, v ∈ live') ∧
        GivesVector live' w'.mem st (read w.mem buf len) r := by
  have hwipe : ∀ (w₁ : World) (live₁ : List (Nat × Nat)) (res : NativeResult)
      (Q : NativeResult → World → KeyStore StoredKey → List (Nat × Nat) → Prop),
      Q res { w₁ with mem := zeroed w₁.mem buf size } S live₁ →
      RMeets L live₁ w₁ S (do zucSecureZero buf size; return res) Q := by
    intro w₁ live₁ res Q hQ
    refine RMeets.bind (RMeets.of_done (b := ()) ?_ (RMeets.pure hQ))
    unfold zucSecureZero zeroed
    split <;> rfl
  unfold trimmed
  by_cases hst : st = .ok
  · subst hst
    simp only [ne_eq, not_true_eq_false, if_false]
    refine RMeets.bind (rmeets_allocRaw (Nat.le_trans (hlen rfl) hsize) fun p hp hapart => ?_)
    refine RMeets.bind (RMeets.of_done rfl (RMeets.bind (RMeets.of_done rfl ?_)))
    refine hwipe _ _ _ _ ⟨rfl, fun v hv => List.mem_cons_of_mem _ hv, ?_⟩
    unfold GivesVector
    rw [if_pos rfl]
    refine ⟨_, rfl, rfl, hp, List.mem_cons_self, ?_⟩
    -- the new vector is not what is wiped
    show read (zeroed (write w.mem p (read w.mem buf len)) buf size) p len = read w.mem buf len
    rw [read_zeroed_apart (hapart _ hbuf)]
    exact read_write_exact _ p (length_read ..)
  · simp only [if_pos hst]
    refine hwipe _ _ _ _ ⟨rfl, fun v hv => hv, ?_⟩
    unfold GivesVector nativeResult
    rw [if_neg hst, if_neg hst]

end

/-! ### Keys in vectors -/

section
variable {T : KeyTheory O} {L : StoreLaw O StoredKey} {live : List (Nat × Nat)} {w : World}
  {S : KeyStore StoredKey} {handle : ZucPkey} {key : RefKey}

/-- A watched call leaves the library as ready as it was. -/
theorem meets_keepsCount {α : Type} {impl : Adapter O (ZucStatus × α)} (hord : Ordinary impl)
    {Q : ZucStatus × α → World → KeyStore StoredKey → Prop} (h : Meets L w S (watched impl) Q) :
    Meets L w S (watched impl) fun r w' S' => w'.refcount = w.refcount ∧ Q r w' S' := by
  have hcount : Ensures (fun _ => True) (watched impl) w fun _ _ w' => w'.refcount = w.refcount := by
    refine Ensures.bind_iff.mpr (Ensures.update_iff.mpr (Ensures.bind_iff.mpr ?_))
    refine (hord.frame { w with allocFailed := false }).mono fun t r w' hframe => ?_
    refine Ensures.bind_iff.mpr (Ensures.bind_iff.mpr (Ensures.read_iff.mpr ?_))
    exact Ensures.pure_iff.mpr (Ensures.pure_iff.mpr hframe.refcount)
  intro t r w' hrun hcalm S' hS
  exact ⟨hcount t r w' hrun fun _ _ => trivial, h t r w' hrun hcalm S' hS⟩

/-- A native result whose vector was filled by one call of the adapter. -/
theorem rmeets_filled {impl : Nat → Adapter O (ZucStatus × SizeCell)} {bs : List Byte}
    (hord : ∀ buf, Ordinary (impl buf)) (hbs : bs.length ≤ ZUC_PKEY_MAX_WRITE_SIZE)
    (hfill : ∀ buf, buf ≠ NULL → Meets L w S (watched (impl buf)) fun r w' _ =>
      (r, w'.mem) = ((.ok, some bs.length), write w.mem buf bs)) :
    RMeets L live w S (do
      let buf ← allocRaw ZUC_PKEY_MAX_WRITE_SIZE
      let r ← watched (impl buf)
      trimmed r.1 buf ZUC_PKEY_MAX_WRITE_SIZE (r.2.getD 0)) fun r w' _ live' =>
        w'.refcount = w.refcount ∧ (∀ v ∈ live, v ∈ live') ∧ GivesVector live' w'.mem .ok bs r := by
  have hmax : ZUC_PKEY_MAX_WRITE_SIZE ≤ R.VECTOR_MAX := by decide
  refine RMeets.bind (rmeets_allocRaw hmax fun buf hbuf _ => ?_)
  refine RMeets.bind (RMeets.of_meets (meets_keepsCount (hord buf) (hfill buf hbuf.1)) ?_)
  rintro r w' S' live' ⟨hcount, hr⟩ hlive
  obtain ⟨rfl, hmem⟩ := Prod.mk.inj hr
  refine (rmeets_trimmed (hlive _ List.mem_cons_self) (fun _ => hbs) hmax).mono ?_
  rintro r' w'' S'' live'' ⟨hcount', hlive', hgives⟩
  refine ⟨hcount'.trans hcount, fun v hv => hlive' v (hlive v (List.mem_cons_of_mem _ hv)), ?_⟩
  have hread : read w'.mem buf bs.length = bs := by
    rw [hmem]
    exact read_write_self _ buf bs
  rw [hread] at hgives
  exact hgives

theorem encodingOf_pkcs1 (F : KeyOperations) (h : Holds T handle key) (hrsa : handle.type = .rsa) :
    ∃ label, F.encodingOf T key .pkcs1Der false = .ok (key.material, label) := by
  have htype : algOfPsa key.type key.bits = .rsa := h.type.symm.trans hrsa
  unfold KeyOperations.encodingOf
  cases hpair : key.type.isKeyPair with
  | true => exact ⟨"RSA PRIVATE KEY", by simp [privateEncoding, htype]⟩
  | false =>
    have hhalf := h.type_eq_rsa.mp hrsa
    rw [T.publicHalf_public hpair] at hhalf ⊢
    exact ⟨"RSA PUBLIC KEY", by simp [KeyOperations.encode, hhalf, RefKey.exported, h.fits, Except.map]⟩

/-- `zuc_pkey_write` of an RSA key in PKCS#1: the key's material. -/
theorem meets_zucPkeyWrite_filled (hL : L.Implies T.law) (h : Holds T handle key)
    (hready : 0 < w.refcount) (hrsa : handle.type = .rsa)
    (hsize : key.material.length ≤ ZUC_PKEY_MAX_WRITE_SIZE) {buf : Nat} (hbuf : buf ≠ NULL) :
    Meets L w S (zucPkeyWrite (some handle) .pkcs1Der false buf ZUC_PKEY_MAX_WRITE_SIZE (some 0))
      fun r w' _ =>
        (r, w'.mem) = ((.ok, some key.material.length), write w.mem buf key.material) := by
  refine (meets_zucPkeyWrite_pkcs1 hL .refused h hready hrsa buf _ _).mono fun r w' S' hr => ?_
  obtain ⟨label, hencoding⟩ := encodingOf_pkcs1 .refused h hrsa
  rw [hr, writeOutcomeOf, if_neg (by simp [hbuf, SizeCell.store]), hencoding]
  simp only [KeyOperations.deliver, KeyOperations.give, true_or, if_true,
    if_neg (Nat.not_lt.mpr hsize)]
  rfl

/-- `zucrypt_pkey_write` of it: a vector of the key's material. -/
theorem rmeets_zucryptPkeyWrite_pkcs1 (hL : L.Implies T.law) (h : Holds T handle key)
    (hready : 0 < w.refcount) (hrsa : handle.type = .rsa)
    (hsize : key.material.length ≤ ZUC_PKEY_MAX_WRITE_SIZE) :
    RMeets L live w S (zucryptPkeyWrite (some handle) .pkcs1Der false) fun r w' _ live' =>
      w'.refcount = w.refcount ∧ (∀ v ∈ live, v ∈ live') ∧
        GivesVector live' w'.mem .ok key.material r :=
  rmeets_filled (fun _ => ordinary_pkeyWriteImpl _ _ _ _ _ _) hsize fun _ hbuf =>
    meets_zucPkeyWrite_filled hL h hready hrsa hsize hbuf

end

end Zucrypt
