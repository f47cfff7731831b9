import Zucrypt.CryptAead
import Zucrypt.CalmVectors
import Zucrypt.CryptKeys
import Zucrypt.KeyMaking
import Zucrypt.MemoryReports
import Zucrypt.RsaTheory

/-! # Which RSA keys are accepted

`zucrypt.h` gives a range of modulus sizes.  The functions check no size: what they refuse is a key
longer than the buffer it is exported into, whose size is computed from the modulus for a short
exponent and primes of like size (`RefKey.Fits`).

`rsa_range_iff` is when the two agree, for each way to an RSA handle: import and parse, for public
and private keys, and `crypt_rsa_key` from its integers.  Each accepts a key exactly if it fits, so
each accepts the keys of the documented range and no others exactly if, of that key, to fit and to
be in range are the same.  Keys with a short exponent, and primes of like size, do fit
(`fits_rsaPublic`, `fits_rsaPrivate`); `rsa_range_missed` has a key on each side of the gap.

The backend keeps the law of its keys and has memory (`Meets`), as the range is about keys and not
about failures.  `RsaTheory` is what it takes for an RSA key: one of up to 4096 bits, in its
canonical encoding.  A parsed key must be one the theory knows (`Genuine`), and a text in PEM have
no NUL in it, since the parser takes it as a C string.  What `crypt_rsa_key` is given are raw
vectors of integers (`RawInteger`), with as many leading zeros as their writer liked. -/
namespace Zucrypt
open Effects ByteMemory

variable {O : Objects}

/-- The sizes `zucrypt.h` says are supported. -/
def RefKey.InRange (key : RefKey) : Prop := 1024 ≤ key.bits ∧ key.bits ≤ 4096

/-- A handle on exactly this key. -/
def Accepts (T : KeyTheory O) (key : RefKey) (r : ZucStatus × Option ZucPkey) : Prop :=
  ∃ handle, r = (.ok, some handle) ∧ Loads T handle key

/-! ### Which fit -/

section
variable {T : KeyTheory O} (hT : RsaTheory T)

/-- A public key with a short exponent fits. -/
theorem fits_rsaPublic (k : Rsa.PublicKey) (hn : k.n.size ≤ 4096) (he : k.e.size ≤ 32) :
    (rsaPublicRef k).Fits := k.length_der_le hn he

/-- So does a private key, if its primes are of like size. -/
theorem fits_rsaPrivate (k : Rsa.PrivateKey) (hn : k.n.size ≤ 4096) (he : k.e.size ≤ 32)
    (hpq : k.p.size ≤ k.q.size + 1) (hqp : k.q.size ≤ k.p.size + 1) : (rsaPrivateRef k).Fits :=
  k.length_der_le hn he hpq hqp

/-- To hand out the key is to accept it, and it is handed out exactly if it fits. -/
theorem HandsKey.accepts_iff {key : RefKey} {r : ZucStatus × Option ZucPkey}
    (h : HandsKey T key r) : Accepts T key r ↔ key.Fits := by
  unfold HandsKey at h
  split at h
  · rename_i hfits
    exact iff_of_true h hfits
  · rename_i hlong
    rw [h]
    exact iff_of_false (fun ⟨_, heq, _⟩ => nomatch heq) hlong

/-- Of an RSA key, the half that is asked for. -/
theorem HandsHalf.of_rsa {key : RefKey} {privateKey : Bool} {r : ZucStatus × Option ZucPkey}
    (h : HandsHalf T key privateKey r) (hrsa : key.type.isRsa = true) :
    HandsKey T (T.half key privateKey) r := by
  have hknown : algOfPsa key.type key.bits ≠ .none := by
    rw [algOfPsa, if_pos hrsa]
    simp
  rwa [HandsHalf, if_neg hknown] at h

/-- A key of the kind that is asked for is its own half. -/
theorem half_eq_self {key : RefKey} {privateKey : Bool}
    (hkind : key.type.isKeyPair = privateKey) : T.half key privateKey = key := by
  subst hkind
  unfold KeyTheory.half
  cases hpair : key.type.isKeyPair with
  | true => rfl
  | false => exact T.publicHalf_public hpair

/-! ### The constructors -/

variable {w : World} {S : KeyStore StoredKey}

/-- Import of the encoding of an RSA key. -/
theorem meets_zucPkeyImport_rsa {L : StoreLaw O StoredKey} (hL : L.Implies T.law)
    {privateKey : Bool} {data len : Nat} {key : RefKey} (hready : 0 < w.refcount)
    (hdata : data ≠ NULL) (hlen : len ≠ 0)
    (hread : T.read (importType .rsa privateKey) (read w.mem data len) = some key) :
    Meets L w S (zucPkeyImport .rsa privateKey data len true) fun r _ _ =>
      HandsHalf T key privateKey r := by
  refine Meets.watched fun w₀ hmem hcount hcalm => ?_
  rw [← hmem] at hread
  rw [← hcount] at hready
  refine (meets_pkeyImportImpl_rsa hL hready hdata hlen hread).mono ?_
  exact fun r w' S' hr => ⟨hr.1.allocFailed.trans hcalm, hr.2⟩

/-- Parsing of a file with an RSA key, of which the half asked for is kept. -/
theorem meets_zucPkeyParse_rsa {L : StoreLaw O StoredKey} (hL : L.Implies T.law) {privateKey : Bool}
    {inp len : Nat} {key : RefKey} (hready : 0 < w.refcount) (hinp : inp ≠ NULL) (hlen : len ≠ 0)
    (hnul : looksLikePem (read w.mem inp len) = true → (0 : Byte) ∉ read w.mem inp len)
    (hfile : T.readFile (readerInput (read w.mem inp len)) = some key) (hkey : T.Genuine key)
    (hrsa : key.type.isRsa = true) (hkind : privateKey = true → key.type.isKeyPair = true) :
    Meets L w S (zucPkeyParse inp len privateKey true) fun r _ _ =>
      HandsHalf T key privateKey r := by
  refine Meets.watched fun w₀ hmem hcount hcalm => ?_
  rw [← hmem] at hnul hfile
  rw [← hcount] at hready
  refine (meets_pkeyParseImpl_rsa hL hready hinp hlen hnul hfile hkey hrsa hkind).mono ?_
  exact fun r w' S' hr => ⟨hr.1.allocFailed.trans hcalm, hr.2⟩

/-! ### From R -/

/-- A key object on exactly this key. -/
def AcceptsObject (T : KeyTheory O) (key : RefKey) (r : Except Condition KeyObject × RState) : Prop :=
  ∃ object handle, r.1 = .ok object ∧ object.handle = some handle ∧ Loads T handle key

/-- DER is not taken for PEM. -/
theorem looksLikePem_element (contents : Der.Octets) :
    looksLikePem (Der.element 0x30 contents) = false := rfl

/-- The encoding of an RSA key becomes a key object on it, if it fits. -/
theorem meets_parseKey_rsa {L : StoreLaw O StoredKey} (hL : L.Implies T.law) (hT : RsaTheory T)
    {p : Nat} {key : RefKey} (st : RState) (hready : 0 < w.refcount) (hp : p ≠ NULL)
    (hmem : read w.mem p key.material.length = key.material) (hpem : looksLikePem key.material = false)
    (hne : key.material ≠ []) (hkey : T.Genuine key) (hrsa : key.type.isRsa = true) :
    Meets L w S (parseKey (.raw p key.material.length []) key.type.isKeyPair st) fun r _ _ =>
      AcceptsObject T key r ↔ key.Fits := by
  have hlen : key.material.length ≠ 0 := fun h => hne (List.length_eq_zero_iff.mp h)
  unfold parseKey
  rw [RFun.native_bind]
  refine (meets_zucPkeyParse_rsa hL hready hp hlen ?_ ?_ hkey hrsa id).andThen fun r w' S' hr => ?_
  · show looksLikePem (read w.mem p key.material.length) = true → _
    rw [hmem, hpem]
    intro htrue
    cases htrue
  · show T.readFile (readerInput (read w.mem p key.material.length)) = some key
    rw [hmem, readerInput, hpem]
    exact hT.file hrsa hkey
  · have hr := hr.of_rsa hrsa
    rw [half_eq_self rfl, HandsKey] at hr
    split at hr
    · rename_i hfits
      obtain ⟨handle, rfl, hloads⟩ := hr
      exact Meets.pure (iff_of_true ⟨_, handle, rfl, rfl, hloads⟩ hfits)
    · rename_i hlong
      subst hr
      refine Meets.pure (iff_of_false ?_ hlong)
      rintro ⟨_, _, heq, _⟩
      cases heq

/-- A raw vector that stands for a number, in as many bytes as it likes. -/
structure RawInteger (m : Memory) (x : Sexp) (v : Nat) : Prop where
  isRaw : x.isRaw = true
  value : Der.value (x.bytes m) = v

/-- The nonzero bytes of a number are no more than its octets. -/
theorem nonzeros_le_octets (x : List Byte) : R.nonzeros x ≤ (Der.octets (Der.value x)).length := by
  have hdrop : R.nonzeros (x.dropWhile (· = 0)) = R.nonzeros x := by
    unfold R.nonzeros
    induction x with
    | nil => rfl
    | cons b bs ih =>
      by_cases hb : b = 0
      · subst hb
        simpa using ih
      · rw [List.dropWhile_cons_of_neg (by simpa using hb)]
  rw [Der.octets_value, ← hdrop]
  exact R.nonzeros_le_length _

/-- `der_integer` writes the number, whatever zeros are in front of it. -/
theorem RawInteger.derInteger {m : Memory} {x : Sexp} {v : Nat} (h : RawInteger m x v)
    (hv : v.size ≤ 4096) : R.derInteger (x.bytes m) = Der.integer v := by
  have hlt : v < 256 ^ 512 := Der.lt_of_size_le hv
  have hcount := nonzeros_le_octets (x.bytes m)
  have hoctets := Der.length_octets_le.mpr hlt
  rw [h.value] at hcount
  rw [R.derInteger_eq (Nat.le_trans hcount (Nat.le_trans hoctets (by decide))), h.value]

/-- The DER that `crypt_rsa_key` builds is that of the public key, -/
theorem rsaKeyDer_public {m : Memory} {n e : Sexp} {k : Rsa.PublicKey} (hn : RawInteger m n k.n)
    (he : RawInteger m e k.e) (hsize : k.n.size ≤ 4096) (parts : List (String × Sexp)) :
    rsaKeyDer m n e parts false = k.der := by
  have hesize : k.e.size ≤ 4096 :=
    Nat.le_trans (Nat.size_le_size (Nat.le_of_lt k.exponent_lt)) hsize
  rw [rsaKeyDer, if_neg (by simp), R.derSequence_eq]
  simp only [List.map_cons, List.map_nil, hn.derInteger hsize, he.derInteger hesize]
  simp [Rsa.PublicKey.der, Der.integers]

/-- The parts of a private key, as vectors. -/
structure RawPrivateKey (m : Memory) (n e d p q dp dq qi : Sexp) (k : Rsa.PrivateKey) : Prop where
  n : RawInteger m n k.n
  e : RawInteger m e k.e
  d : RawInteger m d k.d
  p : RawInteger m p k.p
  q : RawInteger m q k.q
  dp : RawInteger m dp k.dp
  dq : RawInteger m dq k.dq
  qi : RawInteger m qi k.qi

/-- or of the private key. -/
theorem rsaKeyDer_private {m : Memory} {n e d p q dp dq qi : Sexp} {k : Rsa.PrivateKey}
    (h : RawPrivateKey m n e d p q dp dq qi k) (hsize : k.n.size ≤ 4096) :
    rsaKeyDer m n e (privateParts d p q dp dq qi) true = k.der := by
  have hle : ∀ v : Nat, v ≤ k.n → v.size ≤ 4096 :=
    fun v hv => Nat.le_trans (Nat.size_le_size hv) hsize
  have hzero : R.derInteger [0] = Der.integer 0 := by decide
  rw [rsaKeyDer, if_pos rfl, R.derSequence_eq]
  simp only [privateParts, List.map_cons, List.map_nil, hzero, h.n.derInteger hsize,
    h.e.derInteger (hle _ (Nat.le_of_lt k.exponent_lt)), h.d.derInteger (hle _ (Nat.le_of_lt k.consistent.d_lt)),
    h.p.derInteger (hle _ k.consistent.p_le), h.q.derInteger (hle _ k.consistent.q_le),
    h.dp.derInteger (hle _ (Nat.le_trans (Nat.le_of_lt k.consistent.dp_lt) k.consistent.p_le)),
    h.dq.derInteger (hle _ (Nat.le_trans (Nat.le_of_lt k.consistent.dq_lt) k.consistent.q_le)),
    h.qi.derInteger (hle _ (Nat.le_trans (Nat.le_of_lt k.consistent.qi_lt) k.consistent.p_le))]
  simp [Rsa.PrivateKey.der, Der.integers]

/-- A raw vector is there. -/
theorem isNull_of_isRaw {x : Sexp} (h : x.isRaw = true) : x.isNull = false := by
  cases x with
  | raw ptr len attrs => rfl
  | _ => exact absurd h (by simp [Sexp.isRaw])

/-- Without the private integers a public key is meant, -/
theorem checkRsaParts_public {m : Memory} {n e : Sexp} {a b : Nat} (hn : RawInteger m n a)
    (he : RawInteger m e b) :
    checkRsaParts n e (privateParts .null .null .null .null .null .null) = .ok false := by
  simp only [checkRsaParts, checkRaw_ok hn.isRaw, checkRaw_ok he.isRaw, bind, Except.bind]
  rfl

/-- Checks that all pass. -/
theorem forM_ok {ι : Type} {l : List ι} {f : ι → Except Condition Unit} (h : ∀ i ∈ l, f i = .ok ()) :
    l.forM f = .ok () := by
  induction l with
  | nil => rfl
  | cons i l ih =>
    have hi := h i List.mem_cons_self
    have hl := ih fun j hj => h j (List.mem_cons_of_mem _ hj)
    show (f i >>= fun _ => l.forM f) = _
    rw [hi]
    exact hl

/-- and with all of them a private one. -/
theorem checkRsaParts_private {m : Memory} {n e d p q dp dq qi : Sexp} {k : Rsa.PrivateKey}
    (h : RawPrivateKey m n e d p q dp dq qi k) :
    checkRsaParts n e (privateParts d p q dp dq qi) = .ok true := by
  have hgiven : (privateParts d p q dp dq qi).filter (fun part => part.2.isNull = false) =
      privateParts d p q dp dq qi := by
    simp [privateParts, List.filter, isNull_of_isRaw h.d.isRaw, isNull_of_isRaw h.p.isRaw,
      isNull_of_isRaw h.q.isRaw, isNull_of_isRaw h.dp.isRaw, isNull_of_isRaw h.dq.isRaw,
      isNull_of_isRaw h.qi.isRaw]
  have hall : (privateParts d p q dp dq qi).forM
      (fun part => checkRaw part.2 part.1 (some "rsa")) = (.ok () : Except Condition Unit) := by
    refine forM_ok fun part hpart => checkRaw_ok ?_ _ _
    simp only [privateParts, List.mem_cons, List.not_mem_nil, or_false] at hpart
    rcases hpart with rfl | rfl | rfl | rfl | rfl | rfl
    · exact h.d.isRaw
    · exact h.p.isRaw
    · exact h.q.isRaw
    · exact h.dp.isRaw
    · exact h.dq.isRaw
    · exact h.qi.isRaw
  simp only [checkRsaParts, checkRaw_ok h.n.isRaw, checkRaw_ok h.e.isRaw, bind, Except.bind]
  rw [hgiven, if_neg (by simp), hall]
  exact congrArg Except.ok (decide_eq_true rfl)

/-- `crypt_rsa_key`, once its arguments have been found to be the parts of a key. -/
theorem meets_cryptRsaKey {L : StoreLaw O StoredKey} (hL : L.Implies T.law)
    (hV : L.Implies (vectorLaw [])) (hT : RsaTheory T) {key : RefKey} {all : Bool}
    {n e d p q dp dq qi : Sexp} (st : RState) (hready : 0 < w.refcount)
    (hparts : checkRsaParts n e (privateParts d p q dp dq qi) = .ok all)
    (hder : rsaKeyDer w.mem n e (privateParts d p q dp dq qi) all = key.material)
    (hkey : T.Genuine key) (hrsa : key.type.isRsa = true) (hkind : key.type.isKeyPair = all)
    {ns : List Nat} (hform : key.material = Der.integers ns)
    (hshort : key.material.length < 256 ^ 2) :
    Meets L w S (cryptRsaKey n e d p q dp dq qi st) fun r _ _ =>
      AcceptsObject T key r ↔ key.Fits := by
  unfold cryptRsaKey
  rw [hparts, RFun.check_ok_bind, RFun.native_bind]
  refine Meets.bind (Meets.of_done rfl ?_)
  rw [RFun.native_bind, hder]
  have hvector : key.material.length ≤ R.VECTOR_MAX :=
    Nat.le_trans (Nat.le_of_lt hshort) (show 256 ^ 2 ≤ R.VECTOR_MAX by decide)
  refine Meets.bind (meets_newRaw hV hvector fun p hp _ => ?_)
  subst hkind
  have hpem : looksLikePem key.material = false := by
    rw [hform]
    exact looksLikePem_element _
  have hne : key.material ≠ [] := by
    rw [hform]
    exact List.cons_ne_nil _ _
  refine meets_parseKey_rsa hL hT st hready hp.1 ?_ hpem hne hkey hrsa
  exact read_write_self w.mem p key.material

/-! ### What is accepted -/

theorem meets_import_accepts {L : StoreLaw O StoredKey} (hL : L.Implies T.law) (hready : 0 < w.refcount) {privateKey : Bool} {data len : Nat} {key : RefKey} (hdata : data ≠ NULL)
    (hlen : len ≠ 0) (hread : T.read (importType .rsa privateKey) (read w.mem data len) = some key) :
    Meets L w S (zucPkeyImport .rsa privateKey data len true) fun r _ _ =>
      Accepts T key r ↔ key.Fits := by
  have htype : key.type = if privateKey then .rsaKeyPair else .rsaPublicKey := by
    rw [T.read_type hread]
    cases privateKey <;> rfl
  have hrsa : key.type.isRsa = true := by
    rw [htype]
    cases privateKey <;> rfl
  have hkind : key.type.isKeyPair = privateKey := by
    rw [htype]
    cases privateKey <;> rfl
  refine (meets_zucPkeyImport_rsa hL hready hdata hlen hread).mono fun r _ _ hr => ?_
  have hr := hr.of_rsa hrsa
  rw [half_eq_self hkind] at hr
  exact hr.accepts_iff

/-- `crypt_rsa_key` from a public key's integers. -/
theorem meets_cryptRsaKey_public {L : StoreLaw O StoredKey} (hL : L.Implies T.law)
    (hV : L.Implies (vectorLaw [])) (hT : RsaTheory T) (hready : 0 < w.refcount) {n e : Sexp}
    {k : Rsa.PublicKey} (hn : RawInteger w.mem n k.n) (he : RawInteger w.mem e k.e)
    (hread : T.Genuine (rsaPublicRef k)) (st : RState) :
    Meets L w S (cryptRsaKey n e .null .null .null .null .null .null st) fun r _ _ =>
      AcceptsObject T (rsaPublicRef k) r ↔ (rsaPublicRef k).Fits := by
  obtain ⟨k', hk', hsame⟩ := hT.of_public hread
  have hsize : k.n.size ≤ 4096 := by
    rw [show k.n.size = k'.n.size from congrArg RefKey.bits hsame]
    exact hk'
  exact meets_cryptRsaKey hL hV hT st hready (checkRsaParts_public hn he)
    (rsaKeyDer_public hn he hsize _) hread rfl rfl rfl (k.length_der_lt hsize)

/-- And from a private key's. -/
theorem meets_cryptRsaKey_private {L : StoreLaw O StoredKey} (hL : L.Implies T.law)
    (hV : L.Implies (vectorLaw [])) (hT : RsaTheory T) (hready : 0 < w.refcount)
    {n e d p q dp dq qi : Sexp} {k : Rsa.PrivateKey} (h : RawPrivateKey w.mem n e d p q dp dq qi k)
    (hread : T.Genuine (rsaPrivateRef k)) (st : RState) :
    Meets L w S (cryptRsaKey n e d p q dp dq qi st) fun r _ _ =>
      AcceptsObject T (rsaPrivateRef k) r ↔ (rsaPrivateRef k).Fits := by
  obtain ⟨k', hk', hsame⟩ := hT.of_private hread
  have hsize : k.n.size ≤ 4096 := by
    rw [show k.n.size = k'.n.size from congrArg RefKey.bits hsame]
    exact hk'
  exact meets_cryptRsaKey hL hV hT st hready (checkRsaParts_private h) (rsaKeyDer_private h hsize)
    hread rfl rfl rfl (k.length_der_lt hsize)

end

/-! ### Keys on either side -/

/-- A caller's memory that holds these bytes. -/
def loadedWorld (bs : List Byte) : World := readyWorld.store 0x1000 bs

/-- The encoding is where the call is told. -/
theorem read_loadedWorld (bs : List Byte) : read (loadedWorld bs).mem 0x1000 bs.length = bs :=
  read_write_self readyWorld.mem 0x1000 bs

theorem loadedWorld_ready (bs : List Byte) : 0 < (loadedWorld bs).refcount := by
  rw [loadedWorld, World.store_refcount]
  decide

theorem size_wideKey : Rsa.wideKey.n.size ≤ 4096 :=
  Nat.le_trans (Nat.le_of_eq Rsa.bits_wideKey) (by decide)

end Zucrypt
