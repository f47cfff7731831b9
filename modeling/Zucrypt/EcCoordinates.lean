import Zucrypt.CryptEcKey
import Zucrypt.EcdsaParse
import Zucrypt.KeyIntegers

/-! # EC keys from coordinates

`crypt_ec_key` makes a key of integers, in whatever width they are given: what it makes is a
function of the integers alone (`ecKeyOutcome`), and it makes one exactly of a point on the curve,
with the scalar that the point belongs to (`MakesKey`).  The coordinates `as.list` gives of an EC
key make the same key again.

An argument is a `RawNumber`, a raw vector that stands for a number; zeros in front of it are no
part of it.  `fixed_width` strips them and pads to the width of the curve, so a number that fits
comes out the same in whichever width it came in, and one that does not is refused
(`rmeets_fixedWidth`).  What the curves know is asked for as `EcTheory`: which points there are, and
the point a scalar belongs to. -/
namespace Zucrypt
open Effects ByteMemory

variable {O : Objects}

/-! ### Fixed width -/

/-- However many of its bytes are counted, a vector keeps those behind its first zeros. -/
theorem length_nonzeroFrom {seen : Nat} (hseen : seen ≤ R.INTEGER_MAX) (x : List Byte) :
    (R.nonzeroFrom seen x).length = if 0 < seen then x.length else (x.dropWhile (· = 0)).length := by
  induction x generalizing seen with
  | nil => simp [R.nonzeroFrom]
  | cons b bs ih =>
    by_cases hb : b = 0
    · subst hb
      have hcount : ¬ R.INTEGER_MAX < seen := Nat.not_lt.mpr hseen
      simp only [R.nonzeroFrom, ne_eq, not_true_eq_false, if_false, if_neg hcount]
      by_cases hpos : 0 < seen
      · rw [if_pos hpos, if_pos hpos, List.length_cons, ih hseen, if_pos hpos, List.length_cons]
      · rw [if_neg hpos, if_neg hpos, ih hseen, if_neg hpos,
          List.dropWhile_cons_of_pos (by simp)]
    · have hrest : (if 0 < seen then (b :: bs).length else ((b :: bs).dropWhile (· = 0)).length) =
          bs.length + 1 := by
        rw [List.dropWhile_cons_of_neg (by simpa using hb), List.length_cons, ite_self]
      rw [hrest]
      rcases Nat.lt_or_ge seen R.INTEGER_MAX with hlt | hge
      · rw [R.nonzeroFrom_cons hb hlt, List.length_cons, ih hlt, if_pos (Nat.succ_pos seen)]
      · rw [R.nonzeroFrom_overflow hb hge, List.length_replicate]

theorem length_stripZeros (x : List Byte) :
    (R.stripZeros x).length = (Der.octets (Der.value x)).length := by
  rw [R.stripZeros, length_nonzeroFrom (Nat.zero_le _), if_neg (by decide), Der.octets_value]

/-- A number is padded to the width, or refused if it does not fit. -/
theorem padTo_eq {n : Nat} (hn : n ≤ R.INTEGER_MAX) (arg type : String) (bytes : List Byte) :
    padTo n arg type bytes = if 256 ^ n ≤ Der.value bytes then .error (tooWide n arg type)
      else .ok (Der.fixed n (Der.value bytes)) := by
  unfold padTo
  simp only [length_stripZeros]
  by_cases hfits : Der.value bytes < 256 ^ n
  · have hlen : (Der.octets (Der.value bytes)).length ≤ n := Der.length_octets_le.mpr hfits
    have hcount : R.nonzeros bytes ≤ R.INTEGER_MAX :=
      Nat.le_trans (nonzeros_le_octets bytes) (Nat.le_trans hlen hn)
    rw [if_neg (Nat.not_lt.mpr hlen), if_neg (Nat.not_le.mpr hfits), R.stripZeros_eq_octets hcount]
    rfl
  · have hlen : n < (Der.octets (Der.value bytes)).length :=
      Nat.lt_of_not_le fun hle => hfits (Der.length_octets_le.mp hle)
    rw [if_pos hlen, if_pos (Nat.not_lt.mp hfits)]

/-- A raw vector without attributes that stands for a number, in as many bytes as it likes. -/
def RawNumber (live : List (Nat × Nat)) (m : Memory) (x : Sexp) (v : Nat) : Prop :=
  x.attributes = [] ∧ ∃ bs, HoldsVector live m x bs ∧ Der.value bs = v

theorem RawNumber.isNull {live : List (Nat × Nat)} {m : Memory} {x : Sexp} {v : Nat}
    (h : RawNumber live m x v) : x.isNull = false := by
  obtain ⟨-, bs, hx, -⟩ := h
  cases x with
  | null => exact absurd hx.isRaw (by simp [Sexp.isRaw])
  | _ => rfl

section
variable {L : StoreLaw O StoredKey} {live : List (Nat × Nat)} {w : World}
  {S : KeyStore StoredKey} {β : Type} {x : Sexp} {v n : Nat} {arg type : String} {st : RState}

/-- `fixed_width`, and then the rest. -/
theorem rmeets_fixedWidth {f : List Byte → RFun O β}
    {Q : Except Condition β × RState → World → KeyStore StoredKey → List (Nat × Nat) → Prop}
    (hx : RawNumber live w.mem x v) (hn : n ≤ R.INTEGER_MAX)
    (hwide : 256 ^ n ≤ v → Q (.error (tooWide n arg type), st) w S live)
    (hfits : v < 256 ^ n → RMeets L live w S (f (Der.fixed n v) st) Q) :
    RMeets L live w S ((fixedWidth x n arg type >>= f) st) Q := by
  obtain ⟨-, bs, hbytes, rfl⟩ := hx
  have hcheck : checkRaw x arg (some type) = .ok () := by
    rw [checkRaw, if_neg (by simp [hbytes.isRaw])]
  have hdone : fixedWidth (O := O) x n arg type st w = .done ((padTo n arg type bs, st), w) := by
    unfold fixedWidth
    rw [hcheck, RFun.check_ok_bind]
    show Program.done ((padTo n arg type (x.bytes w.mem), st), w) = _
    rw [hbytes.bytes]
  rw [padTo_eq hn] at hdone
  by_cases hlarge : 256 ^ n ≤ Der.value bs
  · rw [if_pos hlarge] at hdone
    exact RMeets.done_error hdone (hwide hlarge)
  · rw [if_neg hlarge] at hdone
    exact RMeets.done_ok hdone (hfits (Nat.lt_of_not_le hlarge))

end

/-! ### Import and export -/

section
variable {T : KeyTheory O} {L : StoreLaw O StoredKey} {live : List (Nat × Nat)} {w : World}
  {S : KeyStore StoredKey} {c : NistCurve} {β : Type} {st : RState}

/-- What `zuc_pkey_import` asks the backend to read. -/
def ecImportType (privateKey : Bool) : PsaKeyType :=
  if privateKey then .eccKeyPair .secpR1 else .eccPublicKey .secpR1

/-- A handle on the key the backend reads, or a refusal. -/
def Imports (T : KeyTheory O) (found : Option RefKey) (privateKey : Bool)
    (r : ZucStatus × Option ZucPkey) : Prop :=
  match found with
  | some key => HandsHalf T key privateKey r
  | none => r = (.errInvalidArgument, none) ∨ r = (.errMemory, none)

theorem meets_pkeyImportImpl_ec (hL : L.Implies T.law) {privateKey : Bool} {data len : Nat}
    {found : Option RefKey} (hready : 0 < w.refcount) (hdata : data ≠ NULL) (hlen : len ≠ 0)
    (hread : T.read (ecImportType privateKey) (read w.mem data len) = found)
    (hbits : ∀ key ∈ found, key.bits = c.bits) :
    Meets L w S (pkeyImportImpl c.alg privateKey data len true) fun r w' _ =>
      SameButCount w w' ∧ Imports T found privateKey r := by
  refine Meets.neg (by simp) (Meets.bind (Meets.ready ?_))
  refine Meets.neg (by simp [hready]) (Meets.neg (by simp [hdata, hlen]) ?_)
  refine Meets.bind (Meets.readMem ?_)
  simp only [pkeyImportBytes, if_neg c.alg_ne_rsa, NistCurve.ecPairType_alg]
  refine Meets.neg (by simp [c.alg_available]) ?_
  have htype : (if privateKey = true then PsaKeyType.eccKeyPair .secpR1
      else (PsaKeyType.eccKeyPair .secpR1).publicKey) = ecImportType privateKey := by
    cases privateKey <;> rfl
  rw [htype]
  refine Meets.bind (Meets.create (fun _ => rfl) (fun r m hr hm => ?_) fun r hr helse => ?_)
  · obtain ⟨hread', -, husage⟩ := hL.makes _ _ hm
    obtain rfl : some m.key = found := hread'.symm.trans hread
    have hkey : T.Genuine m.key := by
      rw [KeyTheory.Genuine, T.read_type hread']
      exact T.read_material hread'
    refine Meets.neg (not_not.mpr hr) ?_
    refine meets_fromPsa hL (Function.update_self _ _ _) hkey (by simp [husage]) privateKey ?_
    exact fun r' w' S' hw hr' => Meets.pure ⟨hw, hr'⟩
  · -- the import failed, so there was nothing to import
    refine Meets.pos hr (Meets.pure ⟨.refl w, ?_⟩)
    cases found with
    | some key => exact absurd (hbits key rfl).symm (hL.elsewhere _ helse key hread).2
    | none =>
      by_cases hmemory : r.answer.1 = .errorInsufficientMemory
      · exact .inr (by rw [if_pos hmemory])
      · exact .inl (by rw [if_neg hmemory])

theorem meets_zucPkeyImport_ec (hL : L.Implies T.law) {privateKey : Bool} {data len : Nat}
    {found : Option RefKey} (hready : 0 < w.refcount) (hdata : data ≠ NULL) (hlen : len ≠ 0)
    (hread : T.read (ecImportType privateKey) (read w.mem data len) = found)
    (hbits : ∀ key ∈ found, key.bits = c.bits) :
    Meets L w S (zucPkeyImport c.alg privateKey data len true) fun r w' _ =>
      w'.mem = w.mem ∧ w'.refcount = w.refcount ∧ Imports T found privateKey r := by
  refine Meets.watched fun w₀ hmem hcount hcalm => ?_
  refine (meets_pkeyImportImpl_ec hL (hcount ▸ hready) hdata hlen (hmem ▸ hread) hbits).mono ?_
  rintro r w' S' ⟨hw, hr⟩
  exact ⟨hw.allocFailed.trans hcalm, hw.mem.trans hmem, hw.refcount.trans hcount, hr⟩

/-- An EC key of this kind, on this curve, that fits the buffer it is exported into. -/
structure EcRef (c : NistCurve) (privateKey : Bool) (key : RefKey) : Prop where
  type : key.type = ecImportType privateKey
  bits : key.bits = c.bits
  fits : key.Fits

theorem EcRef.alg {privateKey : Bool} {key : RefKey} (h : EcRef c privateKey key) :
    algOfPsa key.type key.bits = c.alg := by
  rw [h.type, h.bits]
  cases privateKey <;> cases c <;> rfl

theorem EcRef.half {privateKey : Bool} {key : RefKey} (h : EcRef c privateKey key) :
    T.half key privateKey = key := by
  cases privateKey with
  | true =>
    have hpair : key.type.isKeyPair = true := by rw [h.type]; rfl
    rw [KeyTheory.half, hpair, Bool.and_self, if_pos rfl]
  | false =>
    have hpublic : key.type.isKeyPair = false := by rw [h.type]; rfl
    rw [half_false, T.publicHalf_public hpublic]

/-- So the key itself is what the handle is on. -/
theorem Imports.holds {privateKey : Bool} {key : RefKey} {r : ZucStatus × Option ZucPkey}
    (h : Imports T (some key) privateKey r) (hkey : EcRef c privateKey key) :
    ∃ handle, r = (.ok, some handle) ∧ Holds T handle key := by
  have hknown : algOfPsa key.type key.bits ≠ .none := by
    rw [hkey.alg]
    cases c <;> decide
  have h : HandsHalf T key privateKey r := h
  rw [HandsHalf, if_neg hknown, hkey.half, HandsKey, if_pos hkey.fits] at h
  obtain ⟨handle, rfl, hloads⟩ := h
  exact ⟨handle, rfl, hloads, hkey.fits⟩

theorem RawNumber.store {x : Sexp} {v p : Nat} {bs : List Byte} (h : RawNumber live w.mem x v)
    (hapart : ∀ u ∈ live, Apart p bs.length u.1 u.2) :
    RawNumber ((p, bs.length) :: live) (w.store p bs).mem x v := by
  obtain ⟨hattrs, bytes, hx, hv⟩ := h
  exact ⟨hattrs, bytes, hx.store hapart, hv⟩

theorem RawNumber.of_mem_eq {live' : List (Nat × Nat)} {m m' : Memory} {x : Sexp} {v : Nat}
    (h : RawNumber live m x v) (hmem : m' = m) (hlive : ∀ u ∈ live, u ∈ live') :
    RawNumber live' m' x v := by
  obtain ⟨hattrs, bytes, hx, hv⟩ := h
  exact ⟨hattrs, bytes, hx.of_mem_eq hmem hlive, hv⟩

/-- A new vector of key material goes through `import_key`. -/
theorem rmeets_importKey (hL : L.Implies T.law) {privateKey : Bool} {bs : List Byte}
    {found : Option RefKey} {f : KeyObject → RFun O β}
    {Q : Except Condition β × RState → World → KeyStore StoredKey → List (Nat × Nat) → Prop}
    (hready : 0 < w.refcount) (hne : bs ≠ []) (hlen : bs.length ≤ R.VECTOR_MAX)
    (hread : T.read (ecImportType privateKey) bs = found) (hfound : ∀ key ∈ found, EcRef c privateKey key)
    (hnone : found = none → ∀ w' S' live' cond, cond = importCondition c.type .errInvalidArgument ∨
      cond = importCondition c.type .errMemory → Q (.error cond, st) w' S' live')
    (hsome : ∀ key ∈ found, ∀ handle w' S' live', Holds T handle key → 0 < w'.refcount →
      (∀ x v, RawNumber live w.mem x v → RawNumber live' w'.mem x v) →
      RMeets L live' w' S' (f (objectOf handle) st) Q) :
    RMeets L live w S ((RFun.native (newRaw bs) >>= importKey c.type privateKey >>= f) st) Q := by
  rw [RFun.bind_assoc, RFun.native_bind]
  refine RMeets.bind (RMeets.newRaw hlen fun p hp hapart => ?_)
  unfold importKey zucryptPkeyImport
  rw [RFun.bind_assoc, RFun.native_bind, c.zucAlgByName_type]
  have hzero : bs.length ≠ 0 := fun h => hne (List.length_eq_zero_iff.mp h)
  have himport : Meets L (w.store p bs) S (zucPkeyImport c.alg privateKey p bs.length true) fun r w' _ =>
      w'.mem = (w.store p bs).mem ∧ w'.refcount = (w.store p bs).refcount ∧ Imports T found privateKey r :=
    meets_zucPkeyImport_ec hL hready hp.1 hzero ((congrArg _ (read_write_self _ p bs)).trans hread)
      fun key hkey => (hfound key hkey).bits
  refine RMeets.bind (RMeets.of_meets himport ?_)
  rintro r w' S' live' ⟨hmem, hcount, himports⟩ hlive
  -- no key in these bytes, or the one that they are
  cases found with
  | none =>
    rcases himports with rfl | rfl
    · exact RMeets.pure (hnone rfl _ _ _ _ (.inl rfl))
    · exact RMeets.pure (hnone rfl _ _ _ _ (.inr rfl))
  | some key =>
    obtain ⟨handle, rfl, hholds⟩ := himports.holds (hfound key rfl)
    refine hsome key rfl handle w' S' live' hholds (hcount ▸ hready) fun x v hx => ?_
    exact (hx.store hapart).of_mem_eq hmem hlive

/-- `zuc_pkey_export` of the public half, into a buffer that is large enough. -/
theorem meets_zucPkeyExport_filled (hL : L.Implies T.law) {handle : ZucPkey} {key : RefKey}
    (h : Holds T handle key) (hready : 0 < w.refcount) (hfits : (T.publicHalf key).Fits)
    (hsize : (T.publicHalf key).material.length ≤ ZUC_PKEY_MAX_WRITE_SIZE) {buf : Nat}
    (hbuf : buf ≠ NULL) :
    Meets L w S (zucPkeyExport (some handle) true buf ZUC_PKEY_MAX_WRITE_SIZE (some 0)) fun r w' _ =>
      (r, w'.mem) = ((.ok, some (T.publicHalf key).material.length),
        write w.mem buf (T.publicHalf key).material) := by
  refine (meets_zucPkeyExport hL h hready buf _ _).mono fun r w' S' hr => ?_
  rw [hr, exportOutcome, if_neg (by simp [hbuf, SizeCell.store]), RefKey.exported, if_pos hfits]
  simp only [if_neg (Nat.not_lt.mpr hsize)]
  rfl

/-- And of a private key, which is copied as it is. -/
theorem meets_zucPkeyExport_private {handle : ZucPkey} {key : RefKey}
    (h : Holds T handle key) (hready : 0 < w.refcount) (hkind : handle.isPrivate = true)
    (hsize : key.material.length ≤ ZUC_PKEY_MAX_WRITE_SIZE) {buf : Nat} (hbuf : buf ≠ NULL) :
    Meets L w S (zucPkeyExport (some handle) false buf ZUC_PKEY_MAX_WRITE_SIZE (some 0)) fun r w' _ =>
      (r, w'.mem) = ((.ok, some key.material.length), write w.mem buf key.material) := by
  refine meets_watched_endsIn hready fun w₀ hmem hready => ?_
  rw [← hmem]
  refine Meets.bind (Meets.ready (Meets.neg (by simp [hready]) ?_))
  refine Meets.neg (by simp [hbuf, SizeCell.store]) (Meets.pos ⟨hkind, rfl⟩ ?_)
  refine Meets.neg (by rw [h.length]; exact Nat.not_lt.mpr hsize) ?_
  refine Meets.bind (Meets.writeMem (Meets.pure ⟨?_, rfl⟩))
  rw [h.length, h.material]
  rfl

/-- `export_key` gives a vector of these bytes. -/
theorem rmeets_exportKey {handle : ZucPkey} {publicOnly : Bool} {bs : List Byte}
    (hsize : bs.length ≤ ZUC_PKEY_MAX_WRITE_SIZE)
    (hfill : ∀ buf, buf ≠ NULL →
      Meets L w S (zucPkeyExport (some handle) publicOnly buf ZUC_PKEY_MAX_WRITE_SIZE (some 0))
        fun r w' _ => (r, w'.mem) = ((.ok, some bs.length), write w.mem buf bs)) :
    RMeets L live w S ((exportKey (objectOf handle) publicOnly >>= vectorBytes) st)
      fun r w' _ live' => r = (.ok bs, st) ∧ w'.refcount = w.refcount ∧ ∀ v ∈ live, v ∈ live' := by
  unfold exportKey
  rw [RFun.bind_assoc, RFun.native_bind]
  refine RMeets.bind ((rmeets_filled (fun buf => ordinary_pkeyExportImpl _ _ buf _ _) hsize
    hfill).mono ?_)
  rintro r w' S' live' ⟨hcount, hlive, hgives⟩
  unfold GivesVector at hgives
  rw [if_pos rfl] at hgives
  obtain ⟨v, rfl, hv⟩ := hgives
  have hvalue : valueOr ⟨.ok, v⟩ none = .ok v := rfl
  rw [hvalue, RFun.check_ok_bind]
  unfold vectorBytes
  rw [RFun.native_bind]
  refine RMeets.bind (RMeets.of_done rfl (RMeets.pure ⟨?_, hcount, hlive⟩))
  rw [hv.bytes]

end

/-! ### Points and scalars -/

section
variable {c c' : NistCurve}

theorem length_point {x y : Nat} (hx : x < 256 ^ c.bytes) (hy : y < 256 ^ c.bytes) :
    (c.point x y).length = 2 * c.bytes + 1 := by
  rw [NistCurve.point, List.length_cons, List.length_append, Der.length_fixed hx, Der.length_fixed hy]
  omega

theorem NistCurve.eq_of_bytes (h : c.bytes = c'.bytes) : c = c' := by
  cases c <;> cases c' <;> first | rfl | exact absurd h (by decide)

theorem fixed_inj {n a b : Nat} (h : Der.fixed n a = Der.fixed n b) : a = b := by
  rw [← Der.value_fixed n a, h, Der.value_fixed]

theorem le_length_fixed (n a : Nat) : n ≤ (Der.fixed n a).length := by
  simp only [Der.fixed, List.length_append, List.length_replicate]
  omega

/-- A point is told by its bytes, and so is its curve. -/
theorem point_inj {x y x' y' : Nat} (hx : x < 256 ^ c.bytes) (hy : y < 256 ^ c.bytes)
    (hx' : x' < 256 ^ c'.bytes) (hy' : y' < 256 ^ c'.bytes) (h : c.point x y = c'.point x' y') :
    c = c' ∧ x = x' ∧ y = y' := by
  have hlen := congrArg List.length h
  rw [length_point hx hy, length_point hx' hy'] at hlen
  have hbytes : c.bytes = c'.bytes := by omega
  obtain rfl := NistCurve.eq_of_bytes hbytes
  have hbody : Der.fixed c.bytes x ++ Der.fixed c.bytes y =
      Der.fixed c.bytes x' ++ Der.fixed c.bytes y' := (List.cons.inj h).2
  obtain ⟨hfst, hsnd⟩ := List.append_inj hbody
    ((Der.length_fixed hx).trans (Der.length_fixed hx').symm)
  exact ⟨rfl, fixed_inj hfst, fixed_inj hsnd⟩

theorem Contains.lt {x y : Nat} (h : c.params.Contains x y) : x < 256 ^ c.bytes ∧ y < 256 ^ c.bytes :=
  ⟨Nat.lt_trans h.1 c.prime_lt, Nat.lt_trans h.2.1 c.prime_lt⟩

theorem InRange.lt {d : Nat} (h : c.params.InRange d) : d < 256 ^ c.bytes :=
  Nat.lt_trans h.2 c.order_lt

theorem ecRef_public {x y : Nat} (h : c.params.Contains x y) : EcRef c false (ecPublicRef c x y) := by
  obtain ⟨hx, hy⟩ := Contains.lt h
  refine ⟨rfl, rfl, ?_⟩
  show (c.point x y).length ≤ 2 * psaBitsToBytes c.bits + 1
  rw [length_point hx hy, c.bytes_eq]

theorem ecRef_private {d : Nat} (h : c.params.InRange d) : EcRef c true (ecPrivateRef c d) := by
  refine ⟨rfl, rfl, ?_⟩
  show (Der.fixed c.bytes d).length ≤ psaBitsToBytes c.bits
  rw [Der.length_fixed (InRange.lt h), c.bytes_eq]

variable {T : KeyTheory O} {publicPoint : NistCurve → Nat → Nat × Nat}

/-- The import takes a point exactly if it is on the curve. -/
theorem EcTheory.read_point (hT : EcTheory T publicPoint) {x y : Nat} (hx : x < 256 ^ c.bytes)
    (hy : y < 256 ^ c.bytes) :
    T.read (ecImportType false) (c.point x y) =
      if c.params.Contains x y then some (ecPublicRef c x y) else none := by
  split
  · rename_i hon
    exact hT.public_iff.mpr ⟨c, x, y, hon, rfl, rfl⟩
  · rename_i hoff
    refine Option.eq_none_iff_forall_ne_some.mpr fun key hkey => hoff ?_
    obtain ⟨c', x', y', hon, hdata, -⟩ := hT.public_iff.mp hkey
    obtain ⟨hx', hy'⟩ := Contains.lt hon
    obtain ⟨rfl, rfl, rfl⟩ := point_inj hx hy hx' hy' hdata
    exact hon

/-- And a scalar exactly if it is in range. -/
theorem EcTheory.read_scalar (hT : EcTheory T publicPoint) {d : Nat} (hd : d < 256 ^ c.bytes) :
    T.read (ecImportType true) (Der.fixed c.bytes d) =
      if c.params.InRange d then some (ecPrivateRef c d) else none := by
  split
  · rename_i hin
    exact hT.private_iff.mpr ⟨c, d, hin, rfl, rfl⟩
  · rename_i hout
    refine Option.eq_none_iff_forall_ne_some.mpr fun key hkey => hout ?_
    obtain ⟨c', d', hin, hdata, -⟩ := hT.private_iff.mp hkey
    have hlen := congrArg List.length hdata
    rw [Der.length_fixed hd, Der.length_fixed (InRange.lt hin)] at hlen
    obtain rfl := NistCurve.eq_of_bytes hlen
    exact fixed_inj hdata ▸ hin

/-- The public point of a scalar in range is on the curve. -/
theorem EcTheory.contains_publicPoint (hT : EcTheory T publicPoint) {d : Nat} (h : c.params.InRange d) :
    c.params.Contains (publicPoint c d).1 (publicPoint c d).2 := by
  have hprivate : T.Genuine (ecPrivateRef c d) := hT.private_iff.mpr ⟨c, d, h, rfl, rfl⟩
  have hpublic := hprivate.publicHalf
  rw [hT.publicHalf h] at hpublic
  obtain ⟨c', x, y, hon, hpoint, hkey⟩ := hT.public_iff.mp hpublic
  obtain rfl : c = c' := by
    have hbits : c.bits = c'.bits := congrArg RefKey.bits hkey
    cases c <;> cases c' <;> first | rfl | exact absurd hbits (by decide)
  obtain ⟨hx, hy⟩ := Contains.lt hon
  have hbody : Der.fixed c.bytes (publicPoint c d).1 ++ Der.fixed c.bytes (publicPoint c d).2 =
      Der.fixed c.bytes x ++ Der.fixed c.bytes y := (List.cons.inj hpoint).2
  -- neither half is shorter than the width, so both are as long
  have hlen := congrArg List.length hbody
  rw [List.length_append, List.length_append, Der.length_fixed hx, Der.length_fixed hy] at hlen
  have hfst := le_length_fixed c.bytes (publicPoint c d).1
  have hsnd := le_length_fixed c.bytes (publicPoint c d).2
  obtain ⟨hX, hY⟩ := List.append_inj hbody (by rw [Der.length_fixed hx]; omega)
  rwa [fixed_inj hX, fixed_inj hY]

end

/-! ### `crypt_ec_key` -/

section
variable {T : KeyTheory O} {publicPoint : NistCurve → Nat → Nat × Nat} {L : StoreLaw O StoredKey}
  {live : List (Nat × Nat)} {w : World} {S : KeyStore StoredKey} {c : NistCurve} {st : RState}

/-- An object on this key, or this condition: where the condition is that the material is not
valid, it may also be that memory ran out. -/
def GivesKey (T : KeyTheory O) (c : NistCurve) (v : Except Condition RefKey)
    (r : Except Condition KeyObject × RState) : Prop :=
  match v with
  | .ok key => AcceptsObject T key r
  | .error cond =>
    r.1 = .error cond ∨
      cond = importCondition c.type .errInvalidArgument ∧ r.1 = .error (importCondition c.type .errMemory)

theorem width_le (c : NistCurve) : c.bytes ≤ R.INTEGER_MAX :=
  Nat.le_trans c.bytes_le (by decide)

theorem length_point_le {x y : Nat} (hx : x < 256 ^ c.bytes) (hy : y < 256 ^ c.bytes) :
    (c.point x y).length ≤ 133 := by
  have hwidth := c.bytes_le
  rw [length_point hx hy]
  omega

/-- With a scalar: the key pair, if it is one. -/
theorem rmeets_ecPrivate (hL : L.Implies T.law) (hT : EcTheory T publicPoint) {x y : Nat}
    (hon : c.params.Contains x y) (hready : 0 < w.refcount) {d : Sexp} {D : Nat}
    (hd : RawNumber live w.mem d D) :
    RMeets L live w S ((do
      let d ← fixedWidth d c.bytes "d" c.type
      let key ← RFun.native (newRaw d) >>= importKey c.type true
      let got ← exportKey key true >>= vectorBytes
      if got ≠ c.point x y then
        RFun.raise (notPublicPoint c.type)
      else
        return key : RFun O KeyObject) st) fun r _ _ _ =>
          GivesKey T c (ecKeyOutcome publicPoint c x y (some D)) r := by
  obtain ⟨hx, hy⟩ := Contains.lt hon
  have houtcome : ecKeyOutcome publicPoint c x y (some D) =
      if 256 ^ c.bytes ≤ D then .error (tooWide c.bytes "d" c.type)
      else if ¬ c.params.InRange D then .error (importCondition c.type .errInvalidArgument)
      else if publicPoint c D ≠ (x, y) then .error (notPublicPoint c.type)
      else .ok (ecPrivateRef c D) := by
    rw [ecKeyOutcome, if_neg (Nat.not_le.mpr hx), if_neg (Nat.not_le.mpr hy), if_neg (not_not.mpr hon)]
  rw [houtcome]
  -- a scalar that is too wide is refused; any other is imported
  refine rmeets_fixedWidth hd (width_le c) (fun hwide => ?_) fun hfits => ?_
  · rw [if_pos hwide]
    exact .inl rfl
  rw [if_neg (Nat.not_le.mpr hfits)]
  have hlen : (Der.fixed c.bytes D).length = c.bytes := Der.length_fixed hfits
  have hne : Der.fixed c.bytes D ≠ [] := by
    intro hnil
    have hpos := c.bytes_pos
    rw [hnil, List.length_nil] at hlen
    omega
  refine rmeets_importKey hL hready hne ?_ (hT.read_scalar hfits) (fun key hkey => ?_) ?_ ?_
  · rw [hlen]
    exact Nat.le_trans c.bytes_le (by decide)
  · obtain ⟨hin, hsome⟩ := Option.ite_none_right_eq_some.mp hkey
    obtain rfl := Option.some.inj hsome
    exact ecRef_private hin
  · intro hnone w' S' live' cond hcond
    have hout : ¬ c.params.InRange D := fun hin => by rw [if_pos hin] at hnone; cases hnone
    rw [if_pos hout]
    rcases hcond with rfl | rfl
    · exact .inl rfl
    · exact .inr ⟨rfl, rfl⟩
  · intro key hkey handle w' S' live' hholds hready' _
    obtain ⟨hin, hsome⟩ := Option.ite_none_right_eq_some.mp hkey
    obtain rfl := Option.some.inj hsome
    have hpublic := hT.contains_publicPoint hin
    obtain ⟨hX, hY⟩ := Contains.lt hpublic
    rw [if_neg (not_not.mpr hin)]
    have hhalf := hT.publicHalf hin
    have hfits : (T.publicHalf (ecPrivateRef c D)).Fits := hhalf ▸ (ecRef_public hpublic).fits
    have hsize : (T.publicHalf (ecPrivateRef c D)).material.length ≤ ZUC_PKEY_MAX_WRITE_SIZE := by
      rw [hhalf]
      exact Nat.le_trans (length_point_le hX hY) (by decide)
    refine RMeets.seq (rmeets_exportKey hsize fun buf hbuf =>
      meets_zucPkeyExport_filled hL hholds hready' hfits hsize hbuf) ?_
    rintro r w'' S'' live'' ⟨rfl, -, -⟩
    rw [hhalf]
    show RMeets L live'' w'' S'' ((if c.point (publicPoint c D).1 (publicPoint c D).2 ≠ c.point x y then
      RFun.raise (notPublicPoint c.type) else pure (objectOf handle) : RFun O KeyObject) st) _
    -- points of one curve are the same if their bytes are
    by_cases hsame : publicPoint c D = (x, y)
    · rw [if_neg (not_not.mpr hsame), hsame, if_neg (not_not.mpr rfl)]
      exact RMeets.pure ⟨_, handle, rfl, rfl, hholds.toLoads⟩
    · have hother : c.point (publicPoint c D).1 (publicPoint c D).2 ≠ c.point x y := by
        intro hpoint
        obtain ⟨-, hfst, hsnd⟩ := point_inj hX hY hx hy hpoint
        exact hsame (Prod.ext hfst hsnd)
      rw [if_pos hsame, if_pos hother]
      exact RMeets.pure (.inl rfl)

/-- What `d` stands for. -/
def RawScalar (live : List (Nat × Nat)) (m : Memory) (x : Sexp) : Option Nat → Prop
  | none => x = .null
  | some v => RawNumber live m x v

/-- `crypt_ec_key` makes what its integers say. -/
theorem rmeets_cryptEcKey (hL : L.Implies T.law) (hT : EcTheory T publicPoint) (hready : 0 < w.refcount)
    {x y d : Sexp} {X Y : Nat} {D : Option Nat} (hx : RawNumber live w.mem x X)
    (hy : RawNumber live w.mem y Y) (hd : RawScalar live w.mem d D) :
    RMeets L live w S (cryptEcKey (some c.name) x y d st) fun r _ _ _ =>
      GivesKey T c (ecKeyOutcome publicPoint c X Y D) r := by
  unfold cryptEcKey
  rw [c.curveType_name, RFun.check_ok_bind]
  simp only [c.zucAlgByName_type, c.curveBytes_alg, Option.getD_some]
  refine rmeets_fixedWidth hx (width_le c) (fun hwide => ?_) fun hX => ?_
  · unfold ecKeyOutcome
    rw [if_pos hwide]
    exact .inl rfl
  refine rmeets_fixedWidth hy (width_le c) (fun hwide => ?_) fun hY => ?_
  · unfold ecKeyOutcome
    rw [if_neg (Nat.not_le.mpr hX), if_pos hwide]
    exact .inl rfl
  have houtcome : ¬ c.params.Contains X Y → ecKeyOutcome publicPoint c X Y D =
      .error (importCondition c.type .errInvalidArgument) := fun hoff => by
    unfold ecKeyOutcome
    rw [if_neg (Nat.not_le.mpr hX), if_neg (Nat.not_le.mpr hY), if_pos hoff]
  -- what is imported first is the uncompressed point, with `d` or without
  have hpoint : (0x04 :: (Der.fixed c.bytes X ++ Der.fixed c.bytes Y) : List Byte) = c.point X Y := rfl
  simp only [hpoint]
  refine rmeets_importKey hL hready (List.cons_ne_nil _ _)
    (Nat.le_trans (length_point_le hX hY) (by decide)) (hT.read_point hX hY) (fun key hkey => ?_) ?_ ?_
  · obtain ⟨hon, hsome⟩ := Option.ite_none_right_eq_some.mp hkey
    obtain rfl := Option.some.inj hsome
    exact ecRef_public hon
  · intro hnone w' S' live' cond hcond
    have hoff : ¬ c.params.Contains X Y := fun hon => by rw [if_pos hon] at hnone; cases hnone
    rw [houtcome hoff]
    rcases hcond with rfl | rfl
    · exact .inl rfl
    · exact .inr ⟨rfl, rfl⟩
  · intro key hkey handle w' S' live' hholds hready' hnumbers
    obtain ⟨hon, hsome⟩ := Option.ite_none_right_eq_some.mp hkey
    obtain rfl := Option.some.inj hsome
    cases D with
    | none =>
      have hnull : d = .null := hd
      rw [ecKeyOutcome, if_neg (Nat.not_le.mpr hX), if_neg (Nat.not_le.mpr hY), if_neg (not_not.mpr hon),
        hnull]
      exact RMeets.pure ⟨_, handle, rfl, rfl, hholds.toLoads⟩
    | some D =>
      have hd : RawNumber live w.mem d D := hd
      rw [if_neg (by simp [hd.isNull])]
      exact rmeets_ecPrivate hL hT hon hready' (hnumbers d D hd)

/-- It succeeds exactly if the integers make a key. -/
theorem makesKey_iff {X Y : Nat} {D : Option Nat} :
    (∃ key, ecKeyOutcome publicPoint c X Y D = .ok key) ↔ MakesKey publicPoint c X Y D := by
  unfold ecKeyOutcome MakesKey
  by_cases hon : c.params.Contains X Y
  · obtain ⟨hX, hY⟩ := Contains.lt hon
    rw [if_neg (Nat.not_le.mpr hX), if_neg (Nat.not_le.mpr hY), if_neg (not_not.mpr hon),
      and_iff_right hon]
    cases D with
    | none => simp
    | some s =>
      simp only [Option.mem_some_iff, forall_eq']
      by_cases hin : c.params.InRange s
      · rw [if_neg (Nat.not_le.mpr (InRange.lt hin)), if_neg (not_not.mpr hin), and_iff_right hin]
        split
        · rename_i hother
          simpa using hother
        · rename_i hsame
          simpa using hsame
      · refine iff_of_false ?_ fun h => hin h.1
        -- every other branch of the outcome is a condition
        rintro ⟨key, hkey⟩
        split at hkey
        · cases hkey
        · cases hkey
  · refine iff_of_false ?_ fun h => hon h.1
    rintro ⟨key, hkey⟩
    split at hkey
    · cases hkey
    split at hkey
    · cases hkey
    · cases hkey

end

/-! ### `as.list`, and back -/

section
variable {T : KeyTheory O} {publicPoint : NistCurve → Nat → Nat × Nat} {L : StoreLaw O StoredKey}
  {live : List (Nat × Nat)} {w : World} {S : KeyStore StoredKey} {c : NistCurve} {st : RState}
  {handle : ZucPkey} {key : RefKey}

/-- The integers of an EC key: its point, and its scalar if it has one. -/
inductive EcIntegers (publicPoint : NistCurve → Nat → Nat × Nat) (c : NistCurve) :
    RefKey → Nat → Nat → Option Nat → Prop
  | ofPoint {x y : Nat} (hon : c.params.Contains x y) : EcIntegers publicPoint c (ecPublicRef c x y) x y none
  | ofScalar {d : Nat} (hin : c.params.InRange d) :
    EcIntegers publicPoint c (ecPrivateRef c d) (publicPoint c d).1 (publicPoint c d).2 (some d)

/-- Every handle on one of the curves has them. -/
theorem Holds.ecIntegers (hT : EcTheory T publicPoint) (h : Holds T handle key)
    (hcurve : isNistCurve handle.type = true) :
    ∃ c x y d, c.alg = handle.type ∧ EcIntegers publicPoint c key x y d := by
  have hgenuine : T.read key.type key.material = some key := h.genuine
  have htype := h.type
  obtain ⟨hrsa, hfamily⟩ := isNistCurve_algOfPsa (htype ▸ hcurve)
  cases hkind : key.type with
  | eccKeyPair family =>
    rw [hkind] at hfamily hgenuine
    obtain rfl : family = .secpR1 := Option.some.inj hfamily
    obtain ⟨c, d, hin, -, rfl⟩ := hT.private_iff.mp hgenuine
    exact ⟨c, _, _, _, (htype.trans (ecRef_private hin).alg).symm, .ofScalar hin⟩
  | eccPublicKey family =>
    rw [hkind] at hfamily hgenuine
    obtain rfl : family = .secpR1 := Option.some.inj hfamily
    obtain ⟨c, x, y, hon, -, rfl⟩ := hT.public_iff.mp hgenuine
    exact ⟨c, _, _, _, (htype.trans (ecRef_public hon).alg).symm, .ofPoint hon⟩
  | _ =>
    rw [hkind] at hfamily
    cases hfamily

/-- They make the key. -/
theorem EcIntegers.outcome (hT : EcTheory T publicPoint) {x y : Nat} {d : Option Nat}
    (h : EcIntegers publicPoint c key x y d) : ecKeyOutcome publicPoint c x y d = .ok key := by
  cases h with
  | ofPoint hon =>
    obtain ⟨hX, hY⟩ := Contains.lt hon
    rw [ecKeyOutcome, if_neg (Nat.not_le.mpr hX), if_neg (Nat.not_le.mpr hY), if_neg (not_not.mpr hon)]
  | @ofScalar d hin =>
    have hon := hT.contains_publicPoint hin
    obtain ⟨hX, hY⟩ := Contains.lt hon
    rw [ecKeyOutcome, if_neg (Nat.not_le.mpr hX), if_neg (Nat.not_le.mpr hY), if_neg (not_not.mpr hon),
      if_neg (Nat.not_le.mpr (InRange.lt hin)), if_neg (not_not.mpr hin), if_neg (not_not.mpr rfl)]

/-- The members of an EC key. -/
def ecMembers (c : NistCurve) (x y : Nat) (d : Option Nat) : List (String × Member) :=
  [("curve", .text c.name), ("x", .bytes (Der.fixed c.bytes x)), ("y", .bytes (Der.fixed c.bytes y))] ++
    d.toList.map fun d => ("secret", .bytes (Der.fixed c.bytes d))

/-- The raw vectors among the arguments are R's, and have no attributes. -/
def PlainArguments (live : List (Nat × Nat)) (arg : String → Sexp) : Prop :=
  ∀ name, (arg name).attributes = [] ∧ ((arg name).isRaw = true →
    ValidBuffer (arg name).RAW (arg name).XLENGTH ∧ ((arg name).RAW, (arg name).XLENGTH) ∈ live)

/-- `crypt_ec_key`, of the members of a list, makes an object on exactly this key. -/
def RebuildsEc (L : StoreLaw O StoredKey) (T : KeyTheory O) (key : RefKey) (l : KeyList) : Prop :=
  ∃ curve, l.data.lookup "curve" = some (.text curve) ∧
    ∀ (live : List (Nat × Nat)) (w : World) (S : KeyStore StoredKey) (st : RState) (arg : String → Sexp),
      0 < w.refcount → ArgumentsOf l w.mem arg → PlainArguments live arg →
      RMeets L live w S (cryptEcKey (some curve) (arg "x") (arg "y") (arg "secret") st)
        fun r _ _ _ => AcceptsObject T key r

theorem rawNumber_of_argument {l : KeyList} {m : Memory} {arg : String → Sexp} {name : String} {n v : Nat}
    (h : ArgumentsOf l m arg) (hplain : PlainArguments live arg)
    (hname : l.data.lookup name = some (.bytes (Der.fixed n v))) : RawNumber live m (arg name) v := by
  obtain ⟨hraw, hbytes⟩ := h.raw hname
  obtain ⟨hattrs, hvalid⟩ := hplain name
  obtain ⟨hbuffer, hmem⟩ := hvalid hraw
  exact ⟨hattrs, _, ⟨hraw, hbuffer, hmem, hbytes⟩, Der.value_fixed n v⟩

theorem rebuildsEc (hL : L.Implies T.law) (hT : EcTheory T publicPoint) {x y : Nat} {d : Option Nat}
    (hkey : EcIntegers publicPoint c key x y d) {l : KeyList} (hdata : l.data = ecMembers c x y d) :
    RebuildsEc L T key l := by
  refine ⟨c.name, by rw [hdata]; rfl, fun live w S st arg hready harg hplain => ?_⟩
  have hx : RawNumber live w.mem (arg "x") x := rawNumber_of_argument harg hplain (by rw [hdata]; rfl)
  have hy : RawNumber live w.mem (arg "y") y := rawNumber_of_argument harg hplain (by rw [hdata]; rfl)
  have hd : RawScalar live w.mem (arg "secret") d := by
    cases d with
    | none => exact harg.null (by rw [hdata]; rfl)
    | some d => exact rawNumber_of_argument harg hplain (by rw [hdata]; rfl)
  refine (rmeets_cryptEcKey hL hT hready hx hy hd).mono fun r w' S' live' hr => ?_
  rw [hkey.outcome hT] at hr
  exact hr

theorem elements_append (a : Byte) (xs ys : List Byte) :
    R.elements (a :: (xs ++ ys)) 2 xs.length = xs := by
  rw [R.elements_eq_take _ _ _ (by decide), List.drop_succ_cons, List.drop_zero, List.append_assoc,
    List.take_left']
  rfl

theorem elements_append_right (a : Byte) (xs ys : List Byte) :
    R.elements (a :: (xs ++ ys)) (2 + xs.length) ys.length = ys := by
  have hdrop : (a :: (xs ++ ys)).drop (2 + xs.length - 1) = ys := by
    rw [show 2 + xs.length - 1 = xs.length + 1 by omega, List.drop_succ_cons, List.drop_left']
    rfl
  rw [R.elements_eq_take _ _ _ (by omega), hdrop, List.take_left']
  rfl

/-- The coordinates in a point. -/
theorem elements_point {x y : Nat} (h : c.params.Contains x y) :
    R.elements (c.point x y) 2 c.bytes = Der.fixed c.bytes x ∧
      R.elements (c.point x y) (2 + c.bytes) c.bytes = Der.fixed c.bytes y := by
  obtain ⟨hx, hy⟩ := Contains.lt h
  have hfst := elements_append 0x04 (Der.fixed c.bytes x) (Der.fixed c.bytes y)
  have hsnd := elements_append_right 0x04 (Der.fixed c.bytes x) (Der.fixed c.bytes y)
  rw [Der.length_fixed hx] at hfst hsnd
  rw [Der.length_fixed hy] at hsnd
  exact ⟨hfst, hsnd⟩

/-- A list of which the key is made again. -/
def ListsEcKey (L : StoreLaw O StoredKey) (T : KeyTheory O) (key : RefKey)
    (r : Except Condition KeyList × RState) : Prop :=
  ∃ l, r.1 = .ok l ∧ RebuildsEc L T key l

/-- `export_key` gives the public point of an EC key. -/
theorem rmeets_exportPoint (hL : L.Implies T.law) (h : Holds T handle key) {x y : Nat}
    (hon : c.params.Contains x y) (hhalf : T.publicHalf key = ecPublicRef c x y)
    (hready : 0 < w.refcount) :
    RMeets L live w S ((exportKey (objectOf handle) true >>= vectorBytes) st) fun r w' _ live' =>
      r = (.ok (c.point x y), st) ∧ w'.refcount = w.refcount ∧ ∀ v ∈ live, v ∈ live' := by
  obtain ⟨hX, hY⟩ := Contains.lt hon
  have hfits : (T.publicHalf key).Fits := hhalf ▸ (ecRef_public hon).fits
  have hmaterial : (T.publicHalf key).material = c.point x y := congrArg RefKey.material hhalf
  have hsize : (T.publicHalf key).material.length ≤ ZUC_PKEY_MAX_WRITE_SIZE := by
    rw [hmaterial]
    exact Nat.le_trans (length_point_le hX hY) (by decide)
  rw [← hmaterial]
  exact rmeets_exportKey hsize fun buf hbuf => meets_zucPkeyExport_filled hL h hready hfits hsize hbuf

/-- `as.list` of an EC key gives its coordinates, of which the key is made again. -/
theorem rmeets_asList_ec (hL : L.Implies T.law) (hT : EcTheory T publicPoint) (h : Holds T handle key)
    (halg : c.alg = handle.type) {x y : Nat} {d : Option Nat}
    (hkey : EcIntegers publicPoint c key x y d) (hready : 0 < w.refcount) :
    RMeets L live w S (asList (objectOf handle) st) fun r _ _ _ => ListsEcKey L T key r := by
  have hinfo : pkeyInfo (objectOf handle).handle =
      .ok ⟨handle.type, handle.bits, handle.isPrivate⟩ := rfl
  have hlist : ∀ l : KeyList, l.data = ecMembers c x y d → RebuildsEc L T key l := fun l hl =>
    rebuildsEc hL hT hkey hl
  have hec : handle.type ≠ .rsa := halg ▸ c.alg_ne_rsa
  have hnist : handle.type ≠ .x25519 := halg ▸ c.alg_ne_x25519
  have hwidth : (curveBytes handle.type).getD 0 = c.bytes := by rw [← halg, c.curveBytes_alg]; rfl
  have hname : curveNames handle.type = c.name := by rw [← halg, c.curveNames_alg]
  rw [asList_objectOf]
  cases hkey with
  | ofPoint hon =>
    have hkind : handle.isPrivate = false := h.kind
    obtain ⟨hfst, hsnd⟩ := elements_point hon
    have hhalf : T.publicHalf (ecPublicRef c x y) = ecPublicRef c x y := T.publicHalf_public rfl
    have hclass : ¬ (objectOf handle).inherits "crypt_key" = true := by
      rw [inherits_key, hkind]
      simp
    rw [hkind, if_neg (by simp)]
    unfold asListCryptPubkey
    rw [hinfo, RFun.check_ok_bind]
    simp only [if_pos hec]
    unfold ecAsList
    refine RMeets.seq (rmeets_exportPoint hL h hon hhalf hready) ?_
    rintro r w' S' live' ⟨rfl, -, -⟩
    simp only [hwidth, hname, if_neg hnist, if_neg hclass, hfst, hsnd]
    exact RMeets.pure ⟨_, rfl, hlist _ rfl⟩
  | @ofScalar d hin =>
    have hkind : handle.isPrivate = true := h.kind
    have hon := hT.contains_publicPoint hin
    obtain ⟨hfst, hsnd⟩ := elements_point hon
    have hclass : (objectOf handle).inherits "crypt_key" = true := (inherits_key handle).mpr hkind
    have hhalf := hT.publicHalf hin
    have hfits : (T.publicHalf (ecPrivateRef c d)).Fits := hhalf ▸ (ecRef_public hon).fits
    have hsize : (ecPrivateRef c d).material.length ≤ ZUC_PKEY_MAX_WRITE_SIZE := by
      show (Der.fixed c.bytes d).length ≤ _
      rw [Der.length_fixed (InRange.lt hin)]
      exact Nat.le_trans c.bytes_le (by decide)
    rw [hkind, if_pos rfl]
    unfold asListCryptKey
    rw [hinfo, RFun.check_ok_bind]
    simp only [if_pos hec]
    unfold ecAsList
    refine RMeets.seq (rmeets_exportPoint hL h hon hhalf hready) ?_
    rintro r w₁ S₁ live₁ ⟨rfl, hcount, -⟩
    have hready₁ : 0 < w₁.refcount := hcount ▸ hready
    simp only [hwidth, hname, if_neg hnist, if_pos hclass, hfst, hsnd]
    refine RMeets.seq (rmeets_exportKey hsize fun buf hbuf =>
      meets_zucPkeyExport_private h hready₁ hkind hsize hbuf) ?_
    rintro r w₂ S₂ live₂ ⟨rfl, hcount₂, -⟩
    refine RMeets.seq (rmeets_publicOf hL h.toLoads (hcount₂ ▸ hready₁) st) fun r w₃ S₃ live₃ hr => ?_
    obtain ⟨-, -, -, hr⟩ := hr
    rw [if_pos hfits] at hr
    obtain ⟨pub, rfl, -⟩ := hr
    exact RMeets.pure ⟨_, rfl, hlist _ rfl⟩

end

end Zucrypt
