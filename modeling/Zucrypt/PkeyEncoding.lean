import Zucrypt.EcCurves
import Zucrypt.KeyFormats
import Zucrypt.PkeyWrite
import Zucrypt.ReferenceBackend

/-! # The encoders of private keys

`zuc_pkey.c` computes the size of an encoding by one set of expressions, allocates it, and writes it
by another.  `Writes` is what the writing functions have in common: they add bytes at the position
they are given, if there is room.  Each encoder then writes the encoding `KeyFormats` gives of a
value, and the size computed for it is its length, so that the block is filled to its last byte and
not past it.

`private_encodings_exact` says so of every private encoding there is:

* `der_length`, `tlv_size` and the writers agree on every element of up to 0xFFFF octets
  (`LengthsAgree`), which is as far as two octets of length reach;
* a key on a NIST curve is written as SEC1 and as PKCS#8, an X25519 key as PKCS#8, and an RSA key
  as it is or wrapped in PKCS#8, each in a block of just its size;
* the standard's reader takes the value back out of it, and takes nothing else as that encoding.

The readers are those of `KeyFormats`, which are written from the grammar and know nothing of the
writers.  A key on a NIST curve needs its point, which the backend is asked for (`publicDer`), so
the statement starts from a run of that; the scalar and the point have the lengths of the curve, as
in every handle that was made.  An RSA key must leave room for the wrapping in 0xFFFF octets. -/
namespace Zucrypt
open Effects ByteMemory

variable {O : Objects}

/-! ### Writing in a block -/

/-- A block of `total` bytes that holds `bs` so far, and the position after them. -/
def Cursor.filled (p total : Nat) (bs : List Byte) : Cursor :=
  ⟨{ ptr := p, cells := bs.map some ++ List.replicate (total - bs.length) none }, bs.length⟩

/-- A block that holds `bs`, every byte of it. -/
def HeapBytes.holding (p : Nat) (bs : List Byte) : HeapBytes :=
  ⟨{ ptr := p, cells := bs.map some }, bs.length⟩

/-- `write` adds `bs`, if there is room. -/
def Writes (write : Cursor → Cursor) (bs : List Byte) : Prop :=
  ∀ p total done, done.length + bs.length ≤ total →
    write (.filled p total done) = .filled p total (done ++ bs)

/-- Bytes that fit are added. -/
theorem Cursor.put_filled {p total : Nat} {done bs : List Byte}
    (h : done.length + bs.length ≤ total) :
    (Cursor.filled p total done).put bs = .filled p total (done ++ bs) := by
  have hroom : total - done.length - bs.length = total - (done ++ bs).length := by
    rw [List.length_append]
    omega
  have hsize : done.length + (total - done.length) = total := by omega
  have hfits : (bs.map some).length ≤ total - done.length := by
    rw [List.length_map]
    omega
  have hcells : (done.map some ++ List.replicate (total - done.length) (none : Option Byte)).length =
      total := by simp [hsize]
  have htake : (done.map some ++ List.replicate (total - done.length) (none : Option Byte)).take
      done.length = done.map some := List.take_left' (List.length_map _)
  have hdrop : (done.map some ++ List.replicate (total - done.length) (none : Option Byte)).drop
      (done.length + bs.length) = List.replicate (total - (done ++ bs).length) none := by
    rw [← List.drop_drop, List.drop_left' (List.length_map _), List.drop_replicate, hroom]
  have hover : decide (total < done.length + bs.length) = false := decide_eq_false (by omega)
  simp only [Cursor.put, Cursor.filled, HeapBuf.store, hcells, htake, hdrop, hover, Bool.or_false,
    List.take_of_length_le hfits, List.map_append, List.length_append]

/-- To put bytes writes them. -/
theorem Writes.put (bs : List Byte) : Writes (·.put bs) bs :=
  fun _ _ _ h => Cursor.put_filled h

/-- Two writers, one after the other. -/
theorem Writes.andThen {f g : Cursor → Cursor} {as bs : List Byte} (hf : Writes f as)
    (hg : Writes g bs) : Writes (fun c => g (f c)) (as ++ bs) := by
  intro p total done h
  rw [List.length_append] at h
  have hroom : (done ++ as).length + bs.length ≤ total := by
    rw [List.length_append]
    omega
  show g (f (Cursor.filled p total done)) = _
  rw [hf p total done (by omega), hg p total (done ++ as) hroom, List.append_assoc]

/-- A block of just the size is filled. -/
theorem Writes.fresh {write : Cursor → Cursor} {bs : List Byte} (h : Writes write bs) (p : Nat) :
    write ⟨.fresh p bs.length, 0⟩ = ⟨(HeapBytes.holding p bs).buf, bs.length⟩ := by
  have hwrite := h p bs.length [] (by simp)
  simpa [Cursor.filled, HeapBuf.fresh, HeapBytes.holding] using hwrite

/-- A block that holds bytes has them. -/
@[simp] theorem HeapBytes.bytes_holding (p : Nat) (bs : List Byte) :
    (HeapBytes.holding p bs).bytes = bs := by
  simp [HeapBytes.bytes, HeapBytes.holding, HeapBuf.bytes, Function.comp_def]

/-! ### Elements -/

/-- `der_length` writes the length octets, up to two of them and the one that counts
them. -/
theorem derLength_eq {n : Nat} (h : n ≤ 0xFFFF) : derLength n = Der.lengthOctets n := by
  unfold derLength Der.lengthOctets
  by_cases hshort : n < 0x80
  · rw [if_pos hshort, if_pos hshort]
  · rw [if_neg hshort, if_neg hshort]
    by_cases hone : n ≤ 0xFF
    · have hoctets : Der.octets n = [UInt8.ofNat n] := by
        rw [Der.octets_of_ne_zero (by omega), Nat.div_eq_of_lt (by omega), Nat.mod_eq_of_lt (by omega)]
        rfl
      rw [if_pos hone, hoctets]
      rfl
    · have hhigh : Der.octets (n / 256) = [UInt8.ofNat (n / 256)] := by
        rw [Der.octets_of_ne_zero (by omega), Nat.div_eq_of_lt (by omega), Nat.mod_eq_of_lt (by omega)]
        rfl
      have hlow : UInt8.ofNat (n % 256) = UInt8.ofNat n :=
        UInt8.toNat_inj.mp (by simp)
      rw [if_neg hone, Der.octets_of_ne_zero (by omega), hhigh, hlow]
      rfl

/-- A length is announced in one, two or three octets. -/
theorem length_derLength (n : Nat) :
    (derLength n).length = if n < 0x80 then 1 else if n ≤ 0xFF then 2 else 3 := by
  unfold derLength
  split
  · rfl
  · split <;> rfl

/-- The size `tlv_size` computes. -/
theorem tlvSize_eq {n : Nat} (h : n ≤ 0xFFFF) (tag : Byte) {contents : List Byte}
    (hn : contents.length = n) : tlvSize n = (Der.element tag contents).length := by
  rw [Der.length_element, hn, ← derLength_eq h, length_derLength, tlvSize]

/-- An element is longer than its contents. -/
theorem lt_tlvSize (n : Nat) : n < tlvSize n := by
  unfold tlvSize
  omega

/-- By four octets at most, for all the encoder can announce. -/
theorem tlvSize_le (n : Nat) : tlvSize n ≤ n + 4 := by
  unfold tlvSize
  split
  · omega
  · split <;> omega

/-- `tlv_head` writes the tag and the length. -/
theorem writes_tlvHead (tag : Byte) {n : Nat} (h : n ≤ 0xFFFF) :
    Writes (tlvHead · tag n) (tag :: Der.lengthOctets n) := by
  rw [← derLength_eq h]
  exact (Writes.put [tag]).andThen (Writes.put (derLength n))

/-- `tlv` writes an element. -/
theorem writes_tlv (tag : Byte) {v : List Byte} (h : v.length ≤ 0xFFFF) :
    Writes (tlv · tag v) (Der.element tag v) :=
  (writes_tlvHead tag h).andThen (Writes.put v)

/-- So does `tlv_head`, and what writes the contents. -/
theorem Writes.element {write : Cursor → Cursor} {contents : List Byte} (h : Writes write contents)
    (tag : Byte) {n : Nat} (hn : contents.length = n) (hle : n ≤ 0xFFFF) :
    Writes (fun c => write (tlvHead c tag n)) (Der.element tag contents) := by
  subst hn
  exact (writes_tlvHead tag hle).andThen h

/-! ### The encodings, as values -/

/-- The curve `curve_oid` gives the identifier of. -/
def namedCurve : ZucAlg → Der.Oid
  | .ecP256 => .secp256r1
  | .ecP384 => .secp384r1
  | _ => .secp521r1

/-- `ECPrivateKey` of a scalar and a point. -/
def ecPrivateKey (type : ZucAlg) (d point : List Byte) (params : Bool) : Der.EcPrivateKey :=
  { version := 1, privateKey := d, parameters := if params then some (namedCurve type) else none,
    publicKey := some point }

/-- The curve is in the algorithm identifier, and not inside. -/
def ecPrivateKeyInfo (type : ZucAlg) (d point : List Byte) : Der.PrivateKeyInfo :=
  { version := 0, algorithm := ⟨.ecPublicKey, .named (namedCurve type)⟩,
    privateKey := (ecPrivateKey type d point false).encode }

/-- The private key is an octet string of its own. -/
def x25519PrivateKeyInfo (k : List Byte) : Der.PrivateKeyInfo :=
  { version := 0, algorithm := ⟨.x25519, .absent⟩, privateKey := Der.element 0x04 k }

def rsaPrivateKeyInfo (pkcs1 : List Byte) : Der.PrivateKeyInfo :=
  { version := 0, algorithm := ⟨.rsaEncryption, .null⟩, privateKey := pkcs1 }

/-- The table of object identifiers has the curves' own. -/
theorem curveOid_eq (type : ZucAlg) : curveOid type = Der.curveParameter (namedCurve type) := by
  have h256 : OID_P256 = Der.curveParameter .secp256r1 := by decide
  have h384 : OID_P384 = Der.curveParameter .secp384r1 := by decide
  have h521 : OID_P521 = Der.curveParameter .secp521r1 := by decide
  cases type with
  | ecP256 => exact h256
  | ecP384 => exact h384
  | _ => exact h521

/-- None is long. -/
theorem length_curveOid_le (type : ZucAlg) : (curveOid type).length ≤ 10 := by
  unfold curveOid
  split <;> decide

/-! ### Each encoder -/

/-- What `ec_sec1` computes as its size, and what it writes. -/
theorem ecSec1_exact (type : ZucAlg) (d point : List Byte) (params : Bool)
    (h : ecSec1Size type d.length point.length params ≤ 0xFFFF) :
    ecSec1Size type d.length point.length params = (ecPrivateKey type d point params).encode.length ∧
      Writes (ecSec1 · type d point params) (ecPrivateKey type d point params).encode := by
  have hbody := lt_tlvSize (ecSec1Body type d.length point.length params)
  have hd := lt_tlvSize d.length
  have hbits := lt_tlvSize (point.length + 1)
  have hpoint := lt_tlvSize (tlvSize (point.length + 1))
  have hoid := length_curveOid_le type
  have hsize : ecSec1Size type d.length point.length params =
      tlvSize (ecSec1Body type d.length point.length params) := rfl
  have hdef : ecSec1Body type d.length point.length params = 3 + tlvSize d.length +
    (if params then tlvSize (curveOid type).length else 0) + tlvSize (tlvSize (point.length + 1)) := rfl
  -- the lengths the nested elements announce, from the innermost out
  have hwhole : (Der.wholeBits point).length = tlvSize (point.length + 1) :=
    (tlvSize_eq (n := point.length + 1) (by omega) 0x03 rfl).symm
  have hpub : (Der.element 0xa1 (Der.wholeBits point)).length = tlvSize (tlvSize (point.length + 1)) :=
    (tlvSize_eq (by omega) 0xa1 hwhole).symm
  have hscalar : (Der.element 0x04 d).length = tlvSize d.length := (tlvSize_eq (by omega) 0x04 rfl).symm
  have hcurve : (Der.element 0xa0 (Der.curveParameter (namedCurve type))).length =
      tlvSize (curveOid type).length := by
    rw [← curveOid_eq]
    exact (tlvSize_eq (by omega) 0xa0 rfl).symm
  have hversion : Der.element 0x02 (Der.unsigned 1) = [0x02, 0x01, 0x01] := by decide
  -- and what the calls write, in their order
  have wpoint : Writes (fun c => ((tlvHead (tlvHead c 0xa1 (tlvSize (point.length + 1))) 0x03
      (point.length + 1)).put [0x00]).put point) (Der.element 0xa1 (Der.wholeBits point)) :=
    (((Writes.put [0x00]).andThen (Writes.put point)).element 0x03 (n := point.length + 1) rfl
      (by omega)).element 0xa1 hwhole (by omega)
  have wscalar := (Writes.put [0x02, 0x01, 0x01]).andThen
    (writes_tlv 0x04 (v := d) (by omega))
  cases params with
  | false =>
    have hlen : (Der.elements [(0x02, Der.unsigned 1), (0x04, d), (0xa1, Der.wholeBits point)]).length =
        ecSec1Body type d.length point.length false := by
      simp [hversion, hscalar, hpub, hdef]
      omega
    have wall := wscalar.andThen wpoint
    rw [show [0x02, 0x01, 0x01] ++ Der.element 0x04 d ++ Der.element 0xa1 (Der.wholeBits point) =
      Der.elements [(0x02, Der.unsigned 1), (0x04, d), (0xa1, Der.wholeBits point)] by
        simp [hversion]] at wall
    exact ⟨tlvSize_eq (by omega) 0x30 hlen, wall.element 0x30 hlen (by omega)⟩
  | true =>
    have hlen : (Der.elements [(0x02, Der.unsigned 1), (0x04, d),
        (0xa0, Der.curveParameter (namedCurve type)), (0xa1, Der.wholeBits point)]).length =
        ecSec1Body type d.length point.length true := by
      simp [hversion, hscalar, hcurve, hpub, hdef]
      omega
    have wcurve := writes_tlv 0xa0 (v := curveOid type) (by omega)
    have wall := (wscalar.andThen wcurve).andThen wpoint
    rw [show [0x02, 0x01, 0x01] ++ Der.element 0x04 d ++ Der.element 0xa0 (curveOid type) ++
        Der.element 0xa1 (Der.wholeBits point) = Der.elements [(0x02, Der.unsigned 1), (0x04, d),
          (0xa0, Der.curveParameter (namedCurve type)), (0xa1, Der.wholeBits point)] by
        simp [hversion, curveOid_eq]] at wall
    exact ⟨tlvSize_eq (by omega) 0x30 hlen, wall.element 0x30 hlen (by omega)⟩

/-- The PKCS#8 form of a key on a NIST curve. -/
theorem ecInfo_exact (type : ZucAlg) (d point : List Byte)
    (h : tlvSize (ecInfoBody type d.length point.length) ≤ 0xFFFF) :
    tlvSize (ecInfoBody type d.length point.length) = (ecPrivateKeyInfo type d point).encode.length ∧
      Writes (ecInfoWrite · type d point) (ecPrivateKeyInfo type d point).encode := by
  have hbody := lt_tlvSize (ecInfoBody type d.length point.length)
  have hinner := lt_tlvSize (ecSec1Size type d.length point.length false)
  have hoid := length_curveOid_le type
  have hdef : ecInfoBody type d.length point.length =
    3 + tlvSize (OID_EC_PUBLIC_KEY.length + (curveOid type).length) +
      tlvSize (ecSec1Size type d.length point.length false) := rfl
  obtain ⟨hsec1, wsec1⟩ := ecSec1_exact type d point false (by omega)
  have halg : (ecPrivateKeyInfo type d point).algorithm.contents = OID_EC_PUBLIC_KEY ++ curveOid type := by
    have hpublic : Der.element 0x06 Der.Oid.ecPublicKey.contents = OID_EC_PUBLIC_KEY := by decide
    show Der.elements [(0x06, Der.Oid.ecPublicKey.contents), (0x06, (namedCurve type).contents)] = _
    rw [Der.elements_cons, Der.elements_cons, hpublic, curveOid_eq]
    simp [Der.curveParameter]
  have halgLength : (OID_EC_PUBLIC_KEY ++ curveOid type).length =
      OID_EC_PUBLIC_KEY.length + (curveOid type).length := List.length_append
  have holen : OID_EC_PUBLIC_KEY.length = 9 := rfl
  have hversion : Der.element 0x02 (Der.unsigned 0) = [0x02, 0x01, 0x00] := by decide
  have hlen : (Der.elements [(0x02, Der.unsigned 0), (0x30, OID_EC_PUBLIC_KEY ++ curveOid type),
      (0x04, (ecPrivateKey type d point false).encode)]).length =
        ecInfoBody type d.length point.length := by
    simp only [Der.elements_cons, Der.elements_nil, List.length_append, List.length_nil, hversion,
      ← tlvSize_eq (by omega) 0x30 halgLength, ← tlvSize_eq (by omega) 0x04 hsec1.symm, hdef]
    exact (Nat.add_assoc 3 _ _).symm
  -- the members one after another, and then the element around them
  have wall := ((Writes.put [0x02, 0x01, 0x00]).andThen (((Writes.put OID_EC_PUBLIC_KEY).andThen
    (Writes.put (curveOid type))).element 0x30 halgLength (by omega))).andThen
      (wsec1.element 0x04 hsec1.symm (by omega))
  rw [show [0x02, 0x01, 0x00] ++ Der.element 0x30 (OID_EC_PUBLIC_KEY ++ curveOid type) ++
      Der.element 0x04 (ecPrivateKey type d point false).encode = Der.elements [(0x02, Der.unsigned 0),
        (0x30, OID_EC_PUBLIC_KEY ++ curveOid type), (0x04, (ecPrivateKey type d point false).encode)] by
      simp [hversion]] at wall
  rw [show (ecPrivateKeyInfo type d point).encode = Der.element 0x30 (Der.elements
    [(0x02, Der.unsigned 0), (0x30, OID_EC_PUBLIC_KEY ++ curveOid type),
      (0x04, (ecPrivateKey type d point false).encode)]) by
    rw [← halg]; rfl]
  exact ⟨tlvSize_eq (by omega) 0x30 hlen, wall.element 0x30 hlen (by omega)⟩

/-- The PKCS#8 form of an X25519 key. -/
theorem x25519_exact {k : List Byte} (h : tlvSize (x25519Body k.length) ≤ 0xFFFF) :
    tlvSize (x25519Body k.length) = (x25519PrivateKeyInfo k).encode.length ∧
      Writes (x25519Write · k) (x25519PrivateKeyInfo k).encode := by
  have hbody := lt_tlvSize (x25519Body k.length)
  have hk := lt_tlvSize k.length
  have hinner := lt_tlvSize (tlvSize k.length)
  have hdef : x25519Body k.length = 3 + tlvSize OID_X25519.length + tlvSize (tlvSize k.length) := rfl
  have hkey : (Der.element 0x04 k).length = tlvSize k.length :=
    (tlvSize_eq (n := k.length) (by omega) 0x04 rfl).symm
  have halg : Der.AlgorithmIdentifier.contents ⟨.x25519, .absent⟩ = OID_X25519 := by decide
  have holen : OID_X25519.length = 5 := rfl
  have hversion : Der.element 0x02 (Der.unsigned 0) = [0x02, 0x01, 0x00] := by decide
  have hlen : (Der.elements [(0x02, Der.unsigned 0), (0x30, OID_X25519),
      (0x04, Der.element 0x04 k)]).length = x25519Body k.length := by
    simp only [Der.elements_cons, Der.elements_nil, List.length_append, List.length_nil, hversion,
      ← tlvSize_eq (by omega) 0x30 (rfl : OID_X25519.length = OID_X25519.length), ← tlvSize_eq (by omega) 0x04 hkey,
      hdef]
    exact (Nat.add_assoc 3 _ _).symm
  have wall := ((Writes.put [0x02, 0x01, 0x00]).andThen (writes_tlv 0x30 (v := OID_X25519)
    (by omega))).andThen ((writes_tlv 0x04 (v := k) (by omega)).element 0x04 hkey (by omega))
  rw [show [0x02, 0x01, 0x00] ++ Der.element 0x30 OID_X25519 ++ Der.element 0x04 (Der.element 0x04 k) =
      Der.elements [(0x02, Der.unsigned 0), (0x30, OID_X25519), (0x04, Der.element 0x04 k)] by
      simp [hversion]] at wall
  rw [show (x25519PrivateKeyInfo k).encode = Der.element 0x30 (Der.elements
    [(0x02, Der.unsigned 0), (0x30, OID_X25519), (0x04, Der.element 0x04 k)]) by
    rw [← halg]; rfl]
  exact ⟨tlvSize_eq (by omega) 0x30 hlen, wall.element 0x30 hlen (by omega)⟩

/-- The PKCS#8 form of an RSA key. -/
theorem pkcs8_exact {pkcs1 : List Byte} (h : pkcs1.length ≤ 0xFFFF - 64) :
    pkcs8Total pkcs1.length = (rsaPrivateKeyInfo pkcs1).encode.length ∧
      Writes (pkcs8Write · pkcs1) (rsaPrivateKeyInfo pkcs1).encode := by
  have hdigits := length_derLength pkcs1.length
  have hthree : (derLength pkcs1.length).length ≤ 3 := by
    rw [hdigits]
    split
    · omega
    · split <;> omega
  have hhead : pkcs8Head.length = 18 := rfl
  have hfixed : pkcs8Head = Der.element 0x02 (Der.unsigned 0) ++
      Der.element 0x30 (Der.AlgorithmIdentifier.contents ⟨.rsaEncryption, .null⟩) := by decide
  have hkey : (Der.element 0x04 pkcs1).length =
      1 + (derLength pkcs1.length).length + pkcs1.length := by
    rw [Der.length_element, derLength_eq (by omega)]
  have hlen : (pkcs8Head ++ Der.element 0x04 pkcs1).length =
      pkcs8Head.length + 1 + (derLength pkcs1.length).length + pkcs1.length := by
    rw [List.length_append, hkey]
    omega
  have hencode : (rsaPrivateKeyInfo pkcs1).encode =
      Der.element 0x30 (pkcs8Head ++ Der.element 0x04 pkcs1) := by
    rw [hfixed]
    simp [rsaPrivateKeyInfo, Der.PrivateKeyInfo.encode, Der.sequence]
  refine ⟨?_, ?_⟩
  · rw [hencode, Der.length_element, hlen, ← derLength_eq (by omega)]
    rfl
  · have wkey := ((Writes.put [0x04]).andThen (Writes.put (derLength pkcs1.length))).andThen
      (Writes.put pkcs1)
    rw [show [0x04] ++ derLength pkcs1.length ++ pkcs1 = Der.element 0x04 pkcs1 by
      rw [derLength_eq (by omega)]; rfl] at wkey
    rw [hencode]
    exact ((Writes.put pkcs8Head).andThen wkey).element 0x30 hlen (by omega)

/-! ### The encodings, read back -/

/-- A block of `total` bytes is what `bs` takes, and `write` fills it with them. -/
def FillsExactly (total : Nat) (write : Cursor → Cursor) (bs : List Byte) : Prop :=
  total = bs.length ∧ ∀ p, write ⟨.fresh p total, 0⟩ = ⟨(HeapBytes.holding p bs).buf, total⟩

/-- What is written in full fills a block of its length. -/
theorem Writes.fillsExactly {write : Cursor → Cursor} {bs : List Byte} {total : Nat}
    (hw : Writes write bs) (ht : total = bs.length) : FillsExactly total write bs := by
  subst ht
  exact ⟨rfl, hw.fresh⟩

/-- What a caller gets of a block allocated for `bs`. -/
def allocated {σ : Type} (h : Handler (Call O) σ) (s : σ) (bs : List Byte) (label : String) :
    Except ZucStatus Encoding :=
  match (h _ (.malloc bs.length) s).1 with
  | none => .error .errMemory
  | some p => .ok ⟨.holding p bs, label⟩

/-- `v` is read back from its encoding, and from nothing else. -/
theorem readEcPrivateKey_iff {v : Der.EcPrivateKey} (h : v.encode.length < Der.lengthLimit)
    (bs : List Byte) : Der.readEcPrivateKey bs = some v ↔ bs = v.encode :=
  ⟨Der.eq_encode_of_readEcPrivateKey, fun hbs => hbs ▸ Der.readEcPrivateKey_encode h⟩

/-- So is a PKCS#8 value. -/
theorem readPrivateKeyInfo_iff {v : Der.PrivateKeyInfo} (h : v.encode.length < Der.lengthLimit)
    (bs : List Byte) : Der.readPrivateKeyInfo bs = some v ↔ bs = v.encode :=
  ⟨Der.eq_encode_of_readPrivateKeyInfo, fun hbs => hbs ▸ Der.readPrivateKeyInfo_encode h⟩

/-- What the encoder can announce, the readers can read. -/
theorem lt_lengthLimit {n : Nat} (h : n ≤ 0xFFFF) : n < Der.lengthLimit :=
  Nat.lt_of_le_of_lt h (by decide)

/-! ### The encoders themselves -/

section
variable {σ : Type} {h : Handler (Call O) σ} {w : World} {s : σ}

/-- The block is allocated at the size, and then holds the encoding. -/
theorem exec_encodeInto {total : Nat} {write : Cursor → Cursor} {bs : List Byte}
    (hfill : FillsExactly total write bs) :
    ((encodeInto total write : Adapter O _).exec h w s).value =
      (h _ (.malloc bs.length) s).1.map (fun p => HeapBytes.holding p bs) := by
  obtain ⟨rfl, hwrite⟩ := hfill
  simp only [encodeInto, Proc.exec_bind, exec_mallocBytes, Proc.exec_pure, Option.map_map]
  congr 1
  funext p
  simp only [Function.comp_apply, hwrite]
  rfl

/-- An RSA key is wrapped as it is. -/
theorem exec_pkcs8Wrap {pkcs1 : List Byte} (hlen : pkcs1.length ≤ 0xFFFF - 64)
    (hfill : FillsExactly (pkcs8Total pkcs1.length) (pkcs8Write · pkcs1)
      (rsaPrivateKeyInfo pkcs1).encode) :
    (((pkcs8Wrap pkcs1 : Adapter O _).exec h w s).value.map (⟨·, "PRIVATE KEY"⟩)) =
      allocated h s (rsaPrivateKeyInfo pkcs1).encode "PRIVATE KEY" := by
  obtain ⟨htotal, hwrite⟩ := hfill
  rw [pkcs8Wrap, if_neg (Nat.not_lt.mpr hlen), allocated]
  simp only [Proc.exec_bind, exec_mallocBytes, htotal]
  cases hmalloc : (h _ (.malloc (rsaPrivateKeyInfo pkcs1).encode.length) s).1 with
  | none => rfl
  | some p =>
    simp only [Option.map_some, Proc.exec_pure, Except.map, ← htotal, hwrite]
    rw [htotal]
    rfl

end

/-- A key on the curve of its type. -/
def ZucPkey.OnNistCurve (key : ZucPkey) : Prop :=
  (key.type = .ecP256 ∧ key.bits = 256) ∨ (key.type = .ecP384 ∧ key.bits = 384) ∨
    (key.type = .ecP521 ∧ key.bits = 521)

/-- P-521 has the longest numbers. -/
theorem ZucPkey.OnNistCurve.ecBytes_le {key : ZucPkey} (h : key.OnNistCurve) : ecBytes key ≤ 66 := by
  unfold ecBytes
  rcases h with ⟨-, hbits⟩ | ⟨-, hbits⟩ | ⟨-, hbits⟩ <;> omega

/-- An RSA or an X25519 key has no curve of this kind. -/
theorem ZucPkey.OnNistCurve.type_ne {key : ZucPkey} (h : key.OnNistCurve) : key.type ≠ .x25519 := by
  rcases h with ⟨htype, -⟩ | ⟨htype, -⟩ | ⟨htype, -⟩ <;> rw [htype] <;> decide

/-- A bound on the size of a SEC1 value. -/
theorem ecSec1Size_le (type : ZucAlg) (dLen pointLen : Nat) (params : Bool) :
    ecSec1Size type dLen pointLen params ≤ dLen + pointLen + 40 := by
  have hbody := tlvSize_le (ecSec1Body type dLen pointLen params)
  have hd := tlvSize_le dLen
  have hbits := tlvSize_le (pointLen + 1)
  have hpoint := tlvSize_le (tlvSize (pointLen + 1))
  have hoid := tlvSize_le (curveOid type).length
  have hcurve := length_curveOid_le type
  have hparams : (if params then tlvSize (curveOid type).length else 0) ≤ 14 := by
    split <;> omega
  unfold ecSec1Size
  unfold ecSec1Body at *
  omega

/-- A bound on the size of a wrapped RSA key. -/
theorem pkcs8Total_le (n : Nat) : pkcs8Total n ≤ n + 26 := by
  have houter := length_derLength (pkcs8Head.length + 1 + (derLength n).length + n)
  have hinner := length_derLength n
  have hhead : pkcs8Head.length = 18 := rfl
  have hthree : ∀ k : Nat, (if k < 0x80 then 1 else if k ≤ 0xFF then 2 else 3) ≤ 3 := by
    intro k
    split
    · omega
    · split <;> omega
  have h₁ := hthree (pkcs8Head.length + 1 + (derLength n).length + n)
  have h₂ := hthree n
  show 1 + (derLength (pkcs8Head.length + 1 + (derLength n).length + n)).length +
    (pkcs8Head.length + 1 + (derLength n).length + n) ≤ n + 26
  omega

/-- A bound on the size of a PKCS#8 value of a NIST curve. -/
theorem ecInfoSize_le (type : ZucAlg) (dLen pointLen : Nat) :
    tlvSize (ecInfoBody type dLen pointLen) ≤ dLen + pointLen + 80 := by
  have hbody := tlvSize_le (ecInfoBody type dLen pointLen)
  have hsec1 := ecSec1Size_le type dLen pointLen false
  have hinner := tlvSize_le (ecSec1Size type dLen pointLen false)
  have halg := tlvSize_le (OID_EC_PUBLIC_KEY.length + (curveOid type).length)
  have hcurve := length_curveOid_le type
  have hoid : OID_EC_PUBLIC_KEY.length = 9 := rfl
  unfold ecInfoBody at *
  omega

section
variable {σ : Type} {h : Handler (Call O) σ} {w w' : World} {s s' : σ} {key : ZucPkey}

/-- A private key on a NIST curve: the point is found first, and then all is known. -/
theorem exec_ecEncode (pkcs1 : Bool) {format : ZucPkeyFormat} {point : HeapBytes} {total : Nat}
    {write : Cursor → Cursor} {bs : List Byte}
    (hformat : ∀ v, format ≠ .other v) (hpkcs1 : decide (format = .pkcs1Der ∨ format = .pkcs1Pem) = pkcs1)
    (hkey : key.type ≠ .x25519) (hpoint : (publicDer key).exec h w s = ⟨.ok point, w', s'⟩)
    (hencode : (if pkcs1 then
        encodeInto (ecSec1Size key.type key.der.bytes.length point.bytes.length true)
          (ecSec1 · key.type key.der.bytes point.bytes true)
      else encodeInto (tlvSize (ecInfoBody key.type key.der.bytes.length point.bytes.length))
          (ecInfoWrite · key.type key.der.bytes point.bytes) : Adapter O (Option HeapBytes)) =
        encodeInto total write)
    (hfill : FillsExactly total write bs) :
    ((ecEncode key format true).exec h w s).value =
      allocated h s' bs (if pkcs1 then "EC PRIVATE KEY" else "PRIVATE KEY") := by
  have hnist : (ecEncode key format true : Adapter O _) = nistEncode key pkcs1 := by
    unfold ecEncode
    cases format with
    | other v => exact absurd rfl (hformat v)
    | _ => rw [← hpkcs1]; simp [hkey]
  rw [hnist, nistEncode, Proc.exec_bind, hpoint]
  simp only [hencode, Proc.exec_bind, exec_encodeInto hfill, exec_freeBytes, allocated]
  cases (h _ (.malloc bs.length) s').1 with
  | none => rfl
  | some p => rfl

end

/-- Length octets, sizes, heads and elements agree. -/
structure LengthsAgree (tag : Byte) (contents : List Byte) : Prop where
  octets : derLength contents.length = Der.lengthOctets contents.length
  size : tlvSize contents.length = (Der.element tag contents).length
  head : Writes (tlvHead · tag contents.length) (tag :: Der.lengthOctets contents.length)
  element : Writes (tlv · tag contents) (Der.element tag contents)

/-- What the private encodings of a key on a NIST curve are, `d` being its scalar and `q`
its point, and `s'` where the backend is once the point has been found. -/
structure NistEncodings {σ : Type} (h : Handler (Call O) σ) (w : World) (s s' : σ) (key : ZucPkey)
    (d q : List Byte) : Prop where
  sec1Fills : FillsExactly (ecSec1Size key.type d.length q.length true) (ecSec1 · key.type d q true)
    (ecPrivateKey key.type d q true).encode
  infoFills : FillsExactly (tlvSize (ecInfoBody key.type d.length q.length))
    (ecInfoWrite · key.type d q) (ecPrivateKeyInfo key.type d q).encode
  sec1 : ∀ format, format = .pkcs1Der ∨ format = .pkcs1Pem →
    ((ecEncode key format true).exec h w s).value =
      allocated h s' (ecPrivateKey key.type d q true).encode "EC PRIVATE KEY"
  info : ∀ format, format = .infoDer ∨ format = .infoPem →
    ((ecEncode key format true).exec h w s).value =
      allocated h s' (ecPrivateKeyInfo key.type d q).encode "PRIVATE KEY"
  readSec1 : ∀ bs, Der.readEcPrivateKey bs = some (ecPrivateKey key.type d q true) ↔
    bs = (ecPrivateKey key.type d q true).encode
  readInfo : ∀ bs, Der.readPrivateKeyInfo bs = some (ecPrivateKeyInfo key.type d q) ↔
    bs = (ecPrivateKeyInfo key.type d q).encode
  readInner : ∀ bs, Der.readEcPrivateKey bs = some (ecPrivateKey key.type d q false) ↔
    bs = (ecPrivateKeyInfo key.type d q).privateKey

/-- The same of an X25519 key. -/
structure X25519Encodings {σ : Type} (h : Handler (Call O) σ) (w : World) (s : σ) (key : ZucPkey)
    (k : List Byte) : Prop where
  infoFills : FillsExactly (tlvSize (x25519Body k.length)) (x25519Write · k)
    (x25519PrivateKeyInfo k).encode
  info : ∀ format, format = .infoDer ∨ format = .infoPem →
    ((ecEncode key format true).exec h w s).value =
      allocated h s (x25519PrivateKeyInfo k).encode "PRIVATE KEY"
  readInfo : ∀ bs, Der.readPrivateKeyInfo bs = some (x25519PrivateKeyInfo k) ↔
    bs = (x25519PrivateKeyInfo k).encode
  readInner : ∀ bs, Der.readOnly 0x04 bs = some k ↔ bs = (x25519PrivateKeyInfo k).privateKey

/-- The same of an RSA key; its private key is inside as it stands. -/
structure RsaEncodings {σ : Type} (h : Handler (Call O) σ) (w : World) (s : σ) (key : ZucPkey)
    (pkcs1 : List Byte) : Prop where
  infoFills : FillsExactly (pkcs8Total pkcs1.length) (pkcs8Write · pkcs1)
    (rsaPrivateKeyInfo pkcs1).encode
  info : ∀ format, format = .infoDer ∨ format = .infoPem →
    ((rsaEncode key format true).exec h w s).value =
      allocated h s (rsaPrivateKeyInfo pkcs1).encode "PRIVATE KEY"
  readInfo : ∀ bs, Der.readPrivateKeyInfo bs = some (rsaPrivateKeyInfo pkcs1) ↔
    bs = (rsaPrivateKeyInfo pkcs1).encode
  inner : (rsaPrivateKeyInfo pkcs1).privateKey = pkcs1

section
variable {σ : Type} {h : Handler (Call O) σ} {w w' : World} {s s' : σ} {key : ZucPkey}

/-- The functions that measure an element and those that write it agree. -/
theorem lengthsAgree (tag : Byte) {contents : List Byte} (hle : contents.length ≤ 0xFFFF) :
    LengthsAgree tag contents where
  octets := derLength_eq hle
  size := tlvSize_eq hle tag rfl
  head := writes_tlvHead tag hle
  element := writes_tlv tag hle

/-- Both encodings of a key on a NIST curve. -/
theorem nistEncodings {point : HeapBytes} (hcurve : key.OnNistCurve)
    (hd : key.der.bytes.length = ecBytes key) (hq : point.bytes.length = 2 * ecBytes key + 1)
    (hpoint : (publicDer key).exec h w s = ⟨.ok point, w', s'⟩) :
    NistEncodings h w s s' key key.der.bytes point.bytes := by
  have hbytes := hcurve.ecBytes_le
  have hsec1Le := ecSec1Size_le key.type key.der.bytes.length point.bytes.length true
  have hinnerLe := ecSec1Size_le key.type key.der.bytes.length point.bytes.length false
  have hinfoLe := ecInfoSize_le key.type key.der.bytes.length point.bytes.length
  obtain ⟨hsec1, wsec1⟩ := ecSec1_exact key.type key.der.bytes point.bytes true (by omega)
  obtain ⟨hinner, -⟩ := ecSec1_exact key.type key.der.bytes point.bytes false (by omega)
  obtain ⟨hinfo, winfo⟩ := ecInfo_exact key.type key.der.bytes point.bytes (by omega)
  have fsec1 := wsec1.fillsExactly hsec1
  have finfo := winfo.fillsExactly hinfo
  -- none of the three is so long that its length could not be read back
  have hsec1Limit := lt_lengthLimit (n := (ecPrivateKey key.type key.der.bytes point.bytes true).encode.length)
    (by omega)
  have hinfoLimit := lt_lengthLimit (n := (ecPrivateKeyInfo key.type key.der.bytes point.bytes).encode.length)
    (by omega)
  have hinnerLimit := lt_lengthLimit (n := (ecPrivateKey key.type key.der.bytes point.bytes false).encode.length)
    (by omega)
  refine ⟨fsec1, finfo, ?_, ?_, readEcPrivateKey_iff hsec1Limit, readPrivateKeyInfo_iff hinfoLimit,
    readEcPrivateKey_iff hinnerLimit⟩
  · intro format hformat
    have hne : ∀ v, format ≠ .other v := by
      rintro v rfl
      simp at hformat
    exact exec_ecEncode true hne (decide_eq_true hformat) hcurve.type_ne hpoint
      (if_pos rfl) fsec1
  · intro format hformat
    have hne : ∀ v, format ≠ .other v := by
      rintro v rfl
      simp at hformat
    have hpkcs1 : decide (format = .pkcs1Der ∨ format = .pkcs1Pem) = false := by
      rcases hformat with rfl | rfl <;> decide
    exact exec_ecEncode false hne hpkcs1 hcurve.type_ne hpoint
      (if_neg Bool.false_ne_true) finfo

/-- The one of an X25519 key. -/
theorem x25519Encodings (htype : key.type = .x25519) (hk : key.der.bytes.length = 32) :
    X25519Encodings h w s key key.der.bytes := by
  have hsize : tlvSize (x25519Body key.der.bytes.length) = 48 := by
    rw [hk]
    rfl
  obtain ⟨hinfo, winfo⟩ := x25519_exact (k := key.der.bytes) (by omega)
  have finfo := winfo.fillsExactly hinfo
  have hencode : ∀ format, format = .infoDer ∨ format = .infoPem →
      (ecEncode key format true : Adapter O _) = x25519Encode key false := by
    rintro format (rfl | rfl) <;> simp [ecEncode, htype]
  have hinner : (Der.element 0x04 key.der.bytes).length < Der.lengthLimit := by
    refine lt_lengthLimit ?_
    rw [← tlvSize_eq (by omega) 0x04 rfl]
    exact Nat.le_trans (tlvSize_le _) (by omega)
  refine ⟨finfo, ?_, readPrivateKeyInfo_iff (lt_lengthLimit (by omega)), ?_⟩
  · intro format hformat
    rw [hencode format hformat, x25519Encode]
    simp only [Bool.false_eq_true, if_false, Proc.exec_bind, exec_encodeInto finfo, allocated]
    cases (h _ (.malloc (x25519PrivateKeyInfo key.der.bytes).encode.length) s).1 with
    | none => rfl
    | some p => rfl
  · exact fun bs => ⟨Der.eq_element_of_readOnly, fun hbs => hbs ▸ Der.readOnly_element 0x04 hinner⟩

/-- Both of an RSA key. -/
theorem rsaEncodings (hk : key.der.bytes.length ≤ 0xFFFF - 64) :
    RsaEncodings h w s key key.der.bytes := by
  obtain ⟨hinfo, winfo⟩ := pkcs8_exact hk
  have finfo := winfo.fillsExactly hinfo
  have hsize := pkcs8Total_le key.der.bytes.length
  have hencode : ∀ format, format = .infoDer ∨ format = .infoPem →
      (rsaEncode key format true : Adapter O _) =
        (do let der ← pkcs8Wrap key.der.bytes; return der.map (⟨·, "PRIVATE KEY"⟩)) := by
    rintro format (rfl | rfl) <;> rfl
  refine ⟨finfo, ?_, readPrivateKeyInfo_iff (lt_lengthLimit (by omega)), rfl⟩
  intro format hformat
  rw [hencode format hformat, Proc.exec_bind]
  exact exec_pkcs8Wrap hk finfo

end

/-! ### A known key -/

/-- The base point of P-521, which is the public key of the scalar 1. -/
def baseP521 : List Byte := 0x04 :: (Der.fixed 66 Ec.p521.gx ++ Der.fixed 66 Ec.p521.gy)

/-- A handle on the private key 1 of P-521. -/
def unitKey : ZucPkey where
  self := 1
  type := .ecP521
  ptype := .eccKeyPair .secpR1
  isPrivate := true
  bits := 521
  der := .holding 2 (Der.fixed 66 1)

/-- A backend that knows that key, and memory from an address on. -/
def unitBackend : Handler (Call referenceObjects) Nat
  | _, .psa (.importKey ..), s => (⟨(.success, 1), false⟩, s)
  | _, .psa (.getKeyAttributes _), s =>
    (⟨(.success, { type := .eccKeyPair .secpR1, bits := 521 }), false⟩, s)
  | _, .psa (.exportKey _ size), s =>
    (⟨(.success, ⟨Der.fixed 66 1 ++ List.replicate (size - 66) 0, 66⟩), false⟩, s)
  | _, .psa (.exportPublicKey ..), s => (⟨(.success, .full baseP521), false⟩, s)
  | _, .psa c, s => (⟨refusal c, false⟩, s)
  | _, .calloc _, s => (some s, s + 1)
  | _, .malloc n, s => (some s, s + n)
  | _, .freeRecord .., s => ((), s)
  | _, .freeBytes _, s => ((), s)
  | _, .dropLocal _, s => ((), s)
  | _, .allocRaw n, s => (s, s + n)

/-- Up to the longest contents that two octets of length can announce, the functions that
write and measure elements agree; and each private encoding is allocated at its size,
filled to its last byte, the standard encoding of the key, and read back from it. -/
theorem private_encodings_exact {σ : Type} (h : Handler (Call O) σ) (w : World) (s : σ) :
    (∀ tag contents, contents.length ≤ 0xFFFF → LengthsAgree tag contents) ∧
    (∀ (key : ZucPkey) (point : HeapBytes) (w' : World) (s' : σ), key.OnNistCurve →
      key.der.bytes.length = ecBytes key → point.bytes.length = 2 * ecBytes key + 1 →
      (publicDer key).exec h w s = ⟨.ok point, w', s'⟩ →
      NistEncodings h w s s' key key.der.bytes point.bytes) ∧
    (∀ key : ZucPkey, key.type = .x25519 → key.der.bytes.length = 32 →
      X25519Encodings h w s key key.der.bytes) ∧
    (∀ key : ZucPkey, key.type = .rsa → key.der.bytes.length ≤ 0xFFFF - 64 →
      RsaEncodings h w s key key.der.bytes) :=
  ⟨fun tag _ => lengthsAgree tag, fun _ _ _ _ => nistEncodings, fun _ => x25519Encodings,
    fun _ _ => rsaEncodings⟩

/-- The encodings of that key. -/
theorem private_encodings_exact_p521 :
    ∃ point w' s', (publicDer unitKey).exec unitBackend readyWorld 0x1000 = ⟨.ok point, w', s'⟩ ∧
      point.bytes = baseP521 ∧
      NistEncodings unitBackend readyWorld 0x1000 s' unitKey (Der.fixed 66 1) baseP521 := by
  have hpublic : ∃ point, ((publicDer unitKey).exec unitBackend readyWorld 0x1000).value = .ok point ∧
      point.bytes = baseP521 := ⟨_, rfl, by decide +kernel⟩
  obtain ⟨point, hvalue, hpoint⟩ := hpublic
  have hrun := Outcome.eq_of_value hvalue
  have hscalar : unitKey.der.bytes = Der.fixed 66 1 := by decide +kernel
  obtain ⟨-, hnist, -⟩ := private_encodings_exact unitBackend readyWorld 0x1000
  refine ⟨point, _, _, hrun, hpoint, ?_⟩
  rw [← hpoint, ← hscalar]
  refine hnist unitKey point _ _ (.inr (.inr ⟨rfl, rfl⟩)) ?_ ?_ hrun
  · rw [hscalar]
    decide +kernel
  · rw [hpoint]
    decide +kernel

end Zucrypt
