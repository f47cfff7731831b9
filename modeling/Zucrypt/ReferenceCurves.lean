import Zucrypt.EcCoordinates

/-! # A theory of EC keys

`curveTheory` reads points and scalars for what they are, and takes no other key.  The public point
of a scalar is the multiple of the base point.

It keeps `EcTheory` (`curveTheory_ec`), for all three curves and over the parameters of `EcCurves`.
The curves and their arithmetic are those of `EcCurves`, and are computed.  That a multiple of the
base point is on the curve is not proved there, so `basePoint` looks. -/
namespace Zucrypt
open Effects ByteMemory

/-- The curve whose points have this length, uncompressed. -/
def curveOfPoint (len : Nat) : Option NistCurve :=
  if len = 65 then some .p256 else if len = 97 then some .p384 else if len = 133 then some .p521 else none

/-- The curve whose scalars have this length. -/
def curveOfScalar (len : Nat) : Option NistCurve :=
  if len = 32 then some .p256 else if len = 48 then some .p384 else if len = 66 then some .p521 else none

theorem curveOfPoint_eq_some {len : Nat} {c : NistCurve} :
    curveOfPoint len = some c ↔ len = 2 * c.bytes + 1 := by
  unfold curveOfPoint
  cases c <;> simp only [NistCurve.bytes] <;> split_ifs <;> simp_all

theorem curveOfScalar_eq_some {len : Nat} {c : NistCurve} :
    curveOfScalar len = some c ↔ len = c.bytes := by
  unfold curveOfScalar
  cases c <;> simp only [NistCurve.bytes] <;> split_ifs <;> simp_all

/-- The coordinates in the bytes of a point. -/
def coordinates (c : NistCurve) (data : List Byte) : Nat × Nat :=
  (Der.value ((data.drop 1).take c.bytes), Der.value (data.drop (1 + c.bytes)))

/-- The EC key these bytes are the material of. -/
def readEc (type : PsaKeyType) (data : List Byte) : Option RefKey :=
  match type with
  | .eccPublicKey .secpR1 =>
    (curveOfPoint data.length).bind fun c =>
      if data.head? = some 0x04 ∧ c.params.Contains (coordinates c data).1 (coordinates c data).2 then
        some ⟨.eccPublicKey .secpR1, c.bits, data⟩
      else
        none
  | .eccKeyPair .secpR1 =>
    (curveOfScalar data.length).bind fun c =>
      if c.params.InRange (Der.value data) then some ⟨.eccKeyPair .secpR1, c.bits, data⟩ else none
  | _ => none

theorem coordinates_point {c : NistCurve} {x y : Nat} (hx : x < 256 ^ c.bytes) :
    coordinates c (c.point x y) = (x, y) := by
  have hlen := Der.length_fixed hx
  have hfst : ((c.point x y).drop 1).take c.bytes = Der.fixed c.bytes x := by
    rw [NistCurve.point, List.drop_succ_cons, List.drop_zero, List.take_left' hlen]
  have hsnd : (c.point x y).drop (1 + c.bytes) = Der.fixed c.bytes y := by
    rw [NistCurve.point, Nat.add_comm, List.drop_succ_cons, List.drop_left' hlen]
  rw [coordinates, hfst, hsnd, Der.value_fixed, Der.value_fixed]

/-- Bytes of the length of a point, of this form, are the point of their coordinates. -/
theorem eq_point {c : NistCurve} {data : List Byte} (hlen : data.length = 2 * c.bytes + 1)
    (hhead : data.head? = some 0x04) :
    data = c.point (coordinates c data).1 (coordinates c data).2 := by
  cases data with
  | nil => cases hhead
  | cons b body =>
    obtain rfl : b = 0x04 := Option.some.inj hhead
    have hbody : body.length = 2 * c.bytes := Nat.succ.inj hlen
    have hfst : Der.fixed c.bytes (coordinates c (0x04 :: body)).1 = body.take c.bytes := by
      have hvalue := Der.fixed_value (body.take c.bytes)
      rwa [List.length_take, Nat.min_eq_left (by omega)] at hvalue
    have hsnd : Der.fixed c.bytes (coordinates c (0x04 :: body)).2 = body.drop c.bytes := by
      have hdrop : (0x04 :: body).drop (1 + c.bytes) = body.drop c.bytes := by
        rw [Nat.add_comm, List.drop_succ_cons]
      have hvalue := Der.fixed_value (body.drop c.bytes)
      rw [coordinates, hdrop]
      rwa [List.length_drop, hbody, Nat.two_mul, Nat.add_sub_cancel] at hvalue
    rw [NistCurve.point, hfst, hsnd, List.take_append_drop]

theorem readEc_public_iff {data : List Byte} {key : RefKey} :
    readEc (.eccPublicKey .secpR1) data = some key ↔
      ∃ c x y, c.params.Contains x y ∧ data = c.point x y ∧ key = ecPublicRef c x y := by
  constructor
  · intro h
    obtain ⟨c, hc, h⟩ := Option.bind_eq_some_iff.mp h
    obtain ⟨⟨hhead, hon⟩, hkey⟩ := Option.ite_none_right_eq_some.mp h
    have hdata := eq_point (curveOfPoint_eq_some.mp hc) hhead
    exact ⟨c, _, _, hon, hdata, by rw [ecPublicRef, ← hdata, ← Option.some.inj hkey]⟩
  · rintro ⟨c, x, y, hon, rfl, rfl⟩
    obtain ⟨hx, hy⟩ := Contains.lt hon
    refine Option.bind_eq_some_iff.mpr ⟨c, curveOfPoint_eq_some.mpr (length_point hx hy), ?_⟩
    rw [coordinates_point hx]
    exact if_pos ⟨rfl, hon⟩

theorem readEc_private_iff {data : List Byte} {key : RefKey} :
    readEc (.eccKeyPair .secpR1) data = some key ↔
      ∃ c d, c.params.InRange d ∧ data = Der.fixed c.bytes d ∧ key = ecPrivateRef c d := by
  constructor
  · intro h
    obtain ⟨c, hc, h⟩ := Option.bind_eq_some_iff.mp h
    obtain ⟨hin, hkey⟩ := Option.ite_none_right_eq_some.mp h
    have hdata : data = Der.fixed c.bytes (Der.value data) := by
      rw [← curveOfScalar_eq_some.mp hc, Der.fixed_value]
    exact ⟨c, _, hin, hdata, by rw [ecPrivateRef, ← hdata, ← Option.some.inj hkey]⟩
  · rintro ⟨c, d, hin, rfl, rfl⟩
    have hlen := Der.length_fixed (InRange.lt hin)
    refine Option.bind_eq_some_iff.mpr ⟨c, curveOfScalar_eq_some.mpr hlen, ?_⟩
    rw [Der.value_fixed]
    exact if_pos hin

/-- The multiple of the base point, which is on the curve. -/
def basePoint (c : NistCurve) (d : Nat) : Nat × Nat :=
  let q := c.params.publicPoint d
  if c.params.Contains q.1 q.2 then q else (c.params.gx, c.params.gy)

theorem contains_base (c : NistCurve) : c.params.Contains c.params.gx c.params.gy := by
  cases c <;> decide +kernel

theorem contains_basePoint (c : NistCurve) (d : Nat) :
    c.params.Contains (basePoint c d).1 (basePoint c d).2 := by
  unfold basePoint
  simp only
  split
  · assumption
  · exact contains_base c

/-- The public half of a scalar, as far as it is one. -/
def ecPublicHalf (key : RefKey) : RefKey :=
  if key.type.isKeyPair then
    { type := key.type.publicKey, bits := key.bits,
      material := ((curveOfScalar key.material.length).map fun c =>
        c.point (basePoint c (Der.value key.material)).1 (basePoint c (Der.value key.material)).2).getD [] }
  else
    key

theorem ecPublicHalf_private {c : NistCurve} {d : Nat} (hin : c.params.InRange d) :
    ecPublicHalf (ecPrivateRef c d) = ecPublicRef c (basePoint c d).1 (basePoint c d).2 := by
  have hcurve : curveOfScalar (ecPrivateRef c d).material.length = some c :=
    curveOfScalar_eq_some.mpr (Der.length_fixed (InRange.lt hin))
  have hvalue : Der.value (ecPrivateRef c d).material = d := Der.value_fixed _ _
  have hpair : (ecPrivateRef c d).type.isKeyPair = true := rfl
  rw [ecPublicHalf, if_pos hpair, hcurve, hvalue]
  rfl

theorem readEc_eq_none {type : PsaKeyType} {data : List Byte} (hpublic : type ≠ .eccPublicKey .secpR1)
    (hpair : type ≠ .eccKeyPair .secpR1) : readEc type data = none := by
  unfold readEc
  split
  · exact absurd rfl hpublic
  · exact absurd rfl hpair
  · rfl

/-- A key that is read is of one of two kinds. -/
theorem of_readEc {type : PsaKeyType} {data : List Byte} {key : RefKey} (h : readEc type data = some key) :
    (∃ c x y, c.params.Contains x y ∧ type = .eccPublicKey .secpR1 ∧ key = ecPublicRef c x y) ∨
      ∃ c d, c.params.InRange d ∧ type = .eccKeyPair .secpR1 ∧ key = ecPrivateRef c d := by
  by_cases hpublic : type = .eccPublicKey .secpR1
  · subst hpublic
    obtain ⟨c, x, y, hon, -, hkey⟩ := readEc_public_iff.mp h
    exact .inl ⟨c, x, y, hon, rfl, hkey⟩
  · by_cases hpair : type = .eccKeyPair .secpR1
    · subst hpair
      obtain ⟨c, d, hin, -, hkey⟩ := readEc_private_iff.mp h
      exact .inr ⟨c, d, hin, rfl, hkey⟩
    · rw [readEc_eq_none hpublic hpair] at h
      cases h

/-- A theory of EC keys, of no files. -/
def curveTheory : KeyTheory keyObjects where
  read := readEc
  publicHalf := ecPublicHalf
  readFile _ := none
  held pk := pk
  read_type {type data key} h := by
    obtain ⟨c, x, y, -, rfl, rfl⟩ | ⟨c, d, -, rfl, rfl⟩ := of_readEc h
    · rfl
    · rfl
  read_material {type data key} h := by
    obtain ⟨c, x, y, hon, rfl, rfl⟩ | ⟨c, d, hin, rfl, rfl⟩ := of_readEc h
    · exact readEc_public_iff.mpr ⟨c, x, y, hon, rfl, rfl⟩
    · exact readEc_private_iff.mpr ⟨c, d, hin, rfl, rfl⟩
  publicHalf_type key := by
    unfold ecPublicHalf
    cases htype : key.type <;> simp [PsaKeyType.isKeyPair, PsaKeyType.publicKey, htype]
  publicHalf_bits key := by
    unfold ecPublicHalf
    split <;> rfl
  publicHalf_read {key} h := by
    obtain ⟨c, x, y, hon, -, rfl⟩ | ⟨c, d, hin, -, rfl⟩ := of_readEc h
    · exact h
    · rw [ecPublicHalf_private hin]
      exact readEc_public_iff.mpr ⟨c, _, _, contains_basePoint c d, rfl, rfl⟩
  publicHalf_public {key} h := by
    rw [ecPublicHalf, if_neg (by simp [h])]

theorem curveTheory_ec : EcTheory curveTheory basePoint where
  public_iff := readEc_public_iff
  private_iff := readEc_private_iff
  publicHalf := ecPublicHalf_private

end Zucrypt
