import Zucrypt.Der

/-! # Key formats

The ASN.1 structures private keys are exchanged in: `PrivateKeyInfo` of RFC 5208, which RFC 8410
uses too, and `ECPrivateKey` of RFC 5915, with object identifiers and sequences as far as they need
them.

Each has an encoder and a strict reader.  A reader takes what the encoder writes and no other
string, so that an encoding is the only one of its value.

The two directions are proved for each structure from those of its parts: `readX_encode`, that what
is written is read, and `eq_encode_of_readX`, that what is read was written.  The arcs of an object
identifier are read seven bits at a time, and `readArcs_continued` says what the octets before the
last come to. -/
namespace Der

/-! ### Sequences -/

/-- A tag, and contents. -/
abbrev Element : Type := UInt8 × Octets

/-- No length that needs more octets can be written. -/
def lengthLimit : Nat := 256 ^ 126

/-- Elements, one after the other. -/
def elements (es : List Element) : Octets := es.flatMap (fun e => element e.1 e.2)

@[simp] theorem elements_nil : elements [] = [] := rfl

@[simp] theorem elements_cons (e : Element) (es : List Element) :
    elements (e :: es) = element e.1 e.2 ++ elements es := rfl

theorem length_element (tag : UInt8) (contents : Octets) :
    (element tag contents).length =
      1 + (lengthOctets contents.length).length + contents.length := by
  simp only [element, List.length_cons, List.length_append]
  omega

theorem contents_lt_element (tag : UInt8) (contents : Octets) :
    contents.length < (element tag contents).length := by
  rw [length_element]
  omega

theorem length_le_elements {e : Element} {es : List Element} (h : e ∈ es) :
    e.2.length ≤ (elements es).length := by
  induction es with
  | nil => exact absurd h List.not_mem_nil
  | cons x es ih =>
    rw [elements_cons, List.length_append]
    rcases List.mem_cons.mp h with rfl | hmem
    · have := contents_lt_element e.1 e.2
      omega
    · have := ih hmem
      omega

/-- Read elements up to the end, at most `fuel` of them. -/
def readElements : Nat → Octets → Option (List Element)
  | _, [] => some []
  | 0, _ :: _ => none
  | fuel + 1, b :: bs =>
    match readElement (b :: bs) with
    | none => none
    | some (tag, contents, rest) => (readElements fuel rest).map ((tag, contents) :: ·)

/-- Read elements up to the end. -/
def readAll (bs : Octets) : Option (List Element) := readElements bs.length bs

theorem readElements_elements {es : List Element} (h : (elements es).length < lengthLimit)
    {fuel : Nat} (hfuel : (elements es).length ≤ fuel) :
    readElements fuel (elements es) = some es := by
  induction es generalizing fuel with
  | nil => cases fuel <;> rfl
  | cons e es ih =>
    obtain ⟨tag, contents⟩ := e
    have hlt := contents_lt_element tag contents
    simp only [elements_cons, List.length_append] at h hfuel
    have hshort : contents.length < lengthLimit := by omega
    have hread := readElement_element tag hshort (elements es)
    cases fuel with
    | zero => omega
    | succ fuel =>
      rw [elements_cons]
      rw [show element tag contents = tag :: (lengthOctets contents.length ++ contents) from rfl,
        List.cons_append] at hread ⊢
      rw [readElements, hread]
      simp only
      rw [ih (by omega) (by omega), Option.map_some]

theorem eq_elements_of_readElements {fuel : Nat} {bs : Octets} {es : List Element}
    (h : readElements fuel bs = some es) : bs = elements es := by
  induction fuel generalizing bs es with
  | zero =>
    cases bs with
    | nil => rw [← Option.some.inj h]; rfl
    | cons b bs => simp [readElements] at h
  | succ fuel ih =>
    cases bs with
    | nil => rw [← Option.some.inj h]; rfl
    | cons b bs =>
      rw [readElements] at h
      cases hread : readElement (b :: bs) with
      | none => simp [hread] at h
      | some r =>
        obtain ⟨tag, contents, rest⟩ := r
        simp only [hread] at h
        obtain ⟨es', hrest, rfl⟩ := Option.map_eq_some_iff.mp h
        rw [eq_element_of_readElement hread, ih hrest, elements_cons]

/-- The contents of a single element with this tag. -/
def readOnly (tag : UInt8) (bs : Octets) : Option Octets :=
  (readElement bs).bind (fun r => if r.1 = tag ∧ r.2.2 = [] then some r.2.1 else none)

theorem readOnly_element (tag : UInt8) {contents : Octets}
    (h : (element tag contents).length < lengthLimit) :
    readOnly tag (element tag contents) = some contents := by
  have hshort := Nat.lt_trans (contents_lt_element tag contents) h
  have hread := readElement_element tag hshort []
  rw [List.append_nil] at hread
  rw [readOnly, hread, Option.bind_some, if_pos ⟨rfl, rfl⟩]

theorem eq_element_of_readOnly {tag : UInt8} {bs contents : Octets}
    (h : readOnly tag bs = some contents) : bs = element tag contents := by
  obtain ⟨⟨t, c, rest⟩, hread, hif⟩ := Option.bind_eq_some_iff.mp h
  obtain ⟨⟨htag, hrest⟩, hc⟩ := Option.ite_none_right_eq_some.mp hif
  simp only [Option.some.injEq] at htag hrest hc
  subst htag hrest hc
  rw [eq_element_of_readElement hread, List.append_nil]

/-- A sequence. -/
def sequence (es : List Element) : Octets := element 0x30 (elements es)

/-- Read a sequence. -/
def readSequence (bs : Octets) : Option (List Element) := (readOnly 0x30 bs).bind readAll

theorem readSequence_sequence {es : List Element} (h : (sequence es).length < lengthLimit) :
    readSequence (sequence es) = some es := by
  have hes : (elements es).length < lengthLimit := Nat.lt_trans (contents_lt_element 0x30 _) h
  rw [readSequence, sequence, readOnly_element _ h, Option.bind_some]
  exact readElements_elements hes (Nat.le_refl _)

theorem eq_sequence_of_readSequence {bs : Octets} {es : List Element}
    (h : readSequence bs = some es) : bs = sequence es := by
  obtain ⟨contents, honly, hall⟩ := Option.bind_eq_some_iff.mp h
  rw [eq_element_of_readOnly honly, eq_elements_of_readElements hall, sequence]

/-- The contents of the first of some elements, which has this tag. -/
def expect (tag : UInt8) : List Element → Option (Octets × List Element)
  | [] => none
  | e :: es => if e.1 = tag then some (e.2, es) else none

@[simp] theorem expect_cons_self (tag : UInt8) (c : Octets) (es : List Element) :
    expect tag ((tag, c) :: es) = some (c, es) := if_pos rfl

theorem expect_eq_some {tag : UInt8} {es rest : List Element} {c : Octets} :
    expect tag es = some (c, rest) ↔ es = (tag, c) :: rest := by
  cases es with
  | nil => simp [expect]
  | cons e es =>
    obtain ⟨t, c'⟩ := e
    simp only [expect, Option.ite_none_right_eq_some, Option.some.injEq, Prod.mk.injEq,
      List.cons.injEq, and_assoc]

/-- The number an unsigned integer's contents stand for, written with no octet more. -/
def readUnsigned (c : Octets) : Option Nat :=
  if unsigned (value c) = c then some (value c) else none

@[simp] theorem readUnsigned_unsigned (n : Nat) : readUnsigned (unsigned n) = some n := by
  rw [readUnsigned, value_unsigned, if_pos rfl]

theorem eq_unsigned_of_readUnsigned {c : Octets} {n : Nat} (h : readUnsigned c = some n) :
    c = unsigned n := by
  obtain ⟨hc, hn⟩ := Option.ite_none_right_eq_some.mp h
  rw [← Option.some.inj hn, hc]

/-! ### Object identifiers -/

/-- An object identifier, by its arcs. -/
structure Oid where
  root : Nat
  second : Nat
  rest : List Nat
  root_le : root ≤ 2
  second_lt : root < 2 → second < 40
  deriving DecidableEq, Repr

/-- A number in base 128, the first bit of every octet but the last set. -/
def arc (n : Nat) : Octets :=
  ((Nat.digits 128 (n / 128)).reverse.map (fun d => UInt8.ofNat (128 + d))) ++
    [UInt8.ofNat (n % 128)]

/-- The numbers octets stand for in base 128, `acc` being what was read of the first. -/
def readArcs : Nat → Octets → List Nat
  | _, [] => []
  | acc, b :: bs =>
    if b.toNat < 128 then (128 * acc + b.toNat) :: readArcs 0 bs
    else readArcs (128 * acc + (b.toNat - 128)) bs

/-- The contents of an object identifier: its first two arcs are one number. -/
def Oid.contents (o : Oid) : Octets := ((40 * o.root + o.second) :: o.rest).flatMap arc

/-- The object identifier of some numbers. -/
def Oid.ofArcs : List Nat → Option Oid
  | [] => none
  | n :: rest =>
    if h : n < 40 then some ⟨0, n, rest, by omega, fun _ => h⟩
    else if h' : n < 80 then some ⟨1, n - 40, rest, by omega, fun _ => by omega⟩
    else some ⟨2, n - 80, rest, by omega, fun h => by omega⟩

/-- Read an object identifier, written with no octet more than it needs. -/
def readOid (c : Octets) : Option Oid :=
  (Oid.ofArcs (readArcs 0 c)).bind (fun o => if o.contents = c then some o else none)

theorem readArcs_continued (ds : List Nat) (hds : ∀ d ∈ ds, d < 128) (acc : Nat) (bs : Octets) :
    readArcs acc (ds.map (fun d => UInt8.ofNat (128 + d)) ++ bs) =
      readArcs (ds.foldl (fun acc d => 128 * acc + d) acc) bs := by
  induction ds generalizing acc with
  | nil => rfl
  | cons d ds ih =>
    have hd : d < 128 := hds d List.mem_cons_self
    have hb : (UInt8.ofNat (128 + d)).toNat = 128 + d :=
      UInt8.toNat_ofNat_of_lt' (show _ < 256 by omega)
    rw [List.map_cons, List.cons_append, readArcs, hb, if_neg (by omega), List.foldl_cons,
      ih (fun x hx => hds x (List.mem_cons_of_mem d hx)), show 128 + d - 128 = d by omega]

theorem readArcs_arc (n : Nat) (bs : Octets) : readArcs 0 (arc n ++ bs) = n :: readArcs 0 bs := by
  have hdigits : ∀ d ∈ (Nat.digits 128 (n / 128)).reverse, d < 128 :=
    fun d hd => Nat.digits_lt_base (by decide) (List.mem_reverse.mp hd)
  have hfold : (Nat.digits 128 (n / 128)).reverse.foldl (fun acc d => 128 * acc + d) 0 = n / 128 := by
    rw [List.foldl_reverse]
    refine Eq.trans ?_ (Nat.ofDigits_digits 128 (n / 128))
    rw [Nat.ofDigits_eq_foldr]
    exact congrArg (fun f => List.foldr f 0 _) (by funext d acc; exact Nat.add_comm _ _)
  have hlow : (UInt8.ofNat (n % 128)).toNat = n % 128 :=
    UInt8.toNat_ofNat_of_lt' (show _ < 256 by omega)
  rw [arc, List.append_assoc, readArcs_continued _ hdigits, hfold, List.singleton_append, readArcs,
    hlow, if_pos (by omega), Nat.div_add_mod]

theorem readArcs_flatMap (ns : List Nat) : readArcs 0 (ns.flatMap arc) = ns := by
  induction ns with
  | nil => rfl
  | cons n ns ih => rw [List.flatMap_cons, readArcs_arc, ih]

theorem Oid.ofArcs_arcs (o : Oid) : Oid.ofArcs ((40 * o.root + o.second) :: o.rest) = some o := by
  obtain ⟨root, second, rest, hroot, hsecond⟩ := o
  simp only [Oid.ofArcs]
  interval_cases root
  · have := hsecond (by decide)
    rw [dif_pos (by omega)]
    simp
  · have := hsecond (by decide)
    rw [dif_neg (by omega), dif_pos (by omega)]
    simp
  · rw [dif_neg (by omega), dif_neg (by omega)]
    simp

@[simp] theorem readOid_contents (o : Oid) : readOid o.contents = some o := by
  rw [readOid, Oid.contents, readArcs_flatMap, Oid.ofArcs_arcs, Option.bind_some]
  exact if_pos rfl

theorem eq_contents_of_readOid {c : Octets} {o : Oid} (h : readOid c = some o) :
    c = o.contents := by
  obtain ⟨o', -, hif⟩ := Option.bind_eq_some_iff.mp h
  obtain ⟨hc, ho⟩ := Option.ite_none_right_eq_some.mp hif
  rw [← Option.some.inj ho, hc]

/-- `id-ecPublicKey` of RFC 5480. -/
def Oid.ecPublicKey : Oid := ⟨1, 2, [840, 10045, 2, 1], by decide, by decide⟩

def Oid.secp256r1 : Oid := ⟨1, 2, [840, 10045, 3, 1, 7], by decide, by decide⟩

def Oid.secp384r1 : Oid := ⟨1, 3, [132, 0, 34], by decide, by decide⟩

def Oid.secp521r1 : Oid := ⟨1, 3, [132, 0, 35], by decide, by decide⟩

/-- `id-X25519` of RFC 8410. -/
def Oid.x25519 : Oid := ⟨1, 3, [101, 110], by decide, by decide⟩

/-- `rsaEncryption` of RFC 8017. -/
def Oid.rsaEncryption : Oid := ⟨1, 2, [840, 113549, 1, 1, 1], by decide, by decide⟩

/-! ### Algorithm identifiers -/

/-- The parameters of an algorithm identifier, of the kinds keys have. -/
inductive Parameters where
  | absent
  | null
  | named (curve : Oid)
  deriving DecidableEq, Repr

/-- They are at most one element. -/
def Parameters.toElements : Parameters → List Element
  | .absent => []
  | .null => [(0x05, [])]
  | .named curve => [(0x06, curve.contents)]

def readParameters : List Element → Option Parameters
  | [] => some .absent
  | [e] =>
    if e = (0x05, []) then some .null
    else if e.1 = 0x06 then (readOid e.2).map .named
    else none
  | _ => none

@[simp] theorem readParameters_toElements (p : Parameters) :
    readParameters p.toElements = some p := by
  cases p with
  | absent => rfl
  | null => rfl
  | named curve =>
    rw [Parameters.toElements, readParameters, if_neg (fun h => by simp at h), if_pos rfl,
      readOid_contents]
    rfl

theorem eq_toElements_of_readParameters {es : List Element} {p : Parameters}
    (h : readParameters es = some p) : es = p.toElements := by
  match es with
  | [] => rw [← Option.some.inj h]; rfl
  | [e] =>
    rw [readParameters] at h
    split at h
    · rename_i he
      rw [← Option.some.inj h, he]
      rfl
    · obtain ⟨htag, h⟩ := Option.ite_none_right_eq_some.mp h
      obtain ⟨curve, hcurve, rfl⟩ := Option.map_eq_some_iff.mp h
      rw [Parameters.toElements, ← eq_contents_of_readOid hcurve, ← htag]
  | _ :: _ :: _ => simp [readParameters] at h

/-- `AlgorithmIdentifier`. -/
structure AlgorithmIdentifier where
  algorithm : Oid
  parameters : Parameters
  deriving DecidableEq, Repr

/-- What is inside its sequence. -/
def AlgorithmIdentifier.contents (a : AlgorithmIdentifier) : Octets :=
  elements ((0x06, a.algorithm.contents) :: a.parameters.toElements)

def readAlgorithm (c : Octets) : Option AlgorithmIdentifier :=
  (readAll c).bind fun es =>
  (expect 0x06 es).bind fun oid =>
  (readOid oid.1).bind fun algorithm =>
  (readParameters oid.2).map fun parameters => ⟨algorithm, parameters⟩

theorem readAlgorithm_contents {a : AlgorithmIdentifier} (h : a.contents.length < lengthLimit) :
    readAlgorithm a.contents = some a := by
  have hall := readElements_elements h (Nat.le_refl _)
  rw [readAlgorithm, readAll, AlgorithmIdentifier.contents, hall]
  simp

theorem eq_contents_of_readAlgorithm {c : Octets} {a : AlgorithmIdentifier}
    (h : readAlgorithm c = some a) : c = a.contents := by
  simp only [readAlgorithm, Option.bind_eq_some_iff, Option.map_eq_some_iff] at h
  obtain ⟨es, hall, ⟨oid, ps⟩, hoid, algorithm, hread, parameters, hps, rfl⟩ := h
  have hoid' : oid = algorithm.contents := eq_contents_of_readOid hread
  have hps' : ps = parameters.toElements := eq_toElements_of_readParameters hps
  rw [eq_elements_of_readElements hall, expect_eq_some.mp hoid, hoid', hps']
  rfl

/-! ### `PrivateKeyInfo` -/

/-- `PrivateKeyInfo` of RFC 5208, without attributes. -/
structure PrivateKeyInfo where
  version : Nat
  algorithm : AlgorithmIdentifier
  privateKey : Octets
  deriving DecidableEq, Repr

def PrivateKeyInfo.encode (k : PrivateKeyInfo) : Octets :=
  sequence [(0x02, unsigned k.version), (0x30, k.algorithm.contents), (0x04, k.privateKey)]

def readPrivateKeyInfo (bs : Octets) : Option PrivateKeyInfo :=
  (readSequence bs).bind fun es =>
  (expect 0x02 es).bind fun v =>
  (readUnsigned v.1).bind fun version =>
  (expect 0x30 v.2).bind fun a =>
  (readAlgorithm a.1).bind fun algorithm =>
  (expect 0x04 a.2).bind fun k =>
  if k.2 = [] then some ⟨version, algorithm, k.1⟩ else none

theorem readPrivateKeyInfo_encode {k : PrivateKeyInfo} (h : k.encode.length < lengthLimit) :
    readPrivateKeyInfo k.encode = some k := by
  have hcontents := Nat.lt_trans (contents_lt_element 0x30 _) h
  have halg : k.algorithm.contents.length < lengthLimit :=
    Nat.lt_of_le_of_lt (length_le_elements (e := (0x30, k.algorithm.contents)) (by simp)) hcontents
  rw [readPrivateKeyInfo, PrivateKeyInfo.encode, readSequence_sequence h]
  simp [readAlgorithm_contents halg]

theorem eq_encode_of_readPrivateKeyInfo {bs : Octets} {k : PrivateKeyInfo}
    (h : readPrivateKeyInfo bs = some k) : bs = k.encode := by
  simp only [readPrivateKeyInfo, Option.bind_eq_some_iff, Option.ite_none_right_eq_some,
    Option.some.injEq] at h
  obtain ⟨es, hseq, ⟨v, es₁⟩, hv, version, hversion, ⟨a, es₂⟩, ha, algorithm, halg, ⟨key, es₃⟩, hkey,
    rfl, rfl⟩ := h
  have hes₂ : es₂ = [(0x04, key)] := expect_eq_some.mp hkey
  have hes₁ : es₁ = (0x30, a) :: es₂ := expect_eq_some.mp ha
  have hv' : v = unsigned version := eq_unsigned_of_readUnsigned hversion
  have ha' : a = algorithm.contents := eq_contents_of_readAlgorithm halg
  rw [eq_sequence_of_readSequence hseq, expect_eq_some.mp hv, hes₁, hes₂, hv', ha']
  rfl

/-! ### `ECPrivateKey` -/

/-- An element that may be missing. -/
def optional {α : Type} (tag : UInt8) (encode : α → Octets) (o : Option α) : List Element :=
  (o.map (fun a => (tag, encode a))).toList

/-- Read an element that may be missing. -/
def readOptional {α : Type} (tag : UInt8) (read : Octets → Option α) :
    List Element → Option (Option α × List Element)
  | [] => some (none, [])
  | e :: es => if e.1 = tag then (read e.2).map (fun a => (some a, es)) else some (none, e :: es)

theorem readOptional_optional {α : Type} {tag : UInt8} {read : Octets → Option α}
    {encode : α → Octets} {o : Option α} (hread : ∀ a ∈ o, read (encode a) = some a)
    {es : List Element} (hes : ∀ e ∈ es.head?, e.1 ≠ tag) :
    readOptional tag read (optional tag encode o ++ es) = some (o, es) := by
  cases o with
  | none =>
    cases es with
    | nil => rfl
    | cons e es => exact if_neg (hes e rfl)
  | some a =>
    show readOptional tag read ((tag, encode a) :: es) = _
    rw [readOptional, if_pos rfl, hread a rfl, Option.map_some]

theorem eq_optional_of_readOptional {α : Type} {tag : UInt8} {read : Octets → Option α}
    {encode : α → Octets} {o : Option α} (hread : ∀ {c a}, read c = some a → c = encode a)
    {es rest : List Element} (h : readOptional tag read es = some (o, rest)) :
    es = optional tag encode o ++ rest := by
  cases es with
  | nil =>
    obtain ⟨rfl, rfl⟩ := Prod.mk.inj (Option.some.inj h)
    rfl
  | cons e es =>
    rw [readOptional] at h
    split at h
    · rename_i htag
      obtain ⟨a, ha, hpair⟩ := Option.map_eq_some_iff.mp h
      obtain ⟨rfl, rfl⟩ := Prod.mk.inj hpair
      show e :: es = (tag, encode a) :: es
      rw [← hread ha, ← htag]
    · obtain ⟨rfl, rfl⟩ := Prod.mk.inj (Option.some.inj h)
      rfl

/-- `ECPrivateKey` of RFC 5915. -/
structure EcPrivateKey where
  version : Nat
  privateKey : Octets
  parameters : Option Oid
  publicKey : Option Octets
  deriving DecidableEq, Repr

/-- `[0]`, around the identifier of a curve. -/
def curveParameter (curve : Oid) : Octets := element 0x06 curve.contents

/-- `[1]`, around a bit string that ends on a whole octet. -/
def wholeBits (bits : Octets) : Octets := element 0x03 (0x00 :: bits)

def readCurve (c : Octets) : Option Oid := (readOnly 0x06 c).bind readOid

def readWholeBits (c : Octets) : Option Octets :=
  (readOnly 0x03 c).bind fun bits =>
    match bits with
    | [] => none
    | unused :: bits => if unused = 0 then some bits else none

def EcPrivateKey.encode (k : EcPrivateKey) : Octets :=
  sequence ((0x02, unsigned k.version) :: (0x04, k.privateKey) ::
    (optional 0xa0 curveParameter k.parameters ++ optional 0xa1 wholeBits k.publicKey))

def readEcPrivateKey (bs : Octets) : Option EcPrivateKey :=
  (readSequence bs).bind fun es =>
  (expect 0x02 es).bind fun v =>
  (readUnsigned v.1).bind fun version =>
  (expect 0x04 v.2).bind fun d =>
  (readOptional 0xa0 readCurve d.2).bind fun p =>
  (readOptional 0xa1 readWholeBits p.2).bind fun q =>
  if q.2 = [] then some ⟨version, d.1, p.1, q.1⟩ else none

theorem readCurve_curveParameter {curve : Oid} (h : (curveParameter curve).length < lengthLimit) :
    readCurve (curveParameter curve) = some curve := by
  rw [readCurve, curveParameter, readOnly_element _ h, Option.bind_some, readOid_contents]

theorem eq_curveParameter_of_readCurve {c : Octets} {curve : Oid} (h : readCurve c = some curve) :
    c = curveParameter curve := by
  obtain ⟨contents, honly, hoid⟩ := Option.bind_eq_some_iff.mp h
  rw [eq_element_of_readOnly honly, eq_contents_of_readOid hoid, curveParameter]

theorem readWholeBits_wholeBits {bits : Octets} (h : (wholeBits bits).length < lengthLimit) :
    readWholeBits (wholeBits bits) = some bits := by
  rw [readWholeBits, wholeBits, readOnly_element _ h, Option.bind_some]
  rfl

theorem eq_wholeBits_of_readWholeBits {c bits : Octets} (h : readWholeBits c = some bits) :
    c = wholeBits bits := by
  obtain ⟨contents, honly, hbits⟩ := Option.bind_eq_some_iff.mp h
  cases contents with
  | nil => simp at hbits
  | cons unused rest =>
    obtain ⟨hunused, hrest⟩ := Option.ite_none_right_eq_some.mp hbits
    rw [eq_element_of_readOnly honly, hunused, Option.some.inj hrest, wholeBits]

theorem readEcPrivateKey_encode {k : EcPrivateKey} (h : k.encode.length < lengthLimit) :
    readEcPrivateKey k.encode = some k := by
  have hcontents := Nat.lt_trans (contents_lt_element 0x30 _) h
  have hcurve : ∀ curve ∈ k.parameters, readCurve (curveParameter curve) = some curve := by
    intro curve hmem
    refine readCurve_curveParameter (Nat.lt_of_le_of_lt ?_ hcontents)
    refine length_le_elements (e := (0xa0, curveParameter curve)) ?_
    rw [Option.mem_def.mp hmem]
    simp [optional]
  have hbits : ∀ bits ∈ k.publicKey, readWholeBits (wholeBits bits) = some bits := by
    intro bits hmem
    refine readWholeBits_wholeBits (Nat.lt_of_le_of_lt ?_ hcontents)
    refine length_le_elements (e := (0xa1, wholeBits bits)) ?_
    rw [Option.mem_def.mp hmem]
    simp [optional]
  have hhead : ∀ e ∈ (optional 0xa1 wholeBits k.publicKey).head?, e.1 ≠ 0xa0 := by
    intro e he
    cases hq : k.publicKey with
    | none => simp [hq, optional] at he
    | some q =>
      simp only [hq, optional, Option.map_some, Option.toList_some, List.head?_cons,
        Option.mem_def, Option.some.injEq] at he
      rw [← he]
      show (0xa1 : UInt8) ≠ 0xa0
      decide
  have hlast : readOptional 0xa1 readWholeBits (optional 0xa1 wholeBits k.publicKey) =
      some (k.publicKey, []) := by
    rw [← List.append_nil (optional _ _ _)]
    exact readOptional_optional hbits (by simp)
  rw [readEcPrivateKey, EcPrivateKey.encode, readSequence_sequence h]
  simp [readOptional_optional hcurve hhead, hlast]

theorem eq_encode_of_readEcPrivateKey {bs : Octets} {k : EcPrivateKey}
    (h : readEcPrivateKey bs = some k) : bs = k.encode := by
  simp only [readEcPrivateKey, Option.bind_eq_some_iff, Option.ite_none_right_eq_some,
    Option.some.injEq] at h
  obtain ⟨es, hseq, ⟨v, es₁⟩, hv, version, hversion, ⟨d, es₂⟩, hd, ⟨p, es₃⟩, hp, ⟨q, es₄⟩, hq,
    rfl, rfl⟩ := h
  have hes₃ : es₃ = optional 0xa1 wholeBits q ++ [] :=
    eq_optional_of_readOptional eq_wholeBits_of_readWholeBits hq
  have hes₂ : es₂ = optional 0xa0 curveParameter p ++ es₃ :=
    eq_optional_of_readOptional eq_curveParameter_of_readCurve hp
  have hes₁ : es₁ = (0x04, d) :: es₂ := expect_eq_some.mp hd
  have hv' : v = unsigned version := eq_unsigned_of_readUnsigned hversion
  rw [eq_sequence_of_readSequence hseq, expect_eq_some.mp hv, hes₁, hes₂, hes₃, hv',
    List.append_nil]
  rfl

end Der
