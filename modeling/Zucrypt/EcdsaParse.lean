import Zucrypt.RDer
import Zucrypt.RValues

/-! # ECDSA signatures, parsed

`crypt_ecdsa_parse` of `R/ec.R` takes what `der_integers` makes of its argument, when that is two
numbers.  Here is what `der_integers` takes, as a grammar: the length of the sequence is ignored,
lengths may have any form, and the last integer may run past the end, where it reads zeros.
`ecdsa_raw`, which encodes again and compares, is in `RDer`.

`LooseSignature` is that grammar at two integers.  The reader takes what the grammar describes
(`integersFrom_of_integers`) and nothing else (`integers_of_integersFrom`), so two numbers are read
of a vector exactly if it is loosely a signature.

`cryptEcdsaParse_exact_iff` compares with DER.  `ParsesExactly` is what an exact parser does with a
vector: it gives numbers only of the one encoding they have, invents no byte, and refuses all else
as an invalid argument.  It holds exactly if the vector is not loosely a signature, or is the DER
encoding of two numbers `cumsum` can count; `signatureSaidEmpty` is a vector where it fails.

The vector may be any raw vector R can have (`hraw`, `hlen`).  The bound on nonzero bytes
(`IsCountableSignature`) is where `cumsum` of a logical vector stops being a count, at 2^31 of them. -/
namespace Zucrypt.R
open ByteMemory

/-! ### The entry point -/

/-- The condition of `crypt_ecdsa_parse`. -/
def notASignature : Condition :=
  zucryptAbort "zucrypt_invalid_argument" "`sig` is not a DER ECDSA signature." (some "ecdsa") none

/-- `crypt_ecdsa_parse`. -/
def cryptEcdsaParse (m : Memory) (sig : Sexp) : Except Condition (List Byte × List Byte) := do
  checkRaw sig "sig" (some "ecdsa")
  match derIntegers (sig.bytes m) with
  | some [r, s] =>
    if (sig.bytes m).head? ≠ some 0x30 then throw notASignature
    return (r, s)
  | _ => throw notASignature

/-! ### What `der_integers` takes -/

/-- A length, in any form: the octets, and what they say. -/
inductive LengthField : List Byte → Nat → Prop where
  | short (b : Byte) (h : b.toNat < 128) : LengthField [b] b.toNat
  | long (b : Byte) (os : List Byte) (h : 128 ≤ b.toNat) (hlen : os.length = b.toNat - 128) :
      LengthField (b :: os) (Der.value os)

/-- A run of integers, and what is read of them.  Each is a tag, a length and contents;
the last may be cut anywhere after the first octet of its length, and then reads zeros. -/
inductive Integers : List Byte → List (List Byte) → Prop where
  | nil : Integers [] []
  | cons {l c rest : List Byte} {vs : List (List Byte)} (hl : LengthField l c.length)
      (hc : c.length ≤ VECTOR_MAX) (hrest : Integers rest vs) :
      Integers (0x02 :: (l ++ (c ++ rest))) (orZero (stripZeros c) :: vs)
  | cut {bs l c : List Byte} (pad : Nat) (hl : LengthField l c.length)
      (hc : c.length ≤ VECTOR_MAX) (hbs : bs ++ List.replicate pad 0 = 0x02 :: (l ++ c))
      (hcut : 2 ≤ bs.length) : Integers bs [orZero (stripZeros c)]

/-- Two integers after the tag of a sequence and some length. -/
def LooseSignature (sig : List Byte) : Prop :=
  ∃ (l : List Byte) (n : Nat) (body r s : List Byte),
    sig = 0x30 :: (l ++ body) ∧ LengthField l n ∧ Integers body [r, s]

/-- A length field has an octet. -/
theorem LengthField.ne_nil {l : List Byte} {n : Nat} (h : LengthField l n) : l ≠ [] := by
  cases h <;> simp

/-! ### Reading past the end -/

theorem length_elements (x : List Byte) (start k : Nat) : (elements x start k).length = k := by
  simp [elements]

/-- The elements from one on, one by one. -/
theorem elements_succ (x : List Byte) (start k : Nat) :
    elements x start (k + 1) = x.getD (start - 1) 0 :: elements x (start + 1) k := by
  unfold elements
  rw [List.range_succ_eq_map, List.map_cons, List.map_map, Nat.add_zero]
  refine congrArg _ (List.map_congr_left fun i _ => ?_)
  have hnext : start + (i + 1) - 1 = start + 1 + i - 1 := by omega
  rw [Function.comp_apply, Nat.succ_eq_add_one, hnext]

/-- Zeros at the end make no difference to what is read. -/
theorem elements_pad (x : List Byte) (pad start k : Nat) :
    elements (x ++ List.replicate pad 0) start k = elements x start k := by
  unfold elements
  refine List.map_congr_left fun i _ => ?_
  rw [List.getD_eq_getElem?_getD, List.getD_eq_getElem?_getD]
  rcases Nat.lt_or_ge (start + i - 1) x.length with hlt | hge
  · rw [List.getElem?_append_left hlt]
  · rw [List.getElem?_append_right hge, List.getElem?_eq_none hge, List.getElem?_replicate]
    split <;> rfl

/-- Nor to a length that is there. -/
theorem readLen_pad {x : List Byte} {pos : Nat} (hpos : pos - 1 < x.length) (pad : Nat) :
    readLen (x ++ List.replicate pad 0) pos = readLen x pos := by
  simp only [readLen, List.getElem?_append_left hpos, elements_pad]

/-- The elements may be taken in two parts. -/
theorem elements_add (x : List Byte) (start j k : Nat) :
    elements x start (j + k) = elements x start j ++ elements x (start + j) k := by
  unfold elements
  rw [List.range_add, List.map_append, List.map_map]
  refine congrArg _ (List.map_congr_left fun i _ => ?_)
  rw [Function.comp_apply, Nat.add_assoc]

/-- What is read is what is there, and zeros. -/
theorem elements_eq_take (x : List Byte) (start k : Nat) (hstart : 1 ≤ start) :
    elements x start k = (x.drop (start - 1) ++ List.replicate k 0).take k := by
  refine List.ext_getElem (by simp [elements]) fun i hi hi' => ?_
  rw [length_elements] at hi
  have hpos : start + i - 1 = start - 1 + i := by omega
  simp only [elements, List.getElem_map, List.getElem_range, List.getElem_take, hpos,
    List.getD_eq_getElem?_getD]
  rcases Nat.lt_or_ge (start - 1 + i) x.length with hlt | hge
  · rw [List.getElem_append_left (by rw [List.length_drop]; omega), List.getElem_drop,
      List.getElem?_eq_getElem hlt]
    rfl
  · rw [List.getElem_append_right (by rw [List.length_drop]; omega), List.getElem_replicate,
      List.getElem?_eq_none hge]
    rfl

/-- Where there is enough, nothing but what is there. -/
theorem drop_eq_elements_append {x : List Byte} {i k : Nat} (hstart : 1 ≤ i)
    (hk : i - 1 + k ≤ x.length) :
    x.drop (i - 1) = elements x i k ++ x.drop (i + k - 1) := by
  have htake : (x.drop (i - 1) ++ List.replicate k 0).take k = (x.drop (i - 1)).take k := by
    rw [List.take_append_of_le_length]
    rw [List.length_drop]
    omega
  have hnext : i + k - 1 = i - 1 + k := by omega
  rw [elements_eq_take x i k hstart, htake, hnext, ← List.drop_drop, List.take_append_drop]

/-- Where there is not, all there is and zeros. -/
theorem drop_append_zeros {x : List Byte} {i k : Nat} (hstart : 1 ≤ i)
    (hk : x.length ≤ i - 1 + k) (hx : i - 1 ≤ x.length) :
    x.drop (i - 1) ++ List.replicate (i - 1 + k - x.length) 0 = elements x i k := by
  have hsplit : List.replicate k (0 : Byte) =
      List.replicate (i - 1 + k - x.length) 0 ++ List.replicate (x.length - (i - 1)) 0 := by
    rw [List.replicate_append_replicate]
    congr 1
    omega
  rw [elements_eq_take x i k hstart, hsplit, ← List.append_assoc, List.take_left']
  rw [List.length_append, List.length_drop, List.length_replicate]
  omega

/-! ### The reader follows the grammar -/

theorem getElem?_append_append (pre l rest : List Byte) (hl : l ≠ []) :
    (pre ++ (l ++ rest))[pre.length + 1 - 1]? = l.head? := by
  obtain ⟨b, os, rfl⟩ := List.exists_cons_of_ne_nil hl
  rw [List.cons_append, getElem?_append_cons, List.head?_cons]

/-- A length is read where it stands. -/
theorem readLen_lengthField {l : List Byte} {n : Nat} (h : LengthField l n) (pre rest : List Byte) :
    readLen (pre ++ (l ++ rest)) (pre.length + 1) = some (n, l.length) := by
  rw [readLen, getElem?_append_append pre l rest h.ne_nil]
  cases h with
  | short b hb => simp [hb]
  | long b os hb hlen =>
    have hread := elements_append (pre ++ [b]) os rest
    rw [List.append_assoc, List.singleton_append, List.length_append, List.length_singleton,
      hlen] at hread
    rw [List.head?_cons, List.cons_append]
    simp only [if_neg (Nat.not_lt.mpr hb), hread, List.length_cons, hlen]
    rw [Nat.add_comm]

/-- A length that was read stands where it was read. -/
theorem lengthField_of_readLen {x : List Byte} {pos n k : Nat}
    (h : readLen x pos = some (n, k)) : LengthField (elements x pos k) n := by
  rw [readLen] at h
  split at h
  · simp at h
  · rename_i b hb
    have hhead : x.getD (pos - 1) 0 = b := by
      rw [List.getD_eq_getElem?_getD, hb]
      rfl
    split at h
    · rename_i hshort
      obtain ⟨rfl, rfl⟩ := Prod.mk.inj (Option.some.inj h)
      have hone : elements x pos 1 = [b] := by
        simp only [elements, List.range_one, List.map_cons, List.map_nil, Nat.add_zero, hhead]
      rw [hone]
      exact .short b hshort
    · rename_i hlong
      obtain ⟨rfl, rfl⟩ := Prod.mk.inj (Option.some.inj h)
      have hcons : elements x pos (1 + (b.toNat - 128)) =
          b :: elements x (pos + 1) (b.toNat - 128) := by
        rw [Nat.add_comm, elements_succ x pos _, hhead]
      rw [hcons]
      exact .long b _ (Nat.not_lt.mp hlong) (length_elements _ _ _)

/-- What the grammar describes is read, -/
theorem integersFrom_of_integers {bs : List Byte} {ws : List (List Byte)} (h : Integers bs ws)
    (pre : List Byte) (out : List (List Byte)) :
    integersFrom (pre ++ bs) (pre.length + 1) out = some (out ++ ws) := by
  induction h generalizing pre out with
  | nil =>
    rw [integersFrom, if_neg (by simp), List.append_nil]
  | @cons l c rest vs hl hc hrest ih =>
    have hlength := readLen_lengthField hl (pre ++ [0x02]) (c ++ rest)
    have hcontents := elements_append (pre ++ [0x02] ++ l) c rest
    have hih := ih (pre ++ [0x02] ++ l ++ c) (out ++ [orZero (stripZeros c)])
    simp only [List.append_assoc, List.cons_append, List.nil_append, List.length_append,
      List.length_cons, List.length_nil, Nat.zero_add] at hlength hcontents hih
    have hstart : pre.length + 1 + 1 + l.length = pre.length + (l.length + 1) + 1 := by omega
    have hend : pre.length + 1 + 1 + l.length + c.length =
        pre.length + (l.length + c.length + 1) + 1 := by
      omega
    rw [integersFrom, if_pos (by simp), getElem?_append_cons, if_pos rfl, hlength]
    simp only [if_neg (Nat.not_lt.mpr hc)]
    rw [hend, hstart, hcontents]
    exact hih
  | @cut bs l c pad hl hc hbs hcut =>
    -- the last one: read it with the zeros in place
    have hwhole : pre ++ bs ++ List.replicate pad 0 = pre ++ ([0x02] ++ (l ++ (c ++ []))) := by
      rw [List.append_assoc, hbs]
      simp
    have htag : (pre ++ bs)[pre.length + 1 - 1]? = some 0x02 := by
      have hinside : (pre ++ bs ++ List.replicate pad 0)[pre.length + 1 - 1]? =
          (pre ++ bs)[pre.length + 1 - 1]? :=
        List.getElem?_append_left (by rw [List.length_append]; omega)
      rw [← hinside, hwhole, List.singleton_append, getElem?_append_cons]
    have hlength := readLen_lengthField hl (pre ++ [0x02]) (c ++ [])
    rw [List.append_assoc, ← hwhole, List.length_append, List.length_singleton,
      readLen_pad (by rw [List.length_append]; omega)] at hlength
    have hcontents := elements_append (pre ++ [0x02] ++ l) c []
    rw [List.append_assoc, List.append_assoc, ← hwhole, elements_pad, List.length_append,
      List.length_append, List.length_singleton] at hcontents
    have hlong : (pre ++ bs).length < pre.length + 1 + 1 + l.length + c.length := by
      have htotal := congrArg List.length hbs
      simp only [List.length_append, List.length_cons, List.length_replicate] at htotal ⊢
      omega
    have hstart : pre.length + 1 + 1 + l.length = pre.length + 1 + l.length + 1 := by omega
    rw [integersFrom, if_pos (by rw [List.length_append]; omega), if_pos htag, hlength]
    simp only [if_neg (Nat.not_lt.mpr hc)]
    rw [integersFrom, if_neg (Nat.not_le.mpr hlong), hstart, hcontents]

/-- and what is read, the grammar describes. -/
theorem integers_of_integersFrom {x : List Byte} {pos : Nat} {out vs : List (List Byte)}
    (hpos : 1 ≤ pos) (hle : pos ≤ x.length + 1) (h : integersFrom x pos out = some vs) :
    ∃ ws, vs = out ++ ws ∧ Integers (x.drop (pos - 1)) ws := by
  fun_induction integersFrom x pos out with
  | case1 => simp at h
  | case2 => simp at h
  | case3 pos out hin htag len octets hlength start hlen value ih =>
    -- a tag, the length, and the contents
    have hfield := lengthField_of_readLen hlength
    have hcontents : (elements x start len).length = len := length_elements x start len
    have hfield' : LengthField (elements x (pos + 1) octets) (elements x start len).length := by
      rw [hcontents]
      exact hfield
    have hmax : (elements x start len).length ≤ VECTOR_MAX := by
      rw [hcontents]
      exact Nat.not_lt.mp hlen
    have htwo : pos + 1 ≤ x.length := by
      rw [readLen] at hlength
      split at hlength
      · simp at hlength
      · rename_i b hb
        have hlt := (List.getElem?_eq_some_iff.mp hb).1
        omega
    have hdrop : x.drop (pos - 1) = 0x02 :: x.drop (pos + 1 - 1) := by
      obtain ⟨hlt, hget⟩ := List.getElem?_eq_some_iff.mp htag
      have hnext : pos + 1 - 1 = pos - 1 + 1 := by omega
      rw [List.drop_eq_getElem_cons hlt, hget, hnext]
    rcases Nat.lt_or_ge x.length (start + len - 1) with hpast | hfits
    · -- it runs past the end, and is the last
      rw [integersFrom, if_neg (by omega)] at h
      refine ⟨[orZero value], (Option.some.inj h).symm,
        .cut (start + len - 1 - x.length) hfield' hmax ?_ ?_⟩
      · have hzeros := drop_append_zeros (x := x) (i := pos + 1) (k := octets + len) (by omega)
          (by omega) (by omega)
        have hboth : elements x (pos + 1) (octets + len) =
            elements x (pos + 1) octets ++ elements x start len := elements_add x _ _ _
        have hpad : pos + 1 - 1 + (octets + len) - x.length = start + len - 1 - x.length := by
          omega
        rw [hdrop, List.cons_append, ← hpad, hzeros, hboth]
      · rw [List.length_drop]
        omega
    · -- it is all there, and the rest follows
      obtain ⟨ws, rfl, hws⟩ := ih (by omega) (by omega) h
      refine ⟨orZero value :: ws, by simp, ?_⟩
      have hl := drop_eq_elements_append (x := x) (i := pos + 1) (k := octets) (by omega)
        (by omega)
      have hc := drop_eq_elements_append (x := x) (i := start) (k := len) (by omega) (by omega)
      rw [hdrop, hl, hc]
      exact .cons hfield' hmax hws
  | case4 => simp at h
  | case5 pos out hin =>
    refine ⟨[], by simpa using h.symm, ?_⟩
    rw [List.drop_eq_nil_of_le (by omega)]
    exact .nil

/-! ### Signatures -/

/-- A signature: the encoding of two numbers. -/
def IsSignature (sig : List Byte) : Prop := ∃ r s, sig = ecdsaSignature r s

/-- A signature whose numbers `cumsum` can count. -/
def IsCountableSignature (sig : List Byte) : Prop :=
  ∃ r s, sig = ecdsaSignature r s ∧ nonzeros (Der.octets r) ≤ INTEGER_MAX ∧
    nonzeros (Der.octets s) ≤ INTEGER_MAX

/-- DER's form of a length is one of those that are taken. -/
theorem lengthField_lengthOctets {n : Nat} (hn : n < 256 ^ 126) :
    LengthField (Der.lengthOctets n) n := by
  unfold Der.lengthOctets
  split
  · rename_i hshort
    have hb : (UInt8.ofNat n).toNat = n := UInt8.toNat_ofNat_of_lt' (Nat.lt_trans hshort (by decide))
    have hfield := LengthField.short (UInt8.ofNat n) (by omega)
    rwa [hb] at hfield
  · have hlen : (Der.octets n).length ≤ 126 := Der.length_octets_le.mpr hn
    have hb : (UInt8.ofNat (128 + (Der.octets n).length)).toNat = 128 + (Der.octets n).length :=
      UInt8.toNat_ofNat_of_lt' (show _ < 256 by omega)
    have hfield := LengthField.long (UInt8.ofNat (128 + (Der.octets n).length)) (Der.octets n)
      (by omega) (by omega)
    rwa [Der.value_octets] at hfield

/-- The encoding of a number is one the reader takes. -/
theorem integers_integer {m : Nat} {rest : List Byte} {vs : List (List Byte)}
    (hm : (Der.unsigned m).length ≤ VECTOR_MAX) (hrest : Integers rest vs) :
    Integers (Der.integer m ++ rest) (orZero (stripZeros (Der.unsigned m)) :: vs) := by
  have hfield : LengthField (Der.lengthOctets (Der.unsigned m).length) (Der.unsigned m).length :=
    lengthField_lengthOctets (Nat.lt_of_le_of_lt hm (by decide))
  have hcons := Integers.cons hfield hm hrest
  rwa [← List.append_assoc, ← List.cons_append] at hcons

section
variable {r s : Nat}

/-- A number is no longer than the signature it is in. -/
theorem length_unsigned_le_of_signature :
    (Der.unsigned r).length ≤ (ecdsaSignature r s).length ∧
      (Der.unsigned s).length ≤ (ecdsaSignature r s).length := by
  simp only [ecdsaSignature, Der.integer, Der.element, List.length_cons, List.length_append]
  omega

/-- A signature is loosely one. -/
theorem looseSignature_ecdsaSignature (hlen : (ecdsaSignature r s).length ≤ VECTOR_MAX) :
    LooseSignature (ecdsaSignature r s) := by
  obtain ⟨hr, hs⟩ := length_unsigned_le_of_signature (r := r) (s := s)
  have hbody : Integers (Der.integer r ++ (Der.integer s ++ [])) _ :=
    integers_integer (Nat.le_trans hr hlen) (integers_integer (Nat.le_trans hs hlen) .nil)
  rw [List.append_nil] at hbody
  refine ⟨_, _, _, _, _, rfl, lengthField_lengthOctets ?_, hbody⟩
  have hinside : (Der.integer r ++ Der.integer s).length ≤ (ecdsaSignature r s).length := by
    simp only [ecdsaSignature, Der.element, List.length_cons, List.length_append]
    omega
  exact Nat.lt_of_le_of_lt (Nat.le_trans hinside hlen) (by decide)

/-- A signature is read as its numbers in least form. -/
theorem derIntegers_ecdsaSignature (hlen : (ecdsaSignature r s).length ≤ VECTOR_MAX)
    (hr : nonzeros (Der.octets r) ≤ INTEGER_MAX) (hs : nonzeros (Der.octets s) ≤ INTEGER_MAX) :
    derIntegers (ecdsaSignature r s) = some [minimal r, minimal s] := by
  obtain ⟨hlr, hls⟩ := length_unsigned_le_of_signature (r := r) (s := s)
  have hcountable : ∀ m ∈ [r, s], Countable m := by
    intro m hm
    rcases List.mem_pair.mp hm with rfl | rfl
    · exact ⟨Nat.le_trans hlr hlen, by rwa [nonzeros_unsigned]⟩
    · exact ⟨Nat.le_trans hls hlen, by rwa [nonzeros_unsigned]⟩
  have hinside : ([r, s].map Der.integer).flatten.length ≤ (ecdsaSignature r s).length := by
    simp only [ecdsaSignature, Der.element, List.map_cons, List.map_nil, List.flatten_cons,
      List.flatten_nil, List.append_nil, List.length_cons, List.length_append]
    omega
  have hread := derIntegers_sequence hcountable
    (Nat.lt_of_le_of_lt (Nat.le_trans hinside hlen) (by decide))
  simpa [ecdsaSignature] using hread

/-- An element is told from what follows. -/
theorem element_append_inj (tag : Byte) {c c' rest rest' : List Byte}
    (hlen : c.length < 256 ^ 126) (hlen' : c'.length < 256 ^ 126)
    (h : Der.element tag c ++ rest = Der.element tag c' ++ rest') : c = c' ∧ rest = rest' := by
  have hread := Der.readElement_element tag hlen rest
  rw [h, Der.readElement_element tag hlen' rest'] at hread
  simp only [Option.some.injEq, Prod.mk.injEq, true_and] at hread
  exact ⟨hread.1.symm, hread.2.symm⟩

/-- A signature has one pair of numbers. -/
theorem ecdsaSignature_inj {r' s' : Nat} (hlen : (ecdsaSignature r s).length ≤ VECTOR_MAX)
    (h : ecdsaSignature r s = ecdsaSignature r' s') : r = r' ∧ s = s' := by
  have hlen' : (ecdsaSignature r' s').length ≤ VECTOR_MAX := h ▸ hlen
  have hshort : ∀ k, k ≤ VECTOR_MAX → k < 256 ^ 126 := fun k hk =>
    Nat.lt_of_le_of_lt hk (by decide)
  have hinside : ∀ a b, (Der.integer a ++ Der.integer b).length ≤ (ecdsaSignature a b).length := by
    intro a b
    simp only [ecdsaSignature, Der.element, List.length_cons, List.length_append]
    omega
  obtain ⟨hr, hs⟩ := length_unsigned_le_of_signature (r := r) (s := s)
  obtain ⟨hr', hs'⟩ := length_unsigned_le_of_signature (r := r') (s := s')
  -- the body, then each of the two integers
  have hbody : Der.integer r ++ Der.integer s = Der.integer r' ++ Der.integer s' := by
    refine (element_append_inj 0x30 (hshort _ (Nat.le_trans (hinside r s) hlen))
      (hshort _ (Nat.le_trans (hinside r' s') hlen')) (congrArg (· ++ []) h)).1
  obtain ⟨hfirst, hsecond⟩ := element_append_inj 0x02 (hshort _ (Nat.le_trans hr hlen))
    (hshort _ (Nat.le_trans hr' hlen')) hbody
  have hsecond' : Der.unsigned s = Der.unsigned s' := by
    refine (element_append_inj 0x02 (hshort _ (Nat.le_trans hs hlen))
      (hshort _ (Nat.le_trans hs' hlen')) (congrArg (· ++ []) hsecond)).1
  refine ⟨?_, ?_⟩
  · rw [← Der.value_unsigned r, hfirst, Der.value_unsigned]
  · rw [← Der.value_unsigned s, hsecond', Der.value_unsigned]

/-- The bytes of a number are in its encoding, but for that of zero. -/
theorem mem_of_mem_minimal {n : Nat} {b : Byte} (hb : b ∈ minimal n) (hn : minimal n ≠ [0]) :
    b ∈ Der.unsigned n := by
  unfold minimal orZero at hb hn
  unfold Der.unsigned
  cases hoctets : Der.octets n with
  | nil => simp [hoctets] at hn
  | cons c cs =>
    rw [hoctets, if_neg (by simp)] at hb
    simp only
    split
    · exact List.mem_cons_of_mem _ hb
    · exact hb

/-- The contents are in the element. -/
theorem mem_element {tag b : Byte} {contents : List Byte} (hb : b ∈ contents) :
    b ∈ Der.element tag contents :=
  List.mem_cons_of_mem _ (List.mem_append_right _ hb)

/-- And both numbers' octets in the signature. -/
theorem mem_signature {b : Byte} (hb : b ∈ Der.unsigned r ∨ b ∈ Der.unsigned s) :
    b ∈ ecdsaSignature r s := by
  refine mem_element ?_
  rcases hb with hb | hb
  · exact List.mem_append_left _ (mem_element hb)
  · exact List.mem_append_right _ (mem_element hb)

end

/-! ### What is returned can be written again -/

/-- Whatever was cut short by `cumsum`, it can count the rest. -/
theorem nonzeros_nonzeroFrom_le {seen : Nat} {x : List Byte} (h : seen ≤ INTEGER_MAX) :
    seen + nonzeros (nonzeroFrom seen x) ≤ INTEGER_MAX := by
  induction x generalizing seen with
  | nil => simpa [nonzeroFrom, nonzeros] using h
  | cons b bs ih =>
    by_cases hb : b = 0
    · subst hb
      have hseen : ¬ INTEGER_MAX < seen := Nat.not_lt.mpr h
      have hzero : nonzeros (0 :: nonzeroFrom seen bs) = nonzeros (nonzeroFrom seen bs) := by
        simp [nonzeros]
      simp only [nonzeroFrom, ne_eq, not_true_eq_false, if_false, if_neg hseen]
      split
      · rw [hzero]
        exact ih h
      · exact ih h
    · rcases Nat.lt_or_ge seen INTEGER_MAX with hlt | hge
      · have hone : nonzeros (b :: nonzeroFrom (seen + 1) bs) =
            nonzeros (nonzeroFrom (seen + 1) bs) + 1 := by
          simp [nonzeros, hb]
        have hih := @ih (seen + 1) hlt
        rw [nonzeroFrom_cons hb hlt, hone]
        omega
      · have hzeros : nonzeros (List.replicate (bs.length + 1) 0) = 0 := by
          simp [nonzeros]
        rw [nonzeroFrom_overflow hb hge, hzeros]
        omega

/-- What `strip_zeros` gives can be counted. -/
theorem nonzeros_orZero_stripZeros_le (x : List Byte) :
    nonzeros (orZero (stripZeros x)) ≤ INTEGER_MAX := by
  have hstrip := @nonzeros_nonzeroFrom_le 0 x (Nat.zero_le _)
  unfold orZero
  split
  · simp [nonzeros]
  · simpa [stripZeros] using hstrip

/-- So can every number that was read. -/
theorem nonzeros_le_of_integers {bs : List Byte} {vs : List (List Byte)} (h : Integers bs vs) :
    ∀ v ∈ vs, nonzeros v ≤ INTEGER_MAX := by
  induction h with
  | nil => simp
  | cons hl hc hrest ih =>
    intro v hv
    rcases List.mem_cons.mp hv with rfl | hv
    · exact nonzeros_orZero_stripZeros_le _
    · exact ih v hv
  | cut pad hl hc hbs hcut =>
    intro v hv
    rw [List.mem_singleton.mp hv]
    exact nonzeros_orZero_stripZeros_le _

/-! ### Exactness -/

variable {m : Memory} {sig : Sexp} {r s : List Byte}

/-- What is loosely a signature is read. -/
theorem derIntegers_of_loose {bs l body : List Byte} {n : Nat} {vs : List (List Byte)}
    (hbs : bs = 0x30 :: (l ++ body)) (hl : LengthField l n) (hbody : Integers body vs) :
    derIntegers bs = some vs := by
  subst hbs
  have hlength := readLen_lengthField hl [0x30] body
  have hfrom := integersFrom_of_integers hbody ([0x30] ++ l) []
  simp only [List.cons_append, List.nil_append, List.length_cons, List.length_nil,
    Nat.zero_add] at hlength hfrom
  have hstart : 2 + l.length = l.length + 1 + 1 := by omega
  rw [derIntegers, hlength]
  simp only [hstart]
  exact hfrom

/-- Two numbers are only read of what is loosely a signature. -/
theorem loose_of_derIntegers {bs : List Byte} (hhead : bs.head? = some 0x30)
    (h : derIntegers bs = some [r, s]) : LooseSignature bs := by
  obtain ⟨b, tail, rfl⟩ := List.exists_cons_of_ne_nil (l := bs) (by rintro rfl; simp at hhead)
  obtain rfl : b = 0x30 := by simpa using hhead
  rw [derIntegers] at h
  split at h
  · simp at h
  · rename_i len octets hlength
    have hfield := lengthField_of_readLen hlength
    have hin : 2 + octets ≤ (0x30 :: tail).length := by
      by_contra hout
      rw [integersFrom, if_neg hout] at h
      simp at h
    obtain ⟨ws, hws, hbody⟩ := integers_of_integersFrom (by omega) (by omega) h
    rw [List.nil_append] at hws
    subst hws
    have hl := drop_eq_elements_append (x := 0x30 :: tail) (i := 2) (k := octets) (by omega)
      (by omega)
    refine ⟨_, _, _, r, s, ?_, hfield, hbody⟩
    rw [← hl]
    rfl

/-- `crypt_ecdsa_parse` accepts what `der_integers` reads as two numbers, after a sequence's tag. -/
theorem cryptEcdsaParse_eq_ok (hraw : sig.isRaw = true) :
    cryptEcdsaParse m sig = .ok (r, s) ↔
      derIntegers (sig.bytes m) = some [r, s] ∧ (sig.bytes m).head? = some 0x30 := by
  simp only [cryptEcdsaParse, checkRaw, hraw, Bool.true_eq_false, if_false, bind, Except.bind]
  split
  · rename_i r' s' hread
    rw [hread]
    split
    · rename_i hhead
      simp [throw, throwThe, MonadExceptOf.throw, hhead]
    · rename_i hhead
      simp [pure, Except.pure, not_not.mp hhead]
  · rename_i hnone
    refine ⟨fun h => by simp [throw, throwThe, MonadExceptOf.throw] at h, fun h => ?_⟩
    exact absurd h.1 (hnone r s)

/-- It has one error. -/
theorem cryptEcdsaParse_error {c : Condition} (hraw : sig.isRaw = true)
    (h : cryptEcdsaParse m sig = .error c) : c = notASignature := by
  simp only [cryptEcdsaParse, checkRaw, hraw, Bool.true_eq_false, if_false, bind, Except.bind] at h
  split at h
  · split at h
    · simpa [throw, throwThe, MonadExceptOf.throw] using h.symm
    · simp [pure, Except.pure] at h
  · simpa [throw, throwThe, MonadExceptOf.throw] using h.symm

/-- `crypt_ecdsa_parse` accepts this vector if it is a signature and only then, gives
its numbers, and invents no byte. -/
structure ParsesExactly (m : Memory) (sig : Sexp) : Prop where
  accepts : ∀ r s, cryptEcdsaParse m sig = .ok (r, s) ↔
    ∃ a b, sig.bytes m = ecdsaSignature a b ∧ r = minimal a ∧ s = minimal b
  writes : ∀ r s, cryptEcdsaParse m sig = .ok (r, s) → cryptEcdsaWrite r s = sig.bytes m
  refuses : ¬ IsSignature (sig.bytes m) →
    ∃ c, cryptEcdsaParse m sig = .error c ∧ c.cls = "zucrypt_invalid_argument"
  bytes : ∀ r s, cryptEcdsaParse m sig = .ok (r, s) →
    ∀ v ∈ [r, s], v = [0] ∨ ∀ b ∈ v, b ∈ sig.bytes m

/-- A signature is parsed exactly. -/
theorem parsesExactly_of_signature (hraw : sig.isRaw = true) (hlen : sig.XLENGTH ≤ VECTOR_MAX)
    (h : IsCountableSignature (sig.bytes m)) : ParsesExactly m sig := by
  obtain ⟨a, b, hsig, ha, hb⟩ := h
  have hsize : (ecdsaSignature a b).length ≤ VECTOR_MAX := by
    rw [← hsig, Sexp.bytes, length_read]
    exact hlen
  have hread : derIntegers (sig.bytes m) = some [minimal a, minimal b] := by
    rw [hsig]
    exact derIntegers_ecdsaSignature hsize ha hb
  have hhead : (sig.bytes m).head? = some 0x30 := by
    rw [hsig]
    rfl
  -- what it is read as is all that matters to the four
  have hok : ∀ r s, cryptEcdsaParse m sig = .ok (r, s) ↔ r = minimal a ∧ s = minimal b := by
    intro r s
    rw [cryptEcdsaParse_eq_ok hraw, hread]
    refine ⟨fun h => ?_, fun h => ⟨by rw [h.1, h.2], hhead⟩⟩
    simp only [Option.some.injEq, List.cons.injEq, and_true] at h
    exact ⟨h.1.1.symm, h.1.2.symm⟩
  refine ⟨fun r s => (hok r s).trans ⟨fun h => ⟨a, b, hsig, h⟩, ?_⟩, fun r s h => ?_, fun h => ?_,
    fun r s h => ?_⟩
  · rintro ⟨a', b', hsig', hrs⟩
    obtain ⟨rfl, rfl⟩ := ecdsaSignature_inj hsize (hsig.symm.trans hsig')
    exact hrs
  · obtain ⟨rfl, rfl⟩ := (hok r s).mp h
    rw [cryptEcdsaWrite_eq (by rwa [nonzeros_minimal]) (by rwa [nonzeros_minimal]), value_minimal,
      value_minimal, hsig]
  · exact absurd ⟨a, b, hsig⟩ h
  · obtain ⟨rfl, rfl⟩ := (hok r s).mp h
    intro v hv
    by_cases hzero : v = [0]
    · exact .inl hzero
    refine .inr fun c hc => ?_
    rw [hsig]
    rcases List.mem_pair.mp hv with rfl | rfl
    · exact mem_signature (.inl (mem_of_mem_minimal hc hzero))
    · exact mem_signature (.inr (mem_of_mem_minimal hc hzero))

/-- So is what is not even loosely one: it is refused. -/
theorem parsesExactly_of_not_loose (hraw : sig.isRaw = true) (hlen : sig.XLENGTH ≤ VECTOR_MAX)
    (h : ¬ LooseSignature (sig.bytes m)) : ParsesExactly m sig := by
  have hnot : ¬ IsSignature (sig.bytes m) := by
    rintro ⟨a, b, hsig⟩
    have hsize : (ecdsaSignature a b).length ≤ VECTOR_MAX := by
      rw [← hsig, Sexp.bytes, length_read]
      exact hlen
    rw [hsig] at h
    exact h (looseSignature_ecdsaSignature hsize)
  have hrefused : ∀ r s, cryptEcdsaParse m sig ≠ .ok (r, s) := by
    intro r s hok
    obtain ⟨hread, hhead⟩ := (cryptEcdsaParse_eq_ok hraw).mp hok
    exact h (loose_of_derIntegers hhead hread)
  refine ⟨fun r s => ⟨fun hok => absurd hok (hrefused r s), ?_⟩,
    fun r s hok => absurd hok (hrefused r s), fun _ => ?_, fun r s hok => absurd hok (hrefused r s)⟩
  · rintro ⟨a, b, hsig, -⟩
    exact absurd ⟨a, b, hsig⟩ hnot
  · cases hparse : cryptEcdsaParse m sig with
    | ok rs => exact absurd hparse (hrefused rs.1 rs.2)
    | error c =>
      refine ⟨c, rfl, ?_⟩
      rw [cryptEcdsaParse_error hraw hparse]
      rfl

/-- **`crypt_ecdsa_parse` is exact but for what is only loosely a signature.**  Of a raw
vector that the grammar of `der_integers` takes as two integers, it is right exactly when
the vector is the DER encoding of them, and they are numbers `cumsum` can count; of any
other vector it is right. -/
theorem cryptEcdsaParse_exact_iff (m : Memory) (sig : Sexp) (hraw : sig.isRaw = true)
    (hlen : sig.XLENGTH ≤ VECTOR_MAX) :
    ParsesExactly m sig ↔
      (LooseSignature (sig.bytes m) → IsCountableSignature (sig.bytes m)) := by
  constructor
  · intro h hloose
    obtain ⟨l, n, body, r, s, hbs, hl, hbody⟩ := hloose
    have hread := derIntegers_of_loose hbs hl hbody
    have hhead : (sig.bytes m).head? = some 0x30 := by rw [hbs, List.head?_cons]
    have hok := (cryptEcdsaParse_eq_ok hraw).mpr ⟨hread, hhead⟩
    obtain ⟨a, b, hsig, rfl, rfl⟩ := (h.accepts r s).mp hok
    have hcount := nonzeros_le_of_integers hbody
    refine ⟨a, b, hsig, ?_, ?_⟩
    · rw [← nonzeros_minimal]
      exact hcount _ (by simp)
    · rw [← nonzeros_minimal]
      exact hcount _ (by simp)
  · intro h
    by_cases hloose : LooseSignature (sig.bytes m)
    · exact parsesExactly_of_signature hraw hlen (h hloose)
    · exact parsesExactly_of_not_loose hraw hlen hloose

/-- Memory that holds `bs`, at 256, and a vector there. -/
def vectorMemory (bs : List Byte) : Memory := write (fun _ => 0) 256 bs

def vectorOf (bs : List Byte) : Sexp := .raw 256 bs.length []

/-- The vector's bytes are those. -/
theorem bytes_vectorOf (bs : List Byte) : (vectorOf bs).bytes (vectorMemory bs) = bs :=
  read_write_self _ 256 bs

/-- The signature `(1, 128)`, and the same under a sequence said to be empty. -/
def signature128 : List Byte := [0x30, 0x07, 0x02, 0x01, 0x01, 0x02, 0x02, 0x00, 0x80]

def signatureSaidEmpty : List Byte := [0x30, 0x00, 0x02, 0x01, 0x01, 0x02, 0x02, 0x00, 0x80]

/-- The numbers 1 and 128, of which the second has a zero octet in front. -/
theorem cryptEcdsaParse_exact_signature128 :
    ParsesExactly (vectorMemory signature128) (vectorOf signature128) := by
  have hsig : signature128 = ecdsaSignature 1 128 := by
    have hwrite := cryptEcdsaWrite_eq (r := [1]) (s := [128]) (by decide) (by decide)
    exact hwrite
  refine (cryptEcdsaParse_exact_iff _ (vectorOf signature128) rfl (by decide)).mpr fun _ => ?_
  rw [bytes_vectorOf]
  have hone : Fits 1 1 := .of_lt (by decide) (by decide)
  have hbyte : Fits 1 128 := .of_lt (by decide) (by decide)
  exact ⟨1, 128, hsig, hone.nonzeros, hbyte.nonzeros⟩

/-- The length of the sequence is not looked at. -/
theorem signatureSaidEmpty_parsed :
    ¬ ParsesExactly (vectorMemory signatureSaidEmpty) (vectorOf signatureSaidEmpty) := by
  intro h
  have hbody : Integers [0x02, 0x01, 0x01, 0x02, 0x02, 0x00, 0x80] [[1], [128]] :=
    .cons (l := [1]) (c := [1]) (.short 1 (by decide)) (by decide)
      (.cons (l := [2]) (c := [0, 128]) (.short 2 (by decide)) (by decide) .nil)
  have hread : derIntegers signatureSaidEmpty = some [[1], [128]] :=
    derIntegers_of_loose rfl (.short 0 (by decide)) hbody
  have hok : cryptEcdsaParse (vectorMemory signatureSaidEmpty) (vectorOf signatureSaidEmpty) =
      .ok ([1], [128]) := by
    rw [cryptEcdsaParse_eq_ok rfl, bytes_vectorOf]
    exact ⟨hread, rfl⟩
  have hwrites := h.writes [1] [128] hok
  rw [bytes_vectorOf] at hwrites
  exact absurd hwrites (by decide)

end Zucrypt.R
