import Zucrypt.Der
import Zucrypt.ByteMemory

/-! # DER in R

The encoder and the reader of `R/pkey.R`, and on them the ECDSA signature codec of `R/ec.R`.  A raw
vector is the list of its bytes.

The encoder writes minimal DER.  The reader is permissive: it ignores the length of the sequence,
takes lengths in any form, and reads zeros past the end.  What it makes of an encoding is right
(`derIntegers_sequence`), and of anything else, unspecified; that the codec is exact rests on
encoding again and comparing.

`ecdsa_codec_exact` says the three parts of it for a width of `n` bytes: a pair of numbers goes
there and back; what is accepted is exactly the DER of two numbers below `256 ^ n`, and is those
numbers; and what was accepted encodes to itself.  The first needs that the reader is right about
the encoder (`ecdsaRaw_ecdsaSignature`), the second that whatever the reader gives is minimal
(`derIntegers_minimal`), so that encoding it again compares it with an encoding.

The width is at most `INTEGER_MAX`, as leading zeros are found with `cumsum` of a logical, which
counts in R's integers: from one byte more on it is `NA`, and the bytes after that are lost
(`ecdsa_codec_overflow`).

Positions and lengths are R numbers, and exact: where a length would not be, it is longer than a
vector can be. -/
namespace Zucrypt.R
open ByteMemory

/-- `.Machine$integer.max`. -/
def INTEGER_MAX : Nat := 2147483647

/-- The length of the longest vector. -/
def VECTOR_MAX : Nat := 2 ^ 52

/-! ### The encoder -/

/-- `x[cumsum(x != as.raw(0)) > 0]`, after `seen` bytes other than zero. -/
def nonzeroFrom (seen : Nat) : List Byte → List Byte
  | [] => []
  | b :: bs =>
    let sum := if b ≠ 0 then seen + 1 else seen
    if INTEGER_MAX < sum then
      -- the sum is `NA` from here on, and an index that is `NA` gives 00
      List.replicate (bs.length + 1) 0
    else if 0 < sum then
      b :: nonzeroFrom sum bs
    else
      nonzeroFrom sum bs

/-- `x[cumsum(x != as.raw(0)) > 0]`. -/
def stripZeros (x : List Byte) : List Byte := nonzeroFrom 0 x

/-- The loop of `der_length`. -/
def derLengthLoop (n : Nat) (bytes : List Byte) : List Byte :=
  if 0 < n then derLengthLoop (n / 256) (UInt8.ofNat (n % 256) :: bytes) else bytes
termination_by n

/-- `der_length`. -/
def derLength (n : Nat) : List Byte :=
  if n < 128 then
    [UInt8.ofNat n]
  else
    let bytes := derLengthLoop n []
    UInt8.ofNat (0x80 + bytes.length) :: bytes

/-- `if (!length(x)) as.raw(0) else x`. -/
def orZero (x : List Byte) : List Byte := if x = [] then [0] else x

/-- `der_integer`. -/
def derInteger (x : List Byte) : List Byte :=
  let x := orZero (stripZeros x)
  let x := if 128 ≤ (x.headD 0).toNat then 0 :: x else x
  [0x02] ++ derLength x.length ++ x

/-- `der_sequence`. -/
def derSequence (parts : List (List Byte)) : List Byte :=
  let body := parts.flatten
  [0x30] ++ derLength body.length ++ body

/-! ### The reader -/

/-- `x[start + seq_len(k) - 1]`: an index past the end gives 00. -/
def elements (x : List Byte) (start k : Nat) : List Byte :=
  (List.range k).map (fun i => x.getD (start + i - 1) 0)

/-- `read_len`, in `der_integers`: the length, and how many octets it took. -/
def readLen (der : List Byte) (pos : Nat) : Option (Nat × Nat) :=
  match der[pos - 1]? with
  | none => none
  | some b =>
    if b.toNat < 128 then
      some (b.toNat, 1)
    else
      let k := b.toNat - 128
      some (Der.value (elements der (pos + 1) k), 1 + k)

/-- The loop of `der_integers`; `none` is an error. -/
def integersFrom (der : List Byte) (pos : Nat) (out : List (List Byte)) :
    Option (List (List Byte)) :=
  if pos ≤ der.length then
    if der[pos - 1]? = some 0x02 then
      match readLen der (pos + 1) with
      | none => none
      | some (len, octets) =>
        let start := pos + 1 + octets
        if VECTOR_MAX < len then
          none
        else
          let value := stripZeros (elements der start len)
          integersFrom der (start + len) (out ++ [orZero value])
    else
      none
  else
    some out
termination_by der.length + 1 - pos

/-- `der_integers`. -/
def derIntegers (der : List Byte) : Option (List (List Byte)) :=
  match readLen der 2 with
  | none => none
  | some (_, octets) => integersFrom der (2 + octets) []

/-! ### The codec -/

/-- `crypt_ecdsa_write`, of raw vectors. -/
def cryptEcdsaWrite (r s : List Byte) : List Byte := derSequence [derInteger r, derInteger s]

/-- `ecdsa_raw`, `none` being `NULL`. -/
def ecdsaRaw (sig : List Byte) (n : Nat) : Option (List Byte) :=
  match derIntegers sig with
  | some [r, s] =>
    if sig.head? ≠ some 0x30 ∨ n < r.length ∨ n < s.length then
      none
    else if cryptEcdsaWrite r s ≠ sig then
      none
    else
      some (List.replicate (n - r.length) 0 ++ r ++ (List.replicate (n - s.length) 0 ++ s))
  | _ => none

/-- `ecdsa_der`. -/
def ecdsaDer (rawSig : List Byte) : List Byte :=
  let n := rawSig.length / 2
  cryptEcdsaWrite (rawSig.take n) ((rawSig.drop n).take n)

/-! ### The encoder writes DER -/

/-- The bytes other than zero. -/
def nonzeros (x : List Byte) : Nat := x.countP (fun b => b ≠ 0)

theorem nonzeros_le_length (x : List Byte) : nonzeros x ≤ x.length := List.countP_le_length

theorem nonzeroFrom_cons {seen : Nat} {b : Byte} (hb : b ≠ 0) (h : seen < INTEGER_MAX)
    (bs : List Byte) : nonzeroFrom seen (b :: bs) = b :: nonzeroFrom (seen + 1) bs := by
  have hcount : ¬ INTEGER_MAX < seen + 1 := Nat.not_lt.mpr h
  simp only [nonzeroFrom, if_pos hb, if_neg hcount, if_pos (Nat.succ_pos seen)]

theorem nonzeroFrom_overflow {seen : Nat} {b : Byte} (hb : b ≠ 0) (h : INTEGER_MAX ≤ seen)
    (bs : List Byte) : nonzeroFrom seen (b :: bs) = List.replicate (bs.length + 1) 0 := by
  have hcount : INTEGER_MAX < seen + 1 := Nat.lt_succ_of_le h
  simp only [nonzeroFrom, if_pos hb, if_pos hcount]

theorem nonzeroFrom_of_le {seen : Nat} {x : List Byte} (h : seen + nonzeros x ≤ INTEGER_MAX) :
    nonzeroFrom seen x = if 0 < seen then x else x.dropWhile (· = 0) := by
  induction x generalizing seen with
  | nil => simp [nonzeroFrom]
  | cons b bs ih =>
    by_cases hb : b = 0
    · subst hb
      have hbs : seen + nonzeros bs ≤ INTEGER_MAX := by simpa [nonzeros] using h
      have hseen : ¬ INTEGER_MAX < seen := by omega
      simp only [nonzeroFrom, ne_eq, not_true_eq_false, if_false, if_neg hseen, ih hbs]
      split
      · rfl
      · simp
    · have hbs : seen + 1 + nonzeros bs ≤ INTEGER_MAX := by
        simp only [nonzeros, List.countP_cons_of_pos (p := fun b : Byte => decide (b ≠ 0))
          (by simpa using hb)] at h
        simp only [nonzeros]
        omega
      rw [nonzeroFrom_cons hb (by omega), ih hbs, if_pos (Nat.succ_pos seen)]
      split
      · rfl
      · rw [List.dropWhile_cons_of_neg (by simpa using hb)]

/-- What is left of a vector is the octets of the number it stands for. -/
theorem stripZeros_eq_octets {x : List Byte} (h : nonzeros x ≤ INTEGER_MAX) :
    stripZeros x = Der.octets (Der.value x) := by
  rw [stripZeros, nonzeroFrom_of_le (by omega), if_neg (by decide), Der.octets_value]

theorem derLengthLoop_eq (n : Nat) (bytes : List Byte) :
    derLengthLoop n bytes = Der.octets n ++ bytes := by
  induction n using Nat.strong_induction_on generalizing bytes with
  | _ n ih =>
    rw [derLengthLoop]
    split
    · rename_i hn
      rw [ih (n / 256) (Nat.div_lt_self hn (by decide)), Der.octets_of_ne_zero (Nat.ne_of_gt hn),
        List.append_assoc, List.singleton_append]
    · rename_i hn
      obtain rfl : n = 0 := by omega
      rfl

theorem derLength_eq (n : Nat) : derLength n = Der.lengthOctets n := by
  rw [derLength, Der.lengthOctets, derLengthLoop_eq, List.append_nil]

/-- The number, in as few bytes as there can be, and one at least. -/
def minimal (m : Nat) : List Byte := orZero (Der.octets m)

@[simp] theorem value_minimal (m : Nat) : Der.value (minimal m) = m := by
  unfold minimal orZero
  split
  · rename_i hnil
    rw [Der.octets_eq_nil.mp hnil]
    rfl
  · exact Der.value_octets m

theorem derInteger_eq {x : List Byte} (h : nonzeros x ≤ INTEGER_MAX) :
    derInteger x = Der.integer (Der.value x) := by
  have hcontents : (let y := orZero (Der.octets (Der.value x));
      if 128 ≤ (y.headD 0).toNat then 0 :: y else y) = Der.unsigned (Der.value x) := by
    unfold orZero Der.unsigned
    cases Der.octets (Der.value x) with
    | nil => rfl
    | cons b bs => rfl
  simp only [derInteger, stripZeros_eq_octets h, derLength_eq] at hcontents ⊢
  rw [hcontents, Der.integer, Der.element, List.append_assoc, List.singleton_append]

theorem derSequence_eq (parts : List (List Byte)) :
    derSequence parts = Der.element 0x30 parts.flatten := by
  rw [derSequence, derLength_eq, List.append_assoc]
  rfl

/-! ### The reader reads it -/

theorem elements_append (pre mid rest : List Byte) :
    elements (pre ++ (mid ++ rest)) (pre.length + 1) mid.length = mid := by
  refine List.ext_getElem (by simp [elements]) (fun i hi hi' => ?_)
  have hpos : pre.length + 1 + i - 1 = pre.length + i := by omega
  simp only [elements, List.getElem_map, List.getElem_range, hpos, List.getD_eq_getElem?_getD]
  rw [List.getElem?_append_right (by omega), Nat.add_sub_cancel_left,
    List.getElem?_append_left hi', List.getElem?_eq_getElem hi']
  rfl

theorem getElem?_append_cons (pre : List Byte) (b : Byte) (rest : List Byte) :
    (pre ++ b :: rest)[pre.length + 1 - 1]? = some b := by
  simp

theorem readLen_lengthOctets {n : Nat} (hn : n < 256 ^ 126) (pre rest : List Byte) :
    readLen (pre ++ (Der.lengthOctets n ++ rest)) (pre.length + 1) =
      some (n, (Der.lengthOctets n).length) := by
  unfold Der.lengthOctets
  by_cases hshort : n < 128
  · have hb : (UInt8.ofNat n).toNat = n := UInt8.toNat_ofNat_of_lt' (Nat.lt_trans hshort (by decide))
    rw [if_pos hshort, List.singleton_append, readLen, getElem?_append_cons]
    simp [hb, hshort]
  · have hlen : (Der.octets n).length ≤ 126 := Der.length_octets_le.mpr hn
    have hb : (UInt8.ofNat (128 + (Der.octets n).length)).toNat = 128 + (Der.octets n).length :=
      UInt8.toNat_ofNat_of_lt' (show _ < 256 by omega)
    have hread := elements_append (pre ++ [UInt8.ofNat (128 + (Der.octets n).length)])
      (Der.octets n) rest
    rw [List.append_assoc, List.singleton_append, List.length_append, List.length_singleton] at hread
    rw [if_neg hshort, List.cons_append, readLen, getElem?_append_cons]
    simp only [hb, Nat.add_sub_cancel_left, hread, Der.value_octets, List.length_cons]
    rw [if_neg (by omega), Nat.add_comm]

/-- A number the reader takes: its contents are no longer than a vector, and `cumsum`
can count its bytes. -/
structure Countable (m : Nat) : Prop where
  length : (Der.unsigned m).length ≤ VECTOR_MAX
  nonzeros : nonzeros (Der.unsigned m) ≤ INTEGER_MAX

theorem orZero_stripZeros {x : List Byte} (h : nonzeros x ≤ INTEGER_MAX) :
    orZero (stripZeros x) = minimal (Der.value x) := by
  rw [stripZeros_eq_octets h, minimal]

/-- What a turn of the loop finds where an integer is: its tag, its length, its contents,
and the place after it. -/
theorem turn_integer {m : Nat} (hm : (Der.unsigned m).length ≤ VECTOR_MAX) (pre rest : List Byte) :
    pre.length + 1 ≤ (pre ++ (Der.integer m ++ rest)).length ∧
      (pre ++ (Der.integer m ++ rest))[pre.length + 1 - 1]? = some 0x02 ∧
      ∃ octets, readLen (pre ++ (Der.integer m ++ rest)) (pre.length + 1 + 1) =
          some ((Der.unsigned m).length, octets) ∧
        elements (pre ++ (Der.integer m ++ rest)) (pre.length + 1 + 1 + octets)
          (Der.unsigned m).length = Der.unsigned m ∧
        pre.length + 1 + 1 + octets + (Der.unsigned m).length =
          pre.length + (Der.integer m).length + 1 := by
  have hbound : (Der.unsigned m).length < 256 ^ 126 := Nat.lt_of_le_of_lt hm (by decide)
  -- tag, length and contents are where the reader looks for them
  have htag : pre ++ (Der.integer m ++ rest) = pre ++ 0x02 :: (Der.lengthOctets
      (Der.unsigned m).length ++ (Der.unsigned m ++ rest)) := by
    rw [Der.integer, Der.element, List.cons_append, List.append_assoc]
  have hlength := readLen_lengthOctets hbound (pre ++ [0x02]) (Der.unsigned m ++ rest)
  have hcontents := elements_append
    (pre ++ [0x02] ++ Der.lengthOctets (Der.unsigned m).length) (Der.unsigned m) rest
  simp only [List.append_assoc, List.cons_append, List.nil_append, List.length_append,
    List.length_cons, List.length_nil, Nat.zero_add] at hlength hcontents
  have hstart : pre.length + 1 + 1 + (Der.lengthOctets (Der.unsigned m).length).length =
      pre.length + ((Der.lengthOctets (Der.unsigned m).length).length + 1) + 1 := by
    omega
  refine ⟨?_, ?_, (Der.lengthOctets (Der.unsigned m).length).length, ?_, ?_, ?_⟩
  · rw [htag]
    simp
  · rw [htag, getElem?_append_cons]
  · rw [htag]
    exact hlength
  · rw [htag, hstart]
    exact hcontents
  · simp only [Der.integer, Der.element, List.length_cons, List.length_append]
    omega

/-- One turn of the loop reads one integer. -/
theorem integersFrom_integer {m : Nat} (hm : Countable m) (pre rest : List Byte)
    (out : List (List Byte)) :
    integersFrom (pre ++ (Der.integer m ++ rest)) (pre.length + 1) out =
      integersFrom (pre ++ (Der.integer m ++ rest)) (pre.length + (Der.integer m).length + 1)
        (out ++ [minimal m]) := by
  obtain ⟨hin, htag, octets, hlength, hcontents, hend⟩ := turn_integer hm.length pre rest
  rw [integersFrom, if_pos hin, if_pos htag, hlength]
  simp only [if_neg (Nat.not_lt.mpr hm.length)]
  rw [hend, hcontents, orZero_stripZeros hm.nonzeros, Der.value_unsigned]

/-- And the loop all of them. -/
theorem integersFrom_integers {ms : List Nat} (hms : ∀ m ∈ ms, Countable m) (pre : List Byte)
    (out : List (List Byte)) :
    integersFrom (pre ++ (ms.map Der.integer).flatten) (pre.length + 1) out =
      some (out ++ ms.map minimal) := by
  induction ms generalizing pre out with
  | nil =>
    rw [integersFrom, if_neg (by simp)]
    simp
  | cons m ms ih =>
    have hrest := ih (fun x hx => hms x (List.mem_cons_of_mem m hx)) (pre ++ Der.integer m)
      (out ++ [minimal m])
    rw [List.append_assoc, List.length_append] at hrest
    rw [List.map_cons, List.flatten_cons,
      integersFrom_integer (hms m List.mem_cons_self) pre, hrest]
    simp

/-- What is written as a sequence of integers is read as them. -/
theorem derIntegers_sequence {ms : List Nat} (hms : ∀ m ∈ ms, Countable m)
    (hlen : (ms.map Der.integer).flatten.length < 256 ^ 126) :
    derIntegers (Der.element 0x30 (ms.map Der.integer).flatten) = some (ms.map minimal) := by
  have hlength := readLen_lengthOctets hlen [0x30] (ms.map Der.integer).flatten
  have hbody := integersFrom_integers hms
    ([0x30] ++ Der.lengthOctets (ms.map Der.integer).flatten.length) []
  simp only [List.cons_append, List.length_cons, List.length_nil, List.nil_append,
    Nat.add_comm _ 1, ← Nat.add_assoc] at hlength hbody
  rw [derIntegers, Der.element, hlength]
  exact hbody

/-! ### What the reader gives is in least form -/

/-- A number in as few bytes as there can be. -/
def Minimal (x : List Byte) : Prop := x = minimal (Der.value x)

theorem head_nonzeroFrom (x : List Byte) : (nonzeroFrom 0 x).head? ≠ some 0 := by
  induction x with
  | nil => simp [nonzeroFrom]
  | cons b bs ih =>
    by_cases hb : b = 0
    · simpa [nonzeroFrom, hb] using ih
    · simp [nonzeroFrom, hb, INTEGER_MAX]

theorem minimal_orZero_stripZeros (x : List Byte) : Minimal (orZero (stripZeros x)) := by
  have hself : Der.octets (Der.value (stripZeros x)) = stripZeros x :=
    Der.octets_value_of_head (head_nonzeroFrom x)
  unfold Minimal orZero
  split
  · rfl
  · rename_i hne
    rw [minimal, hself, orZero, if_neg hne]

theorem integersFrom_minimal {der : List Byte} {pos : Nat} {out vs : List (List Byte)}
    (hout : ∀ v ∈ out, Minimal v) (h : integersFrom der pos out = some vs) :
    ∀ v ∈ vs, Minimal v := by
  fun_induction integersFrom der pos out with
  | case1 => simp at h
  | case2 => simp at h
  | case3 pos out hpos htag len octets hlen start hle value ih =>
    refine ih (fun v hv => ?_) h
    rcases List.mem_append.mp hv with hv | hv
    · exact hout v hv
    · rw [List.mem_singleton.mp hv]
      exact minimal_orZero_stripZeros _
  | case4 => simp at h
  | case5 pos out hpos =>
    obtain rfl := Option.some.inj h
    exact hout

theorem derIntegers_minimal {der : List Byte} {vs : List (List Byte)}
    (h : derIntegers der = some vs) : ∀ v ∈ vs, Minimal v := by
  rw [derIntegers] at h
  split at h
  · simp at h
  · exact integersFrom_minimal (by simp) h

/-! ### Signatures -/

/-- The DER encoding of the signature `(r, s)`: a sequence of two integers. -/
def ecdsaSignature (r s : Nat) : List Byte := Der.element 0x30 (Der.integer r ++ Der.integer s)

theorem length_minimal {m n : Nat} (hn : 1 ≤ n) (hm : m < 256 ^ n) : (minimal m).length ≤ n := by
  unfold minimal orZero
  split
  · exact hn
  · exact Der.length_octets_le.mpr hm

theorem nonzeros_unsigned (m : Nat) : nonzeros (Der.unsigned m) = nonzeros (Der.octets m) := by
  unfold Der.unsigned
  split
  · rename_i hnil
    rw [hnil]
    rfl
  · rename_i b bs hbs
    rw [hbs]
    split
    · simp [nonzeros]
    · rfl

theorem nonzeros_minimal (m : Nat) : nonzeros (minimal m) = nonzeros (Der.octets m) := by
  unfold minimal orZero
  split
  · rename_i hnil
    rw [hnil]
    rfl
  · rfl

/-- Padding a number in least form gives it in `n` bytes. -/
theorem pad_minimal {m n : Nat} (hn : 1 ≤ n) :
    List.replicate (n - (minimal m).length) 0 ++ minimal m = Der.fixed n m := by
  unfold minimal orZero
  split
  · rename_i hnil
    rw [Der.fixed, hnil, List.length_singleton, ← List.replicate_one, List.replicate_append_replicate]
    simp [Nat.sub_add_cancel hn]
  · rfl

/-- A number of at most `n` bytes that `cumsum` can count. -/
structure Fits (n m : Nat) : Prop where
  lt : m < 256 ^ n
  nonzeros : nonzeros (Der.octets m) ≤ INTEGER_MAX

theorem Fits.of_lt {n m : Nat} (hn : n ≤ INTEGER_MAX) (hm : m < 256 ^ n) : Fits n m := by
  refine ⟨hm, ?_⟩
  have hlen := Der.length_octets_le.mpr hm
  have hcount := nonzeros_le_length (Der.octets m)
  omega

theorem Fits.countable {n m : Nat} (hn : n < VECTOR_MAX) (hm : Fits n m) : Countable m := by
  refine ⟨?_, ?_⟩
  · exact Nat.le_trans (Der.length_unsigned_le hm.lt) hn
  · rw [nonzeros_unsigned]
    exact hm.nonzeros

theorem length_integer_lt {n m : Nat} (hn : n < VECTOR_MAX) (hm : m < 256 ^ n) :
    (Der.integer m).length < 2 ^ 54 := by
  have hcontents := Der.length_unsigned_le hm
  have hbound : (Der.unsigned m).length < 256 ^ 126 :=
    Nat.lt_of_le_of_lt (Nat.le_trans hcontents hn) (by decide)
  have hlength : (Der.lengthOctets (Der.unsigned m).length).length ≤ 127 := by
    unfold Der.lengthOctets
    split
    · simp
    · have := Der.length_octets_le.mpr hbound
      simp only [List.length_cons]
      omega
  simp only [Der.integer, Der.element, List.length_cons, List.length_append]
  simp only [VECTOR_MAX] at hn
  omega

theorem cryptEcdsaWrite_eq {r s : List Byte} (hr : nonzeros r ≤ INTEGER_MAX)
    (hs : nonzeros s ≤ INTEGER_MAX) :
    cryptEcdsaWrite r s = ecdsaSignature (Der.value r) (Der.value s) := by
  rw [cryptEcdsaWrite, derSequence_eq, derInteger_eq hr, derInteger_eq hs, ecdsaSignature]
  simp

/-- A signature in DER is accepted, and is its two numbers in `n` bytes each. -/
theorem ecdsaRaw_ecdsaSignature {n r s : Nat} (hn : 1 ≤ n) (hmax : n < VECTOR_MAX) (hr : Fits n r)
    (hs : Fits n s) : ecdsaRaw (ecdsaSignature r s) n = some (Der.fixed n r ++ Der.fixed n s) := by
  have hcountable : ∀ m ∈ [r, s], Countable m := by
    intro m hm
    rcases List.mem_pair.mp hm with rfl | rfl
    · exact hr.countable hmax
    · exact hs.countable hmax
  have hlr := length_integer_lt hmax hr.lt
  have hls := length_integer_lt hmax hs.lt
  have hlen : ([r, s].map Der.integer).flatten.length < 256 ^ 126 := by
    have hbound : (2 : Nat) ^ 54 + 2 ^ 54 < 256 ^ 126 := by decide
    simp only [List.map_cons, List.map_nil, List.flatten_cons, List.flatten_nil,
      List.length_append, List.length_nil]
    omega
  have hread : derIntegers (ecdsaSignature r s) = some [minimal r, minimal s] := by
    have hread := derIntegers_sequence hcountable hlen
    simpa [ecdsaSignature] using hread
  have hhead : (ecdsaSignature r s).head? = some 0x30 := rfl
  have hwrite : cryptEcdsaWrite (minimal r) (minimal s) = ecdsaSignature r s := by
    rw [cryptEcdsaWrite_eq (by rw [nonzeros_minimal]; exact hr.nonzeros)
      (by rw [nonzeros_minimal]; exact hs.nonzeros), value_minimal, value_minimal]
  -- neither integer is too long for its half
  have hshort : ¬ ((ecdsaSignature r s).head? ≠ some 0x30 ∨ n < (minimal r).length ∨
      n < (minimal s).length) := by
    have := length_minimal hn hr.lt
    have := length_minimal hn hs.lt
    rw [hhead]
    simp only [ne_eq, not_true_eq_false, false_or]
    omega
  simp only [ecdsaRaw, hread, if_neg hshort, hwrite, ne_eq, not_true_eq_false, if_false,
    pad_minimal hn]

/-- Whatever is accepted is a signature in DER. -/
theorem eq_ecdsaSignature_of_ecdsaRaw {n : Nat} {sig out : List Byte} (hn : 1 ≤ n)
    (hmax : n ≤ INTEGER_MAX) (h : ecdsaRaw sig n = some out) :
    ∃ r s, r < 256 ^ n ∧ s < 256 ^ n ∧ sig = ecdsaSignature r s ∧
      out = Der.fixed n r ++ Der.fixed n s := by
  rw [ecdsaRaw] at h
  split at h
  · rename_i r s hread
    obtain ⟨hshort, h⟩ := Option.ite_none_left_eq_some.mp h
    obtain ⟨hwrite, h⟩ := Option.ite_none_left_eq_some.mp h
    obtain ⟨hr, hs⟩ : r.length ≤ n ∧ s.length ≤ n := by
      simp only [not_or, Nat.not_lt] at hshort
      exact hshort.2
    have hrmin : Minimal r := derIntegers_minimal hread r (by simp)
    have hsmin : Minimal s := derIntegers_minimal hread s (by simp)
    have hsig : sig = ecdsaSignature (Der.value r) (Der.value s) := by
      rw [← not_not.mp hwrite, cryptEcdsaWrite_eq]
      · exact Nat.le_trans (nonzeros_le_length r) (Nat.le_trans hr hmax)
      · exact Nat.le_trans (nonzeros_le_length s) (Nat.le_trans hs hmax)
    refine ⟨Der.value r, Der.value s, ?_, ?_, hsig, ?_⟩
    · exact Nat.lt_of_lt_of_le (Der.value_lt r) (Nat.pow_le_pow_right (by decide) hr)
    · exact Nat.lt_of_lt_of_le (Der.value_lt s) (Nat.pow_le_pow_right (by decide) hs)
    · rw [← pad_minimal hn, ← pad_minimal hn, ← hrmin, ← hsmin]
      exact (Option.some.inj h).symm
  · simp at h

theorem ecdsaDer_append {a b : List Byte} (h : a.length = b.length) :
    ecdsaDer (a ++ b) = cryptEcdsaWrite a b := by
  have hhalf : (a ++ b).length / 2 = a.length := by
    rw [List.length_append]
    omega
  rw [ecdsaDer, hhalf, List.take_left, List.drop_left, h, List.take_length]

/-- A signature of two halves that `cumsum` can count goes there and back. -/
theorem ecdsaRaw_ecdsaDer {n : Nat} {a b : List Byte} (hn : 1 ≤ n) (hmax : n < VECTOR_MAX)
    (ha : a.length = n) (hb : b.length = n) (hca : nonzeros a ≤ INTEGER_MAX)
    (hcb : nonzeros b ≤ INTEGER_MAX) : ecdsaRaw (ecdsaDer (a ++ b)) n = some (a ++ b) := by
  have hfits : ∀ x : List Byte, x.length = n → nonzeros x ≤ INTEGER_MAX → Fits n (Der.value x) := by
    intro x hx hc
    refine ⟨hx ▸ Der.value_lt x, ?_⟩
    rw [Der.octets_value]
    exact Nat.le_trans ((List.dropWhile_sublist _).countP_le) hc
  rw [ecdsaDer_append (ha.trans hb.symm), cryptEcdsaWrite_eq hca hcb,
    ecdsaRaw_ecdsaSignature hn hmax (hfits a ha hca) (hfits b hb hcb)]
  have hfa : Der.fixed n (Der.value a) = a := by rw [← ha, Der.fixed_value]
  have hfb : Der.fixed n (Der.value b) = b := by rw [← hb, Der.fixed_value]
  rw [hfa, hfb]

/-! ### The codec is a bijection onto DER -/

/-- **The ECDSA signature codec is a bijection onto DER**, where the width is an R
integer.  A pair of numbers in `n` bytes each goes there and back; what is accepted is
exactly the DER encodings of two numbers of at most `n` bytes, and is those numbers. -/
theorem ecdsa_codec_exact {n : Nat} (hn : 1 ≤ n) (hmax : n ≤ INTEGER_MAX) :
    (∀ rs : List Byte, rs.length = 2 * n → ecdsaRaw (ecdsaDer rs) n = some rs) ∧
    (∀ sig out : List Byte, ecdsaRaw sig n = some out ↔
      ∃ r s, r < 256 ^ n ∧ s < 256 ^ n ∧ sig = ecdsaSignature r s ∧
        out = Der.fixed n r ++ Der.fixed n s) ∧
    (∀ sig out : List Byte, ecdsaRaw sig n = some out → ecdsaDer out = sig) := by
  have hvector : n < VECTOR_MAX := Nat.lt_of_le_of_lt hmax (by decide)
  have hcount : ∀ x : List Byte, x.length = n → nonzeros x ≤ INTEGER_MAX := by
    intro x hx
    have := nonzeros_le_length x
    omega
  refine ⟨fun rs hrs => ?_, fun sig out => ⟨fun h => ?_, ?_⟩, fun sig out h => ?_⟩
  · have hleft : (rs.take n).length = n := by rw [List.length_take]; omega
    have hright : (rs.drop n).length = n := by rw [List.length_drop]; omega
    have hback := ecdsaRaw_ecdsaDer hn hvector hleft hright (hcount _ hleft) (hcount _ hright)
    rwa [List.take_append_drop] at hback
  · exact eq_ecdsaSignature_of_ecdsaRaw hn hmax h
  · rintro ⟨r, s, hr, hs, rfl, rfl⟩
    exact ecdsaRaw_ecdsaSignature hn hvector (.of_lt hmax hr) (.of_lt hmax hs)
  · obtain ⟨r, s, hr, hs, rfl, rfl⟩ := eq_ecdsaSignature_of_ecdsaRaw hn hmax h
    have hlr := Der.length_fixed hr
    have hls := Der.length_fixed hs
    rw [ecdsaDer_append (hlr.trans hls.symm), cryptEcdsaWrite_eq (hcount _ hlr) (hcount _ hls),
      Der.value_fixed, Der.value_fixed]

/-- One byte each: the second integer needs a zero before it. -/
theorem ecdsa_codec_exact_known :
    ecdsaDer [0x01, 0x80] = [0x30, 0x07, 0x02, 0x01, 0x01, 0x02, 0x02, 0x00, 0x80] ∧
      ecdsaRaw [0x30, 0x07, 0x02, 0x01, 0x01, 0x02, 0x02, 0x00, 0x80] 1 = some [0x01, 0x80] := by
  have hder : ecdsaDer [0x01, 0x80] = [0x30, 0x07, 0x02, 0x01, 0x01, 0x02, 0x02, 0x00, 0x80] := by
    decide
  refine ⟨hder, ?_⟩
  rw [← hder]
  exact (ecdsa_codec_exact (n := 1) (by decide) (by decide)).1 [0x01, 0x80] rfl

/-! ### One byte more -/

/-- The byte that `cumsum` cannot count is lost. -/
theorem nonzeroFrom_replicate {seen k : Nat} (h : seen + k = INTEGER_MAX) :
    nonzeroFrom seen (List.replicate (k + 1) 1) = List.replicate k 1 ++ [0] := by
  have hone : (1 : Byte) ≠ 0 := by decide
  induction k generalizing seen with
  | zero =>
    rw [List.replicate_succ, nonzeroFrom_overflow hone (by omega)]
    rfl
  | succ k ih =>
    rw [List.replicate_succ, nonzeroFrom_cons hone (by omega), ih (by omega), List.replicate_succ,
      List.cons_append]

theorem derInteger_congr {x y : List Byte} (h : stripZeros x = stripZeros y) :
    derInteger x = derInteger y := by
  simp only [derInteger, h]

/-- `2147483648` bytes of ones, and what the codec makes of them. -/
def ones : List Byte := List.replicate (INTEGER_MAX + 1) 1

def truncatedOnes : List Byte := List.replicate INTEGER_MAX 1 ++ [0]

theorem stripZeros_ones : stripZeros ones = truncatedOnes := nonzeroFrom_replicate (Nat.zero_add _)

theorem nonzeros_truncatedOnes : nonzeros truncatedOnes ≤ INTEGER_MAX := by
  rw [nonzeros, truncatedOnes, List.countP_append, List.countP_replicate]
  exact Nat.le_of_eq rfl

theorem stripZeros_truncatedOnes : stripZeros truncatedOnes = truncatedOnes := by
  have hhead : ∀ k : Nat, 0 < k → (List.replicate k 1 ++ [(0 : Byte)]).dropWhile (· = 0) =
      List.replicate k 1 ++ [0] := by
    intro k hk
    obtain ⟨j, rfl⟩ := Nat.exists_eq_succ_of_ne_zero (Nat.ne_of_gt hk)
    rw [List.replicate_succ, List.cons_append, List.dropWhile_cons_of_neg (by decide)]
  rw [stripZeros, nonzeroFrom_of_le (by have := nonzeros_truncatedOnes; omega),
    if_neg (by decide)]
  exact hhead INTEGER_MAX (by decide)

/-- A signature of ones in `2147483648` bytes each does not come back: the last byte of
each half is lost. -/
theorem ecdsa_codec_overflow :
    (ones ++ ones).length = 2 * (INTEGER_MAX + 1) ∧
      ecdsaRaw (ecdsaDer (ones ++ ones)) (INTEGER_MAX + 1) = some (truncatedOnes ++ truncatedOnes) ∧
      truncatedOnes ++ truncatedOnes ≠ ones ++ ones := by
  have hones : ones.length = INTEGER_MAX + 1 := List.length_replicate
  have htruncated : truncatedOnes.length = INTEGER_MAX + 1 := by
    rw [truncatedOnes, List.length_append, List.length_replicate, List.length_singleton]
  refine ⟨?_, ?_, ?_⟩
  · rw [List.length_append, hones]
    omega
  · have hsame : derInteger ones = derInteger truncatedOnes :=
      derInteger_congr (stripZeros_ones.trans stripZeros_truncatedOnes.symm)
    have hder : ecdsaDer (ones ++ ones) = ecdsaDer (truncatedOnes ++ truncatedOnes) := by
      rw [ecdsaDer_append rfl, ecdsaDer_append rfl, cryptEcdsaWrite, cryptEcdsaWrite, hsame]
    rw [hder]
    exact ecdsaRaw_ecdsaDer (Nat.succ_pos _) (by decide) htruncated htruncated
      nonzeros_truncatedOnes nonzeros_truncatedOnes
  · intro heq
    have hmem : (0 : Byte) ∈ ones ++ ones := by
      rw [← heq, truncatedOnes]
      simp
    rw [ones, List.mem_append, or_self] at hmem
    exact absurd (List.eq_of_mem_replicate hmem) (by decide)

end Zucrypt.R
