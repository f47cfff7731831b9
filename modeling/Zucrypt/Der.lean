import Mathlib.Data.Nat.Digits.Lemmas
import Mathlib.Tactic.NormNum

/-! # DER elements

Tag, length and contents, with one octet of tag and the length in the least number of octets, as DER
has it.  `readElement` is a strict reader of one element: it accepts what `element` writes and
nothing else (`readElement_element`, `eq_element_of_readElement`).

Integers are unsigned and written with the least number of octets, a zero before one whose first bit
is set.  `octets` and `value` go between a number and its octets: `value_octets` one way, and
`octets_value` the other, where leading zeros are lost; `fixed` keeps them, for numbers of a given
width.

Both directions of the reader are there so that a format made of elements can be said to have one
encoding of each value, which is what DER is for.  The limit on a length, `256 ^ 126`, is that its
octets are counted in seven bits, the last count being reserved. -/
namespace Der

abbrev Octets : Type := List UInt8

/-! ### Big-endian numbers -/

/-- The number the octets stand for, most significant first. -/
def value (bs : Octets) : Nat := Nat.ofDigits 256 (bs.reverse.map UInt8.toNat)

/-- The octets of a number, none of them a leading zero. -/
def octets (n : Nat) : Octets := ((Nat.digits 256 n).map UInt8.ofNat).reverse

/-- A number in `w` octets. -/
def fixed (w n : Nat) : Octets := List.replicate (w - (octets n).length) 0 ++ octets n

theorem toNat_ofNat_digits (n : Nat) :
    ((Nat.digits 256 n).map UInt8.ofNat).map UInt8.toNat = Nat.digits 256 n := by
  rw [List.map_map]
  refine (List.map_congr_left fun d hd => ?_).trans (List.map_id _)
  exact UInt8.toNat_ofNat_of_lt' (Nat.digits_lt_base (by decide) hd)

@[simp] theorem value_octets (n : Nat) : value (octets n) = n := by
  rw [value, octets, List.reverse_reverse, toNat_ofNat_digits, Nat.ofDigits_digits]

theorem value_append (a b : Octets) : value (a ++ b) = value a * 256 ^ b.length + value b := by
  rw [value, List.reverse_append, List.map_append, Nat.ofDigits_append]
  simp [value, Nat.add_comm, Nat.mul_comm]

@[simp] theorem value_zero_cons (bs : Octets) : value (0 :: bs) = value bs := by
  have happend := value_append [0] bs
  rwa [show value [0] = 0 from rfl, Nat.zero_mul, Nat.zero_add] at happend

theorem value_lt (bs : Octets) : value bs < 256 ^ bs.length := by
  have hlt := Nat.ofDigits_lt_base_pow_length (b := 256) (l := bs.reverse.map UInt8.toNat)
    (by decide) (by
      intro d hd
      obtain ⟨b, -, rfl⟩ := List.mem_map.mp hd
      exact b.toNat_lt)
  rwa [List.length_map, List.length_reverse] at hlt

theorem octets_eq_nil {n : Nat} : octets n = [] ↔ n = 0 := by
  simp [octets, Nat.digits_eq_nil_iff_eq_zero]

/-- The last octet, and those before it. -/
theorem octets_of_ne_zero {n : Nat} (h : n ≠ 0) :
    octets n = octets (n / 256) ++ [UInt8.ofNat (n % 256)] := by
  rw [octets, Nat.digits_def' (by decide) (Nat.pos_of_ne_zero h), List.map_cons, List.reverse_cons]
  rfl

theorem length_octets_le {n w : Nat} : (octets n).length ≤ w ↔ n < 256 ^ w := by
  rw [octets, List.length_reverse, List.length_map]
  exact Nat.digits_length_le_iff (by decide) n

/-- The octets of the number some octets stand for: those octets, without leading
zeros. -/
theorem octets_value (bs : Octets) : octets (value bs) = bs.dropWhile (· = 0) := by
  induction bs with
  | nil => rfl
  | cons b bs ih =>
    by_cases hb : b = 0
    · subst hb
      rw [value_zero_cons, ih, List.dropWhile_cons_of_pos (by simp)]
    · rw [List.dropWhile_cons_of_neg (by simpa using hb), octets, value,
        Nat.digits_ofDigits 256 (by decide)]
      · rw [List.map_map, ← List.map_reverse, List.reverse_reverse]
        refine (List.map_congr_left fun x _ => ?_).trans (List.map_id _)
        exact UInt8.ofNat_toNat
      · intro d hd
        obtain ⟨x, -, rfl⟩ := List.mem_map.mp hd
        exact x.toNat_lt
      · intro hne
        have hlast : (List.map UInt8.toNat (b :: bs).reverse).getLast hne = b.toNat := by simp
        rw [hlast]
        exact fun h => hb (UInt8.toNat_inj.mp h)

theorem octets_value_of_head {bs : Octets} (h : bs.head? ≠ some 0) : octets (value bs) = bs := by
  rw [octets_value]
  cases bs with
  | nil => rfl
  | cons b bs =>
    have hb : b ≠ 0 := fun hb => h (by rw [hb]; rfl)
    exact List.dropWhile_cons_of_neg (by simpa using hb)

theorem head_octets (n : Nat) : (octets n).head? ≠ some 0 := by
  have hself := octets_value (octets n)
  rw [value_octets] at hself
  intro hhead
  cases hbs : octets n with
  | nil => simp [hbs] at hhead
  | cons b bs =>
    rw [hbs, List.head?_cons, Option.some.injEq] at hhead
    subst hhead
    rw [hbs, List.dropWhile_cons_of_pos (by simp)] at hself
    have hlen := congrArg List.length hself
    have hdrop := (List.dropWhile_sublist (l := bs) (fun x => decide (x = 0))).length_le
    simp only [List.length_cons] at hlen
    omega

theorem length_fixed {w n : Nat} (h : n < 256 ^ w) : (fixed w n).length = w := by
  have := length_octets_le.mpr h
  simp only [fixed, List.length_append, List.length_replicate]
  omega

theorem fixed_value (bs : Octets) : fixed bs.length (value bs) = bs := by
  rw [fixed, octets_value]
  induction bs with
  | nil => rfl
  | cons b bs ih =>
    by_cases hb : b = 0
    · subst hb
      rw [List.dropWhile_cons_of_pos (by simp)]
      have hle := (List.dropWhile_sublist (l := bs) (fun x => decide (x = 0))).length_le
      rw [List.length_cons, Nat.succ_sub hle, List.replicate_succ, List.cons_append, ih]
    · rw [List.dropWhile_cons_of_neg (by simpa using hb)]
      simp

@[simp] theorem value_fixed (w n : Nat) : value (fixed w n) = n := by
  rw [fixed]
  induction w - (octets n).length with
  | zero => exact value_octets n
  | succ k ih => rw [List.replicate_succ, List.cons_append, value_zero_cons, ih]

/-! ### Lengths -/

/-- The length octets of `n`. -/
def lengthOctets (n : Nat) : Octets :=
  if n < 128 then [UInt8.ofNat n] else UInt8.ofNat (128 + (octets n).length) :: octets n

/-- Read a length, in no more octets than it needs. -/
def readLength : Octets → Option (Nat × Octets)
  | [] => none
  | b :: bs =>
    if b.toNat < 128 then
      some (b.toNat, bs)
    else
      let k := b.toNat - 128
      let ds := bs.take k
      if k < 127 ∧ ds.length = k ∧ ds.head? ≠ some 0 ∧ 128 ≤ value ds then some (value ds, bs.drop k)
      else none

theorem readLength_lengthOctets {n : Nat} (hn : n < 256 ^ 126) (rest : Octets) :
    readLength (lengthOctets n ++ rest) = some (n, rest) := by
  unfold lengthOctets
  by_cases hshort : n < 128
  · have hb : (UInt8.ofNat n).toNat = n := UInt8.toNat_ofNat_of_lt' (Nat.lt_trans hshort (by decide))
    rw [if_pos hshort, List.singleton_append, readLength, hb, if_pos hshort]
  · have hlen : (octets n).length ≤ 126 := length_octets_le.mpr hn
    have hb : (UInt8.ofNat (128 + (octets n).length)).toNat = 128 + (octets n).length :=
      UInt8.toNat_ofNat_of_lt' (show _ < 256 by omega)
    have hk : 128 + (octets n).length - 128 = (octets n).length := by omega
    rw [if_neg hshort, List.cons_append, readLength, hb, if_neg (by omega)]
    simp only [hk, List.take_left', List.drop_left']
    rw [if_pos ⟨by omega, trivial, head_octets n, by rw [value_octets]; omega⟩, value_octets]

theorem eq_lengthOctets_of_readLength {bs rest : Octets} {n : Nat}
    (h : readLength bs = some (n, rest)) : bs = lengthOctets n ++ rest := by
  cases bs with
  | nil => simp [readLength] at h
  | cons b bs =>
    rw [readLength] at h
    split at h
    · rename_i hshort
      obtain ⟨rfl, rfl⟩ := Prod.mk.inj (Option.some.inj h)
      rw [lengthOctets, if_pos hshort, UInt8.ofNat_toNat, List.singleton_append]
    · rename_i hlong
      obtain ⟨hacc, h⟩ := Option.ite_none_right_eq_some.mp h
      obtain ⟨hk, hlen, hhead, hvalue⟩ := hacc
      obtain ⟨rfl, rfl⟩ := Prod.mk.inj (Option.some.inj h)
      have hb : UInt8.ofNat (128 + (b.toNat - 128)) = b := by
        rw [show 128 + (b.toNat - 128) = b.toNat by omega, UInt8.ofNat_toNat]
      rw [lengthOctets, if_neg (by omega), octets_value_of_head hhead, hlen, hb, List.cons_append,
        List.take_append_drop]

/-! ### Elements -/

/-- An element. -/
def element (tag : UInt8) (contents : Octets) : Octets :=
  tag :: (lengthOctets contents.length ++ contents)

/-- Read one element: its tag, its contents, and what comes after it. -/
def readElement : Octets → Option (UInt8 × Octets × Octets)
  | [] => none
  | tag :: bs =>
    match readLength bs with
    | none => none
    | some (n, rest) => if n ≤ rest.length then some (tag, rest.take n, rest.drop n) else none

theorem readElement_element (tag : UInt8) {contents : Octets} (h : contents.length < 256 ^ 126)
    (rest : Octets) : readElement (element tag contents ++ rest) = some (tag, contents, rest) := by
  rw [element, List.cons_append, List.append_assoc, readElement, readLength_lengthOctets h]
  simp

theorem eq_element_of_readElement {bs contents rest : Octets} {tag : UInt8}
    (h : readElement bs = some (tag, contents, rest)) : bs = element tag contents ++ rest := by
  cases bs with
  | nil => simp [readElement] at h
  | cons b bs =>
    rw [readElement] at h
    cases hlen : readLength bs with
    | none => simp [hlen] at h
    | some p =>
      obtain ⟨n, r⟩ := p
      simp only [hlen] at h
      obtain ⟨hle, h⟩ := Option.ite_none_right_eq_some.mp h
      simp only [Option.some.injEq, Prod.mk.injEq] at h
      obtain ⟨rfl, rfl, rfl⟩ := h
      rw [eq_lengthOctets_of_readLength hlen, element, List.length_take, Nat.min_eq_left hle,
        List.cons_append, List.append_assoc, List.take_append_drop]

/-! ### Integers -/

/-- The contents of an unsigned integer. -/
def unsigned (n : Nat) : Octets :=
  match octets n with
  | [] => [0]
  | b :: bs => if 128 ≤ b.toNat then 0 :: b :: bs else b :: bs

/-- An unsigned integer. -/
def integer (n : Nat) : Octets := element 0x02 (unsigned n)

theorem length_unsigned_le {n w : Nat} (h : n < 256 ^ w) : (unsigned n).length ≤ w + 1 := by
  have hlen := length_octets_le.mpr h
  unfold unsigned
  split
  · simp
  · rename_i b bs hbs
    rw [hbs] at hlen
    split <;> simp only [List.length_cons] at hlen ⊢ <;> omega

theorem value_unsigned (n : Nat) : value (unsigned n) = n := by
  have hvalue := value_octets n
  unfold unsigned
  split
  · rename_i hnil
    rw [← hvalue, hnil]
    rfl
  · rename_i b bs hbs
    rw [hbs] at hvalue
    split
    · rw [value_zero_cons, hvalue]
    · exact hvalue

end Der
