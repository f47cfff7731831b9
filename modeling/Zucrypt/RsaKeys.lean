import Mathlib.Data.Nat.Size
import Mathlib.Data.Nat.Prime.Defs
import Zucrypt.KeyFormats

/-! # RSA keys and their encodings

`RSAPublicKey` and `RSAPrivateKey` of RFC 8017, of keys whose parts agree, and how long the
encodings are: the contents of an integer of `b` bits take `b / 8 + 1` octets, one more than its
octets if its top bit would read as a sign.

A `PrivateKey` carries that its parts agree (`Consistent`), so that its public half and its encoding
are those of one key.  `read_der` says of each kind that its encoding is read as the key it is of,
and `length_der_le` bounds the encoding of a key whose exponent has at most 32 bits; that bound is
the buffer keys are exported into, and a longer exponent may take more. -/
namespace Der

theorem octet_pow (k : Nat) : 256 ^ k = 2 ^ (8 * k) := by
  rw [show 256 = 2 ^ 8 by decide, ← Nat.pow_mul]

/-- A size in bits, read as one in octets. -/
theorem lt_of_size_le {n k : Nat} (h : n.size ≤ 8 * k) : n < 256 ^ k := by
  rw [octet_pow]
  exact Nat.size_le.mp h

/-- The contents of an integer: as many octets as it has, and one more if they begin with
a one bit. -/
theorem length_unsigned (n : Nat) : (unsigned n).length = n.size / 8 + 1 := by
  have hvalue := value_octets n
  have hhead := head_octets n
  unfold unsigned
  cases hoctets : octets n with
  | nil =>
    rw [octets_eq_nil.mp hoctets]
    rfl
  | cons b bs =>
    rw [hoctets] at hvalue hhead
    have hb : b.toNat ≠ 0 := by
      intro hzero
      exact hhead (congrArg some (UInt8.toNat_inj.mp hzero))
    have hsplit : b.toNat * 256 ^ bs.length + value bs = n := by
      rw [← hvalue, ← List.singleton_append, value_append]
      simp [value]
    have hlt := value_lt bs
    rw [octet_pow] at hsplit hlt
    -- the first octet is not zero, so all but it are needed
    have hlower : 8 * bs.length < n.size := by
      rw [Nat.lt_size]
      have hone := Nat.mul_le_mul_right (2 ^ (8 * bs.length)) (Nat.one_le_iff_ne_zero.mpr hb)
      omega
    -- if its first bit is one, a zero octet goes in front
    by_cases hsign : 128 ≤ b.toNat
    · have hupper : n.size ≤ 8 * bs.length + 8 := by
        rw [Nat.size_le, Nat.pow_add]
        have hbyte := Nat.mul_le_mul_right (2 ^ (8 * bs.length)) (Nat.le_of_lt_succ b.toNat_lt)
        omega
      have hfull : 8 * bs.length + 7 < n.size := by
        rw [Nat.lt_size, Nat.pow_add]
        have hbyte := Nat.mul_le_mul_right (2 ^ (8 * bs.length)) hsign
        omega
      simp only [if_pos hsign, List.length_cons]
      omega
    · have hupper : n.size ≤ 8 * bs.length + 7 := by
        rw [Nat.size_le, Nat.pow_add]
        have hsmall : b.toNat ≤ 127 := Nat.le_of_lt_succ (Nat.not_le.mp hsign)
        have hbyte := Nat.mul_le_mul_right (2 ^ (8 * bs.length)) hsmall
        omega
      simp only [if_neg hsign, List.length_cons]
      omega

theorem length_lengthOctets_le {n : Nat} (h : n < 65536) : (lengthOctets n).length ≤ 3 := by
  unfold lengthOctets
  split
  · simp
  · have hoctets : (octets n).length ≤ 2 := length_octets_le.mpr (by omega)
    simp only [List.length_cons]
    omega

/-- An element of less than 64 KiB has a head of at most four octets. -/
theorem length_element_le (tag : UInt8) {contents : Octets} (h : contents.length < 65536) :
    (element tag contents).length ≤ contents.length + 4 := by
  have hhead := length_lengthOctets_le h
  rw [length_element]
  omega

theorem length_element_short (tag : UInt8) {contents : Octets} (h : contents.length < 128) :
    (element tag contents).length = contents.length + 2 := by
  rw [length_element, lengthOctets, if_pos h, List.length_singleton]
  omega

theorem length_integer_le {n : Nat} (h : n.size < 4096 * 8) :
    (integer n).length ≤ n.size / 8 + 5 := by
  have hcontents := length_unsigned n
  have hlength := length_element_le 0x02 (show (unsigned n).length < 65536 by omega)
  rw [integer]
  omega

theorem length_integer_short {n : Nat} (h : n.size < 1016) :
    (integer n).length = n.size / 8 + 3 := by
  have hcontents := length_unsigned n
  rw [integer, length_element_short 0x02 (by omega), hcontents]

/-- A sequence of integers. -/
def integers (ns : List Nat) : Octets := element 0x30 (ns.flatMap integer)

/-- A few integers of at most 4096 bits make a short sequence. -/
theorem length_integers_lt {ns : List Nat} (hfew : ns.length ≤ 16) (h : ∀ n ∈ ns, n.size ≤ 4096) :
    (integers ns).length < 256 ^ 2 := by
  have hbody : (ns.flatMap integer).length ≤ ns.length * 517 := by
    clear hfew
    induction ns with
    | nil => simp
    | cons n ns ih =>
      have hn := h n List.mem_cons_self
      have hone := length_integer_le (n := n) (by omega)
      have hrest := ih fun m hm => h m (List.mem_cons_of_mem _ hm)
      rw [List.flatMap_cons, List.length_append, List.length_cons]
      omega
  have hwhole := length_element_le 0x30 (show (ns.flatMap integer).length < 65536 by omega)
  rw [integers]
  omega

theorem short_lt_lengthLimit : 256 ^ 2 < lengthLimit :=
  Nat.pow_lt_pow_right (by decide) (by decide)

theorem integers_eq_sequence (ns : List Nat) :
    integers ns = sequence (ns.map fun n => (0x02, unsigned n)) := by
  rw [integers, sequence, elements, List.flatMap_map]
  rfl

/-- Read one of them. -/
def readInteger (e : Element) : Option Nat := if e.1 = 0x02 then readUnsigned e.2 else none

/-- Read a sequence of integers. -/
def readIntegers (bs : Octets) : Option (List Nat) := (readSequence bs).bind (List.mapM readInteger)

theorem readInteger_integer (n : Nat) : readInteger (0x02, unsigned n) = some n := by
  rw [readInteger, if_pos rfl, readUnsigned_unsigned]

theorem mapM_readInteger (ns : List Nat) :
    (ns.map fun n => ((0x02, unsigned n) : Element)).mapM readInteger = some ns := by
  induction ns with
  | nil => rfl
  | cons n ns ih =>
    rw [List.map_cons, List.mapM_cons, readInteger_integer, ih]
    rfl

theorem readIntegers_integers {ns : List Nat} (h : (integers ns).length < lengthLimit) :
    readIntegers (integers ns) = some ns := by
  rw [integers_eq_sequence] at h ⊢
  rw [readIntegers, readSequence_sequence h, Option.bind_some, mapM_readInteger]

end Der

namespace Rsa

/-- A public key: a modulus of whole octets, and an exponent. -/
structure PublicKey where
  n : Nat
  e : Nat
  aligned : 8 ∣ n.size
  exponent : 2 < e
  exponent_lt : e < n

/-- `RSAPublicKey`. -/
def PublicKey.der (k : PublicKey) : Der.Octets := Der.integers [k.n, k.e]

/-- The parts of a private key agree, as RFC 8017 has it. -/
structure Consistent (n e d p q dp dq qi : Nat) : Prop where
  prime_p : p.Prime
  prime_q : q.Prime
  modulus : n = p * q
  d_lt : d < n
  inverse_p : e * d % (p - 1) = 1
  inverse_q : e * d % (q - 1) = 1
  dp_lt : dp < p
  exponent_p : e * dp % (p - 1) = 1
  dq_lt : dq < q
  exponent_q : e * dq % (q - 1) = 1
  qi_lt : qi < p
  coefficient : q * qi % p = 1

theorem Consistent.p_le {n e d p q dp dq qi : Nat} (h : Consistent n e d p q dp dq qi) : p ≤ n := by
  rw [h.modulus]
  exact Nat.le_mul_of_pos_right _ h.prime_q.pos

theorem Consistent.q_le {n e d p q dp dq qi : Nat} (h : Consistent n e d p q dp dq qi) : q ≤ n := by
  rw [h.modulus]
  exact Nat.le_mul_of_pos_left _ h.prime_p.pos

/-- A private key. -/
structure PrivateKey extends PublicKey where
  d : Nat
  p : Nat
  q : Nat
  dp : Nat
  dq : Nat
  qi : Nat
  consistent : Consistent n e d p q dp dq qi

/-- `RSAPrivateKey`. -/
def PrivateKey.der (k : PrivateKey) : Der.Octets :=
  Der.integers [0, k.n, k.e, k.d, k.p, k.q, k.dp, k.dq, k.qi]

/-- The room an encoding of a public key takes, with an exponent of at most 32 bits. -/
theorem PublicKey.length_der_le (k : PublicKey) (hn : k.n.size ≤ 4096) (he : k.e.size ≤ 32) :
    k.der.length ≤ k.n.size / 8 + 16 := by
  have hmodulus := Der.length_integer_le (n := k.n) (by omega)
  have hexponent := Der.length_integer_short (n := k.e) (by omega)
  have hbody : ([k.n, k.e].flatMap Der.integer).length ≤ k.n.size / 8 + 12 := by
    simp only [List.flatMap_cons, List.flatMap_nil, List.append_nil, List.length_append]
    omega
  have hwhole := Der.length_element_le 0x30
    (show ([k.n, k.e].flatMap Der.integer).length < 65536 by omega)
  rw [PublicKey.der, Der.integers]
  omega

theorem size_mul_ge {p q : Nat} (hp : 0 < p) (hq : 0 < q) : p.size + q.size ≤ (p * q).size + 1 := by
  have hp' : 2 ^ (p.size - 1) ≤ p := Nat.lt_size.mp (by have := Nat.size_pos.mpr hp; omega)
  have hq' : 2 ^ (q.size - 1) ≤ q := Nat.lt_size.mp (by have := Nat.size_pos.mpr hq; omega)
  have hmul : 2 ^ (p.size - 1 + (q.size - 1)) ≤ p * q := by
    rw [Nat.pow_add]
    exact Nat.mul_le_mul hp' hq'
  have hsize := Nat.lt_size.mpr hmul
  omega

/-- The room an encoding of a private key takes, with an exponent of at most 32 bits and
primes whose sizes differ by at most one bit. -/
theorem PrivateKey.length_der_le (k : PrivateKey) (hn : k.n.size ≤ 4096) (he : k.e.size ≤ 32)
    (hpq : k.p.size ≤ k.q.size + 1) (hqp : k.q.size ≤ k.p.size + 1) :
    k.der.length ≤ 9 * ((k.n.size / 2 + 1) / 8 + 5) + 14 := by
  have hprimes := size_mul_ge k.consistent.prime_p.pos k.consistent.prime_q.pos
  rw [← k.consistent.modulus] at hprimes
  have hp : k.p.size ≤ k.n.size / 2 + 1 := by omega
  have hq : k.q.size ≤ k.n.size / 2 + 1 := by omega
  have hd : k.d.size ≤ k.n.size := Nat.size_le_size (Nat.le_of_lt k.consistent.d_lt)
  have hdp : k.dp.size ≤ k.p.size := Nat.size_le_size (Nat.le_of_lt k.consistent.dp_lt)
  have hdq : k.dq.size ≤ k.q.size := Nat.size_le_size (Nat.le_of_lt k.consistent.dq_lt)
  have hqi : k.qi.size ≤ k.p.size := Nat.size_le_size (Nat.le_of_lt k.consistent.qi_lt)
  -- each of the five integers of half the size takes at most this
  have hhalf : ∀ m : Nat, m.size ≤ k.n.size / 2 + 1 →
      (Der.integer m).length ≤ (k.n.size / 2 + 1) / 8 + 5 := by
    intro m hm
    have hlength := Der.length_integer_le (n := m) (by omega)
    have hdiv : m.size / 8 ≤ (k.n.size / 2 + 1) / 8 := Nat.div_le_div_right hm
    omega
  have hversion : (Der.integer 0).length = 3 := by decide
  have hmodulus := Der.length_integer_le (n := k.n) (by omega)
  have hexponent := Der.length_integer_short (n := k.e) (by omega)
  have hsecret := Der.length_integer_le (n := k.d) (by omega)
  have hp' := hhalf k.p hp
  have hq' := hhalf k.q hq
  have hdp' := hhalf k.dp (by omega)
  have hdq' := hhalf k.dq (by omega)
  have hqi' := hhalf k.qi (by omega)
  have hbody : ([0, k.n, k.e, k.d, k.p, k.q, k.dp, k.dq, k.qi].flatMap Der.integer).length ≤
      20 + 2 * (k.n.size / 8) + 5 * ((k.n.size / 2 + 1) / 8 + 5) := by
    simp only [List.flatMap_cons, List.flatMap_nil, List.append_nil, List.length_append]
    omega
  have hwhole := Der.length_element_le 0x30 (show ([0, k.n, k.e, k.d, k.p, k.q, k.dp, k.dq,
    k.qi].flatMap Der.integer).length < 65536 by omega)
  rw [PrivateKey.der, Der.integers]
  omega

/-! ### Reading them -/

/-- The public key of its integers. -/
def PublicKey.ofIntegers : List Nat → Option PublicKey
  | [n, e] =>
    if h : 8 ∣ n.size ∧ 2 < e ∧ e < n then some ⟨n, e, h.1, h.2.1, h.2.2⟩ else none
  | _ => none

/-- Read `RSAPublicKey`. -/
def PublicKey.read (bs : Der.Octets) : Option PublicKey :=
  (Der.readIntegers bs).bind PublicKey.ofIntegers

theorem PublicKey.ofIntegers_integers (k : PublicKey) : ofIntegers [k.n, k.e] = some k := by
  rw [ofIntegers, dif_pos ⟨k.aligned, k.exponent, k.exponent_lt⟩]

theorem PublicKey.eq_integers {ns : List Nat} {k : PublicKey} (h : ofIntegers ns = some k) :
    ns = [k.n, k.e] := by
  match ns with
  | [n, e] =>
    obtain ⟨_, heq⟩ := Option.dite_none_right_eq_some.mp h
    rw [← Option.some.inj heq]
  | [] => cases h
  | [_] => cases h
  | _ :: _ :: _ :: _ => cases h

theorem PublicKey.length_der_lt (k : PublicKey) (hn : k.n.size ≤ 4096) :
    k.der.length < 256 ^ 2 := by
  refine Der.length_integers_lt (by simp) fun m hm => ?_
  have he := Nat.size_le_size (Nat.le_of_lt k.exponent_lt)
  simp only [List.mem_cons, List.not_mem_nil, or_false] at hm
  rcases hm with rfl | rfl
  · exact hn
  · exact Nat.le_trans he hn

theorem PublicKey.read_der (k : PublicKey) (hn : k.n.size ≤ 4096) : read k.der = some k := by
  have h := Nat.lt_trans (k.length_der_lt hn) Der.short_lt_lengthLimit
  rw [read, der, Der.readIntegers_integers h, Option.bind_some, ofIntegers_integers]

instance (n e d p q dp dq qi : Nat) : Decidable (Consistent n e d p q dp dq qi) :=
  decidable_of_iff
    (p.Prime ∧ q.Prime ∧ n = p * q ∧ d < n ∧ e * d % (p - 1) = 1 ∧ e * d % (q - 1) = 1 ∧ dp < p ∧
      e * dp % (p - 1) = 1 ∧ dq < q ∧ e * dq % (q - 1) = 1 ∧ qi < p ∧ q * qi % p = 1)
    ⟨fun ⟨h₁, h₂, h₃, h₄, h₅, h₆, h₇, h₈, h₉, h₁₀, h₁₁, h₁₂⟩ =>
      ⟨h₁, h₂, h₃, h₄, h₅, h₆, h₇, h₈, h₉, h₁₀, h₁₁, h₁₂⟩,
    fun h => ⟨h.prime_p, h.prime_q, h.modulus, h.d_lt, h.inverse_p, h.inverse_q, h.dp_lt, h.exponent_p,
      h.dq_lt, h.exponent_q, h.qi_lt, h.coefficient⟩⟩

/-- The private key of its integers; the first is the version. -/
def PrivateKey.ofIntegers : List Nat → Option PrivateKey
  | [0, n, e, d, p, q, dp, dq, qi] =>
    (PublicKey.ofIntegers [n, e]).bind fun k =>
      if h : Consistent k.n k.e d p q dp dq qi then some ⟨k, d, p, q, dp, dq, qi, h⟩ else none
  | _ => none

/-- Read `RSAPrivateKey`. -/
def PrivateKey.read (bs : Der.Octets) : Option PrivateKey :=
  (Der.readIntegers bs).bind PrivateKey.ofIntegers

theorem PrivateKey.ofIntegers_integers (k : PrivateKey) :
    ofIntegers [0, k.n, k.e, k.d, k.p, k.q, k.dp, k.dq, k.qi] = some k := by
  rw [ofIntegers, PublicKey.ofIntegers_integers, Option.bind_some, dif_pos k.consistent]

theorem PrivateKey.eq_integers {ns : List Nat} {k : PrivateKey} (h : ofIntegers ns = some k) :
    ns = [0, k.n, k.e, k.d, k.p, k.q, k.dp, k.dq, k.qi] := by
  unfold ofIntegers at h
  split at h
  · rename_i n e d p q dp dq qi
    obtain ⟨k', hk', h⟩ := Option.bind_eq_some_iff.mp h
    obtain ⟨_, heq⟩ := Option.dite_none_right_eq_some.mp h
    have hpublic := PublicKey.eq_integers hk'
    simp only [List.cons.injEq, and_true] at hpublic
    rw [← Option.some.inj heq, hpublic.1, hpublic.2]
  · cases h

theorem PrivateKey.size_le (k : PrivateKey) (hn : k.n.size ≤ 4096) :
    ∀ m ∈ [0, k.n, k.e, k.d, k.p, k.q, k.dp, k.dq, k.qi], m.size ≤ 4096 := by
  refine fun m hm => Nat.le_trans (Nat.size_le_size ?_) hn
  have hp := k.consistent.p_le
  have hq := k.consistent.q_le
  have he := k.exponent_lt
  have hd := k.consistent.d_lt
  have hdp := k.consistent.dp_lt
  have hdq := k.consistent.dq_lt
  have hqi := k.consistent.qi_lt
  simp only [List.mem_cons, List.not_mem_nil, or_false] at hm
  omega

theorem PrivateKey.length_der_lt (k : PrivateKey) (hn : k.n.size ≤ 4096) :
    k.der.length < 256 ^ 2 := Der.length_integers_lt (by simp) (k.size_le hn)

theorem PrivateKey.read_der (k : PrivateKey) (hn : k.n.size ≤ 4096) : read k.der = some k := by
  have h := Nat.lt_trans (k.length_der_lt hn) Der.short_lt_lengthLimit
  rw [read, der, Der.readIntegers_integers h, Option.bind_some, ofIntegers_integers]

/-- The encoding of a public key is not one of a private key. -/
theorem PrivateKey.read_public (k : PublicKey) (hn : k.n.size ≤ 4096) : read k.der = none := by
  have h := Nat.lt_trans (k.length_der_lt hn) Der.short_lt_lengthLimit
  rw [read, PublicKey.der, Der.readIntegers_integers h, Option.bind_some]
  cases hread : ofIntegers [k.n, k.e] with
  | none => rfl
  | some k' => exact absurd (congrArg List.length (eq_integers hread)) (by simp)

end Rsa
