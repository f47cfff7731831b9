import Mathlib.NumberTheory.LucasPrimality
import Mathlib.Tactic.NormNum.Prime
import Zucrypt.ReferenceKeys
import Zucrypt.RsaKeys

/-! # RSA keys of a backend

`RsaTheory` is what a backend takes for an RSA key; `referenceTheory` is a theory that reads RSA
keys for what they are, and takes no other.

The bound of 4096 bits is the vendored library's.  A key that has been read is kept in its canonical
encoding, whatever it was read from, and a file that holds this encoding is read as the key.

The known keys at the end are ones to run the adapter with.  Their primes are of a kind that is
easily certified: the predecessor of one is a power of two times a prime, and a primitive root shows
it (`prime_of_root`), with powers by squaring so that the kernel can compute them. -/
namespace Zucrypt
open Effects ByteMemory

variable {O : Objects}

/-- A public key, as the backend keeps it. -/
def rsaPublicRef (k : Rsa.PublicKey) : RefKey := ⟨.rsaPublicKey, k.n.size, k.der⟩

/-- A private key, as the backend keeps it. -/
def rsaPrivateRef (k : Rsa.PrivateKey) : RefKey := ⟨.rsaKeyPair, k.n.size, k.der⟩

/-- What the backend takes for an RSA key is one, of up to 4096 bits, in its canonical
encoding, and that encoding is a key file too. -/
structure RsaTheory (T : KeyTheory O) : Prop where
  of_public : ∀ {data key}, T.read .rsaPublicKey data = some key →
    ∃ k : Rsa.PublicKey, k.n.size ≤ 4096 ∧ key = rsaPublicRef k
  of_private : ∀ {data key}, T.read .rsaKeyPair data = some key →
    ∃ k : Rsa.PrivateKey, k.n.size ≤ 4096 ∧ key = rsaPrivateRef k
  publicHalf : ∀ k : Rsa.PrivateKey, k.n.size ≤ 4096 →
    T.publicHalf (rsaPrivateRef k) = rsaPublicRef k.toPublicKey
  file : ∀ {key}, key.type.isRsa = true → T.Genuine key → T.readFile key.material = some key

/-! ### A theory of RSA keys -/

/-- The RSA key that is in an encoding, of up to 4096 bits. -/
def readRsa (type : PsaKeyType) (data : List Byte) : Option RefKey :=
  match type with
  | .rsaPublicKey =>
    (Rsa.PublicKey.read data).bind fun k => if k.n.size ≤ 4096 then some (rsaPublicRef k) else none
  | .rsaKeyPair =>
    (Rsa.PrivateKey.read data).bind fun k => if k.n.size ≤ 4096 then some (rsaPrivateRef k) else none
  | _ => none

theorem readRsa_public (k : Rsa.PublicKey) (hn : k.n.size ≤ 4096) :
    readRsa .rsaPublicKey k.der = some (rsaPublicRef k) := by
  simp only [readRsa, k.read_der hn, Option.bind_some, if_pos hn]

theorem readRsa_private (k : Rsa.PrivateKey) (hn : k.n.size ≤ 4096) :
    readRsa .rsaKeyPair k.der = some (rsaPrivateRef k) := by
  simp only [readRsa, k.read_der hn, Option.bind_some, if_pos hn]

theorem of_readRsa_public {data : List Byte} {key : RefKey}
    (h : readRsa .rsaPublicKey data = some key) :
    ∃ k : Rsa.PublicKey, k.n.size ≤ 4096 ∧ key = rsaPublicRef k := by
  obtain ⟨k, -, hk⟩ := Option.bind_eq_some_iff.mp h
  obtain ⟨hn, hkey⟩ := Option.ite_none_right_eq_some.mp hk
  exact ⟨k, hn, (Option.some.inj hkey).symm⟩

theorem of_readRsa_private {data : List Byte} {key : RefKey}
    (h : readRsa .rsaKeyPair data = some key) :
    ∃ k : Rsa.PrivateKey, k.n.size ≤ 4096 ∧ key = rsaPrivateRef k := by
  obtain ⟨k, -, hk⟩ := Option.bind_eq_some_iff.mp h
  obtain ⟨hn, hkey⟩ := Option.ite_none_right_eq_some.mp hk
  exact ⟨k, hn, (Option.some.inj hkey).symm⟩

/-- The public half of a key pair, as far as it is one. -/
def rsaPublicHalf (key : RefKey) : RefKey :=
  if key.type.isKeyPair then
    { type := key.type.publicKey, bits := key.bits,
      material := ((Rsa.PrivateKey.read key.material).map (·.toPublicKey.der)).getD [] }
  else
    key

theorem rsaPublicHalf_private (k : Rsa.PrivateKey) (hn : k.n.size ≤ 4096) :
    rsaPublicHalf (rsaPrivateRef k) = rsaPublicRef k.toPublicKey := by
  have hpair : (rsaPrivateRef k).type.isKeyPair = true := rfl
  rw [rsaPublicHalf, if_pos hpair]
  simp only [rsaPrivateRef, k.read_der hn]
  rfl

/-- The key in a file: a key pair, or a public key. -/
def readRsaFile (src : List Byte) : Option RefKey :=
  (readRsa .rsaKeyPair src).or (readRsa .rsaPublicKey src)

/-- A theory of RSA keys, of files in DER alone. -/
def referenceTheory : KeyTheory keyObjects where
  read := readRsa
  publicHalf := rsaPublicHalf
  readFile := readRsaFile
  held pk := pk
  read_type {type data key} h := by
    cases type with
    | rsaPublicKey =>
      obtain ⟨k, -, rfl⟩ := of_readRsa_public h
      rfl
    | rsaKeyPair =>
      obtain ⟨k, -, rfl⟩ := of_readRsa_private h
      rfl
    | _ => cases h
  read_material {type data key} h := by
    cases type with
    | rsaPublicKey =>
      obtain ⟨k, hn, rfl⟩ := of_readRsa_public h
      exact readRsa_public k hn
    | rsaKeyPair =>
      obtain ⟨k, hn, rfl⟩ := of_readRsa_private h
      exact readRsa_private k hn
    | _ => cases h
  publicHalf_type key := by
    unfold rsaPublicHalf
    cases htype : key.type <;> simp [PsaKeyType.isKeyPair, PsaKeyType.publicKey, htype]
  publicHalf_bits key := by
    unfold rsaPublicHalf
    split <;> rfl
  publicHalf_read {key} h := by
    cases htype : key.type with
    | rsaPublicKey =>
      have hsame : rsaPublicHalf key = key := by rw [rsaPublicHalf, htype, if_neg (by decide)]
      rw [hsame]
      exact h
    | rsaKeyPair =>
      rw [htype] at h
      obtain ⟨k, hn, rfl⟩ := of_readRsa_private h
      rw [rsaPublicHalf_private k hn]
      exact readRsa_public _ hn
    | _ =>
      rw [htype] at h
      cases h
  publicHalf_public {key} h := by
    rw [rsaPublicHalf, if_neg (by simp [h])]

theorem referenceTheory_rsa : RsaTheory referenceTheory where
  of_public h := of_readRsa_public h
  of_private h := of_readRsa_private h
  publicHalf k hn := rsaPublicHalf_private k hn
  file {key} hrsa h := by
    have h : readRsa key.type key.material = some key := h
    show readRsaFile key.material = some key
    unfold readRsaFile
    cases htype : key.type with
    | rsaKeyPair =>
      rw [htype] at h
      rw [h, Option.some_or]
    | rsaPublicKey =>
      rw [htype] at h
      obtain ⟨k, hn, rfl⟩ := of_readRsa_public h
      have hnone : readRsa .rsaKeyPair k.der = none := by
        simp only [readRsa, Rsa.PrivateKey.read_public k hn, Option.bind_none]
      have hmaterial : (rsaPublicRef k).material = k.der := rfl
      rw [hmaterial] at h ⊢
      rw [hnone, Option.none_or, h]
    | _ =>
      rw [htype] at hrsa
      cases hrsa

end Zucrypt

/-! ### Known keys -/
namespace Rsa

/-- A power modulo `m`, by squaring. -/
def powMod (a m : Nat) : Nat → Nat → Nat
  | 0, _ => 1 % m
  | fuel + 1, e =>
    let h := powMod a m fuel (e / 2)
    if e % 2 = 0 then h * h % m else h * h * a % m

theorem powMod_eq (a m : Nat) {fuel e : Nat} (h : e < 2 ^ fuel) : powMod a m fuel e = a ^ e % m := by
  induction fuel generalizing e with
  | zero =>
    obtain rfl : e = 0 := by simpa using h
    rfl
  | succ fuel ih =>
    have hhalf := ih (e := e / 2) (by omega)
    have hsplit : a ^ e = a ^ (e / 2) * a ^ (e / 2) * a ^ (e % 2) := by
      rw [← pow_add, ← pow_add]
      congr 1
      omega
    simp only [powMod, hhalf]
    by_cases heven : e % 2 = 0
    · rw [if_pos heven, hsplit, heven, pow_zero, mul_one, ← Nat.mul_mod]
    · rw [if_neg heven, hsplit, show e % 2 = 1 by omega, pow_one]
      simp [Nat.mul_mod]

/-- A prime whose predecessor is a power of two times a prime, by a primitive root. -/
theorem prime_of_root {k i j a n : Nat} (hk : k.Prime) (hi : i = j + 1) (hfuel : k * 2 ^ i < 2 ^ n)
    (hone : powMod a (k * 2 ^ i + 1) n (k * 2 ^ i) = 1)
    (htwo : powMod a (k * 2 ^ i + 1) n (k * 2 ^ j) ≠ 1)
    (hodd : powMod a (k * 2 ^ i + 1) n (2 ^ i) ≠ 1) :
    (k * 2 ^ i + 1).Prime := by
  subst hi
  have hpos : 0 < k := hk.pos
  have hhalf : k * 2 ^ (j + 1) / 2 = k * 2 ^ j := by
    rw [pow_succ, ← mul_assoc, Nat.mul_div_cancel _ (by decide)]
  have hlarge : 1 < k * 2 ^ (j + 1) + 1 := by
    have := Nat.mul_pos hpos (Nat.two_pow_pos (j + 1))
    omega
  -- a power is one modulo the number exactly if its residue is
  have hcast : ∀ e, e < 2 ^ n →
      (((a : ZMod (k * 2 ^ (j + 1) + 1)) ^ e = 1) ↔
        powMod a (k * 2 ^ (j + 1) + 1) n e = 1) := by
    intro e he
    rw [powMod_eq a _ he, ← Nat.cast_pow, ← Nat.cast_one (R := ZMod (k * 2 ^ (j + 1) + 1)),
      ZMod.natCast_eq_natCast_iff, Nat.ModEq, Nat.mod_eq_of_lt hlarge]
  refine lucas_primality _ (a : ZMod (k * 2 ^ (j + 1) + 1)) ?_ ?_
  · exact (hcast _ hfuel).mpr hone
  · intro r hr hdvd hpow
    rw [Nat.add_sub_cancel] at hdvd hpow
    have hlt : k * 2 ^ (j + 1) / r < 2 ^ n := Nat.lt_of_le_of_lt (Nat.div_le_self _ _) hfuel
    have hres := (hcast _ hlt).mp hpow
    rcases (Nat.Prime.dvd_mul hr).mp hdvd with hdvd | hdvd
    · obtain rfl := (Nat.prime_dvd_prime_iff_eq hr hk).mp hdvd
      rw [Nat.mul_div_cancel_left _ hpos] at hres
      exact hodd hres
    · obtain rfl := (Nat.prime_dvd_prime_iff_eq hr Nat.prime_two).mp (hr.dvd_of_dvd_pow hdvd)
      rw [hhalf] at hres
      exact htwo hres

/-- A size, by the powers of two on either side. -/
theorem size_eq {n b : Nat} (hlow : 2 ^ b ≤ n) (hhigh : n < 2 ^ (b + 1)) : n.size = b + 1 := by
  have hle := Nat.size_le.mpr hhigh
  have hlt := Nat.lt_size.mpr hlow
  omega

/-! ### A short modulus -/

def wideP : Nat := 50773 * 2 ^ 496 + 1

def wideQ : Nat := 25733 * 2 ^ 497 + 1

theorem prime_wideP : wideP.Prime :=
  prime_of_root (j := 495) (a := 3) (n := 512) (by norm_num) rfl (by decide +kernel)
    (by decide +kernel) (by decide +kernel) (by decide +kernel)

theorem prime_wideQ : wideQ.Prime :=
  prime_of_root (j := 496) (a := 3) (n := 512) (by norm_num) rfl (by decide +kernel)
    (by decide +kernel) (by decide +kernel) (by decide +kernel)

def wideModulus : Nat := wideP * wideQ

def wideExponent : Nat := 2 ^ 64 + 13

def wideD : Nat :=
  15694171209628278651339698016492049319153874030175379070907854323223365338786202940746614777714728922139459011667493043115371910952898871635592556000972656325

theorem size_wideModulus : wideModulus.size = 1024 :=
  size_eq (b := 1023) (by decide +kernel) (by decide +kernel)

/-- A key pair of 1024 bits with an exponent of 65. -/
def wideKey : PrivateKey where
  n := wideModulus
  e := wideExponent
  aligned := by rw [size_wideModulus]; decide
  exponent := by decide +kernel
  exponent_lt := by decide +kernel
  d := wideD
  p := wideP
  q := wideQ
  dp := wideD % (wideP - 1)
  dq := wideD % (wideQ - 1)
  qi :=
    299783299665784291425288023948462647466622594884099077482747389307981603977010355654921126258411132343113220803045828797530641714654110861285442516766499
  consistent :=
    { prime_p := prime_wideP
      prime_q := prime_wideQ
      modulus := rfl
      d_lt := by decide +kernel
      inverse_p := by decide +kernel
      inverse_q := by decide +kernel
      dp_lt := by decide +kernel
      exponent_p := by decide +kernel
      dq_lt := by decide +kernel
      exponent_q := by decide +kernel
      qi_lt := by decide +kernel
      coefficient := by decide +kernel }

theorem bits_wideKey : wideKey.n.size = 1024 := size_wideModulus

/-! ### A usual key -/

def usualD : Nat :=
  58536528456571457855168128550142242885300184195591798284151593253753698270890583815684517489469027217720469118495770259383579664519738693276095483257932414977

/-- A key pair of the same modulus with an exponent of 17 bits. -/
def usualKey : PrivateKey where
  n := wideModulus
  e := 65537
  aligned := wideKey.aligned
  exponent := by decide
  exponent_lt := by decide +kernel
  d := usualD
  p := wideP
  q := wideQ
  dp := usualD % (wideP - 1)
  dq := usualD % (wideQ - 1)
  qi := wideKey.qi
  consistent :=
    { prime_p := prime_wideP
      prime_q := prime_wideQ
      modulus := rfl
      d_lt := by decide +kernel
      inverse_p := by decide +kernel
      inverse_q := by decide +kernel
      dp_lt := by decide +kernel
      exponent_p := by decide +kernel
      dq_lt := by decide +kernel
      exponent_q := by decide +kernel
      qi_lt := by decide +kernel
      coefficient := by decide +kernel }

theorem bits_usualKey : usualKey.n.size = 1024 := size_wideModulus

end Rsa
