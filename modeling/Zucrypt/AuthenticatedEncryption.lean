import Mathlib.Data.List.Basic

/-! # Authenticated encryption with associated data

An AEAD scheme on byte strings: encryption gives a ciphertext as long as the message and a tag, and
decryption gives back a message exactly when ciphertext and tag are what encrypting that message
gives.

Both are fields of `Scheme`: that decryption inverts encryption and that it accepts nothing else is
one equivalence, and from it the length of what is decrypted and the length of an accepted tag
follow.  Nothing is said of secrecy, nor of how hard a tag is to forge.

`Scheme.ofStream` makes one from a keystream and a tag over the ciphertext, which is the shape
counter modes have.  A scheme for tests is made with it. -/
namespace AuthenticatedEncryption

/-- Key, nonce, associated data and message to ciphertext and tag. -/
structure Scheme (tagLength : Nat) where
  encrypt : List UInt8 → List UInt8 → List UInt8 → List UInt8 → List UInt8 × List UInt8
  decrypt : List UInt8 → List UInt8 → List UInt8 → List UInt8 → List UInt8 → Option (List UInt8)
  length_ciphertext : ∀ K N A P, (encrypt K N A P).1.length = P.length
  length_tag : ∀ K N A P, (encrypt K N A P).2.length = tagLength
  decrypt_eq_some : ∀ K N A C T P, decrypt K N A C T = some P ↔ encrypt K N A P = (C, T)

namespace Scheme
variable {n : Nat} (G : Scheme n) {K N A P C T : List UInt8}

theorem length_of_decrypt (h : G.decrypt K N A C T = some P) : P.length = C.length := by
  have hencrypt := (G.decrypt_eq_some ..).mp h
  rw [← G.length_ciphertext K N A P, hencrypt]

/-- A tag of any other length is refused. -/
theorem decrypt_of_tag_length (h : T.length ≠ n) : G.decrypt K N A C T = none := by
  rw [Option.eq_none_iff_forall_ne_some]
  intro P hP
  have hencrypt := (G.decrypt_eq_some ..).mp hP
  have hlen := G.length_tag K N A P
  rw [hencrypt] at hlen
  exact h hlen

end Scheme

/-! ### From a keystream -/

/-- Exclusive or with a keystream of the same length. -/
def mask (stream : Nat → List UInt8) (bs : List UInt8) : List UInt8 :=
  List.zipWith (· ^^^ ·) bs (stream bs.length)

variable {stream : Nat → List UInt8}

theorem length_mask (hstream : ∀ n, (stream n).length = n) (bs : List UInt8) :
    (mask stream bs).length = bs.length := by
  simp [mask, hstream]

theorem mask_mask (hstream : ∀ n, (stream n).length = n) (bs : List UInt8) :
    mask stream (mask stream bs) = bs := by
  have hlen : bs.length = (stream bs.length).length := (hstream bs.length).symm
  rw [mask, length_mask hstream, mask]
  generalize stream bs.length = ks at hlen
  induction bs generalizing ks with
  | nil => rfl
  | cons b bs ih =>
    cases ks with
    | nil => simp at hlen
    | cons k ks =>
      have hbyte : (b ^^^ k) ^^^ k = b := by
        rw [UInt8.xor_assoc, UInt8.xor_self, UInt8.xor_zero]
      exact congrArg₂ List.cons hbyte (ih ks (Nat.succ.inj hlen))

/-- Mask the message, then tag the ciphertext. -/
def Scheme.ofStream {n : Nat} (stream : List UInt8 → List UInt8 → Nat → List UInt8)
    (tag : List UInt8 → List UInt8 → List UInt8 → List UInt8 → List UInt8)
    (hstream : ∀ K N k, (stream K N k).length = k) (htag : ∀ K N A C, (tag K N A C).length = n) :
    Scheme n where
  encrypt K N A P := (mask (stream K N) P, tag K N A (mask (stream K N) P))
  decrypt K N A C T := if tag K N A C = T then some (mask (stream K N) C) else none
  length_ciphertext K N A P := length_mask (hstream K N) P
  length_tag K N A P := htag K N A _
  decrypt_eq_some K N A C T P := by
    constructor
    · intro h
      split at h
      · rename_i hT
        rw [← Option.some.inj h, mask_mask (hstream K N), hT]
      · simp at h
    · intro h
      obtain ⟨rfl, rfl⟩ := Prod.mk.inj h
      rw [if_pos rfl, mask_mask (hstream K N)]

end AuthenticatedEncryption
