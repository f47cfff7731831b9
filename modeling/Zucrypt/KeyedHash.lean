import Mathlib.Data.List.Basic

/-! # HMAC

The construction of RFC 2104 over any hash `H` with blocks of `B` bytes: a key longer than the block
is replaced by its hash, the result is padded with zeros to the block, and the message is hashed
twice behind two masked copies of it.

Everything the construction does with a key it does with its padded block, so keys with the same
block give the same MAC (`hmac_congr`).  The rest are the ways two keys come to share one: one is
the hash of the other (`hmac_reduced`), or it is the other with zeros at the end
(`hmac_append_zeros`).

An implementation that hashes a long key itself, or replaces an empty one by a zero, is right by one
of the two. -/
namespace KeyedHash

variable (H : List UInt8 → List UInt8) (B : Nat)

/-- Step 0: the key, or its hash where it is longer than a block. -/
def reduced (K : List UInt8) : List UInt8 := if B < K.length then H K else K

/-- Step 1: zeros appended to make a block. -/
def padded (K : List UInt8) : List UInt8 := K ++ List.replicate (B - K.length) 0

/-- The key as a block. -/
def keyBlock (K : List UInt8) : List UInt8 := padded B (reduced H B K)

def ipad : UInt8 := 0x36

def opad : UInt8 := 0x5c

/-- The block with every byte masked. -/
def masked (pad : UInt8) (block : List UInt8) : List UInt8 := block.map (· ^^^ pad)

/-- Steps 2 to 7: both hashes. -/
def hmac (K m : List UInt8) : List UInt8 :=
  H (masked opad (keyBlock H B K) ++ H (masked ipad (keyBlock H B K) ++ m))

variable {H B} {K K' : List UInt8}

theorem hmac_congr (h : keyBlock H B K = keyBlock H B K') (m : List UInt8) :
    hmac H B K m = hmac H B K' m := by
  rw [hmac, hmac, h]

theorem reduced_of_le (h : K.length ≤ B) : reduced H B K = K := if_neg (Nat.not_lt.mpr h)

theorem reduced_of_lt (h : B < K.length) : reduced H B K = H K := if_pos h

/-- Reducing a key once is enough. -/
theorem reduced_reduced (h : (H K).length ≤ B) : reduced H B (reduced H B K) = reduced H B K := by
  rcases Nat.lt_or_ge B K.length with hK | hK
  · rw [reduced_of_lt hK, reduced_of_le h]
  · rw [reduced_of_le hK, reduced_of_le hK]

/-- A long key and its hash give the same MAC. -/
theorem hmac_reduced (h : (H K).length ≤ B) (m : List UInt8) :
    hmac H B (reduced H B K) m = hmac H B K m :=
  hmac_congr (congrArg (padded B) (reduced_reduced h)) m

/-- Zeros at the end of a key that still fits the block are the padding's own. -/
theorem padded_append_zeros {n : Nat} (h : K.length + n ≤ B) :
    padded B (K ++ List.replicate n 0) = padded B K := by
  rw [padded, padded, List.append_assoc, List.replicate_append_replicate, List.length_append,
    List.length_replicate]
  congr 2
  omega

/-- The key with zeros appended gives the same MAC. -/
theorem hmac_append_zeros {n : Nat} (h : K.length + n ≤ B) (m : List UInt8) :
    hmac H B (K ++ List.replicate n 0) m = hmac H B K m := by
  refine hmac_congr ?_ m
  rw [keyBlock, keyBlock, reduced_of_le (by simpa using h), reduced_of_le (by omega),
    padded_append_zeros h]

end KeyedHash
