import Mathlib.Algebra.Ring.Nat
import Mathlib.Data.List.Basic

/-! # PBKDF2

Section 5.2 of RFC 8018, over any pseudorandom function that has been given the password and has `h`
bytes of output.  A derived key is a stretch of one endless stream of bytes: byte `i` is in block `i
/ h`, whatever is asked for before it and with it.  So keys of different lengths agree where both
have bytes (`derived_shorter`), and a key may be taken in pieces (`stretch_add`).

`derived` is the definition of the standard, whole blocks cut to length, and `derived_eq_stretch`
says that it is the first stretch.  An implementation that gives its output in pieces keeps its
place in the stream, and copies either from the block it is in (`stretch_block`) or from the next. -/
namespace PasswordDerivation

variable (prf : List UInt8 → List UInt8) (h : Nat) (salt : List UInt8) (c : Nat)

/-- `INT (i)`. -/
def int32 (i : Nat) : List UInt8 :=
  [UInt8.ofNat (i / 2 ^ 24), UInt8.ofNat (i / 2 ^ 16), UInt8.ofNat (i / 2 ^ 8), UInt8.ofNat i]

def xorBytes (xs ys : List UInt8) : List UInt8 := List.zipWith (· ^^^ ·) xs ys

/-- `U_1`, `U_2` and so on, from the input of the first. -/
def link (seed : List UInt8) : Nat → List UInt8
  | 0 => prf seed
  | j + 1 => prf (link seed j)

/-- `F`: the first `c` links, added up. -/
def block (i : Nat) : List UInt8 :=
  (List.range (c - 1)).foldl (fun acc j => xorBytes acc (link prf (salt ++ int32 i) (j + 1)))
    (link prf (salt ++ int32 i) 0)

/-- The derived key of `n` bytes: as many blocks as it takes, cut to length. -/
def derived (n : Nat) : List UInt8 :=
  ((List.range ((n + (h - 1)) / h)).flatMap fun i => block prf salt c (i + 1)).take n

/-- Byte `i` of the blocks. -/
def streamByte (i : Nat) : UInt8 := (block prf salt c (i / h + 1)).getD (i % h) 0

/-- The bytes from `k` on. -/
def stretch (k n : Nat) : List UInt8 :=
  (List.range n).map fun i => streamByte prf h salt c (k + i)

variable {prf h salt c}

@[simp] theorem length_stretch (k n : Nat) : (stretch prf h salt c k n).length = n := by
  simp [stretch]

@[simp] theorem stretch_zero (k : Nat) : stretch prf h salt c k 0 = [] := rfl

/-- A stretch may be taken in two pieces. -/
theorem stretch_add (k n m : Nat) :
    stretch prf h salt c k (n + m) = stretch prf h salt c k n ++ stretch prf h salt c (k + n) m := by
  simp [stretch, List.range_add, Function.comp_def, Nat.add_assoc]

/-- One link more. -/
theorem block_succ (hc : 0 < c) (i : Nat) :
    block prf salt (c + 1) i = xorBytes (block prf salt c i) (link prf (salt ++ int32 i) c) := by
  obtain ⟨k, rfl⟩ : ∃ k, c = k + 1 := ⟨c - 1, by omega⟩
  unfold block
  rw [Nat.add_sub_cancel, Nat.add_sub_cancel, List.range_succ, List.foldl_append]
  rfl

theorem length_xorBytes {xs ys : List UInt8} (hlen : xs.length = ys.length) :
    (xorBytes xs ys).length = xs.length := by
  rw [xorBytes, List.length_zipWith, hlen, Nat.min_self]

section
variable (hprf : ∀ m, (prf m).length = h)
include hprf

theorem length_link (seed : List UInt8) (j : Nat) : (link prf seed j).length = h := by
  cases j with
  | zero => exact hprf _
  | succ j => exact hprf _

theorem length_block (i : Nat) : (block prf salt c i).length = h := by
  have hfold : ∀ (js : List Nat) (acc : List UInt8), acc.length = h →
      (js.foldl (fun acc j => xorBytes acc (link prf (salt ++ int32 i) (j + 1))) acc).length = h := by
    intro js
    induction js with
    | nil => exact fun _ hacc => hacc
    | cons j js ih =>
      intro acc hacc
      refine ih _ ?_
      rw [length_xorBytes (by rw [hacc, length_link hprf]), hacc]
  exact hfold _ _ (length_link hprf _ _)

/-- Bytes of one block. -/
theorem stretch_block {i u n : Nat} (hu : u + n ≤ h) :
    stretch prf h salt c (i * h + u) n = ((block prf salt c (i + 1)).drop u).take n := by
  refine List.ext_getElem ?_ fun j hj hj' => ?_
  · rw [length_stretch, List.length_take, List.length_drop, length_block hprf]
    omega
  · have hj : j < n := by simpa using hj
    have hquot : (i * h + u + j) / h = i := by
      rw [Nat.add_assoc, Nat.mul_comm, Nat.mul_add_div (by omega), Nat.div_eq_of_lt (by omega),
        Nat.add_zero]
    have hrem : (i * h + u + j) % h = u + j := by
      rw [Nat.add_assoc, Nat.mul_comm, Nat.mul_add_mod, Nat.mod_eq_of_lt (by omega)]
    simp only [stretch, List.getElem_map, List.getElem_range, List.getElem_take, List.getElem_drop,
      streamByte, hquot, hrem]
    rw [List.getD_eq_getElem?_getD, List.getElem?_eq_getElem (by rw [length_block hprf]; omega)]
    rfl

theorem stretch_blocks (k : Nat) :
    stretch prf h salt c 0 (k * h) = (List.range k).flatMap fun i => block prf salt c (i + 1) := by
  induction k with
  | zero => simp
  | succ k ih =>
    rw [List.range_succ, List.flatMap_append, ← ih, Nat.succ_mul, stretch_add, Nat.zero_add]
    have hblock : stretch prf h salt c (k * h + 0) h = _ := stretch_block hprf (by omega)
    rw [Nat.add_zero, List.drop_zero, List.take_of_length_le (Nat.le_of_eq (length_block hprf _))] at hblock
    rw [hblock]
    simp

/-- The derived key is the beginning of the stream. -/
theorem derived_eq_stretch (hh : 0 < h) (n : Nat) :
    derived prf h salt c n = stretch prf h salt c 0 n := by
  have henough : n ≤ (n + (h - 1)) / h * h := by
    have hdiv := Nat.div_add_mod (n + (h - 1)) h
    have hmod := Nat.mod_lt (n + (h - 1)) hh
    rw [Nat.mul_comm] at hdiv
    omega
  obtain ⟨m, hm⟩ := Nat.exists_eq_add_of_le henough
  rw [derived, ← stretch_blocks hprf, hm, stretch_add, List.take_left' (length_stretch 0 n)]

/-- Keys of different lengths agree as far as both go. -/
theorem derived_shorter (hh : 0 < h) {m n : Nat} (hmn : m ≤ n) :
    (derived prf h salt c n).take m = derived prf h salt c m := by
  obtain ⟨k, rfl⟩ := Nat.exists_eq_add_of_le hmn
  rw [derived_eq_stretch hprf hh, derived_eq_stretch hprf hh, stretch_add,
    List.take_left' (length_stretch 0 m)]

end

end PasswordDerivation
