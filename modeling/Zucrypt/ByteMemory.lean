import Mathlib.Data.List.Basic

/-! # A flat memory of bytes

Addresses are natural numbers and every address holds a byte; a buffer is an address and a length.
`read` and `write` move lists of bytes, and the lemmas say what a read sees of an earlier write:
everything of it when the ranges are the same (`read_write_exact`), nothing when they are apart
(`read_write_apart`), and the part that falls inside otherwise (`read_write_within`).

Two writes are one where the second begins at the end of the first (`write_write_append`), or covers
it (`write_write_cover`): that is how a buffer that is filled in chunks, or wiped before it is
filled, is compared with one that is filled at once.

A memory is a function, so two that hold the same bytes are equal, and that a function leaves the
rest of the memory alone is an equation about addresses. -/
namespace ByteMemory

abbrev Byte : Type := UInt8

abbrev Memory : Type := Nat → Byte

/-- The `n` bytes at `p`. -/
def read (m : Memory) (p n : Nat) : List Byte := (List.range n).map (fun i => m (p + i))

/-- The memory once `bs` is stored at `p`. -/
def write (m : Memory) (p : Nat) (bs : List Byte) : Memory :=
  fun a => if p ≤ a then (bs[a - p]?).getD (m a) else m a

/-- No address belongs to both `[p, p + n)` and `[q, q + k)`. -/
def Apart (p n q k : Nat) : Prop := p + n ≤ q ∨ q + k ≤ p ∨ n = 0 ∨ k = 0

theorem Apart.symm {p n q k : Nat} (h : Apart p n q k) : Apart q k p n := by
  unfold Apart at *
  omega

variable (m : Memory)

@[simp] theorem length_read (p n : Nat) : (read m p n).length = n := by
  simp [read]

@[simp] theorem read_zero (p : Nat) : read m p 0 = [] := rfl

theorem getElem?_read (p n i : Nat) :
    (read m p n)[i]? = if i < n then some (m (p + i)) else none := by
  by_cases h : i < n
  · simp [read, h]
  · simp [read, h]

theorem read_succ (p n : Nat) : read m p (n + 1) = m p :: read m (p + 1) n := by
  simp [read, List.range_succ_eq_map, Function.comp_def, Nat.add_assoc, Nat.add_comm 1]

theorem read_add (p n k : Nat) : read m p (n + k) = read m p n ++ read m (p + n) k := by
  simp [read, List.range_add, Function.comp_def, Nat.add_assoc]

theorem drop_read (p : Nat) {n k : Nat} (h : n ≤ k) :
    (read m p k).drop n = read m (p + n) (k - n) := by
  obtain ⟨d, rfl⟩ := Nat.exists_eq_add_of_le h
  rw [read_add, List.drop_left' (length_read m p n), Nat.add_sub_cancel_left]

/-- Two memories agreeing on a range read the same there. -/
theorem read_congr {m m' : Memory} {p n : Nat} (h : ∀ a, p ≤ a → a < p + n → m a = m' a) :
    read m p n = read m' p n := by
  refine List.map_congr_left (fun i hi => ?_)
  have hi := List.mem_range.mp hi
  exact h _ (by omega) (by omega)

/-! ### What a write changes -/

@[simp] theorem write_nil (p : Nat) : write m p [] = m := by
  funext a
  simp [write]

theorem write_apply_outside {p : Nat} {bs : List Byte} {a : Nat}
    (h : a < p ∨ p + bs.length ≤ a) : write m p bs a = m a := by
  unfold write
  split
  · rw [List.getElem?_eq_none (by omega)]
    rfl
  · rfl

/-- Storing no more than fits leaves what is outside the buffer. -/
theorem write_take_outside {p n x : Nat} (bs : List Byte) (hx : x < p ∨ p + n ≤ x) :
    write m p (bs.take n) x = m x := by
  refine write_apply_outside m ?_
  have hlen : (bs.take n).length ≤ n := List.length_take_le n bs
  omega

theorem write_apply_inside {p : Nat} {bs : List Byte} {i : Nat} (h : i < bs.length) :
    write m p bs (p + i) = bs[i] := by
  simp [write, h]

/-- A read apart from the write sees what was there before. -/
theorem read_write_apart {p q n : Nat} {bs : List Byte} (h : Apart p bs.length q n) :
    read (write m p bs) q n = read m q n := by
  refine read_congr (fun a ha ha' => write_apply_outside m ?_)
  unfold Apart at h
  omega

/-- A read of a part of what was written. -/
theorem read_write_within (p k n : Nat) {bs : List Byte} (h : k + n ≤ bs.length) :
    read (write m p bs) (p + k) n = (bs.drop k).take n := by
  apply List.ext_getElem?
  intro i
  rw [getElem?_read, List.getElem?_take]
  split
  · rw [List.getElem?_drop, Nat.add_assoc, write_apply_inside m (by omega),
      List.getElem?_eq_getElem (by omega)]
  · rfl

@[simp] theorem read_write_self (p : Nat) (bs : List Byte) :
    read (write m p bs) p bs.length = bs := by
  simpa using read_write_within m p 0 bs.length (Nat.le_of_eq (Nat.zero_add _))

theorem read_write_exact (p : Nat) {n : Nat} {bs : List Byte} (h : bs.length = n) :
    read (write m p bs) p n = bs :=
  h ▸ read_write_self m p bs

/-- A read of a prefix of what was written. -/
theorem read_write_prefix (p : Nat) {ds bs : List Byte} (h : ds <+: bs) :
    read (write m p bs) p ds.length = ds := by
  have hw := read_write_within m p 0 ds.length (by simpa using h.length_le)
  rwa [Nat.add_zero, List.drop_zero, ← List.prefix_iff_eq_take.mp h] at hw

/-- Two writes that touch are one. -/
theorem write_write_append (p : Nat) (as bs : List Byte) :
    write (write m p as) (p + as.length) bs = write m p (as ++ bs) := by
  funext a
  by_cases h₁ : a < p + as.length
  · rw [write_apply_outside _ (Or.inl h₁)]
    by_cases h₂ : p ≤ a
    · obtain ⟨i, rfl⟩ := Nat.exists_eq_add_of_le h₂
      rw [write_apply_inside m (by omega), write_apply_inside m (by simp; omega),
        List.getElem_append_left]
    · rw [write_apply_outside m (by omega), write_apply_outside m (by omega)]
  · obtain ⟨i, rfl⟩ := Nat.exists_eq_add_of_le (Nat.le_of_not_lt h₁)
    by_cases h₂ : i < bs.length
    · rw [write_apply_inside _ h₂, Nat.add_assoc, write_apply_inside m (by simp; omega),
        List.getElem_append_right (by omega)]
      simp
    · rw [write_apply_outside _ (by omega), write_apply_outside m (by omega),
        write_apply_outside m (by simp; omega)]

/-- A write hides an earlier one it covers. -/
theorem write_write_cover (p : Nat) {as bs : List Byte} (h : as.length ≤ bs.length) :
    write (write m p as) p bs = write m p bs := by
  funext a
  by_cases h₁ : p ≤ a ∧ a < p + bs.length
  · obtain ⟨i, rfl⟩ := Nat.exists_eq_add_of_le h₁.1
    rw [write_apply_inside _ (by omega), write_apply_inside m (by omega)]
  · rw [write_apply_outside _ (by omega), write_apply_outside m (by omega),
      write_apply_outside m (by omega)]

/-- A result left in two parts, where the first may have spilt into the room of
the second. -/
theorem write_write_parts (p : Nat) {xs ds rest : List Byte} (hds : ds <+: xs)
    (hlen : xs.length ≤ ds.length + rest.length) :
    write (write m p xs) (p + ds.length) rest = write m p (ds ++ rest) := by
  obtain ⟨spill, rfl⟩ := hds
  have hspill : spill.length ≤ rest.length := by
    rw [List.length_append] at hlen
    omega
  rw [← write_write_append, write_write_cover _ _ hspill, write_write_append]

end ByteMemory
