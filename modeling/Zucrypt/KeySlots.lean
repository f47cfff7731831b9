import Mathlib.Algebra.Ring.Nat
import Mathlib.Data.List.Basic
import Mathlib.Data.List.Nodup
import Mathlib.Logic.Function.Basic

/-! # A store that numbers its entries by where they are

Entries are kept in slots, slots in slices, each slice twice as long as the one before.  A slice
keeps its free slots in a list: a new entry takes the first free slot of the first slice that has
one, and a slot that is freed becomes the first.  The identifier of an entry is made of the numbers
of its slice and of its slot, so it is unique among the entries there are, and repeats once they are
gone.

A `Store` carries what is true of every such store: an entry is within a slice, and a slot is in its
slice's list exactly when it is empty and within, and there once.  `insert` and `remove` keep it, so
what they do can be said by identifiers alone, and slots need not be spoken of again:

* `find_of_insert`, a new entry has an identifier that no entry has;
* `find_insert` and `find_remove`, no other entry is changed;
* `remove_eq_self_iff`, removing changes the store exactly if there is an entry. -/
namespace KeySlots

/-- `KEY_SLOT_VOLATILE_SLICE_BASE_LENGTH`. -/
def baseLength : Nat := 16

/-- `KEY_SLOT_VOLATILE_SLICE_COUNT`. -/
def sliceCount : Nat := 22

/-- `key_slice_length`. -/
def sliceLength (slice : Nat) : Nat := baseLength * 2 ^ slice

/-- `volatile_key_id_of_index`; the indexes lie in separate bit fields. -/
def idOf (slice slot : Nat) : Nat := 0x40000000 + slice * 2 ^ 25 + slot

/-- `slice_index_of_volatile_key_id`. -/
def sliceOf (id : Nat) : Nat := id / 2 ^ 25 % 32

/-- `slot_index_of_volatile_key_id`. -/
def slotOf (id : Nat) : Nat := id % 2 ^ 25

theorem sliceLength_le {slice : Nat} (h : slice < sliceCount) : sliceLength slice ≤ 2 ^ 25 := by
  have hpow : 2 ^ slice ≤ 2 ^ 21 := Nat.pow_le_pow_right (by decide) (Nat.le_of_lt_succ h)
  unfold sliceLength baseLength
  omega

section
variable {slice slot : Nat} (hslice : slice < sliceCount) (hslot : slot < sliceLength slice)
include hslice hslot

theorem slotOf_idOf : slotOf (idOf slice slot) = slot := by
  have := sliceLength_le hslice
  unfold slotOf idOf
  omega

theorem sliceOf_idOf : sliceOf (idOf slice slot) = slice := by
  have := sliceLength_le hslice
  have hcount : slice < 22 := hslice
  unfold sliceOf idOf
  omega

end

/-- The entries, and the free slots of every slice, first the one that is used next. -/
structure Store (M : Type) where
  full : Nat → Nat → Option M
  free : Nat → List Nat
  /-- an entry lies within a slice -/
  full_within : ∀ slice slot, full slice slot ≠ none → slice < sliceCount ∧ slot < sliceLength slice
  /-- the free slots of a slice are those without an entry -/
  mem_free : ∀ slice slot, slot ∈ free slice ↔ slot < sliceLength slice ∧ full slice slot = none
  free_nodup : ∀ slice, (free slice).Nodup

variable {M : Type}

namespace Store

/-- `psa_wipe_all_key_slots`: nothing is left, and the slots are free in order. -/
def empty : Store M where
  full _ _ := none
  free slice := List.range (sliceLength slice)
  full_within _ _ h := (h rfl).elim
  mem_free slice slot := by simp
  free_nodup _ := List.nodup_range

/-- The entry an identifier stands for. -/
def find (s : Store M) (id : Nat) : Option M :=
  if idOf (sliceOf id) (slotOf id) = id then s.full (sliceOf id) (slotOf id) else none

/-- The first slice with a free slot. -/
def openSlice (s : Store M) : Option Nat :=
  (List.range sliceCount).find? (fun slice => !(s.free slice).isEmpty)

/-- The slot the next entry takes. -/
def nextSlot (s : Store M) : Option (Nat × Nat) :=
  s.openSlice.bind fun slice => (s.free slice).head?.map fun slot => (slice, slot)

theorem nextSlot_within {s : Store M} {slice slot : Nat} (h : s.nextSlot = some (slice, slot)) :
    slice < sliceCount ∧ (s.free slice).head? = some slot := by
  obtain ⟨slice', hopen, h⟩ := Option.bind_eq_some_iff.mp h
  obtain ⟨slot', hhead, h⟩ := Option.map_eq_some_iff.mp h
  obtain ⟨rfl, rfl⟩ := Prod.mk.inj h
  exact ⟨List.mem_range.mp (List.mem_of_find?_eq_some hopen), hhead⟩

theorem nextSlot_free {s : Store M} {slice slot : Nat} (h : s.nextSlot = some (slice, slot)) :
    slot < sliceLength slice ∧ s.full slice slot = none := by
  obtain ⟨-, hhead⟩ := nextSlot_within h
  exact (s.mem_free slice slot).mp (List.mem_of_mem_head? hhead)

/-- `psa_allocate_volatile_key_slot`: the slot is taken off its list. -/
def fill (s : Store M) (m : M) (slice slot : Nat) (h : s.nextSlot = some (slice, slot)) : Store M where
  full i j := if i = slice ∧ j = slot then some m else s.full i j
  free i := if i = slice then (s.free i).tail else s.free i
  full_within i j hij := by
    split at hij
    · rename_i heq
      obtain ⟨rfl, rfl⟩ := heq
      exact ⟨(nextSlot_within h).1, (nextSlot_free h).1⟩
    · exact s.full_within i j hij
  mem_free i j := by
    obtain ⟨hslice, hhead⟩ := nextSlot_within h
    obtain ⟨js, hfree⟩ := List.head?_eq_some_iff.mp hhead
    have hnodup := s.free_nodup slice
    have hmem := s.mem_free i j
    by_cases hi : i = slice
    · subst hi
      rw [hfree] at hnodup hmem
      rw [if_pos rfl, hfree, List.tail_cons]
      by_cases hj : j = slot
      · subst hj
        simp [(List.nodup_cons.mp hnodup).1]
      · simpa [hj] using hmem
    · simpa [hi] using hmem
  free_nodup i := by
    split
    · exact (s.free_nodup i).tail
    · exact s.free_nodup i

/-- A new entry, and its identifier; none if every slot is taken. -/
def insert (s : Store M) (m : M) : Option (Nat × Store M) :=
  match h : s.nextSlot with
  | some (slice, slot) => some (idOf slice slot, s.fill m slice slot h)
  | none => none

/-- `psa_free_key_slot`: the slot becomes the first of its slice. -/
def release (s : Store M) (slice slot : Nat) (h : s.full slice slot ≠ none) : Store M where
  full i j := if i = slice ∧ j = slot then none else s.full i j
  free i := if i = slice then slot :: s.free i else s.free i
  full_within i j hij := by
    split at hij
    · exact (hij rfl).elim
    · exact s.full_within i j hij
  mem_free i j := by
    have hmem := s.mem_free i j
    by_cases hi : i = slice
    · subst hi
      rw [if_pos rfl, List.mem_cons]
      by_cases hj : j = slot
      · subst hj
        simp [(s.full_within i j h).2]
      · simpa [hj] using hmem
    · simpa [hi] using hmem
  free_nodup i := by
    split
    · rename_i hi
      subst hi
      exact List.nodup_cons.mpr ⟨fun hmem => h ((s.mem_free i slot).mp hmem).2, s.free_nodup i⟩
    · exact s.free_nodup i

/-- `psa_destroy_key`: an identifier that stands for nothing is left alone. -/
def remove (s : Store M) (id : Nat) : Store M :=
  if h : idOf (sliceOf id) (slotOf id) = id ∧ s.full (sliceOf id) (slotOf id) ≠ none then
    s.release (sliceOf id) (slotOf id) h.2
  else s

@[simp] theorem find_empty (id : Nat) : (empty : Store M).find id = none := by
  simp [find, empty]

/-- The identifiers of a slot that holds something. -/
theorem find_idOf (s : Store M) {slice slot : Nat} (hslice : slice < sliceCount)
    (hslot : slot < sliceLength slice) : s.find (idOf slice slot) = s.full slice slot := by
  unfold find
  rw [sliceOf_idOf hslice hslot, slotOf_idOf hslice hslot, if_pos rfl]

theorem insert_eq_some {s s' : Store M} {m : M} {id : Nat} (h : s.insert m = some (id, s')) :
    ∃ slice slot, ∃ hnext : s.nextSlot = some (slice, slot), id = idOf slice slot ∧
      s' = s.fill m slice slot hnext := by
  unfold insert at h
  split at h
  · rename_i slice slot hnext
    obtain ⟨rfl, rfl⟩ := Prod.mk.inj (Option.some.inj h)
    exact ⟨slice, slot, hnext, rfl, rfl⟩
  · simp at h

section
variable {s s' : Store M} {m : M} {id : Nat} (h : s.insert m = some (id, s'))
include h

/-- The identifier stood for nothing. -/
theorem find_of_insert : s.find id = none := by
  obtain ⟨slice, slot, hnext, rfl, rfl⟩ := insert_eq_some h
  rw [s.find_idOf (nextSlot_within hnext).1 (nextSlot_free hnext).1]
  exact (nextSlot_free hnext).2

/-- It stands for the new entry, and every other for what it did. -/
theorem find_insert (id' : Nat) : s'.find id' = if id' = id then some m else s.find id' := by
  obtain ⟨slice, slot, hnext, rfl, rfl⟩ := insert_eq_some h
  have hslice := (nextSlot_within hnext).1
  have hslot := (nextSlot_free hnext).1
  by_cases hid : id' = idOf slice slot
  · subst hid
    rw [find_idOf _ hslice hslot, if_pos rfl]
    exact if_pos ⟨rfl, rfl⟩
  · rw [if_neg hid]
    unfold find
    by_cases hcode : idOf (sliceOf id') (slotOf id') = id'
    · rw [if_pos hcode, if_pos hcode]
      refine if_neg ?_
      rintro ⟨hsame, hsame'⟩
      rw [hsame, hsame'] at hcode
      exact hid hcode.symm
    · rw [if_neg hcode, if_neg hcode]

end

/-- Removing what is not there changes nothing. -/
theorem remove_of_find {s : Store M} {id : Nat} (h : s.find id = none) : s.remove id = s := by
  refine dif_neg ?_
  rintro ⟨hcode, hfull⟩
  unfold find at h
  rw [if_pos hcode] at h
  exact hfull h

/-- An identifier that is removed stands for nothing, and every other for what it did. -/
theorem find_remove (s : Store M) (id id' : Nat) :
    (s.remove id).find id' = if id' = id then none else s.find id' := by
  by_cases h : idOf (sliceOf id) (slotOf id) = id ∧ s.full (sliceOf id) (slotOf id) ≠ none
  · rw [remove, dif_pos h]
    have hwithin := s.full_within _ _ h.2
    by_cases hid : id' = id
    · subst hid
      rw [if_pos rfl, find, if_pos h.1]
      exact if_pos ⟨rfl, rfl⟩
    · rw [if_neg hid]
      unfold find
      by_cases hcode : idOf (sliceOf id') (slotOf id') = id'
      · rw [if_pos hcode, if_pos hcode]
        refine if_neg ?_
        rintro ⟨hsame, hsame'⟩
        -- a key of another identifier is in another place
        rw [hsame, hsame', h.1] at hcode
        exact hid hcode.symm
      · rw [if_neg hcode, if_neg hcode]
  · rw [remove, dif_neg h]
    split
    · rename_i hid
      subst hid
      unfold find
      split
      · rename_i hcode
        by_contra hfull
        exact h ⟨hcode, hfull⟩
      · rfl
    · rfl

/-- A store is changed by a removal exactly if the identifier stands for something. -/
theorem remove_eq_self_iff {s : Store M} {id : Nat} : s.remove id = s ↔ s.find id = none := by
  refine ⟨fun h => ?_, remove_of_find⟩
  have hfind := s.find_remove id id
  rwa [h, if_pos rfl] at hfind

end Store

end KeySlots
