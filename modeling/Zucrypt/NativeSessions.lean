import Zucrypt.NativeLifetimes

/-! # An R session

Any number of calls, each left somewhere or not, with collections of whatever pointers in between,
and at the end the finalizers of all: they are registered to run when R quits.  The backend stays up
meanwhile.

`session_gives_back` is the accounting of the whole: at any time the keys and blocks that were taken
and not given back are those the pointers own, as often as they own them, and once R has quit there
are none.  It rests on the account of one entry point (`NativeCall.keeps` in `LongjmpSafety`), which
already covers every place where the call can be left, and on `finalizePtr_kept` for a finalizer;
`nativeSession_kept` is the induction over the steps.

The backend's answers, and the allocations that fail, are any at all.  The one assumption
(`InWindow`) is that no step stops the backend, since that would destroy the keys behind the
handles' backs: the entry points do not, and nothing in R calls `zuc_shutdown`.  A pointer may be
collected while R still reaches it, or twice: then there is nothing left to free, and the account
does not change. -/
namespace Zucrypt
open Effects ByteMemory Resources Entry

variable {O : Objects}

/-- What happens in a session. -/
inductive NativeStep where
  | call (c : NativeCall) (jump : Option Nat)
  | collect (ptrs : List Nat)

/-- One step after another. -/
def nativeSession : List NativeStep → RHeap O →
    Adapter O (List (Option (ZucStatus × Option Nat)) × RHeap O)
  | [], H => pure ([], H)
  | .call c jump :: steps, H => do
    let r ← c.run { H with jump }
    let rs ← nativeSession steps r.2
    return (r.1 :: rs.1, rs.2)
  | .collect ptrs :: steps, H => do
    let r ← finalizeAll ptrs H
    nativeSession steps r.2

/-- R quits: every finalizer runs. -/
def quit (H : RHeap O) : Adapter O (RHeap O) := do
  let r ← finalizeAll (List.range H.pointers.length) H
  return r.2

/-! ### Finalizers -/

section
variable {H : RHeap O}

/-- There is nothing in the pointers of these places. -/
def Emptied (H : RHeap O) (is : List Nat) : Prop := ∀ i ∈ is, (H.pointer i).addr = none

/-- Another pointer is emptied, and no more than that. -/
structure Emptier (H H' : RHeap O) (i : Nat) : Prop where
  length : H'.pointers.length = H.pointers.length
  here : (H'.pointer i).addr = none
  elsewhere : ∀ j, (H.pointer j).addr = none → (H'.pointer j).addr = none

/-- To empty one pointer is to leave the others as they are. -/
theorem RHeap.At.emptier {H' : RHeap O} {s : Spot O} {slot : Option (LiveHandle O)} (h : H.At s slot)
    (h' : H'.At s none) : Emptier H H' s.before.length := by
  refine ⟨?_, ?_, fun j hj => ?_⟩
  · rw [h.pointers, h'.pointers, List.length_append, List.length_append]
    rfl
  · rw [h'.pointer]
    rfl
  · by_cases hi : j = s.before.length
    · rw [hi, h'.pointer]
      rfl
    · have hsame : H'.pointer j = H.pointer j := by
        rw [RHeap.pointer, RHeap.pointer, h.pointers, h'.pointers]
        rcases Nat.lt_or_gt_of_ne hi with hlt | hgt
        · simp [List.getElem?_append_left hlt]
        · obtain ⟨k, rfl⟩ : ∃ k, j = s.before.length + (k + 1) := ⟨j - s.before.length - 1, by omega⟩
          simp only [List.getD_eq_getElem?_getD]
          rw [List.getElem?_append_right (by omega), List.getElem?_append_right (by omega),
            Nat.add_sub_cancel_left]
          rfl
      rw [hsame]
      exact hj

/-- A finalizer gives back what its pointer owns, and the pointer is empty then. -/
theorem finalizePtr_kept (howned : H.Owned) (i : Nat) (w : World) :
    Settles tariff InWindow (finalizePtr i H) w H.resources fun r w' held =>
      Kept H w r.2 w' held ∧ Emptier H r.2 i ∧ r.1 = some () := by
  by_cases hlt : i < H.pointers.length
  · obtain ⟨s, rfl, hat, -⟩ := howned.exists_at hlt
    have hfinalize : Tends s (H.pointer s.before.length).addr (finalizePtr s.before.length)
        fun r slot => r = some () ∧ slot = none := tends_finalizePtr rfl ⟨rfl, rfl⟩
    refine (hfinalize.kept hat howned w).mono ?_
    rintro r w' held ⟨hkept, slot, hat', hr, rfl⟩
    exact ⟨hkept, hat.emptier hat', hr⟩
  · have hempty : (H.pointer i).addr = none := by
      rw [RHeap.pointer_of_le (by omega)]
    have hrun : finalizePtr i H = Pure.pure (some (), H) := by
      unfold finalizePtr
      rw [Entry.bind_some (a := (H.pointer i).addr) rfl, hempty]
      rfl
    rw [hrun]
    refine Settles.pure ⟨⟨howned, rfl, ?_⟩, ⟨rfl, hempty, fun _ h => h⟩, rfl⟩
    show w.live = w.live + (H.count - H.count)
    omega

/-- So do finalizers of any pointers, in any order and however often. -/
theorem finalizeAll_kept (howned : H.Owned) (is : List Nat) (w : World) :
    Settles tariff InWindow (finalizeAll is H) w H.resources fun r w' held =>
      Kept H w r.2 w' held ∧ Emptied r.2 is ∧ r.2.pointers.length = H.pointers.length ∧
        ∀ j, (H.pointer j).addr = none → (r.2.pointer j).addr = none := by
  induction is generalizing H w with
  | nil =>
    refine Settles.pure ⟨⟨howned, rfl, ?_⟩, by simp [Emptied], rfl, fun _ h => h⟩
    show w.live = w.live + (H.count - H.count)
    omega
  | cons i is ih =>
    show Settles tariff InWindow (Entry.seq (finalizePtr i) _ H) w _ _
    unfold Entry.seq
    refine (finalizePtr_kept howned i w).bind ?_
    rintro ⟨r, H'⟩ w' held ⟨hkept, hemptier, rfl⟩
    obtain rfl := hkept.held
    have hlive : w'.live = w.live + (H'.count - H.count) := hkept.live
    refine (ih hkept.owned w').mono ?_
    rintro ⟨r, H''⟩ w'' held ⟨hkept', hemptied, hlength, helse⟩
    have hlive' : w''.live = w'.live + (H''.count - H'.count) := hkept'.live
    refine ⟨⟨hkept'.owned, hkept'.held, ?_⟩, ?_, hlength.trans hemptier.length,
      fun j hj => helse j (hemptier.elsewhere j hj)⟩
    · show w''.live = w.live + (H''.count - H.count)
      omega
    · intro j hj
      rcases List.mem_cons.mp hj with rfl | hj
      · exact helse j hemptier.here
      · exact hemptied j hj

/-- A heap whose pointers are all empty holds nothing. -/
theorem RHeap.empty_of_emptied (h : Emptied H (List.range H.pointers.length)) :
    H.resources = 0 ∧ H.count = 0 ∧ ∀ p ∈ H.pointers, p.addr = none := by
  have hall : ∀ p ∈ H.pointers, p.addr = none := by
    intro p hp
    obtain ⟨i, hi, rfl⟩ := List.getElem_of_mem hp
    have hget : H.pointer i = H.pointers[i] := by simp [RHeap.pointer, hi]
    rw [← hget]
    exact h i (List.mem_range.mpr hi)
  have hnone : ∀ ps : List (ExternalPtr O), (∀ p ∈ ps, p.addr = none) →
      (contexts ps).resources = 0 ∧ (contexts ps).count = 0 := by
    intro ps hps
    induction ps with
    | nil => exact ⟨rfl, rfl⟩
    | cons p ps ih =>
      have hp : p.addr = none := hps p List.mem_cons_self
      obtain ⟨hresources, hcount⟩ := ih fun q hq => hps q (List.mem_cons_of_mem _ hq)
      constructor
      · show slotResources p.addr + (contexts ps).resources = 0
        rw [hp, hresources]
        rfl
      · show slotCount p.addr + (contexts ps).count = 0
        rw [hp, hcount]
        rfl
  obtain ⟨hresources, hcount⟩ := hnone H.pointers hall
  exact ⟨hresources, hcount, hall⟩

end

/-! ### The session -/

theorem nativeSession_kept (steps : List NativeStep) (H : RHeap O) (howned : H.Owned) (w : World) :
    Settles tariff InWindow (nativeSession steps H) w H.resources fun r w' held =>
      Kept H w r.2 w' held := by
  -- on the steps: after each, what there is belongs to the pointers
  induction steps generalizing H w with
  | nil =>
    refine Settles.pure ⟨howned, rfl, ?_⟩
    show w.live = w.live + (H.count - H.count)
    omega
  | cons step steps ih =>
    cases step with
    | call c jump =>
      have hcall : Settles tariff InWindow (c.run { H with jump }) w H.resources fun r w' held =>
          Kept H w r.2 w' held := by
        have hkeeps := c.keeps (H := { H with jump }) (w := w) howned
        exact hkeeps.mono fun _ _ _ h => ⟨h.owned, h.held, h.live⟩
      refine hcall.bind ?_
      rintro ⟨r, H'⟩ w' held hkept
      obtain rfl := hkept.held
      have hlive : w'.live = w.live + (H'.count - H.count) := hkept.live
      refine (ih H' hkept.owned w').bind ?_
      rintro ⟨rs, H''⟩ w'' held hkept'
      have hlive' : w''.live = w'.live + (H''.count - H'.count) := hkept'.live
      refine Settles.pure ⟨hkept'.owned, hkept'.held, ?_⟩
      show w''.live = w.live + (H''.count - H.count)
      omega
    | collect ptrs =>
      refine (finalizeAll_kept howned ptrs w).bind ?_
      rintro ⟨r, H'⟩ w' held ⟨hkept, -⟩
      obtain rfl := hkept.held
      have hlive : w'.live = w.live + (H'.count - H.count) := hkept.live
      refine (ih H' hkept.owned w').mono ?_
      rintro ⟨rs, H''⟩ w'' held hkept'
      have hlive' : w''.live = w'.live + (H''.count - H'.count) := hkept'.live
      refine ⟨hkept'.owned, hkept'.held, ?_⟩
      show w''.live = w.live + (H''.count - H.count)
      omega

/-- Whatever a session does and wherever its calls are left: what there is belongs to the
pointers at any time, and once R has quit there is nothing, and everything that was taken has
been given back as often as it was taken. -/
theorem session_gives_back (steps : List NativeStep) (w : World) :
    (Ensures InWindow (nativeSession steps (⟨[], none⟩ : RHeap O)) w fun t r w' =>
      r.2.Owned ∧ Trades tariff 0 t r.2.resources ∧ w'.live = w.live + r.2.count) ∧
    (Ensures InWindow (nativeSession steps (⟨[], none⟩ : RHeap O) >>= fun r => quit r.2) w
      fun t H w' => (∀ x, spent tariff x t = gained tariff x t) ∧ w'.live = w.live ∧
        ∀ p ∈ H.pointers, p.addr = none) := by
  have howned : (⟨[], none⟩ : RHeap O).Owned := by
    intro p hp
    cases hp
  have hsession := nativeSession_kept steps (⟨[], none⟩ : RHeap O) howned w
  constructor
  · intro t r w' hrun hok
    obtain ⟨held, ht, hkept⟩ := hsession t r w' hrun hok
    obtain rfl := hkept.held
    have hlive : w'.live = w.live + (r.2.count - 0) := hkept.live
    exact ⟨hkept.owned, ht, by omega⟩
  · -- when R quits the finalizers run on all pointers that are left
    have hquit : Settles tariff InWindow (nativeSession steps (⟨[], none⟩ : RHeap O) >>= fun r => quit r.2)
        w 0 fun H w' held => held = 0 ∧ w'.live = w.live ∧ ∀ p ∈ H.pointers, p.addr = none := by
      refine hsession.bind ?_
      rintro ⟨r, H'⟩ w' held hkept
      obtain rfl := hkept.held
      have hlive : w'.live = w.live + (H'.count - 0) := hkept.live
      refine (finalizeAll_kept hkept.owned _ w').bind ?_
      rintro ⟨r, H''⟩ w'' held ⟨hkept', hemptied, hlength, -⟩
      have hlive' : w''.live = w'.live + (H''.count - H'.count) := hkept'.live
      have hemptied' : Emptied H'' (List.range H''.pointers.length) := by
        rw [hlength]
        exact hemptied
      obtain ⟨hresources, hcount, hall⟩ := RHeap.empty_of_emptied hemptied'
      refine Settles.pure ⟨hkept'.held.trans hresources, by omega, hall⟩
    intro t H w' hrun hok
    obtain ⟨held, ht, rfl, hlive, hall⟩ := hquit t H w' hrun hok
    refine ⟨fun x => ?_, hlive, hall⟩
    -- nothing is held, so what was gained was spent
    have hcount := ht.count_eq x
    rw [Multiset.count_zero] at hcount
    omega

end Zucrypt
