import Zucrypt.Backend

/-! # Lifetime of the backend, and the utilities

`zuc_backend.c` and `zuc_util.c`: the reference count in front of the backend, the number of live
handles, the overlap test, wiping, and the allocation watch.

The counts, the record of the watch and the caller's memory are the fields of a `World`.  The
reference count is changed by `zucInit` and `zucShutdown` alone: the backend is started when it
leaves 0 and stopped when it comes back to it, and a failed start leaves it at 0.

The overlap test adds addresses as `uintptr_t`, so it is right of buffers whose end is an address
too (`ValidBuffer`, `zucIntOverlaps_iff`), and that is asked of a caller's buffers wherever they are
compared. -/
namespace Zucrypt
open Effects ByteMemory

variable {O : Objects}

/-- `zuc_int_ready`. -/
def zucIntReady : Adapter O Bool := do
  let w ← Proc.read
  return decide (0 < w.refcount)

/-- `zuc_int_live_add`. -/
def zucIntLiveAdd (delta : Int) : Adapter O Unit :=
  Proc.update (fun w => { w with live := w.live + delta })

/-- `zuc_init`. -/
def zucInit : Adapter O ZucStatus := do
  let w ← Proc.read
  if 0 < w.refcount then
    if w.refcount = 0xFFFFFFFF then
      return .errInternal
    else
      Proc.update (fun w => { w with refcount := w.refcount + 1 })
      return .ok
  else
    let status ← psa .cryptoInit
    if status ≠ .success then
      return zucIntFromPsa status
    else
      Proc.update (fun w => { w with refcount := 1 })
      return .ok

/-- `zuc_shutdown`. -/
def zucShutdown : Adapter O ZucStatus := do
  let w ← Proc.read
  if w.refcount = 0 then
    return .errInvalidArgument
  else
    Proc.update (fun w => { w with refcount := w.refcount - 1 })
    let w ← Proc.read
    if w.refcount = 0 then
      psa .cryptoFree
      return .ok
    else
      return .ok

/-- `zuc_int_overlaps`: the additions are of `uintptr_t` and wrap. -/
def zucIntOverlaps (inp out : Nat) (len : Nat) : Bool :=
  if inp = NULL ∨ out = NULL ∨ len = 0 then
    false
  else if inp = out then
    false
  else if inp < out then
    decide (out < sizeAdd inp len)
  else
    decide (inp < sizeAdd out len)

/-- `zuc_secure_zero`, of the caller's memory. -/
def zucSecureZero (buffer : Nat) (len : Nat) : Adapter O Unit :=
  if buffer = NULL ∨ len = 0 then
    pure ()
  else
    writeMem buffer (List.replicate len 0)

/-- `zuc_secure_zero`, of a local array. -/
def secureZero (bs : List Byte) : List Byte := List.replicate bs.length 0

/-- `zuc_int_alloc_watch`. -/
def zucIntAllocWatch : Adapter O Unit := Proc.update (fun w => { w with allocFailed := false })

/-- `zuc_int_memory_or`. -/
def zucIntMemoryOr (st : ZucStatus) : Adapter O ZucStatus := do
  let w ← Proc.read
  return if st ≠ .ok ∧ w.allocFailed then .errMemory else st

/-! ### Running them -/

/-- Wiping calls nothing. -/
theorem zucSecureZero_apply (p n : Nat) (w : World) :
    (zucSecureZero p n : Adapter O _) w =
      .done ((), if p = NULL then w else w.store p (List.replicate n 0)) := by
  rw [zucSecureZero, Proc.ite_apply]
  rcases Nat.eq_zero_or_pos n with rfl | hn
  · rw [if_pos (Or.inr rfl)]
    simp [World.store, Proc.pure_apply]
  · by_cases hp : p = NULL
    · rw [if_pos (Or.inl hp), if_pos hp, Proc.pure_apply]
    · rw [if_neg (by omega), if_neg hp]
      rfl

section
variable {σ : Type} (h : Handler (Call O) σ) (w : World) (s : σ)

@[simp] theorem exec_zucIntReady :
    (zucIntReady : Adapter O _).exec h w s = ⟨decide (0 < w.refcount), w, s⟩ := (rfl)

@[simp] theorem exec_zucIntLiveAdd (delta : Int) :
    (zucIntLiveAdd delta : Adapter O _).exec h w s =
      ⟨(), { w with live := w.live + delta }, s⟩ := (rfl)

@[simp] theorem exec_zucIntAllocWatch :
    (zucIntAllocWatch : Adapter O _).exec h w s = ⟨(), { w with allocFailed := false }, s⟩ := (rfl)

@[simp] theorem exec_zucIntMemoryOr (st : ZucStatus) :
    (zucIntMemoryOr st : Adapter O _).exec h w s =
      ⟨if st ≠ .ok ∧ w.allocFailed then .errMemory else st, w, s⟩ := (rfl)

@[simp] theorem exec_zucSecureZero (p : Nat) (n : Nat) :
    (zucSecureZero p n : Adapter O _).exec h w s =
      ⟨(), if p = NULL then w else w.store p (List.replicate n 0), s⟩ := by
  rw [Proc.exec, zucSecureZero_apply]
  rfl

end

/-! ### The overlap test -/

/-- A buffer of the C program: a pointer that is not `NULL`, and an end that is
an address too. -/
def ValidBuffer (p : Nat) (n : Nat) : Prop := p ≠ NULL ∧ p + n < sizeMax1

/-- On buffers, the test is overlap other than exact coincidence. -/
theorem zucIntOverlaps_iff {p q : Nat} {n : Nat} (hp : ValidBuffer p n) (hq : ValidBuffer q n) :
    zucIntOverlaps p q n = true ↔ p ≠ q ∧ ¬ Apart p n q n := by
  obtain ⟨hp, hp'⟩ := hp
  obtain ⟨hq, hq'⟩ := hq
  unfold zucIntOverlaps Apart sizeAdd
  rw [Nat.mod_eq_of_lt hp', Nat.mod_eq_of_lt hq']
  split
  · simp_all
  · split
    · simp_all
    · split <;> simp only [decide_eq_true_eq] <;> omega

/-- Buffers that are apart, or the same, pass. -/
theorem zucIntOverlaps_eq_false {p q : Nat} {n : Nat} (hp : ValidBuffer p n)
    (hq : ValidBuffer q n) (h : p = q ∨ Apart p n q n) : zucIntOverlaps p q n = false := by
  rw [← Bool.not_eq_true, zucIntOverlaps_iff hp hq]
  rintro ⟨hne, hna⟩
  exact h.elim hne hna

end Zucrypt
