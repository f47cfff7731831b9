import Zucrypt.KeyTheory
import Zucrypt.MemoryReports
import Zucrypt.ReferenceBackend
import Zucrypt.SlotBackend

/-! # Handles that outlive their window

The last `zuc_shutdown` destroys every key of the backend, but not the handles its callers hold;
they can still be freed after a later `zuc_init`.  Freeing a digest or a public-key handle touches
nothing but the handle.  Freeing an HMAC or AES handle destroys the key with its identifier, and
identifiers repeat from one window to the next: if a key of the current window has it, that key is
gone, and otherwise nothing is.

`stale_frees` says so of one call and of a session.  For one call it gives the key store afterwards
exactly, and with it the condition under which nothing was touched: that no key has the number
(`SlotState.Misses`).  For a session, whose calls may open and close windows, it compares with the
session that forgets stale handles instead of freeing them (`sessionForgetting`): if every stale
free misses, the two end alike, in all but the count of live handles.

The comparison is by a relation that calls cannot see through (`Blind`): no function looks at the
count of live handles, so two worlds that differ in it alone stay alike, over any calls
(`blind_run`, `session_forgetting`).  The keys are those of the slots of the vendored key store
(`SlotBackend`), whose numbering is the point here; what it stores in a slot is any type, and what
cryptography it does with it is any engine. -/
namespace Zucrypt
open Effects ByteMemory KeySlots

variable {O : Objects} {M ρ σ α : Type}

/-! ### The count of live handles -/

theorem indistinct_sameButCount : Indistinct SameButCount where
  mem h := h.mem.symm
  ready h := by rw [h.refcount]
  noteAlloc b h := ⟨h.mem, h.refcount, congrArg (· || b) h.allocFailed⟩
  store p bs h := ⟨congrArg (ByteMemory.write · p bs) h.mem, h.refcount, h.allocFailed⟩
  count _ h := ⟨h.mem, h.refcount, h.allocFailed⟩

/-- Two runs end alike: with the same value and the same backend, in worlds that `R`
relates. -/
def EndAlike (R : World → World → Prop) (r r₂ : Outcome α World σ) : Prop :=
  r.value = r₂.value ∧ R r.world r₂.world ∧ r.env = r₂.env

/-- Against one backend, a function ends alike in worlds it cannot tell apart. -/
def Blind (R : World → World → Prop) (p : Adapter O α) : Prop :=
  ∀ (σ : Type) (h : Handler (Call O) σ) (w w₂ : World) (s : σ), R w w₂ →
    EndAlike R (p.exec h w s) (p.exec h w₂ s)

section
variable {β : Type} {R : World → World → Prop} {p : Adapter O α} {f : α → Adapter O β}

/-- Nothing was looked at. -/
theorem Blind.pure (a : α) : Blind R (Pure.pure a : Adapter O α) :=
  fun _ _ _ _ _ hw => ⟨rfl, hw, rfl⟩

/-- One function after another. -/
theorem Blind.bind (hp : Blind R p) (hf : ∀ a, Blind R (f a)) : Blind R (p >>= f) := by
  intro σ h w w₂ s hw
  obtain ⟨hvalue, hworld, henv⟩ := hp σ h w w₂ s hw
  rw [Proc.exec_bind, Proc.exec_bind, ← hvalue, ← henv]
  exact hf _ σ h _ _ _ hworld

/-- A change that is the same on both sides. -/
theorem Blind.update {u : World → World} (hu : ∀ {w w₂}, R w w₂ → R (u w) (u w₂)) :
    Blind R (Proc.update u : Adapter O Unit) :=
  fun _ _ _ _ _ hw => ⟨rfl, hu hw, rfl⟩

/-- A call of the backend: it is given the same arguments, and so answers the same. -/
theorem Blind.psa (hR : Indistinct R) (c : PsaCall O α) : Blind R (psa c) :=
  fun _ _ _ _ _ hw => ⟨rfl, hR.noteAlloc _ hw, rfl⟩

/-- A branch that does not depend on the world. -/
theorem Blind.ite {c : Prop} [Decidable c] {q : Adapter O α} (hp : Blind R p) (hq : Blind R q) :
    Blind R (if c then p else q) := by
  split
  · exact hp
  · exact hq

/-- A function of the ordinary kind, which only calls, reads and writes memory. -/
theorem Ordinary.blind (hR : Indistinct R) {p : Adapter O α} (hp : Ordinary p) : Blind R p := by
  induction hp with
  | pure a => exact .pure a
  | bind _ _ ihp ihf => exact ihp.bind ihf
  | psa _ => exact .psa hR _
  | heap _ => exact fun _ _ _ _ _ hw => ⟨rfl, hw, rfl⟩
  | look f =>
    intro σ h w w₂ s hw
    refine ⟨?_, hw, rfl⟩
    show f w.mem _ = f w₂.mem _
    rw [hR.mem hw, decide_eq_decide.mpr (hR.ready hw)]
  | write p bs => exact .update fun hw => hR.store p bs hw
  | count d => exact .update fun hw => hR.count d hw

end

/-- A function that looks at the reference count. -/
theorem blind_look {f : World → Adapter O α} (g : UInt32 → Adapter O α)
    (hf : ∀ w, f w = g w.refcount) (hg : ∀ n, Blind SameButCount (g n)) :
    Blind SameButCount (Proc.read >>= f) := by
  intro σ h w w₂ s hw
  rw [Proc.exec_bind, Proc.exec_bind, Proc.exec_read, Proc.exec_read, hf, hf, hw.refcount]
  exact hg _ σ h w w₂ s hw

/-- `zuc_init` does not look at the count of handles. -/
theorem blind_zucInit : Blind SameButCount (zucInit : Adapter O _) := by
  refine blind_look (fun n => if 0 < n then
      if n = 0xFFFFFFFF then return .errInternal else do
        Proc.update (fun w => { w with refcount := w.refcount + 1 })
        return .ok
    else do
      let status ← psa .cryptoInit
      if status ≠ .success then return zucIntFromPsa status else do
        Proc.update (fun w => { w with refcount := 1 })
        return .ok) (fun w => rfl) fun n => ?_
  refine .ite (.ite (.pure _) ?_) (.bind (.psa indistinct_sameButCount _) fun status =>
    .ite (.pure _) ?_)
  · exact .bind (.update fun hw => ⟨hw.mem, congrArg (· + 1) hw.refcount, hw.allocFailed⟩)
      fun _ => .pure _
  · exact .bind (.update fun hw => ⟨hw.mem, rfl, hw.allocFailed⟩) fun _ => .pure _

/-- Nor does `zuc_shutdown`. -/
theorem blind_zucShutdown : Blind SameButCount (zucShutdown : Adapter O _) := by
  have hlast : Blind SameButCount (do
      let w ← Proc.read
      if w.refcount = 0 then
        psa .cryptoFree
        return .ok
      else
        return .ok : Adapter O ZucStatus) := by
    refine blind_look (fun n => if n = 0 then do
        psa .cryptoFree
        return .ok
      else return .ok) (fun w => rfl) fun n => .ite ?_ (.pure _)
    exact .bind (.psa indistinct_sameButCount _) fun _ => .pure _
  refine blind_look (fun n => if n = 0 then return .errInvalidArgument else do
      Proc.update (fun w => { w with refcount := w.refcount - 1 })
      let w ← Proc.read
      if w.refcount = 0 then
        psa .cryptoFree
        return .ok
      else
        return .ok) (fun w => rfl) fun n => .ite (.pure _) ?_
  exact .bind (.update fun hw => ⟨hw.mem, congrArg (· - 1) hw.refcount, hw.allocFailed⟩)
    fun _ => hlast

/-- Nor the choice between a status and `ZUC_ERR_MEMORY`. -/
theorem blind_zucIntMemoryOr (st : ZucStatus) :
    Blind SameButCount (zucIntMemoryOr st : Adapter O _) := by
  intro σ h w w₂ s hw
  refine ⟨?_, hw, rfl⟩
  show (if st ≠ .ok ∧ w.allocFailed = true then ZucStatus.errMemory else st) =
    if st ≠ .ok ∧ w₂.allocFailed = true then ZucStatus.errMemory else st
  rw [hw.allocFailed]

/-- No call looks at the count. -/
theorem blind_run (pool : Pool O) (c : Command) : Blind SameButCount (c.run pool) := by
  cases himpl : c.impl pool with
  | some p =>
    rw [Command.run_eq_underWatch himpl]
    have hclear : Blind SameButCount (zucIntAllocWatch : Adapter O Unit) :=
      .update fun hw => ⟨hw.mem, hw.refcount, rfl⟩
    refine hclear.bind fun _ =>
      .bind ((Command.ordinary_impl himpl).blind indistinct_sameButCount) fun r => ?_
    exact (blind_zucIntMemoryOr _).bind fun _ => .pure _
  | none =>
    by_cases hlifetime : c.IsLifetime
    · cases c with
      | init => exact .bind blind_zucInit fun _ => .pure _
      | shutdown => exact .bind blind_zucShutdown fun _ => .pure _
      | _ => exact hlifetime.elim
    · exact (Command.ordinary_run himpl hlifetime).blind indistinct_sameButCount

/-! ### Freeing a handle -/

namespace Command

/-- The place whose handle a call frees. -/
def frees : Command → Option Nat
  | .hashFree i => some i
  | .hmacFree i => some i
  | .aesFree i => some i
  | .pkeyFree i => some i
  | _ => none

/-- What is left of the pool. -/
def forget (pool : Pool O) : Command → Pool O
  | .hashFree i => pool.drop i (pool.hash i)
  | .hmacFree i => pool.drop i (pool.hmac i)
  | .aesFree i => pool.drop i (pool.aes i)
  | .pkeyFree i => pool.drop i (pool.pkey i)
  | _ => pool

/-- The key that the handle has in the backend's store: HMAC and AES handles have one. -/
def ownKey (pool : Pool O) : Command → Option KeyId
  | .hmacFree i => (pool.hmac i).map (·.key)
  | .aesFree i => (pool.aes i).map (·.key)
  | _ => none

end Command

/-- The keys, without one. -/
def SlotState.without (s : SlotState M ρ) (key : Option KeyId) : SlotState M ρ :=
  match key with
  | none => s
  | some id => { s with slots := s.slots.remove id }

/-- Freeing a handle destroys its key, if it has one, and does nothing else. -/
theorem exec_frees (E : Engine O M ρ) (pool : Pool O) {c : Command} {i : Nat}
    (hc : c.frees = some i) (w : World) (s : SlotState M ρ) :
    let r := (c.run pool).exec (slotBackend E) w s
    r.value = (⟨.ok, none⟩, c.forget pool) ∧ SameButCount w r.world ∧
      r.env = s.without (c.ownKey pool) := by
  cases c with
  | hashFree j =>
    simp only [Command.run, Command.free, Command.forget, Command.ownKey, Proc.exec_bind,
      Proc.exec_pure]
    cases pool.hash j with
    | none => exact ⟨trivial, .refl w, rfl⟩
    | some hash => exact ⟨trivial, ⟨rfl, rfl, Bool.or_false _⟩, rfl⟩
  -- an HMAC handle has an operation and a key to give up
  | hmacFree j =>
    simp only [Command.run, Command.free, Command.forget, Command.ownKey, Proc.exec_bind,
      Proc.exec_pure]
    cases pool.hmac j with
    | none => exact ⟨trivial, .refl w, rfl⟩
    | some hmac =>
      refine ⟨trivial, ⟨rfl, rfl, ?_⟩, rfl⟩
      exact (Bool.or_false _).trans (Bool.or_false _)
  | aesFree j =>
    simp only [Command.run, Command.free, Command.forget, Command.ownKey, Proc.exec_bind,
      Proc.exec_pure]
    cases pool.aes j with
    | none => exact ⟨trivial, .refl w, rfl⟩
    | some aes => exact ⟨trivial, ⟨rfl, rfl, Bool.or_false _⟩, rfl⟩
  | pkeyFree j =>
    simp only [Command.run, Command.free, Command.forget, Command.ownKey, Proc.exec_bind,
      Proc.exec_pure]
    cases pool.pkey j with
    | none => exact ⟨trivial, .refl w, rfl⟩
    | some key => exact ⟨trivial, ⟨rfl, rfl, rfl⟩, rfl⟩
  | _ => cases hc

/-- No key of the store has this number. -/
def SlotState.Misses (s : SlotState M ρ) (key : Option KeyId) : Prop :=
  ∀ id, key = some id → s.slots.find id = none

/-- Taking a key away changes nothing exactly if it is not there. -/
theorem SlotState.without_eq_self_iff {s : SlotState M ρ} {key : Option KeyId} :
    s.without key = s ↔ s.Misses key := by
  cases key with
  | none => exact ⟨fun _ _ h => by simp at h, fun _ => rfl⟩
  | some id =>
    constructor
    · intro h id' hid
      obtain rfl := Option.some.inj hid
      exact Store.remove_eq_self_iff.mp (congrArg SlotState.slots h)
    · intro h
      show ({ s with slots := s.slots.remove id } : SlotState M ρ) = s
      rw [Store.remove_of_find (h id rfl)]

/-! ### Runs over several windows -/

/-- A call that frees a handle made before the window: there were `start` places when
that began. -/
def Command.freesStale (start : Nat) (c : Command) : Bool :=
  match c.frees with
  | some i => decide (i < start)
  | none => false

/-- Where the handles of the current window start, after a call. -/
def windowStart (ready ready' : Bool) (start : Nat) (pool : Pool O) : Nat :=
  if ready = false ∧ ready' = true then pool.length else start

/-- A call, but that a stale handle is forgotten instead of freed. -/
def Command.forgetting (start : Nat) (pool : Pool O) (c : Command) :
    Adapter O (CallResult × Pool O) :=
  if c.freesStale start = true then pure (⟨.ok, none⟩, c.forget pool) else c.run pool

/-- The calls of a session in which stale handles are forgotten instead of freed. -/
def sessionForgetting (start : Nat) (pool : Pool O) : List Command →
    Adapter O (List CallResult × Pool O)
  | [] => pure ([], pool)
  | c :: cs => do
    let ready ← zucIntReady
    let r ← c.forgetting start pool
    let ready' ← zucIntReady
    let rs ← sessionForgetting (windowStart ready ready' start r.2) r.2 cs
    return (r.1 :: rs.1, rs.2)

/-- Every stale handle the session frees has a key of a number that no key of the current
window has, or has no key. -/
def StaleFreesMiss (E : Engine O M ρ) (start : Nat) (pool : Pool O) (w : World)
    (s : SlotState M ρ) : List Command → Prop
  | [] => True
  | c :: cs =>
    (c.freesStale start = true → s.Misses (c.ownKey pool)) ∧
      let r := (c.run pool).exec (slotBackend E) w s
      StaleFreesMiss E
        (windowStart (decide (0 < w.refcount)) (decide (0 < r.world.refcount)) start r.value.2)
        r.value.2 r.world r.env cs

/-- Such a session and the one that forgets end alike. -/
theorem session_forgetting (E : Engine O M ρ) {start : Nat} {pool : Pool O} {w w₂ : World}
    {s : SlotState M ρ} {cs : List Command} (hw : SameButCount w w₂)
    (hmiss : StaleFreesMiss E start pool w s cs) :
    EndAlike SameButCount ((session pool cs).exec (slotBackend E) w s)
      ((sessionForgetting start pool cs).exec (slotBackend E) w₂ s) := by
  induction cs generalizing start pool w w₂ s with
  | nil => exact ⟨rfl, hw, rfl⟩
  | cons c cs ih =>
    obtain ⟨hfree, hrest⟩ := hmiss
    have hstep : EndAlike SameButCount ((c.run pool).exec (slotBackend E) w s)
        ((c.forgetting start pool).exec (slotBackend E) w₂ s) := by
      unfold Command.forgetting
      by_cases hstale : c.freesStale start = true
      · rw [if_pos hstale]
        have hfrees : ∃ i, c.frees = some i := by
          unfold Command.freesStale at hstale
          split at hstale
          · exact ⟨_, ‹_›⟩
          · simp at hstale
        obtain ⟨i, hi⟩ := hfrees
        obtain ⟨hvalue, hworld, henv⟩ := exec_frees E pool hi w s
        refine ⟨hvalue, ?_, henv.trans (SlotState.without_eq_self_iff.mpr (hfree hstale))⟩
        exact ⟨hw.mem.trans hworld.mem.symm, hw.refcount.trans hworld.refcount.symm,
          hw.allocFailed.trans hworld.allocFailed.symm⟩
      · rw [if_neg hstale]
        exact blind_run pool c _ (slotBackend E) w w₂ s hw
    obtain ⟨hvalue, hworld, henv⟩ := hstep
    simp only [session, sessionForgetting, Proc.exec_bind, exec_zucIntReady, Proc.exec_pure]
    rw [← hvalue, ← henv, hw.refcount, hworld.refcount]
    obtain ⟨hvalue', hworld', henv'⟩ := ih hworld hrest
    exact ⟨by rw [hvalue'], hworld', henv'⟩

/-! ### A backend, and two windows -/

/-- The reference backend's answers, given the key that a call names. -/
def referenceEngine (P : Primitives) :
    Engine referenceObjects (PsaKeyAttributes × List Byte) Unit where
  start _ := (.success, ())
  stop _ := ()
  importKey attr data _ := ⟨.ok (attr, data), false, ()⟩
  generateKey _ _ := ⟨.error ⟨.errorNotSupported, by decide⟩, false, ()⟩
  importPk _ _ _ := ⟨.error ⟨.errorNotSupported, by decide⟩, false, ()⟩
  hashAbort _ := none
  macAbort _ := none
  serve c m _ :=
    let keys := match c.key, m with
      | some id, some key => [(id, key)]
      | _, _ => []
    (⟨(referencePsa P c ⟨keys, 1, 0⟩).1, false⟩, ())
  record _ _ := (some 0x10000, ())
  block _ _ := (some 0x20000, ())
  vector _ _ := (0x30000, ())

/-- A library that has not been started, with nothing in its caller's memory. -/
def idleWorld : World := { readyWorld with refcount := 0 }

/-- An AES handle, a second window, and what is done there. -/
def secondWindow (cs : List Command) : List Command :=
  .init :: .aesNew 1024 16 true :: .shutdown :: .init :: cs

/-! ### The verdict -/

/-- Freeing a handle leaves every key alone but its own, and so leaves the key store as it
is exactly if no key has the number of its key; and a session whose stale frees all miss
ends as if it had never made them. -/
theorem stale_frees (E : Engine O M ρ) (w : World) (s : SlotState M ρ) :
    (∀ (pool : Pool O) (c : Command) (i : Nat), c.frees = some i →
      let r := (c.run pool).exec (slotBackend E) w s
      (∀ id, r.env.slots.find id = if c.ownKey pool = some id then none else s.slots.find id) ∧
        (r.env = s ↔ s.Misses (c.ownKey pool))) ∧
    ∀ cs, StaleFreesMiss E 0 [] w s cs →
      EndAlike SameButCount ((session ([] : Pool O) cs).exec (slotBackend E) w s)
        ((sessionForgetting 0 ([] : Pool O) cs).exec (slotBackend E) w s) := by
  refine ⟨fun pool c i hc => ?_, fun cs => session_forgetting E (.refl w)⟩
  obtain ⟨-, -, henv⟩ := exec_frees E pool hc w s
  refine ⟨fun id => ?_, ?_⟩
  · rw [henv]
    cases hkey : c.ownKey pool with
    | none => simp [SlotState.without]
    | some key =>
      show (s.slots.remove key).find id = _
      rw [Store.find_remove]
      by_cases hid : id = key
      · simp [hid]
      · rw [if_neg hid, if_neg (by simpa using Ne.symm hid)]
  · rw [henv]
    exact SlotState.without_eq_self_iff

/-- The stale handle is freed before the window has a key, and nothing is lost. -/
theorem stale_frees_before_keys :
    let cs := secondWindow [.aesFree 0, .aesNew 1024 16 true, .aesCbcEncrypt 1 2048 16 4096]
    let E := referenceEngine knownPrimitives
    EndAlike SameButCount
      ((session ([] : Pool referenceObjects) cs).exec (slotBackend E) idleWorld ⟨.empty, ()⟩)
      ((sessionForgetting 0 ([] : Pool referenceObjects) cs).exec (slotBackend E) idleWorld
        ⟨.empty, ()⟩) := by
  refine (stale_frees (referenceEngine knownPrimitives) idleWorld ⟨.empty, ()⟩).2 _ ?_
  have hkept : ∀ {P : Prop}, false = true → P := fun h => absurd h (by decide)
  refine ⟨hkept, hkept, hkept, hkept, fun _ => ?_, hkept, hkept, trivial⟩
  exact fun id _ => Store.find_empty id

/-- The stale handle is freed once the window has a key of its own, and takes that with
it: the handle that has it no longer encrypts. -/
theorem stale_free_destroys :
    let cs := secondWindow [.aesNew 1024 16 true, .aesFree 0, .aesCbcEncrypt 1 2048 16 4096]
    let E := referenceEngine knownPrimitives
    let freed := (session ([] : Pool referenceObjects) cs).exec (slotBackend E) idleWorld ⟨.empty, ()⟩
    let forgotten := (sessionForgetting 0 ([] : Pool referenceObjects) cs).exec (slotBackend E)
      idleWorld ⟨.empty, ()⟩
    freed.value.1.map (·.status) = [.ok, .ok, .ok, .ok, .ok, .ok, .errInvalidArgument] ∧
      forgotten.value.1.map (·.status) = [.ok, .ok, .ok, .ok, .ok, .ok, .ok] ∧
      freed.env.slots.find 0x40000000 = none ∧
      forgotten.env.slots.find 0x40000000 = some (aesKeyAttributes .cbcNoPadding, List.replicate 16 0) := by
  decide +kernel

end Zucrypt
