import Mathlib.Data.Multiset.AddSub
import Zucrypt.KeyService
import Zucrypt.StaleHandles
import Zucrypt.MemoryReports
import Zucrypt.NoLeak
import Zucrypt.ReadyCalls

/-! # Consumers of one copy of the library

Several parts of a program use one copy of the library, and know nothing of one another.  Each keeps
handles of its own, and holds the library open by references: a `zuc_init` that succeeded, and that
it has not yet matched with a `zuc_shutdown`.

`Interleaved` is any order of their calls.  Between calls the memory may become anything else.  A
consumer keeps to two rules, which is all that `Entitled` asks: it makes no call but `zuc_init`
while it has no reference, and does not give up its last one while it has handles.  The header asks
both of each caller alone; nothing is asked of the order.

The invariant is `Steady`: the count in the library is the number of references held, and whoever
holds none has no handles.  `Steady.step` keeps it over one call, by the four cases of a call
(`Steady.first`, `Steady.later`, `Steady.shutdown`, `Steady.inside`), and says on the way what the
call does to the window (`Orderly`); the induction over the order is `Interleaved.orderly`.

`psa_crypto_init` may fail.  Then the `zuc_init` that called it has failed too, and nobody holds the
library: `Orderly.opens` says that there is a reference exactly if the start succeeded.  No other
assumption is made of the backend; what its keys do is in `ConsumersApart`. -/
namespace Zucrypt
open Effects ByteMemory Resources

variable {O : Objects} {M ι κ σ : Type}

/-- The library and its consumers: their groups of handles, and the references they hold.  Calls
name handles of one group only; a group may be all handles of a consumer, or a single one. -/
structure Library (O : Objects) (ι κ : Type) where
  owner : κ → ι
  world : World
  pools : κ → Pool O
  references : Multiset ι

/-- A call by one of them, with the memory it finds and the memory it leaves. -/
structure Turn (O : Objects) (ι κ : Type) where
  who : ι
  group : κ
  memory : Memory
  command : Command
  trace : List (Event (Call O))
  result : CallResult
  after : Memory

variable [DecidableEq ι]

namespace Turn

variable (u : Turn O ι κ)

/-- The references held after the call. -/
def references (held : Multiset ι) : Multiset ι :=
  match u.command, u.result.status with
  | .init, .ok => u.who ::ₘ held
  | .shutdown, .ok => held.erase u.who
  | _, _ => held

variable {u} {held : Multiset ι}

/-- A `zuc_init` that succeeded gives the caller one reference more. -/
theorem references_init (hc : u.command = .init) (hok : u.result.status = .ok) :
    u.references held = u.who ::ₘ held := by
  unfold references
  rw [hc, hok]

/-- A `zuc_shutdown` that succeeded takes one of the caller's away. -/
theorem references_shutdown (hc : u.command = .shutdown) (hok : u.result.status = .ok) :
    u.references held = held.erase u.who := by
  unfold references
  rw [hc, hok]

/-- A call that failed leaves the references as they were, whatever it was. -/
theorem references_failed (hfailed : u.result.status ≠ .ok) : u.references held = held := by
  unfold references
  split
  · exact absurd ‹_› hfailed
  · exact absurd ‹_› hfailed
  · rfl

/-- So does a call that is neither, and succeeds. -/
theorem references_inside (hc : ¬ u.command.IsLifetime) : u.references held = held := by
  unfold references
  split
  · exact absurd trivial (by rwa [‹u.command = .init›] at hc)
  · exact absurd trivial (by rwa [‹u.command = .shutdown›] at hc)
  · rfl

variable (u)

/-- The consumer may make the call. -/
structure Entitled (lib : Library O ι κ) : Prop where
  own : lib.owner u.group = u.who
  reference : u.command ≠ .init → u.who ∈ lib.references
  handles : u.command = .shutdown → lib.references.count u.who = 1 →
    ∀ g, lib.owner g = u.who → (lib.pools g).handles = []

variable [DecidableEq κ]

/-- The call takes the library from one state to another. -/
def Takes (lib lib' : Library O ι κ) : Prop :=
  ∃ pool w', Runs (u.command.run (lib.pools u.group) { lib.world with mem := u.memory }) u.trace
      ((u.result, pool), w') ∧ u.after = w'.mem ∧
    lib' = ⟨lib.owner, w', Function.update lib.pools u.group pool, u.references lib.references⟩

end Turn

variable [DecidableEq κ]

/-- Calls of all consumers, in some order. -/
inductive Interleaved : Library O ι κ → List (Turn O ι κ) → Library O ι κ → Prop
  | nil (lib : Library O ι κ) : Interleaved lib [] lib
  | cons {lib lib₁ lib' : Library O ι κ} {u : Turn O ι κ} {turns : List (Turn O ι κ)}
      (hentitled : u.Entitled lib) (htakes : u.Takes lib lib₁) (hrest : Interleaved lib₁ turns lib') :
      Interleaved lib (u :: turns) lib'

/-- The library while nobody has a handle. -/
def Library.bare (owner : κ → ι) (w : World) (references : Multiset ι) : Library O ι κ :=
  ⟨owner, w, fun _ => [], references⟩

/-- The calls made to the backend. -/
def calls (turns : List (Turn O ι κ)) : List (Event (Call O)) := turns.flatMap Turn.trace

/-- The backend is started. -/
def starts : Event (Call O) → Bool
  | ⟨.psa .cryptoInit, _⟩ => true
  | _ => false

/-! ### Calls that can be made -/

namespace Command

/-- `zuc_init`. -/
def isInit : Command → Bool
  | .init => true
  | _ => false

/-- `zuc_shutdown`. -/
def isShutdown : Command → Bool
  | .shutdown => true
  | _ => false

theorem isInit_iff {c : Command} : c.isInit = true ↔ c = .init := by
  cases c <;> simp [isInit]

theorem isShutdown_iff {c : Command} : c.isShutdown = true ↔ c = .shutdown := by
  cases c <;> simp [isShutdown]

end Command

omit [DecidableEq κ] in
/-- The rules can be checked: there are finitely many groups. -/
theorem Turn.entitled_iff {u : Turn O ι κ} {lib : Library O ι κ} :
    u.Entitled lib ↔ lib.owner u.group = u.who ∧ (u.command.isInit = true ∨ u.who ∈ lib.references) ∧
      (u.command.isShutdown = true → lib.references.count u.who = 1 →
        ∀ g, lib.owner g = u.who → (lib.pools g).handles.isEmpty = true) := by
  simp only [Command.isInit_iff, Command.isShutdown_iff, List.isEmpty_iff]
  constructor
  · exact fun h => ⟨h.own, or_iff_not_imp_left.mpr h.reference, h.handles⟩
  · rintro ⟨hown, hreference, hhandles⟩
    exact ⟨hown, or_iff_not_imp_left.mp hreference, hhandles⟩

instance [Fintype κ] (u : Turn O ι κ) (lib : Library O ι κ) : Decidable (u.Entitled lib) :=
  decidable_of_iff _ Turn.entitled_iff.symm

/-- A call that is to be made, and the memory it will find. -/
structure Ask (ι κ : Type) where
  who : ι
  group : κ
  memory : Memory
  command : Command

namespace Ask

variable (a : Ask ι κ) (h : Handler (Call O) σ) (lib : Library O ι κ) (s : σ)

/-- How the call ends against one backend. -/
def outcome : Outcome (CallResult × Pool O) World σ :=
  (a.command.run (lib.pools a.group)).exec h { lib.world with mem := a.memory } s

/-- The call as it was made. -/
def turn : Turn O ι κ where
  who := a.who
  group := a.group
  memory := a.memory
  command := a.command
  trace := (a.command.run (lib.pools a.group) { lib.world with mem := a.memory }).trace h s
  result := (a.outcome h lib s).value.1
  after := (a.outcome h lib s).world.mem

/-- The library after it. -/
def next : Library O ι κ where
  owner := lib.owner
  world := (a.outcome h lib s).world
  pools := Function.update lib.pools a.group (a.outcome h lib s).value.2
  references := (a.turn h lib s).references lib.references

/-- A call played against a backend is one that the library may take. -/
theorem takes_turn : (a.turn h lib s).Takes lib (a.next h lib s) :=
  ⟨_, _, Runs.run h _ s, rfl, rfl⟩

end Ask

/-- Calls made against one backend, if those who make them may. -/
def play [Fintype κ] (h : Handler (Call O) σ) :
    List (Ask ι κ) → Library O ι κ → σ → Option (List (Turn O ι κ) × Library O ι κ × σ)
  | [], lib, s => some ([], lib, s)
  | a :: asks, lib, s =>
    if (a.turn h lib s).Entitled lib then
      (play h asks (a.next h lib s) (a.outcome h lib s).env).map fun r =>
        (a.turn h lib s :: r.1, r.2)
    else none

/-- What a play of several calls is made of: the first is one its caller may make, and the rest go
on from what it leaves. -/
theorem play_cons_eq_some [Fintype κ] {h : Handler (Call O) σ} {a : Ask ι κ} {asks : List (Ask ι κ)}
    {lib lib' : Library O ι κ} {s s' : σ} {turns : List (Turn O ι κ)}
    (hplay : play h (a :: asks) lib s = some (turns, lib', s')) :
    (a.turn h lib s).Entitled lib ∧ ∃ rest, turns = a.turn h lib s :: rest ∧
      play h asks (a.next h lib s) (a.outcome h lib s).env = some (rest, lib', s') := by
  unfold play at hplay
  split at hplay
  · obtain ⟨⟨rest, lib₂, s₂⟩, hrest, heq⟩ := Option.map_eq_some_iff.mp hplay
    cases heq
    exact ⟨‹_›, rest, rfl, hrest⟩
  · cases hplay

/-- They are an order of calls. -/
theorem interleaved_play [Fintype κ] {h : Handler (Call O) σ} {asks : List (Ask ι κ)}
    {lib lib' : Library O ι κ} {s s' : σ} {turns : List (Turn O ι κ)}
    (hplay : play h asks lib s = some (turns, lib', s')) : Interleaved lib turns lib' := by
  induction asks generalizing lib s turns with
  | nil =>
    obtain ⟨rfl, heq⟩ := Prod.mk.inj (Option.some.inj hplay)
    obtain ⟨rfl, -⟩ := Prod.mk.inj heq
    exact .nil lib
  | cons a asks ih =>
    obtain ⟨hentitled, rest, rfl, hrest⟩ := play_cons_eq_some hplay
    exact .cons hentitled (a.takes_turn h lib s) (ih hrest)

/-- And one the vendored key store serves by its law. -/
theorem upholds_play [Fintype κ] {ρ : Type} {E : Engine O M ρ} {asks : List (Ask ι κ)}
    {lib lib' : Library O ι κ} {s s' : SlotState M ρ} {turns : List (Turn O ι κ)}
    (hplay : play (slotBackend E) asks lib s = some (turns, lib', s')) :
    Upholds E.law s.slots.find (calls turns) s'.slots.find := by
  induction asks generalizing lib s turns with
  | nil =>
    obtain ⟨rfl, heq⟩ := Prod.mk.inj (Option.some.inj hplay)
    obtain ⟨-, rfl⟩ := Prod.mk.inj heq
    rfl
  | cons a asks ih =>
    obtain ⟨-, rest, rfl, hrest⟩ := play_cons_eq_some hplay
    have hcalls : calls (a.turn (slotBackend E) lib s :: rest) =
        (a.turn (slotBackend E) lib s).trace ++ calls rest := List.flatMap_cons
    rw [hcalls]
    exact upholds_append.mpr ⟨_, upholds_slotBackend E _ s, ih hrest⟩

/-! ### One call -/

section
variable {lib lib' : Library O ι κ} {u : Turn O ι κ}

/-- What is true of every execution of the call is true of this one. -/
theorem Turn.Takes.ensures {Q : List (Event (Call O)) → CallResult × Pool O → World → Prop}
    (h : u.Takes lib lib')
    (hQ : Ensures (fun _ => True) (u.command.run (lib.pools u.group)) { lib.world with mem := u.memory } Q) :
    Q u.trace (u.result, lib'.pools u.group) lib'.world := by
  obtain ⟨pool, w', hrun, -, rfl⟩ := h
  have hends := hQ u.trace (u.result, pool) w' hrun fun _ _ => trivial
  show Q u.trace (u.result, Function.update lib.pools u.group pool u.group) w'
  rw [Function.update_self]
  exact hends

/-- A call names handles of its own group only. -/
theorem Turn.Takes.pools_of_ne (h : u.Takes lib lib') {g : κ} (hg : g ≠ u.group) :
    lib'.pools g = lib.pools g := by
  obtain ⟨pool, w', -, -, rfl⟩ := h
  exact Function.update_of_ne hg _ _

theorem Turn.Takes.owner_eq (h : u.Takes lib lib') : lib'.owner = lib.owner := by
  obtain ⟨pool, w', -, -, rfl⟩ := h
  rfl

theorem Turn.Takes.references_eq (h : u.Takes lib lib') : lib'.references = u.references lib.references := by
  obtain ⟨pool, w', -, -, rfl⟩ := h
  rfl

end

/-! ### Starting and stopping -/

theorem eq_zero_of_not_pos {n : UInt32} (h : ¬ 0 < n) : n = 0 := by
  rw [UInt32.lt_iff_toNat_lt] at h
  refine UInt32.toNat_inj.mp ?_
  have hzero : (0 : UInt32).toNat = 0 := rfl
  omega

/-- `zuc_init`: the first reference starts the backend, and the others are counted, as long as
they can be. -/
structure InitSpec (w : World) (t : List (Event (Call O))) (st : ZucStatus) (w' : World) : Prop where
  first : w.refcount = 0 → ∃ r : Reply PsaStatus, t = [⟨.psa .cryptoInit, r⟩] ∧
    st = zucIntFromPsa r.answer ∧ w' = { w.noteAlloc r.allocFailed with refcount := if st = .ok then 1 else 0 }
  later : w.refcount ≠ 0 → t = [] ∧ (st = if w.refcount = 0xFFFFFFFF then .errInternal else .ok) ∧
    w' = { w with refcount := if st = .ok then w.refcount + 1 else w.refcount }

/-- `zuc_init`, whatever the backend answers: it is asked only if there is no reference. -/
theorem ensures_zucInit (w : World) :
    Ensures (fun _ => True) (zucInit : Adapter O _) w fun t st w' => InitSpec w t st w' := by
  refine Ensures.bind_iff.mpr (Ensures.read_iff.mpr (Ensures.ite (fun hpos => ?_) fun hzero => ?_))
  · have hne : w.refcount ≠ 0 := by
      intro hzero
      rw [hzero] at hpos
      exact absurd hpos (by decide)
    refine Ensures.ite (fun hfull => ?_) fun hroom => ?_
    · exact Ensures.pure_iff.mpr ⟨fun h => absurd h hne, fun _ => ⟨rfl, (if_pos hfull).symm, rfl⟩⟩
    · refine Ensures.bind_iff.mpr (Ensures.update_iff.mpr (Ensures.pure_iff.mpr ?_))
      exact ⟨fun h => absurd h hne, fun _ => ⟨rfl, (if_neg hroom).symm, rfl⟩⟩
  · have hzero := eq_zero_of_not_pos hzero
    refine Ensures.bind_iff.mpr (ensures_psa.mpr fun r _ => Ensures.ite (fun hfailed => ?_) fun hok => ?_)
    · have hne : zucIntFromPsa r.answer ≠ .ok := fun h => hfailed (zucIntFromPsa_eq_ok.mp h)
      refine Ensures.pure_iff.mpr ⟨fun _ => ⟨r, rfl, rfl, ?_⟩, fun h => absurd hzero h⟩
      rw [if_neg hne, ← hzero]
      rfl
    · refine Ensures.bind_iff.mpr (Ensures.update_iff.mpr (Ensures.pure_iff.mpr ?_))
      have hsuccess : zucIntFromPsa r.answer = .ok := zucIntFromPsa_eq_ok.mpr (not_not.mp hok)
      exact ⟨fun _ => ⟨r, rfl, hsuccess.symm, rfl⟩, fun h => absurd hzero h⟩

/-- `zuc_shutdown`: the last reference stops the backend. -/
structure ShutdownSpec (w : World) (t : List (Event (Call O))) (st : ZucStatus) (w' : World) : Prop where
  none : w.refcount = 0 → t = [] ∧ st = .errInvalidArgument ∧ w' = w
  last : w.refcount = 1 → ∃ r : Reply Unit, t = [⟨.psa .cryptoFree, r⟩] ∧ st = .ok ∧
    w' = { w.noteAlloc r.allocFailed with refcount := 0 }
  other : w.refcount ≠ 0 → w.refcount ≠ 1 →
    t = [] ∧ st = .ok ∧ w' = { w with refcount := w.refcount - 1 }

/-- `zuc_shutdown`: the backend is stopped only with the last reference. -/
theorem ensures_zucShutdown (w : World) :
    Ensures (fun _ => True) (zucShutdown : Adapter O _) w fun t st w' => ShutdownSpec w t st w' := by
  refine Ensures.bind_iff.mpr (Ensures.read_iff.mpr (Ensures.ite (fun hzero => ?_) fun hpos => ?_))
  · refine Ensures.pure_iff.mpr ⟨fun _ => ⟨rfl, rfl, rfl⟩, fun hone => ?_, fun h => absurd hzero h⟩
    rw [hzero] at hone
    exact absurd hone (by decide)
  refine Ensures.bind_iff.mpr (Ensures.update_iff.mpr (Ensures.bind_iff.mpr (Ensures.read_iff.mpr ?_)))
  refine Ensures.ite (fun hlast => ?_) fun hmore => ?_
  · have hone : w.refcount = 1 := by
      have hsub : w.refcount - 1 = 0 := hlast
      rw [← UInt32.sub_add_cancel w.refcount 1, hsub]
      rfl
    refine Ensures.bind_iff.mpr (ensures_psa.mpr fun r _ => Ensures.pure_iff.mpr ?_)
    refine ⟨fun h => absurd h hpos, fun _ => ⟨r, rfl, rfl, ?_⟩, fun _ h => absurd hone h⟩
    rw [← hlast]
    rfl
  · have hne : w.refcount ≠ 1 := by
      intro hone
      exact hmore (by rw [hone]; rfl)
    exact Ensures.pure_iff.mpr ⟨fun h => absurd h hpos, fun h => absurd h hne, fun _ _ => ⟨rfl, rfl, rfl⟩⟩

theorem Command.isLifetime_iff {c : Command} : c.IsLifetime ↔ c = .init ∨ c = .shutdown := by
  cases c <;> simp [Command.IsLifetime]

/-- A call that is neither. -/
def Command.inside : Command → Bool
  | .init => false
  | .shutdown => false
  | _ => true

theorem Command.inside_iff {c : Command} : c.inside = true ↔ ¬ c.IsLifetime := by
  cases c <;> simp [Command.IsLifetime, Command.inside]

/-- A call that is neither leaves the count alone, and does not start or stop the backend. -/
theorem ensures_inside {pool : Pool O} {c : Command} (hc : ¬ c.IsLifetime) (w : World) :
    Ensures (fun _ => True) (c.run pool) w fun t _ w' =>
      w'.refcount = w.refcount ∧ ∀ e ∈ t, IsInside e := by
  cases himpl : c.impl pool with
  | none =>
    exact ((Command.ordinary_run himpl hc).frame w).mono fun t r w' h => ⟨h.refcount, h.inside⟩
  | some p =>
    rw [Command.run_eq_underWatch himpl]
    refine Ensures.bind_iff.mpr (Ensures.update_iff.mpr (Ensures.bind_iff.mpr ?_))
    refine ((Command.ordinary_impl himpl).frame _).mono fun t r w' h => ?_
    refine Ensures.bind_iff.mpr (Ensures.bind_iff.mpr (Ensures.read_iff.mpr (Ensures.pure_iff.mpr ?_)))
    refine Ensures.pure_iff.mpr ⟨h.refcount, fun e he => h.inside e ?_⟩
    simpa using he

/-- What a call makes of the backend inside the window does not start it. -/
theorem starts_eq_false {e : Event (Call O)} (he : IsInside e) : starts e = false := by
  obtain ⟨op, r⟩ := e
  cases op with
  | psa c => cases c <;> first | rfl | exact he.elim
  | _ => rfl

/-- Nor does it stop it. -/
theorem stops_eq_false {e : Event (Call O)} (he : IsInside e) : stops e = false := by
  obtain ⟨op, r⟩ := e
  cases op with
  | psa c => cases c <;> first | rfl | exact he.elim
  | _ => rfl

section
variable {lib lib' : Library O ι κ} {u : Turn O ι κ}

/-- A `zuc_init` of any consumer, at the memory it finds. -/
theorem Turn.Takes.init (h : u.Takes lib lib') (hc : u.command = .init) :
    InitSpec { lib.world with mem := u.memory } u.trace u.result.status lib'.world ∧
      lib'.pools u.group = lib.pools u.group := by
  refine h.ensures (Q := fun t r w' => InitSpec _ t r.1.status w' ∧ r.2 = lib.pools u.group) ?_
  rw [hc]
  refine Ensures.bind_iff.mpr ((ensures_zucInit _).mono fun t st w' hspec => Ensures.pure_iff.mpr ?_)
  rw [List.append_nil]
  exact ⟨hspec, rfl⟩

/-- A `zuc_shutdown` of any consumer. -/
theorem Turn.Takes.shutdown (h : u.Takes lib lib') (hc : u.command = .shutdown) :
    ShutdownSpec { lib.world with mem := u.memory } u.trace u.result.status lib'.world ∧
      lib'.pools u.group = lib.pools u.group := by
  refine h.ensures (Q := fun t r w' => ShutdownSpec _ t r.1.status w' ∧ r.2 = lib.pools u.group) ?_
  rw [hc]
  refine Ensures.bind_iff.mpr ((ensures_zucShutdown _).mono fun t st w' hspec => Ensures.pure_iff.mpr ?_)
  rw [List.append_nil]
  exact ⟨hspec, rfl⟩

/-- And any other call: the count stays, and the backend is not started or stopped. -/
theorem Turn.Takes.inside (h : u.Takes lib lib') (hc : ¬ u.command.IsLifetime) :
    lib'.world.refcount = lib.world.refcount ∧ ∀ e ∈ u.trace, IsInside e :=
  h.ensures (Q := fun t _ w' => w'.refcount = lib.world.refcount ∧ ∀ e ∈ t, IsInside e)
    (ensures_inside hc _)

/-- The pools stay as they are where the caller's does. -/
theorem Turn.Takes.pools_eq (h : u.Takes lib lib') (hsame : lib'.pools u.group = lib.pools u.group) :
    lib'.pools = lib.pools := by
  funext g
  by_cases hg : g = u.group
  · rw [hg, hsame]
  · exact h.pools_of_ne hg

end

/-! ### References -/

/-- The count is the number of references held, and who holds none has no handles. -/
structure Steady (lib : Library O ι κ) : Prop where
  counted : lib.world.refcount.toNat = lib.references.card
  holders : ∀ g, lib.owner g ∉ lib.references → (lib.pools g).handles = []

/-- What a call does to the window. -/
structure Orderly (u : Turn O ι κ) (lib lib' : Library O ι κ) : Prop where
  /-- the backend is started by a `zuc_init` while there is no reference, -/
  starts_iff : (∃ e ∈ u.trace, starts e = true) ↔ u.command = .init ∧ lib.references = 0
  /-- and there is one exactly if it could be; -/
  opens : u.command = .init → lib.references = 0 → (lib'.references ≠ 0 ↔ u.result.status = .ok)
  /-- it is stopped by the call that gives up the last -/
  stops_iff : (∃ e ∈ u.trace, stops e = true) ↔ lib.references ≠ 0 ∧ lib'.references = 0
  /-- the count does not wrap, -/
  full : u.command = .init → lib.references.card = 0xFFFFFFFF → u.result.status = .errInternal
  /-- and what was refused, or failed, has changed nothing -/
  unchanged : u.command.IsLifetime → u.result.status ≠ .ok → lib'.pools = lib.pools ∧
    lib'.references = lib.references ∧ lib'.world.refcount = lib.world.refcount ∧
      lib'.world.live = lib.world.live ∧ lib'.world.mem = u.memory

section
variable {lib lib' : Library O ι κ} {u : Turn O ι κ}

omit [DecidableEq ι] [DecidableEq κ] in
/-- The library is closed exactly while nobody holds it. -/
theorem Steady.refcount_eq_zero (h : Steady lib) : lib.world.refcount = 0 ↔ lib.references = 0 := by
  rw [← Multiset.card_eq_zero, ← h.counted, ← UInt32.toNat_inj]
  rfl

omit [DecidableEq κ] in
/-- Who has no reference has no handles, after one was given up. -/
theorem Steady.holders_of_erase (h : Steady lib) (hhandles : lib.references.count u.who = 1 →
    ∀ g, lib.owner g = u.who → (lib.pools g).handles = []) {g : κ}
    (hg : lib.owner g ∉ lib.references.erase u.who) : (lib.pools g).handles = [] := by
  by_cases hheld : lib.owner g ∈ lib.references
  · have hwho : lib.owner g = u.who := by
      by_contra hne
      exact hg ((Multiset.mem_erase_of_ne hne).mpr hheld)
    rw [hwho] at hheld hg
    have hpos := Multiset.count_pos.mpr hheld
    have herased : (lib.references.erase u.who).count u.who = 0 := Multiset.count_eq_zero.mpr hg
    rw [Multiset.count_erase_self] at herased
    exact hhandles (by omega) g hwho
  · exact h.holders g hheld

/-- The first reference.  The backend is started, and if that fails nothing has changed. -/
theorem Steady.first (h : Steady lib) (htakes : u.Takes lib lib') (hc : u.command = .init)
    (hzero : lib.world.refcount = 0) : Steady lib' ∧ Orderly u lib lib' := by
  obtain ⟨hspec, hpool⟩ := htakes.init hc
  have hpools := htakes.pools_eq hpool
  have hrefs := htakes.references_eq
  obtain ⟨r, htrace, -, hworld⟩ := hspec.first hzero
  have hempty := h.refcount_eq_zero.mp hzero
  have hcard : lib.references.card = 0 := Multiset.card_eq_zero.mpr hempty
  have hstarts : ∃ e ∈ u.trace, starts e = true := ⟨_, by rw [htrace]; exact List.mem_cons_self, rfl⟩
  have hstops : ¬ ∃ e ∈ u.trace, stops e = true := by
    rintro ⟨e, he, hstop⟩
    rw [htrace] at he
    obtain rfl := List.mem_singleton.mp he
    cases hstop
  -- nobody has a reference, so nobody has a handle
  have hholders : ∀ g, (lib'.pools g).handles = [] := by
    intro g
    rw [hpools]
    exact h.holders g (by rw [hempty]; exact Multiset.notMem_zero _)
  by_cases hok : u.result.status = .ok
  · rw [Turn.references_init hc hok, hempty] at hrefs
    refine ⟨⟨?_, fun g _ => hholders g⟩, ⟨iff_of_true hstarts ⟨hc, hempty⟩, fun _ _ => ?_, ?_, ?_, ?_⟩⟩
    · rw [hworld, hrefs, if_pos hok]
      rfl
    · rw [hrefs]
      exact iff_of_true (Multiset.cons_ne_zero) hok
    · exact iff_of_false hstops fun hlast => hlast.1 hempty
    · intro _ hfull
      rw [hcard] at hfull
      cases hfull
    · exact fun _ hne => absurd hok hne
  · rw [Turn.references_failed hok] at hrefs
    refine ⟨⟨?_, fun g _ => hholders g⟩, ⟨iff_of_true hstarts ⟨hc, hempty⟩, fun _ _ => ?_, ?_, ?_, ?_⟩⟩
    · rw [hworld, hrefs, if_neg hok, hcard]
      rfl
    · rw [hrefs]
      exact iff_of_false (not_not.mpr hempty) hok
    · exact iff_of_false hstops fun hlast => hlast.1 hempty
    · intro _ hfull
      rw [hcard] at hfull
      cases hfull
    · refine fun _ _ => ⟨hpools, hrefs, ?_, ?_, ?_⟩
      · rw [hworld, if_neg hok, hzero]
      · rw [hworld]
        rfl
      · rw [hworld]
        rfl

/-- A reference more.  The backend is not asked, and the count stops short of wrapping. -/
theorem Steady.later (h : Steady lib) (htakes : u.Takes lib lib') (hc : u.command = .init)
    (hne : lib.world.refcount ≠ 0) : Steady lib' ∧ Orderly u lib lib' := by
  obtain ⟨hspec, hpool⟩ := htakes.init hc
  have hpools := htakes.pools_eq hpool
  have hrefs := htakes.references_eq
  obtain ⟨htrace, hst, hworld⟩ := hspec.later hne
  have hheld : lib.references ≠ 0 := fun hempty => hne (h.refcount_eq_zero.mpr hempty)
  have hstarts : ¬ ∃ e ∈ u.trace, starts e = true := by
    rw [htrace]
    simp
  have hstops : ¬ ∃ e ∈ u.trace, stops e = true := by
    rw [htrace]
    simp
  have hcalls : ¬ (u.command = .init ∧ lib.references = 0) := fun hfirst => hheld hfirst.2
  have hcounted := h.counted
  by_cases hfull : lib.world.refcount = 0xFFFFFFFF
  · have hst : u.result.status = .errInternal := hst.trans (if_pos hfull)
    have hfailed : u.result.status ≠ .ok := by
      rw [hst]
      decide
    rw [Turn.references_failed hfailed] at hrefs
    rw [if_neg hfailed] at hworld
    refine ⟨⟨?_, fun g hg => ?_⟩, ⟨iff_of_false hstarts hcalls, fun _ hempty => absurd hempty hheld, ?_,
      fun _ _ => hst, fun _ _ => ⟨hpools, hrefs, by rw [hworld], by rw [hworld], by rw [hworld]⟩⟩⟩
    · rw [hworld, hrefs]
      exact hcounted
    · rw [hpools]
      rw [hrefs, htakes.owner_eq] at hg
      exact h.holders g hg
    · rw [hrefs]
      exact iff_of_false hstops fun hlast => hlast.1 hlast.2
  · have hok : u.result.status = .ok := hst.trans (if_neg hfull)
    rw [Turn.references_init hc hok] at hrefs
    rw [if_pos hok] at hworld
    -- there is room for one more
    have hroom : lib.world.refcount.toNat < 0xFFFFFFFF := by
      have hlt := lib.world.refcount.toNat_lt
      have hfull' : lib.world.refcount.toNat ≠ 0xFFFFFFFF := fun heq => hfull (UInt32.toNat_inj.mp heq)
      omega
    refine ⟨⟨?_, fun g hg => ?_⟩, ⟨iff_of_false hstarts hcalls, fun _ hempty => absurd hempty hheld, ?_,
      fun _ hcard => ?_, fun _ hfailed => absurd hok hfailed⟩⟩
    · rw [hworld, hrefs, Multiset.card_cons, ← hcounted]
      show (lib.world.refcount + 1).toNat = _
      rw [UInt32.toNat_add, UInt32.toNat_one]
      omega
    · rw [hpools]
      rw [hrefs, htakes.owner_eq] at hg
      exact h.holders g fun hmem => hg (Multiset.mem_cons_of_mem hmem)
    · rw [hrefs]
      exact iff_of_false hstops fun hlast => Multiset.cons_ne_zero hlast.2
    · rw [← hcounted] at hcard
      omega

/-- A reference less.  The caller had it, so the count is not 0; the backend is stopped if there is
no other. -/
theorem Steady.shutdown (h : Steady lib) (hentitled : u.Entitled lib) (htakes : u.Takes lib lib')
    (hc : u.command = .shutdown) : Steady lib' ∧ Orderly u lib lib' := by
  obtain ⟨hspec, hpool⟩ := htakes.shutdown hc
  have hpools := htakes.pools_eq hpool
  have hrefs := htakes.references_eq
  have hmem : u.who ∈ lib.references := hentitled.reference (by rw [hc]; simp)
  have hheld : lib.references ≠ 0 := by
    intro hempty
    rw [hempty] at hmem
    exact Multiset.notMem_zero _ hmem
  have hne : lib.world.refcount ≠ 0 := fun hzero => hheld (h.refcount_eq_zero.mp hzero)
  have hcounted := h.counted
  have hcard := Multiset.card_erase_add_one hmem
  have hcalls : ¬ (u.command = .init ∧ lib.references = 0) := fun hfirst => hheld hfirst.2
  have hinit : u.command ≠ .init := by
    rw [hc]
    simp
  have hholders : ∀ g, lib'.owner g ∉ lib.references.erase u.who → (lib'.pools g).handles = [] := by
    intro g hnot
    rw [htakes.owner_eq] at hnot
    rw [hpools]
    exact h.holders_of_erase (hentitled.handles hc) hnot
  -- the last reference, or one of several
  by_cases hone : lib.world.refcount = 1
  · obtain ⟨r, htrace, hok, hworld⟩ := hspec.last hone
    rw [Turn.references_shutdown hc hok] at hrefs
    have hempty : lib'.references = 0 := by
      rw [hrefs, ← Multiset.card_eq_zero]
      rw [hone] at hcounted
      have hone : (1 : UInt32).toNat = 1 := rfl
      omega
    refine ⟨⟨?_, fun g hnot => hholders g (hrefs ▸ hnot)⟩, ⟨?_, fun hc' => absurd hc' hinit, ?_,
      fun hc' => absurd hc' hinit, fun _ hfailed => absurd hok hfailed⟩⟩
    · rw [hworld, hempty]
      rfl
    · refine iff_of_false ?_ hcalls
      rintro ⟨e, he, hstart⟩
      rw [htrace] at he
      obtain rfl := List.mem_singleton.mp he
      cases hstart
    · exact iff_of_true ⟨_, by rw [htrace]; exact List.mem_cons_self, rfl⟩ ⟨hheld, hempty⟩
  · obtain ⟨htrace, hok, hworld⟩ := hspec.other hne hone
    rw [Turn.references_shutdown hc hok] at hrefs
    have hmore : 2 ≤ lib.world.refcount.toNat := by
      have hpos : lib.world.refcount.toNat ≠ 0 := fun heq => hne (UInt32.toNat_inj.mp heq)
      have hone' : lib.world.refcount.toNat ≠ 1 := fun heq => hone (UInt32.toNat_inj.mp heq)
      omega
    refine ⟨⟨?_, fun g hnot => hholders g (hrefs ▸ hnot)⟩, ⟨?_, fun hc' => absurd hc' hinit, ?_,
      fun hc' => absurd hc' hinit, fun _ hfailed => absurd hok hfailed⟩⟩
    · rw [hworld, hrefs]
      show (lib.world.refcount - 1).toNat = _
      rw [UInt32.toNat_sub_of_le _ _ (by rw [UInt32.le_iff_toNat_le, UInt32.toNat_one]; omega),
        UInt32.toNat_one]
      omega
    · refine iff_of_false ?_ hcalls
      rw [htrace]
      simp
    · refine iff_of_false (by rw [htrace]; simp) fun hlast => ?_
      have hnone := Multiset.card_eq_zero.mpr hlast.2
      rw [hrefs] at hnone
      omega

/-- Any other call: its caller holds a reference, so the library is open and stays so. -/
theorem Steady.inside (h : Steady lib) (hentitled : u.Entitled lib) (htakes : u.Takes lib lib')
    (hc : ¬ u.command.IsLifetime) : Steady lib' ∧ Orderly u lib lib' := by
  obtain ⟨hcount, hinside⟩ := htakes.inside hc
  have hrefs := htakes.references_eq.trans (Turn.references_inside hc)
  have hinit : u.command ≠ .init := by
    intro hinit
    rw [hinit] at hc
    exact hc trivial
  have hmem := hentitled.reference hinit
  refine ⟨⟨?_, fun g hnot => ?_⟩, ⟨iff_of_false ?_ fun hfirst => hinit hfirst.1, fun hc' => absurd hc' hinit,
    iff_of_false ?_ fun hlast => ?_, fun hc' => absurd hc' hinit, fun hlifetime => absurd hlifetime hc⟩⟩
  · rw [hcount, hrefs]
    exact h.counted
  · rw [hrefs, htakes.owner_eq] at hnot
    -- the caller holds a reference, so the group is not its own, and its handles are what they were
    have hne : g ≠ u.group := by
      rintro rfl
      rw [hentitled.own] at hnot
      exact hnot hmem
    rw [htakes.pools_of_ne hne]
    exact h.holders g hnot
  · rintro ⟨e, he, hstarts⟩
    rw [starts_eq_false (hinside e he)] at hstarts
    cases hstarts
  · rintro ⟨e, he, hstops⟩
    rw [stops_eq_false (hinside e he)] at hstops
    cases hstops
  · exact hlast.1 (hrefs.symm.trans hlast.2)

/-- One call. -/
theorem Steady.step (h : Steady lib) (hentitled : u.Entitled lib) (htakes : u.Takes lib lib') :
    Steady lib' ∧ Orderly u lib lib' := by
  by_cases hc : u.command.IsLifetime
  · rcases Command.isLifetime_iff.mp hc with hinit | hshutdown
    · by_cases hzero : lib.world.refcount = 0
      · exact h.first htakes hinit hzero
      · exact h.later htakes hinit hzero
    · exact h.shutdown hentitled htakes hshutdown
  · exact h.inside hentitled htakes hc

omit [DecidableEq κ] in
/-- Who holds a reference finds the library ready. -/
theorem Steady.ready (h : Steady lib) (hentitled : u.Entitled lib) (hc : u.command ≠ .init) :
    0 < lib.world.refcount := by
  by_contra hnot
  have hmem := hentitled.reference hc
  rw [h.refcount_eq_zero.mp (eq_zero_of_not_pos hnot)] at hmem
  exact Multiset.notMem_zero _ hmem

/-- And is never told that it is not. -/
theorem Steady.heard (h : Steady lib) (hentitled : u.Entitled lib) (htakes : u.Takes lib lib') :
    u.result.status ≠ .errNotReady := by
  by_cases hc : u.command.IsLifetime
  · rcases Command.isLifetime_iff.mp hc with hinit | hshutdown
    · obtain ⟨hspec, -⟩ := htakes.init hinit
      by_cases hzero : lib.world.refcount = 0
      · obtain ⟨r, -, hst, -⟩ := hspec.first hzero
        rw [hst]
        exact zucIntFromPsa_ne_errNotReady r.answer
      · obtain ⟨-, hst, -⟩ := hspec.later hzero
        rw [hst]
        split
        · decide
        · decide
    · obtain ⟨hspec, -⟩ := htakes.shutdown hshutdown
      by_cases hzero : lib.world.refcount = 0
      · rw [(hspec.none hzero).2.1]
        decide
      by_cases hone : lib.world.refcount = 1
      · obtain ⟨r, -, hok, -⟩ := hspec.last hone
        rw [hok]
        decide
      · rw [(hspec.other hzero hone).2.1]
        decide
  · have hinit : u.command ≠ .init := fun hinit => hc (Command.isLifetime_iff.mpr (.inl hinit))
    -- the caller holds a reference, so the call is made in a window
    refine htakes.ensures (Q := fun _ r _ => r.1.status ≠ .errNotReady) ?_
    exact (Command.within_run hc { lib.world with mem := u.memory } (h.ready hentitled hinit)).mono
      fun _ _ _ hr => hr.2

/-- A `zuc_shutdown` that nobody may make: the library is not open. -/
theorem Turn.Takes.refused (h : u.Takes lib lib') (hc : u.command = .shutdown)
    (hzero : lib.world.refcount = 0) : u.trace = [] ∧ u.result.status = .errInvalidArgument ∧
      lib' = { lib with world := { lib.world with mem := u.memory } } := by
  obtain ⟨hspec, hpool⟩ := h.shutdown hc
  obtain ⟨htrace, hst, hworld⟩ := hspec.none hzero
  have hfailed : u.result.status ≠ .ok := by
    rw [hst]
    decide
  have hpools := h.pools_eq hpool
  have hrefs := h.references_eq.trans (Turn.references_failed hfailed)
  have howner := h.owner_eq
  obtain ⟨owner', world', pools', references'⟩ := lib'
  subst hpools hrefs howner hworld
  exact ⟨htrace, hst, rfl⟩

end

/-! ### Whole runs -/

section
variable {lib lib' : Library O ι κ} {turns : List (Turn O ι κ)}

/-- An order of calls may be cut anywhere. -/
theorem Interleaved.append_iff {before after : List (Turn O ι κ)} :
    Interleaved lib (before ++ after) lib' ↔
      ∃ lib₁, Interleaved lib before lib₁ ∧ Interleaved lib₁ after lib' := by
  induction before generalizing lib with
  | nil =>
    constructor
    · exact fun h => ⟨lib, .nil lib, h⟩
    · rintro ⟨lib₁, h, h'⟩
      cases h
      exact h'
  | cons u before ih =>
    constructor
    · intro h
      cases h with
      | cons hentitled htakes hrest =>
        obtain ⟨lib₁, hbefore, hafter⟩ := ih.mp hrest
        exact ⟨lib₁, .cons hentitled htakes hbefore, hafter⟩
    · rintro ⟨lib₁, h, hafter⟩
      cases h with
      | cons hentitled htakes hbefore => exact .cons hentitled htakes (ih.mpr ⟨lib₁, hbefore, hafter⟩)

/-- The invariant holds after any order of calls. -/
theorem Steady.run (h : Steady lib) (hrun : Interleaved lib turns lib') : Steady lib' := by
  induction hrun with
  | nil => exact h
  | cons hentitled htakes _ ih => exact ih (h.step hentitled htakes).1

omit [DecidableEq ι] [DecidableEq κ] in
/-- It holds while nobody has a handle or a reference. -/
theorem steady_bare (owner : κ → ι) {w : World} (hw : w.refcount = 0) :
    Steady (Library.bare owner w 0 : Library O ι κ) where
  counted := by
    show w.refcount.toNat = 0
    rw [hw]
    rfl
  holders _ _ := rfl

/-- In every order of calls the count is the number of references held, and each call keeps to
the window. -/
theorem Interleaved.orderly {owner : κ → ι} {w : World} (hw : w.refcount = 0)
    {before after : List (Turn O ι κ)} {u : Turn O ι κ}
    (hrun : Interleaved (Library.bare owner w 0) (before ++ u :: after) lib') :
    ∃ lib₁ lib₂, Interleaved (Library.bare owner w 0) before lib₁ ∧ u.Takes lib₁ lib₂ ∧
      Interleaved lib₂ after lib' ∧ Steady lib₁ ∧ Orderly u lib₁ lib₂ ∧
        u.result.status ≠ .errNotReady := by
  obtain ⟨lib₁, hbefore, hafter⟩ := Interleaved.append_iff.mp hrun
  have hsteady := (steady_bare owner hw).run hbefore
  cases hafter with
  | @cons _ lib₂ _ _ _ hentitled htakes hrest =>
    exact ⟨lib₁, lib₂, hbefore, htakes, hrest, hsteady, (hsteady.step hentitled htakes).2,
      hsteady.heard hentitled htakes⟩

end

end Zucrypt
