import Zucrypt.KeyStore
import Zucrypt.SlotBackend

/-! # What the vendored key store promises

`KeyStore` says what a backend promises of its keys, and not how it keeps them; `SlotBackend` keeps
them in slots that are used again.  Whatever calls it, its answers are explained by a store that
only knows keys by number: a key that is made gets a number that no key had, a key that is used is
the one that was made under its number, and after the backend was stopped there is none.

`Upholds` is `Obeys` where the backend may be stopped on the way.  The law is the engine's own
(`Engine.law`): an answer it allows is one the engine gives in some state.  `upholds_slotBackend` is
by induction on the program.  Its step is `Engine.step_law`, from a lemma for the calls that leave
the slots alone and one for those that make a key. -/
namespace Zucrypt
open Effects ByteMemory KeySlots

variable {O : Objects} {M ρ α : Type}

/-- The backend is stopped, and forgets all keys. -/
def stops : Event (Call O) → Bool
  | ⟨.psa .cryptoFree, _⟩ => true
  | _ => false

/-- A backend that keeps a law of its keys, and has none after it was stopped. -/
def Upholds (L : StoreLaw O M) : KeyStore M → List (Event (Call O)) → KeyStore M → Prop
  | S, [], S' => S' = S
  | S, e :: t, S' =>
    ∃ S₁, (if stops e then S₁ = fun _ => none else L.Step S e S₁) ∧ Upholds L S₁ t S'

theorem upholds_append {L : StoreLaw O M} {S S' : KeyStore M} {t t' : List (Event (Call O))} :
    Upholds L S (t ++ t') S' ↔ ∃ S₁, Upholds L S t S₁ ∧ Upholds L S₁ t' S' := by
  induction t generalizing S with
  | nil =>
    constructor
    · exact fun h => ⟨S, rfl, h⟩
    · rintro ⟨S₁, rfl, h⟩
      exact h
  | cons e t ih =>
    constructor
    · rintro ⟨S₀, hstep, h⟩
      obtain ⟨S₁, h₁, h₂⟩ := ih.mp h
      exact ⟨S₁, ⟨S₀, hstep, h₁⟩, h₂⟩
    · rintro ⟨S₁, ⟨S₀, hstep, h₁⟩, h₂⟩
      exact ⟨S₀, hstep, ih.mpr ⟨S₁, h₁, h₂⟩⟩

/-- Within a window that is what it was. -/
theorem upholds_iff_obeys {L : StoreLaw O M} {S S' : KeyStore M} {t : List (Event (Call O))}
    (ht : ∀ e ∈ t, stops e = false) : Upholds L S t S' ↔ L.Obeys S t S' := by
  induction t generalizing S with
  | nil => exact Iff.rfl
  | cons e t ih =>
    have hrest : ∀ S₁, Upholds L S₁ t S' ↔ L.Obeys S₁ t S' :=
      fun S₁ => ih fun e' he' => ht e' (List.mem_cons_of_mem _ he')
    unfold Upholds StoreLaw.Obeys
    simp only [ht e List.mem_cons_self, Bool.false_eq_true, if_false, hrest]

/-- What an engine promises of the keys that are kept for it: it answers as it does in some
state, where the key that was made, or was asked for, is that one. -/
def Engine.law (E : Engine O M ρ) : StoreLaw O M where
  makes e m := ∃ s : SlotState M ρ, (slotBackend E _ e.op s).1 = e.ret ∧
    ∃ id, role e = .creates id ∧ (slotBackend E _ e.op s).2.slots.find id = some m
  allows e m := ∃ s : SlotState M ρ, (slotBackend E _ e.op s).1 = e.ret ∧
    ∃ id, role e = .uses id ∧ s.slots.find id = some m
  elsewhere e := ∃ s : SlotState M ρ, (slotBackend E _ e.op s).1 = e.ret

/-- The key that was made has a number that no key had, and the others keep theirs. -/
theorem SlotState.accept_cases (s : SlotState M ρ) (made : KeyMade M ρ) :
    (createsKey (s.accept made).1.answer = .nothing ∧ (s.accept made).2.slots = s.slots) ∨
    ∃ id m, createsKey (s.accept made).1.answer = .creates id ∧ s.slots.find id = none ∧
      (s.accept made).2.slots.find = Function.update s.slots.find id (some m) := by
  unfold SlotState.accept
  cases made.key with
  | error status => exact .inl ⟨if_neg status.2, rfl⟩
  | ok m =>
    dsimp only
    cases hinsert : s.slots.insert m with
    | none => exact .inl ⟨if_neg (by simp), rfl⟩
    | some placed =>
      obtain ⟨id, slots⟩ := placed
      refine .inr ⟨id, m, if_pos rfl, Store.find_of_insert hinsert, ?_⟩
      funext k
      show slots.find k = _
      rw [Store.find_insert hinsert, Function.update_apply]

section
variable {E : Engine O M ρ} {β : Type} {op : Call O β} {s : SlotState M ρ}

/-- A call that makes no key, and takes none away. -/
theorem Engine.step_same (hslots : (slotBackend E _ op s).2.slots = s.slots)
    (hrole : role ⟨op, (slotBackend E _ op s).1⟩ = .nothing ∨
      ∃ id, role ⟨op, (slotBackend E _ op s).1⟩ = .uses id) :
    E.law.Step s.slots.find ⟨op, (slotBackend E _ op s).1⟩ (slotBackend E _ op s).2.slots.find := by
  rw [hslots]
  rcases hrole with hnothing | ⟨id, huses⟩
  · unfold StoreLaw.Step
    rw [hnothing]
    exact ⟨⟨s, rfl⟩, rfl⟩
  · exact (StoreLaw.step_uses huses).mpr ⟨fun m hm => ⟨s, rfl, id, huses, hm⟩, rfl⟩

/-- A call that makes a key. -/
theorem Engine.step_accept {op : Call O (Reply (PsaStatus × KeyId))} {made : KeyMade M ρ}
    (hop : slotBackend E _ op s = s.accept made)
    (hrole : ∀ r, role ⟨op, r⟩ = createsKey r.answer) :
    E.law.Step s.slots.find ⟨op, (slotBackend E _ op s).1⟩ (slotBackend E _ op s).2.slots.find := by
  rcases s.accept_cases made with ⟨hnothing, hslots⟩ | ⟨id, m, hcreates, hnew, hfind⟩
  · rw [← hop] at hnothing hslots
    exact Engine.step_same hslots (.inl ((hrole _).trans hnothing))
  · rw [← hop] at hcreates hfind
    have hcreates := (hrole _).trans hcreates
    refine (StoreLaw.step_creates hcreates).mpr ⟨hnew, m, ⟨s, rfl, id, hcreates, ?_⟩, hfind⟩
    show (slotBackend E _ op s).2.slots.find id = some m
    rw [hfind, Function.update_self]

/-- One call. -/
theorem Engine.step_law (hstops : stops ⟨op, (slotBackend E _ op s).1⟩ = false) :
    E.law.Step s.slots.find ⟨op, (slotBackend E _ op s).1⟩ (slotBackend E _ op s).2.slots.find := by
  cases op with
  | psa c =>
    cases c with
    | cryptoFree => cases hstops
    | importKey attr data => exact Engine.step_accept rfl fun _ => rfl
    | generateKey attr => exact Engine.step_accept rfl fun _ => rfl
    | pkImportIntoPsa pk attr => exact Engine.step_accept rfl fun _ => rfl
    | destroyKey id =>
      -- a number that stands for nothing is left alone, which is the same to who asks
      show (s.slots.remove id).find = Function.update s.slots.find id none
      funext k
      rw [Store.find_remove, Function.update_apply]
    | _ => first | exact Engine.step_same rfl (.inl rfl) | exact Engine.step_same rfl (.inr ⟨_, rfl⟩)
  | _ => exact Engine.step_same rfl (.inl rfl)

/-- The call after which there is no key. -/
theorem Engine.find_stopped (hstops : stops ⟨op, (slotBackend E _ op s).1⟩ = true) :
    (slotBackend E _ op s).2.slots.find = fun _ => none := by
  cases op with
  | psa c =>
    cases c with
    | cryptoFree => exact funext Store.find_empty
    | _ => cases hstops
  | _ => cases hstops

end

/-- The vendored key store serves any program by the law of its engine. -/
theorem upholds_slotBackend (E : Engine O M ρ) (p : Program (Call O) α) (s : SlotState M ρ) :
    Upholds E.law s.slots.find (p.trace (slotBackend E) s) (p.run (slotBackend E) s).2.slots.find := by
  induction p generalizing s with
  | done a => rfl
  | call op k ih =>
    refine ⟨(slotBackend E _ op s).2.slots.find, ?_, ih _ _⟩
    split
    · exact Engine.find_stopped ‹_›
    · exact Engine.step_law (Bool.eq_false_of_not_eq_true ‹_›)

end Zucrypt
