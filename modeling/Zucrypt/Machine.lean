import Mathlib.Data.List.Basic

/-! # Machines driven by a sequence of calls

A machine answers every input and moves to a new state.  Its `log` is the run as its caller sees it,
inputs beside outputs.  Two states are indistinguishable when no sequence of inputs tells them
apart; a step-for-step simulation proves it, and it is how a concrete machine is compared with an
abstract one, or with itself started elsewhere.

There are three rules, each an induction on the inputs, so that a proof about a machine has only
steps to look at:

* `log_invariant`, for what holds of a state and of the run that has led to it;
* `after_invariant_or`, for what holds of every state until a step is taken that breaks it;
* `indistinguishable_of_simulation`, for two machines whose states are related before and after a
  step with the same answer.

`Throughout` is a condition on the steps of a run, for claims about the runs that meet it. -/
namespace Machines

/-- A machine with inputs `I`, outputs `O` and states `S`. -/
structure Machine (I O S : Type) where
  step : S → I → O × S

variable {I O S T : Type}

namespace Machine

/-- The state after a sequence of inputs. -/
def after (M : Machine I O S) : S → List I → S
  | s, [] => s
  | s, i :: is => M.after (M.step s i).2 is

/-- Inputs and outputs, in order. -/
def log (M : Machine I O S) : S → List I → List (I × O)
  | _, [] => []
  | s, i :: is => (i, (M.step s i).1) :: M.log (M.step s i).2 is

/-- Every step of the run starts as `P` says. -/
def Throughout (M : Machine I O S) (P : S → I → Prop) : S → List I → Prop
  | _, [] => True
  | s, i :: is => P s i ∧ M.Throughout P (M.step s i).2 is

/-- No sequence of inputs tells `s` of `M` from `t` of `N`. -/
def Indistinguishable (M : Machine I O S) (s : S) (N : Machine I O T) (t : T) : Prop :=
  ∀ is, M.log s is = N.log t is

variable (M : Machine I O S) (N : Machine I O T)

@[simp] theorem after_nil (s : S) : M.after s [] = s := rfl

@[simp] theorem after_cons (s : S) (i : I) (is : List I) :
    M.after s (i :: is) = M.after (M.step s i).2 is := rfl

@[simp] theorem log_nil (s : S) : M.log s [] = [] := rfl

@[simp] theorem log_cons (s : S) (i : I) (is : List I) :
    M.log s (i :: is) = (i, (M.step s i).1) :: M.log (M.step s i).2 is := rfl

theorem after_append (s : S) (is js : List I) :
    M.after s (is ++ js) = M.after (M.after s is) js := by
  induction is generalizing s with
  | nil => rfl
  | cons i is ih => exact ih _

theorem log_append (s : S) (is js : List I) :
    M.log s (is ++ js) = M.log s is ++ M.log (M.after s is) js := by
  induction is generalizing s with
  | nil => rfl
  | cons i is ih => exact congrArg _ (ih _)

theorem log_concat (s : S) (is : List I) (i : I) :
    M.log s (is ++ [i]) = M.log s is ++ [(i, (M.step (M.after s is) i).1)] :=
  M.log_append s is [i]

theorem throughout_append {P : S → I → Prop} {s : S} {is js : List I} :
    M.Throughout P s (is ++ js) ↔ M.Throughout P s is ∧ M.Throughout P (M.after s is) js := by
  induction is generalizing s with
  | nil => exact (and_iff_right trivial).symm
  | cons i is ih => exact (and_congr_right fun _ => ih).trans and_assoc.symm

theorem throughout_of_forall {P : S → I → Prop} (h : ∀ s i, P s i) (s : S) (is : List I) :
    M.Throughout P s is := by
  induction is generalizing s with
  | nil => trivial
  | cons i is ih => exact ⟨h s i, ih _⟩

variable {M} in
theorem Throughout.mono {P Q : S → I → Prop} (h : ∀ s i, P s i → Q s i) {s : S} {is : List I}
    (hP : M.Throughout P s is) : M.Throughout Q s is := by
  induction is generalizing s with
  | nil => trivial
  | cons i is ih => exact ⟨h s i hP.1, ih hP.2⟩

/-- The same, for an invariant that also speaks of the log so far. -/
theorem log_invariant {Inv : List (I × O) → S → Prop}
    (hstep : ∀ l s i, Inv l s → Inv (l ++ [(i, (M.step s i).1)]) (M.step s i).2)
    {s : S} (hs : Inv [] s) (is : List I) : Inv (M.log s is) (M.after s is) := by
  suffices h : ∀ l s, Inv l s → Inv (l ++ M.log s is) (M.after s is) from h [] s hs
  induction is with
  | nil =>
    intro l s hs
    simpa using hs
  | cons i is ih =>
    intro l s hs
    have := ih _ _ (hstep l s i hs)
    rwa [List.append_assoc] at this

/-- What every step preserves unless it is an `E`, a run preserves unless it
contains one. -/
theorem after_invariant_or {Inv : S → Prop} {E : S → I → Prop}
    (hstep : ∀ s i, Inv s → Inv (M.step s i).2 ∨ E s i) {s : S} (hs : Inv s) (is : List I) :
    Inv (M.after s is) ∨ ∃ is₁ i is₂, is = is₁ ++ i :: is₂ ∧ E (M.after s is₁) i := by
  induction is generalizing s with
  | nil => exact Or.inl hs
  | cons i is ih =>
    rcases hstep s i hs with hnext | he
    · rcases ih hnext with h | ⟨is₁, j, is₂, rfl, he⟩
      · exact Or.inl h
      · exact Or.inr ⟨i :: is₁, j, is₂, rfl, he⟩
    · exact Or.inr ⟨[], i, is, rfl, he⟩

/-- A relation that every step preserves, with equal outputs, makes related
states indistinguishable. -/
theorem indistinguishable_of_simulation {R : S → T → Prop}
    (hstep : ∀ s t i, R s t → (M.step s i).1 = (N.step t i).1 ∧ R (M.step s i).2 (N.step t i).2)
    {s : S} {t : T} (hst : R s t) : Indistinguishable M s N t := by
  intro is
  induction is generalizing s t with
  | nil => rfl
  | cons i is ih =>
    obtain ⟨hout, hnext⟩ := hstep s t i hst
    rw [log_cons, log_cons, hout, ih hnext]

/-- Such a relation also relates the states a run reaches. -/
theorem after_simulation {R : S → T → Prop}
    (hstep : ∀ s t i, R s t → R (M.step s i).2 (N.step t i).2)
    {s : S} {t : T} (hst : R s t) (is : List I) : R (M.after s is) (N.after t is) := by
  induction is generalizing s t with
  | nil => exact hst
  | cons i is ih => exact ih (hstep s t i hst)

variable {M N}

theorem Indistinguishable.symm {s : S} {t : T} (h : Indistinguishable M s N t) :
    Indistinguishable N t M s := fun is => (h is).symm

theorem Indistinguishable.trans {U : Type} {L : Machine I O U} {s : S} {t : T} {u : U}
    (h : Indistinguishable M s N t) (h' : Indistinguishable N t L u) :
    Indistinguishable M s L u := fun is => (h is).trans (h' is)

end Machine

end Machines
