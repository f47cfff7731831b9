import Zucrypt.CalmVectors
import Zucrypt.MadeKeys

/-! # Runs with fresh vectors

`RanFresh` is `Ran` for functions that make vectors: one run, in which each new vector is
apart from those there are.  A run of a function is put together of runs of its parts; what
`RMeets` says of a function is true of its runs (`RMeets.of_ran`). -/
namespace Zucrypt
open Effects ByteMemory

variable {O : Objects} {α β : Type} {L : StoreLaw O StoredKey} {live live₁ live' : List (Nat × Nat)}
  {w w₁ w' : World} {S S₁ S' : KeyStore StoredKey}

/-- A run of `p` in which no allocation fails and every new vector is apart from the others. -/
def RanFresh (L : StoreLaw O StoredKey) (live : List (Nat × Nat)) (w : World)
    (S : KeyStore StoredKey) (p : Adapter O α) (a : α) (w' : World) (S' : KeyStore StoredKey)
    (live' : List (Nat × Nat)) : Prop :=
  ∃ t, Runs (p w) t (a, w') ∧ (∀ e ∈ t, Calm e) ∧ FreshVectors live t ∧ L.Obeys S t S' ∧
    vectorsAfter live t = live'

theorem RMeets.of_ran {p : Adapter O α} {a : α}
    {Q : α → World → KeyStore StoredKey → List (Nat × Nat) → Prop} (h : RMeets L live w S p Q)
    (hran : RanFresh L live w S p a w' S' live') : Q a w' S' live' := by
  obtain ⟨t, hrun, hcalm, hfresh, hS, rfl⟩ := hran
  exact h t a w' hrun hcalm hfresh S' hS

namespace RanFresh

theorem bind {p : Adapter O α} {f : α → Adapter O β} {a : α} {b : β}
    (hp : RanFresh L live w S p a w₁ S₁ live₁) (hf : RanFresh L live₁ w₁ S₁ (f a) b w' S' live') :
    RanFresh L live w S (p >>= f) b w' S' live' := by
  obtain ⟨t, hrun, hcalm, hfresh, hS, rfl⟩ := hp
  obtain ⟨t', hrun', hcalm', hfresh', hS', rfl⟩ := hf
  refine ⟨t ++ t', Runs.bind_iff.mpr ⟨t, _, t', rfl, hrun, hrun'⟩, ?_,
    freshVectors_append.mpr ⟨hfresh, hfresh'⟩, StoreLaw.obeys_append.mpr ⟨S₁, hS, hS'⟩,
    vectorsAfter_append⟩
  exact fun e he => (List.mem_append.mp he).elim (hcalm e) (hcalm' e)

theorem of_done {p : Adapter O α} {a : α} (hp : p w = .done (a, w')) :
    RanFresh L live w S p a w' S live := by
  refine ⟨[], ?_, by simp, trivial, rfl, rfl⟩
  rw [hp]
  exact .done _

theorem pure (a : α) : RanFresh L live w S (Pure.pure a : Adapter O α) a w S live := of_done rfl

/-- A new vector, at any place that is free. -/
theorem allocRaw {n p : Nat} (hp : ValidBuffer p n) (hapart : ∀ v ∈ live, Apart p n v.1 v.2)
    (hL : L.elsewhere ⟨.allocRaw n, p⟩) :
    RanFresh L live w S (Zucrypt.allocRaw n) p w S ((p, n) :: live) := by
  refine ⟨[⟨.allocRaw n, p⟩], .call p (.done _), by simp [Calm], ?_, ?_, rfl⟩
  · refine ⟨?_, trivial⟩
    rintro v ⟨⟩ -
    exact ⟨hp, hapart⟩
  · exact StoreLaw.obeys_singleton.mpr ((Meets.step_nothing rfl).mpr ⟨hL, rfl⟩)

theorem of_vectorless {p : Adapter O α} {a : α} (hp : Vectorless p) (hran : Ran L w S p a w' S') :
    RanFresh L live w S p a w' S' live := by
  obtain ⟨t, hrun, hcalm, hS⟩ := hran
  refine ⟨t, hrun, hcalm, hp.freshVectors hrun, hS, ?_⟩
  have hnone := hp w t a w' hrun fun _ _ => trivial
  clear hrun hcalm hS
  induction t with
  | nil => rfl
  | cons e t ih =>
    rw [vectorsAfter, hnone e List.mem_cons_self]
    exact ih fun e' he' => hnone e' (List.mem_cons_of_mem _ he')

/-- One R function, and then the rest of another. -/
theorem seq_ok {p : RFun O α} {f : α → RFun O β} {st st' : RState} {a : α}
    {r : Except Condition β × RState} (hp : RanFresh L live w S (p st) (.ok a, st') w₁ S₁ live₁)
    (hf : RanFresh L live₁ w₁ S₁ (f a st') r w' S' live') :
    RanFresh L live w S ((p >>= f) st) r w' S' live' := by
  show RanFresh L live w S (RFun.seq p f st) r w' S' live'
  unfold RFun.seq
  exact bind hp hf

/-- A condition goes past the rest. -/
theorem seq_error {p : RFun O α} {f : α → RFun O β} {st st' : RState} {c : Condition}
    (hp : RanFresh L live w S (p st) (.error c, st') w' S' live') :
    RanFresh L live w S ((p >>= f) st) (.error c, st') w' S' live' := by
  show RanFresh L live w S (RFun.seq p f st) (.error c, st') w' S' live'
  unfold RFun.seq
  exact bind hp (pure _)

end RanFresh

end Zucrypt
