import Zucrypt.CalmRuns
import Zucrypt.RDer
import Zucrypt.RFunctions

/-! # R's vectors in calm runs

What a caller relies on of R's allocator, as a law, and what a function does that makes a
new vector.

`RMeets` is `Meets` for functions that make several: it keeps count of the vectors there are,
and R's allocator gives each new one memory that none of them has a part of. -/
namespace Zucrypt
open Effects ByteMemory

variable {O : Objects} {M : Type}

/-- R's allocator gives memory that no vector in `live` has a part of, to a vector of a
length R knows. -/
def vectorLaw (live : List (Nat × Nat)) : StoreLaw O M where
  makes _ _ := True
  allows _ _ := True
  elsewhere
    | ⟨.allocRaw n, p⟩ => n ≤ R.VECTOR_MAX → ValidBuffer p n ∧ ∀ v ∈ live, Apart p n v.1 v.2
    | _ => True

theorem meets_newRaw {L : StoreLaw O M} {w : World} {S : KeyStore M} {live : List (Nat × Nat)}
    (hL : L.Implies (vectorLaw live)) {bs : List Byte} (hbs : bs.length ≤ R.VECTOR_MAX)
    {Q : Sexp → World → KeyStore M → Prop}
    (h : ∀ p, ValidBuffer p bs.length → (∀ v ∈ live, Apart p bs.length v.1 v.2) →
      Q (.raw p bs.length []) (w.store p bs) S) :
    Meets L w S (newRaw bs) Q := by
  refine Meets.bind (Ensures.perform_iff.mpr fun p _ S' hS => ?_)
  obtain ⟨helse, rfl⟩ := (Meets.step_nothing (e := ⟨.allocRaw bs.length, p⟩) rfl).mp
    (StoreLaw.obeys_singleton.mp hS)
  obtain ⟨hvalid, hapart⟩ : ValidBuffer p bs.length ∧ ∀ v ∈ live, Apart p bs.length v.1 v.2 :=
    hL.elsewhere _ helse hbs
  exact Meets.bind (Meets.writeMem (Meets.pure (h p hvalid hapart)))

/-! ### One vector after another -/

/-- The vector a call makes, by its address and length. -/
def madeVector : Event (Call O) → Option (Nat × Nat)
  | ⟨.allocRaw n, p⟩ => some (p, n)
  | _ => none

/-- The vectors there are after these calls. -/
def vectorsAfter (live : List (Nat × Nat)) : List (Event (Call O)) → List (Nat × Nat)
  | [] => live
  | e :: t => vectorsAfter ((madeVector e).toList ++ live) t

/-- Each new vector, of a length R knows, is apart from those there are. -/
def FreshVectors (live : List (Nat × Nat)) : List (Event (Call O)) → Prop
  | [] => True
  | e :: t =>
    (∀ v, madeVector e = some v → v.2 ≤ R.VECTOR_MAX →
      ValidBuffer v.1 v.2 ∧ ∀ u ∈ live, Apart v.1 v.2 u.1 u.2) ∧
    FreshVectors ((madeVector e).toList ++ live) t

variable {live : List (Nat × Nat)} {t t' : List (Event (Call O))}

theorem vectorsAfter_append :
    vectorsAfter live (t ++ t') = vectorsAfter (vectorsAfter live t) t' := by
  induction t generalizing live with
  | nil => rfl
  | cons e t ih => exact ih

theorem freshVectors_append :
    FreshVectors live (t ++ t') ↔ FreshVectors live t ∧ FreshVectors (vectorsAfter live t) t' := by
  induction t generalizing live with
  | nil => exact (and_iff_right trivial).symm
  | cons e t ih =>
    rw [List.cons_append, FreshVectors, FreshVectors, ih, and_assoc]
    rfl

/-- No vector goes away. -/
theorem mem_vectorsAfter {v : Nat × Nat} (h : v ∈ live) : v ∈ vectorsAfter live t := by
  induction t generalizing live with
  | nil => exact h
  | cons e t ih => exact ih (List.mem_append_right _ h)

variable {α β : Type} {L : StoreLaw O M} {w : World} {S : KeyStore M}

/-- `Meets`, where each vector R makes is apart from those there are. -/
def RMeets (L : StoreLaw O M) (live : List (Nat × Nat)) (w : World) (S : KeyStore M) (p : Adapter O α)
    (Q : α → World → KeyStore M → List (Nat × Nat) → Prop) : Prop :=
  Ensures Calm p w fun t a w' =>
    FreshVectors live t → ∀ S', L.Obeys S t S' → Q a w' S' (vectorsAfter live t)

namespace RMeets

variable {Q : β → World → KeyStore M → List (Nat × Nat) → Prop} {f : α → Adapter O β}

theorem pure {b : β} (h : Q b w S live) : RMeets L live w S (Pure.pure b : Adapter O β) Q := by
  refine Ensures.pure_iff.mpr ?_
  rintro - S' rfl
  exact h

theorem mono {Q' : β → World → KeyStore M → List (Nat × Nat) → Prop} {p : Adapter O β}
    (h : RMeets L live w S p Q) (hQ : ∀ b w' S' live', Q b w' S' live' → Q' b w' S' live') :
    RMeets L live w S p Q' :=
  Ensures.mono h fun _ b w' hb hfresh S' hS => hQ b w' S' _ (hb hfresh S' hS)

theorem bind {p : Adapter O α}
    (h : RMeets L live w S p fun a w₁ S₁ live₁ => RMeets L live₁ w₁ S₁ (f a) Q) :
    RMeets L live w S (p >>= f) Q := by
  refine Ensures.bind_iff.mpr ?_
  intro t a w₁ hrun hok t' b w' hrun' hok' hfresh S' hS
  obtain ⟨hfresh₁, hfresh'⟩ := freshVectors_append.mp hfresh
  obtain ⟨S₁, hS₁, hS'⟩ := StoreLaw.obeys_append.mp hS
  rw [vectorsAfter_append]
  exact h t a w₁ hrun hok hfresh₁ S₁ hS₁ t' b w' hrun' hok' hfresh' S' hS'

theorem andThen {R : α → World → KeyStore M → List (Nat × Nat) → Prop} {p : Adapter O α}
    (hp : RMeets L live w S p R)
    (hf : ∀ a w₁ S₁ live₁, R a w₁ S₁ live₁ → RMeets L live₁ w₁ S₁ (f a) Q) :
    RMeets L live w S (p >>= f) Q :=
  bind (hp.mono hf)

/-- One R function, and then the rest of another: a condition goes past it. -/
theorem seq {p : RFun O α} {f : α → RFun O β} {st : RState}
    {R : Except Condition α × RState → World → KeyStore M → List (Nat × Nat) → Prop}
    {Q : Except Condition β × RState → World → KeyStore M → List (Nat × Nat) → Prop}
    (hp : RMeets L live w S (p st) R)
    (hf : ∀ r w₁ S₁ live₁, R r w₁ S₁ live₁ → RMeets L live₁ w₁ S₁
      (match r.1 with
        | .error c => Pure.pure (.error c, r.2)
        | .ok a => f a r.2) Q) :
    RMeets L live w S ((p >>= f) st) Q :=
  andThen hp hf

/-- What a function does whose vectors do not matter. -/
theorem of_meets {p : Adapter O β} {R : β → World → KeyStore M → Prop} (h : Meets L w S p R)
    (hQ : ∀ b w' S' live', R b w' S' → (∀ v ∈ live, v ∈ live') → Q b w' S' live') :
    RMeets L live w S p Q :=
  fun t b w' hrun hok _ S' hS =>
    hQ b w' S' _ (h t b w' hrun hok S' hS) fun _ hv => mem_vectorsAfter hv

/-- A step that makes no call. -/
theorem of_done {p : Adapter O β} {b : β} {w' : World} (hp : p w = .done (b, w'))
    (h : Q b w' S live) : RMeets L live w S p Q := by
  refine (Ensures.of_done hp).mpr ?_
  rintro - S' rfl
  exact h

/-- An R function that makes no call, and then the rest of another. -/
theorem done_ok {p : RFun O α} {f : α → RFun O β} {st st' : RState} {a : α} {w' : World}
    {Q : Except Condition β × RState → World → KeyStore M → List (Nat × Nat) → Prop}
    (hp : p st w = .done ((.ok a, st'), w')) (hf : RMeets L live w' S (f a st') Q) :
    RMeets L live w S ((p >>= f) st) Q := by
  refine seq (R := fun r w₁ S₁ live₁ => r = (.ok a, st') ∧ w₁ = w' ∧ S₁ = S ∧ live₁ = live)
    (of_done hp ⟨rfl, rfl, rfl, rfl⟩) ?_
  rintro r w₁ S₁ live₁ ⟨rfl, rfl, rfl, rfl⟩
  exact hf

theorem done_error {p : RFun O α} {f : α → RFun O β} {st st' : RState} {c : Condition} {w' : World}
    {Q : Except Condition β × RState → World → KeyStore M → List (Nat × Nat) → Prop}
    (hp : p st w = .done ((.error c, st'), w')) (hQ : Q (.error c, st') w' S live) :
    RMeets L live w S ((p >>= f) st) Q := by
  refine seq (R := fun r w₁ S₁ live₁ => r = (.error c, st') ∧ w₁ = w' ∧ S₁ = S ∧ live₁ = live)
    (of_done hp ⟨rfl, rfl, rfl, rfl⟩) ?_
  rintro r w₁ S₁ live₁ ⟨rfl, rfl, rfl, rfl⟩
  exact pure hQ

/-- A new vector. -/
theorem newRaw {bs : List Byte} (hbs : bs.length ≤ R.VECTOR_MAX)
    {Q : Sexp → World → KeyStore M → List (Nat × Nat) → Prop}
    (h : ∀ p, ValidBuffer p bs.length → (∀ v ∈ live, Apart p bs.length v.1 v.2) →
      Q (.raw p bs.length []) (w.store p bs) S ((p, bs.length) :: live)) :
    RMeets L live w S (Zucrypt.newRaw bs) Q := by
  refine bind (Ensures.perform_iff.mpr fun p _ hfresh S' hS => ?_)
  obtain ⟨-, rfl⟩ := (Meets.step_nothing (e := ⟨.allocRaw bs.length, p⟩) rfl).mp
    (StoreLaw.obeys_singleton.mp hS)
  obtain ⟨hvalid, hapart⟩ := hfresh.1 (p, bs.length) rfl hbs
  exact bind (of_done rfl (pure (h p hvalid hapart)))

end RMeets

/-! ### Functions that make no vector -/

/-- No run of the function makes a vector. -/
def Vectorless (p : Adapter O α) : Prop :=
  ∀ w, Ensures (fun _ => True) p w fun t _ _ => ∀ e ∈ t, madeVector e = none

namespace Vectorless

variable {p q : Adapter O α} {f : α → Adapter O β}

theorem pure (a : α) : Vectorless (Pure.pure a : Adapter O α) :=
  fun _ => Ensures.pure_iff.mpr (by simp)

theorem of_done (h : ∀ w, ∃ a w', p w = .done (a, w')) : Vectorless p := by
  intro w
  obtain ⟨a, w', hp⟩ := h w
  exact (Ensures.of_done hp).mpr (by simp)

theorem bind (hp : Vectorless p) (hf : ∀ a, Vectorless (f a)) : Vectorless (p >>= f) := by
  refine fun w => Ensures.bind_iff.mpr ((hp w).mono fun t a w' ht => (hf a w').mono ?_)
  intro t' b w'' ht' e he
  exact (List.mem_append.mp he).elim (ht e) (ht' e)

theorem ite {c : Prop} [Decidable c] (hp : Vectorless p) (hq : Vectorless q) :
    Vectorless (if c then p else q) := by
  split
  · exact hp
  · exact hq

theorem perform {op : Call O α} (h : ∀ r, madeVector (⟨op, r⟩ : Event (Call O)) = none) :
    Vectorless (Proc.perform op : Adapter O α) :=
  fun _ => Ensures.perform_iff.mpr fun r _ => by simpa using h r

theorem psa (c : PsaCall O α) : Vectorless (Zucrypt.psa c) :=
  (perform fun _ => rfl).bind fun _ => (of_done fun _ => ⟨_, _, rfl⟩).bind fun _ => pure _

theorem freshVectors {w w' : World} {t : List (Event (Call O))} {a : α} (h : Vectorless p)
    (hrun : Runs (p w) t (a, w')) : FreshVectors live t := by
  have hnone := h w t a w' hrun fun _ _ => trivial
  clear hrun
  induction t generalizing live with
  | nil => trivial
  | cons e t ih =>
    refine ⟨fun v hv => ?_, ?_⟩
    · rw [hnone e List.mem_cons_self] at hv
      cases hv
    · exact ih fun e' he' => hnone e' (List.mem_cons_of_mem _ he')

end Vectorless

end Zucrypt
