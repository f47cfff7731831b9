import Mathlib.Algebra.Ring.Nat
import Mathlib.Data.Multiset.AddSub
import Zucrypt.Effects

/-! # Resources taken and given back

Some calls put something into the keeping of whoever makes them, and others take it back.  A
`Tariff` says which, call by call; `settle` follows what is held along a trace, and fails where
something is given back that is not held.

`Trades pre t post` is what a trace does to whatever is held: it uses up `pre` and leaves `post`,
and the rest it does not touch.  `Settles` is the same of every execution of a procedure, and its
rules follow the procedure's text.

What is held is a multiset, so that two keys of one number would count twice, and giving back one of
them would leave the other.  That a trace trades nothing for nothing is then all of it: nothing is
left over, nothing is given back twice, and nothing is given back that belongs to somebody else
(`Trades.frame`).  `Trades.count_eq` reads the number of times off it that each resource is taken
and given back. -/
namespace Resources
open Effects

universe u

variable {E : Type → Type u} {R : Type} [DecidableEq R]

/-- What a call, with its answer, takes from what is held, and what it adds. -/
structure Tariff (E : Type → Type u) (R : Type) where
  spends : Event E → Multiset R
  gains : Event E → Multiset R

variable (T : Tariff E R)

/-- What is held after a trace, if all that was given back was held. -/
def settle (held : Multiset R) : List (Event E) → Option (Multiset R)
  | [] => some held
  | e :: t => if T.spends e ≤ held then settle (held - T.spends e + T.gains e) t else none

/-- The trace uses up `pre`, leaves `post`, and touches nothing else. -/
def Trades (pre : Multiset R) (t : List (Event E)) (post : Multiset R) : Prop :=
  ∀ rest, settle T (pre + rest) t = some (post + rest)

/-- How often something is given back in a trace, and how often it is taken. -/
def spent (x : R) (t : List (Event E)) : Nat := (t.map fun e => (T.spends e).count x).sum

def gained (x : R) (t : List (Event E)) : Nat := (t.map fun e => (T.gains e).count x).sum

section
variable {T} {pre mid post : Multiset R} {t t' : List (Event E)}

theorem settle_append (held : Multiset R) (t t' : List (Event E)) :
    settle T held (t ++ t') = (settle T held t).bind (fun held' => settle T held' t') := by
  induction t generalizing held with
  | nil => rfl
  | cons e t ih =>
    simp only [List.cons_append, settle]
    split
    · exact ih _
    · rfl

theorem Trades.nil (pre : Multiset R) : Trades T pre [] pre := fun _ => rfl

theorem Trades.append (h : Trades T pre t mid) (h' : Trades T mid t' post) :
    Trades T pre (t ++ t') post := by
  intro rest
  rw [settle_append, h rest, Option.bind_some, h' rest]

/-- What a trace does not touch stays. -/
theorem Trades.frame (h : Trades T pre t post) (rest : Multiset R) :
    Trades T (pre + rest) t (post + rest) := by
  intro more
  rw [Multiset.add_assoc, h, Multiset.add_assoc]

theorem trades_event (e : Event E) : Trades T (T.spends e) [e] (T.gains e) := by
  intro rest
  rw [settle, if_pos (Multiset.le_add_right _ _), settle, Multiset.add_comm (T.spends e),
    Multiset.add_sub_cancel_right, Multiset.add_comm]

/-- It is given back as often as it was held or taken, and is not held any more. -/
theorem Trades.count_eq (h : Trades T pre t post) (x : R) :
    pre.count x + gained T x t = post.count x + spent T x t := by
  have hsettle : ∀ (t : List (Event E)) (held left : Multiset R), settle T held t = some left →
      held.count x + gained T x t = left.count x + spent T x t := by
    intro t
    induction t with
    | nil =>
      rintro held left ⟨⟩
      rfl
    | cons e t ih =>
      intro held left hrun
      rw [settle] at hrun
      split at hrun
      · have hle : (T.spends e).count x ≤ held.count x := Multiset.count_le_of_le x ‹_›
        have hrest := ih _ left hrun
        rw [Multiset.count_add, Multiset.count_sub] at hrest
        have hspent : spent T x (e :: t) = (T.spends e).count x + spent T x t := List.sum_cons
        have hgained : gained T x (e :: t) = (T.gains e).count x + gained T x t := List.sum_cons
        omega
      · cases hrun
  exact hsettle t pre post (by simpa using h 0)

/-- Nothing is left over, and nothing was missing. -/
theorem Trades.settle_eq (h : Trades T pre t post) : settle T pre t = some post := by
  simpa using h 0

end

/-! ### Procedures -/

variable {α β W : Type}

/-- Every execution that is `ok` trades `pre` for something that `post` allows. -/
def Settles (ok : Event E → Prop) (p : Proc E W α) (w : W) (pre : Multiset R)
    (post : α → W → Multiset R → Prop) : Prop :=
  Ensures ok p w fun t a w' => ∃ r, Trades T pre t r ∧ post a w' r

namespace Settles

variable {T} {ok : Event E → Prop} {w : W} {pre : Multiset R}

theorem pure {a : α} {post : α → W → Multiset R → Prop} (h : post a w pre) :
    Settles T ok (pure a : Proc E W α) w pre post :=
  Ensures.pure_iff.mpr ⟨pre, Trades.nil pre, h⟩

theorem read {post : W → W → Multiset R → Prop} (h : post w w pre) :
    Settles T ok (Proc.read : Proc E W W) w pre post :=
  Ensures.read_iff.mpr ⟨pre, Trades.nil pre, h⟩

theorem update {f : W → W} {post : Unit → W → Multiset R → Prop} (h : post () (f w) pre) :
    Settles T ok (Proc.update f : Proc E W Unit) w pre post :=
  Ensures.update_iff.mpr ⟨pre, Trades.nil pre, h⟩

theorem mono {p : Proc E W α} {post post' : α → W → Multiset R → Prop}
    (h : Settles T ok p w pre post) (hpost : ∀ a w' r, post a w' r → post' a w' r) :
    Settles T ok p w pre post' :=
  Ensures.mono h fun _ a w' ⟨r, ht, hr⟩ => ⟨r, ht, hpost a w' r hr⟩

theorem bind {p : Proc E W α} {f : α → Proc E W β} {mid : α → W → Multiset R → Prop}
    {post : β → W → Multiset R → Prop} (hp : Settles T ok p w pre mid)
    (hf : ∀ a w' r, mid a w' r → Settles T ok (f a) w' r post) :
    Settles T ok (p >>= f) w pre post := by
  refine Ensures.bind_iff.mpr (Ensures.mono hp ?_)
  rintro t a w' ⟨r, ht, hr⟩
  refine Ensures.mono (hf a w' r hr) ?_
  rintro t' b w'' ⟨r', ht', hr'⟩
  exact ⟨r', ht.append ht', hr'⟩

theorem ite {c : Prop} [Decidable c] {p q : Proc E W α} {post : α → W → Multiset R → Prop}
    (hp : c → Settles T ok p w pre post) (hq : ¬ c → Settles T ok q w pre post) :
    Settles T ok (if c then p else q) w pre post :=
  Ensures.ite hp hq

/-- A call: what it gives back has to be held. -/
theorem perform {op : E α} {post : α → W → Multiset R → Prop}
    (h : ∀ a, ok ⟨op, a⟩ → ∃ rest, pre = T.spends ⟨op, a⟩ + rest ∧
      post a w (T.gains ⟨op, a⟩ + rest)) :
    Settles T ok (Proc.perform op : Proc E W α) w pre post := by
  refine Ensures.perform_iff.mpr fun a ha => ?_
  obtain ⟨rest, rfl, hpost⟩ := h a ha
  exact ⟨_, (trades_event _).frame rest, hpost⟩

/-- What a procedure does to what it needs, it does with more at hand. -/
theorem frame {p : Proc E W α} {post : α → W → Multiset R → Prop} (h : Settles T ok p w pre post)
    (rest : Multiset R) :
    Settles T ok p w (pre + rest) fun a w' r => ∃ r', post a w' r' ∧ r = r' + rest :=
  Ensures.mono h fun _ _ _ ⟨r, ht, hr⟩ => ⟨r + rest, ht.frame rest, r, hr, rfl⟩

end Settles

end Resources
