import Mathlib.Data.List.Basic

/-! # Programs over external calls

A procedure that calls out to a library it does not control is a tree: it either
is done, or makes one call and continues with whatever the callee answers.
`Program E` is that tree, over any family `E` of calls, `E β` being the calls
answered by a `β`; `Proc` adds the state the procedure and its caller share.

There are two readings of a procedure.  `Runs` is every execution there is, one
for each way the callee may answer, together with the trace of calls and
answers; it is what a statement about *any* behaviour of the callee quantifies
over, and `Ensures` is its program logic.  `Proc.exec` runs the procedure
against one callee, given as a `Handler` on a state of its own; it is what a
statement about a *correct* callee is about.  `Ensures.exec` connects the two. -/
namespace Effects

universe u

/-- A program: done with a value, or one call and a continuation. -/
inductive Program (E : Type → Type u) (α : Type) : Type (max 1 u) where
  | done (a : α)
  | call {β : Type} (op : E β) (k : β → Program E α)

/-- One call and the answer it got. -/
structure Event (E : Type → Type u) : Type (max 1 u) where
  {Ret : Type}
  op : E Ret
  ret : Ret

/-- The call alone. -/
def Event.call {E : Type → Type u} (e : Event E) : (R : Type) × E R := ⟨e.Ret, e.op⟩

/-- A callee: it answers every call, and has a state of its own. -/
abbrev Handler (E : Type → Type u) (σ : Type) : Type (max 1 u) := (β : Type) → E β → σ → β × σ

variable {E : Type → Type u} {α β γ W σ : Type}

namespace Program

/-- Run `p`, then `f` on its value. -/
def bind (p : Program E α) (f : α → Program E β) : Program E β :=
  match p with
  | .done a => f a
  | .call op k => .call op (fun r => (k r).bind f)

@[simp] theorem done_bind (a : α) (f : α → Program E β) : (Program.done a).bind f = f a := rfl

@[simp] theorem call_bind (op : E γ) (k : γ → Program E α) (f : α → Program E β) :
    (Program.call op k).bind f = .call op (fun r => (k r).bind f) := rfl

theorem bind_assoc (p : Program E α) (f : α → Program E β) (g : β → Program E γ) :
    (p.bind f).bind g = p.bind (fun a => (f a).bind g) := by
  induction p with
  | done a => rfl
  | call op k ih => exact congrArg (Program.call op) (funext ih)

/-- The program makes a call before anything else. -/
def Calls : Program E α → Prop
  | .done _ => False
  | .call .. => True

theorem Calls.bind {p : Program E α} (h : p.Calls) (f : α → Program E β) : (p.bind f).Calls := by
  cases p with
  | done a => exact h.elim
  | call op k => trivial

theorem Calls.ne_done {p : Program E α} (h : p.Calls) (a : α) : p ≠ .done a := by
  rintro rfl
  exact h

/-- Run the program against one callee. -/
def run (h : Handler E σ) : Program E α → σ → α × σ
  | .done a, s => (a, s)
  | .call op k, s => run h (k (h _ op s).1) (h _ op s).2

/-- The calls and answers of that run. -/
def trace (h : Handler E σ) : Program E α → σ → List (Event E)
  | .done _, _ => []
  | .call op k, s => ⟨op, (h _ op s).1⟩ :: trace h (k (h _ op s).1) (h _ op s).2

theorem run_bind (h : Handler E σ) (p : Program E α) (f : α → Program E β) (s : σ) :
    (p.bind f).run h s = (f (p.run h s).1).run h (p.run h s).2 := by
  induction p generalizing s with
  | done a => rfl
  | call op k ih => exact ih _ _

theorem trace_bind (h : Handler E σ) (p : Program E α) (f : α → Program E β) (s : σ) :
    (p.bind f).trace h s = p.trace h s ++ (f (p.run h s).1).trace h (p.run h s).2 := by
  induction p generalizing s with
  | done a => rfl
  | call op k ih => exact congrArg (List.cons _) (ih _ _)

/-- What a callee keeps to in every answer holds of a whole run. -/
theorem trace_forall {h : Handler E σ} {ok : Event E → Prop}
    (hh : ∀ {β : Type} (op : E β) (s : σ), ok ⟨op, (h β op s).1⟩) (p : Program E α) (s : σ) :
    ∀ e ∈ p.trace h s, ok e := by
  induction p generalizing s with
  | done a => exact fun e he => absurd he List.not_mem_nil
  | call op k ih => exact List.forall_mem_cons.mpr ⟨hh op s, ih _ _⟩

end Program

/-- `Runs p t a`: some callee drives `p` through the trace `t` to the value `a`. -/
inductive Runs : Program E α → List (Event E) → α → Prop
  | done (a : α) : Runs (.done a) [] a
  | call {R : Type} {op : E R} {k : R → Program E α} {t : List (Event E)} {a : α}
      (r : R) (h : Runs (k r) t a) : Runs (.call op k) (⟨op, r⟩ :: t) a

namespace Runs

theorem done_iff {a b : α} {t : List (Event E)} :
    Runs (.done a) t b ↔ t = [] ∧ b = a := by
  constructor
  · rintro ⟨⟩
    exact ⟨rfl, rfl⟩
  · rintro ⟨rfl, rfl⟩
    exact .done _

theorem call_iff {op : E β} {k : β → Program E α} {t : List (Event E)} {a : α} :
    Runs (.call op k) t a ↔ ∃ r t', t = ⟨op, r⟩ :: t' ∧ Runs (k r) t' a := by
  constructor
  · rintro ⟨⟩
    exact ⟨_, _, rfl, by assumption⟩
  · rintro ⟨r, t', rfl, h⟩
    exact .call r h

theorem bind_iff {p : Program E α} {f : α → Program E β} {t : List (Event E)} {b : β} :
    Runs (p.bind f) t b ↔ ∃ t₁ a t₂, t = t₁ ++ t₂ ∧ Runs p t₁ a ∧ Runs (f a) t₂ b := by
  induction p generalizing t with
  | done a =>
    constructor
    · exact fun h => ⟨[], a, t, rfl, .done a, h⟩
    · rintro ⟨t₁, a', t₂, rfl, h₁, h₂⟩
      obtain ⟨rfl, rfl⟩ := done_iff.mp h₁
      exact h₂
  | call op k ih =>
    rw [Program.call_bind, call_iff]
    constructor
    · rintro ⟨r, t', rfl, h⟩
      obtain ⟨t₁, a, t₂, rfl, h₁, h₂⟩ := (ih r).mp h
      exact ⟨⟨op, r⟩ :: t₁, a, t₂, rfl, .call r h₁, h₂⟩
    · rintro ⟨t₁, a, t₂, rfl, h₁, h₂⟩
      obtain ⟨r, t', rfl, hk⟩ := call_iff.mp h₁
      exact ⟨r, t' ++ t₂, rfl, (ih r).mpr ⟨t', a, t₂, rfl, hk, h₂⟩⟩

/-- What one callee does is one of the executions. -/
theorem run (h : Handler E σ) (p : Program E α) (s : σ) :
    Runs p (p.trace h s) (p.run h s).1 := by
  induction p generalizing s with
  | done a => exact .done a
  | call op k ih => exact .call _ (ih _ _)

end Runs

/-! ### Procedures with shared state -/

/-- A program that also reads and writes a state `W` its caller can see. -/
def Proc (E : Type → Type u) (W α : Type) : Type (max 1 u) := W → Program E (α × W)

/-- How a run of a procedure against one callee ends. -/
@[ext] structure Outcome (α W σ : Type) where
  value : α
  world : W
  env : σ

theorem Outcome.eq_of_value {r : Outcome α W σ} {a : α} (h : r.value = a) : r = ⟨a, r.world, r.env⟩ :=
  Outcome.ext h rfl rfl

namespace Proc

instance : Monad (Proc E W) where
  pure a := fun w => .done (a, w)
  bind p f := fun w => (p w).bind (fun x => f x.1 x.2)

/-- The shared state. -/
def read : Proc E W W := fun w => .done (w, w)

/-- Change the shared state. -/
def update (f : W → W) : Proc E W Unit := fun w => .done ((), f w)

/-- Make one call. -/
def perform (op : E α) : Proc E W (α) := fun w => .call op (fun r => .done (r, w))

theorem pure_apply (a : α) (w : W) : (pure a : Proc E W α) w = .done (a, w) := rfl

theorem bind_apply (p : Proc E W α) (f : α → Proc E W β) (w : W) :
    (p >>= f) w = (p w).bind (fun x => f x.1 x.2) := rfl

theorem read_apply (w : W) : (read : Proc E W W) w = .done (w, w) := rfl

theorem update_apply (f : W → W) (w : W) : (update f : Proc E W Unit) w = .done ((), f w) := rfl

theorem pure_bind (a : α) (f : α → Proc E W β) : (pure a >>= f : Proc E W β) = f a := rfl

theorem bind_assoc (p : Proc E W α) (f : α → Proc E W β) (g : β → Proc E W γ) :
    (p >>= f) >>= g = p >>= fun a => f a >>= g :=
  funext fun w => Program.bind_assoc (p w) _ _

theorem ite_apply (c : Prop) [Decidable c] (p q : Proc E W α) (w : W) :
    (if c then p else q) w = if c then p w else q w := by
  split <;> rfl

/-! ### Against one callee -/

/-- Run a procedure against one callee. -/
def exec (h : Handler E σ) (p : Proc E W α) (w : W) (s : σ) : Outcome α W σ :=
  ⟨((p w).run h s).1.1, ((p w).run h s).1.2, ((p w).run h s).2⟩

variable (h : Handler E σ) (w : W) (s : σ)

@[simp] theorem exec_pure (a : α) : exec h (pure a : Proc E W α) w s = ⟨a, w, s⟩ := (rfl)

@[simp] theorem exec_read : exec h (read : Proc E W W) w s = ⟨w, w, s⟩ := (rfl)

@[simp] theorem exec_update (f : W → W) :
    exec h (update f : Proc E W Unit) w s = ⟨(), f w, s⟩ := (rfl)

@[simp] theorem exec_perform (op : E α) :
    exec h (perform op : Proc E W (α)) w s = ⟨(h _ op s).1, w, (h _ op s).2⟩ := (rfl)

theorem exec_bind (p : Proc E W α) (f : α → Proc E W β) :
    exec h (p >>= f) w s =
      exec h (f (exec h p w s).value) (exec h p w s).world (exec h p w s).env := by
  simp only [exec, bind_apply, Program.run_bind]

theorem exec_ite (c : Prop) [Decidable c] (p q : Proc E W α) :
    exec h (if c then p else q) w s = if c then exec h p w s else exec h q w s := by
  split <;> rfl

end Proc

/-! ### Against any callee -/

/-- However the calls are answered -- as long as every answer is `ok` -- the
procedure ends in `Q`, which sees the trace, the value and the shared state. -/
def Ensures (ok : Event E → Prop) (p : Proc E W α) (w : W)
    (Q : List (Event E) → α → W → Prop) : Prop :=
  ∀ t a w', Runs (p w) t (a, w') → (∀ e ∈ t, ok e) → Q t a w'

namespace Ensures

variable {ok : Event E → Prop} {w : W}

theorem mono {p : Proc E W α} {Q Q' : List (Event E) → α → W → Prop}
    (h : Ensures ok p w Q) (hQ : ∀ t a w', Q t a w' → Q' t a w') : Ensures ok p w Q' :=
  fun t a w' hr hok => hQ t a w' (h t a w' hr hok)

theorem and {p : Proc E W α} {Q Q' : List (Event E) → α → W → Prop}
    (h : Ensures ok p w Q) (h' : Ensures ok p w Q') :
    Ensures ok p w (fun t a w' => Q t a w' ∧ Q' t a w') :=
  fun t a w' hr hok => ⟨h t a w' hr hok, h' t a w' hr hok⟩

theorem pure_iff {a : α} {Q : List (Event E) → α → W → Prop} :
    Ensures ok (pure a : Proc E W α) w Q ↔ Q [] a w := by
  constructor
  · exact fun h => h [] a w (.done _) (by simp)
  · intro h t b w' hr _
    obtain ⟨rfl, hb⟩ := Runs.done_iff.mp hr
    obtain ⟨rfl, rfl⟩ := Prod.mk.inj hb
    exact h

theorem read_iff {Q : List (Event E) → W → W → Prop} :
    Ensures ok (Proc.read : Proc E W W) w Q ↔ Q [] w w := by
  constructor
  · exact fun h => h [] w w (.done _) (by simp)
  · intro h t b w' hr _
    obtain ⟨rfl, hb⟩ := Runs.done_iff.mp hr
    obtain ⟨rfl, rfl⟩ := Prod.mk.inj hb
    exact h

theorem update_iff {f : W → W} {Q : List (Event E) → Unit → W → Prop} :
    Ensures ok (Proc.update f : Proc E W Unit) w Q ↔ Q [] () (f w) := by
  constructor
  · exact fun h => h [] () (f w) (.done _) (by simp)
  · intro h t b w' hr _
    obtain ⟨rfl, hb⟩ := Runs.done_iff.mp hr
    obtain ⟨_, rfl⟩ := Prod.mk.inj hb
    exact h

theorem perform_iff {op : E α} {Q : List (Event E) → α → W → Prop} :
    Ensures ok (Proc.perform op : Proc E W (α)) w Q ↔
      ∀ r, ok ⟨op, r⟩ → Q [⟨op, r⟩] r w := by
  constructor
  · exact fun h r hr => h [⟨op, r⟩] r w (.call r (.done _)) (by simpa using hr)
  · intro h t b w' hr hok
    obtain ⟨r, t', rfl, hk⟩ := Runs.call_iff.mp hr
    obtain ⟨rfl, hb⟩ := Runs.done_iff.mp hk
    obtain ⟨rfl, rfl⟩ := Prod.mk.inj hb
    exact h _ (hok _ (List.mem_singleton_self _))

theorem bind_iff {p : Proc E W α} {f : α → Proc E W β} {Q : List (Event E) → β → W → Prop} :
    Ensures ok (p >>= f) w Q ↔
      Ensures ok p w (fun t a w' => Ensures ok (f a) w' (fun t' b w'' => Q (t ++ t') b w'')) := by
  constructor
  · intro h t a w' hr hok t' b w'' hr' hok'
    refine h (t ++ t') b w'' (Runs.bind_iff.mpr ⟨t, (a, w'), t', rfl, hr, hr'⟩) ?_
    intro e he
    exact (List.mem_append.mp he).elim (hok e) (hok' e)
  · intro h t b w'' hr hok
    obtain ⟨t₁, ⟨a, w'⟩, t₂, rfl, h₁, h₂⟩ := Runs.bind_iff.mp hr
    exact h t₁ a w' h₁ (fun e he => hok e (List.mem_append_left _ he)) t₂ b w'' h₂
      (fun e he => hok e (List.mem_append_right _ he))

theorem ite {c : Prop} [Decidable c] {p q : Proc E W α} {Q : List (Event E) → α → W → Prop}
    (hp : c → Ensures ok p w Q) (hq : ¬ c → Ensures ok q w Q) :
    Ensures ok (if c then p else q) w Q := by
  split
  · exact hp ‹_›
  · exact hq ‹_›

/-- A procedure that makes no call. -/
theorem of_done {p : Proc E W α} {a : α} {w' : W} (h : p w = .done (a, w'))
    {Q : List (Event E) → α → W → Prop} : Ensures ok p w Q ↔ Q [] a w' := by
  have hpure : Ensures ok p w Q ↔ Ensures ok (pure a : Proc E W α) w' Q := by
    unfold Ensures
    rw [h, Proc.pure_apply]
  exact hpure.trans pure_iff

/-- What holds however the calls are answered holds against every callee. -/
theorem exec {p : Proc E W α} {Q : List (Event E) → α → W → Prop} (hp : Ensures ok p w Q)
    (h : Handler E σ) (s : σ) (hok : ∀ e ∈ (p w).trace h s, ok e) :
    Q ((p w).trace h s) (p.exec h w s).value (p.exec h w s).world :=
  hp _ _ _ (Runs.run h (p w) s) hok

end Ensures

/-- However the calls are answered, and wherever the procedure starts, its value is one
of `Q`. -/
def Yields (p : Proc E W α) (Q : α → Prop) : Prop :=
  ∀ w, Ensures (fun _ => True) p w fun _ a _ => Q a

namespace Yields

variable {Q : α → Prop} {R : β → Prop} {p : Proc E W α} {f : α → Proc E W β}

theorem pure {a : α} (h : Q a) : Yields (pure a : Proc E W α) Q :=
  fun _ => Ensures.pure_iff.mpr h

theorem bind (hp : Yields p Q) (hf : ∀ a, Q a → Yields (f a) R) : Yields (p >>= f) R :=
  fun w => Ensures.bind_iff.mpr ((hp w).mono fun _ a w' ha => hf a ha w')

/-- What a first step yields may not matter. -/
theorem after (hf : ∀ a, Yields (f a) R) : Yields (p >>= f) R :=
  fun _ => Ensures.bind_iff.mpr fun _ a w' _ _ => hf a w'

theorem ite {c : Prop} [Decidable c] {p q : Proc E W α} (hp : c → Yields p Q)
    (hq : ¬ c → Yields q Q) : Yields (if c then p else q) Q :=
  fun w => Ensures.ite (fun hc => hp hc w) (fun hc => hq hc w)

/-- It holds of every run. -/
theorem exec (hp : Yields p Q) (h : Handler E σ) (w : W) (s : σ) : Q (p.exec h w s).value :=
  (hp w).exec h s (by simp)

end Yields

end Effects
