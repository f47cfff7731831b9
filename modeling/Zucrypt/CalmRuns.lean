import Zucrypt.KeyStore

/-! # Runs in which no allocation fails

`Meets` is the program logic of functions against a backend that keeps a law of its keys, while no
allocation fails.  It sees what `Lawfully` does not, the world: the caller's memory, and whether the
library is ready.

There is one rule for each step an adapter function is made of.  A step that creates a key tells
which, a step that uses one is answered as the law allows.

A `CalmBackend` keeps the law and has memory for everyone, so that a run against it is one that
`Meets` speaks of; the reference backends of the modules on keys are such, and what is said of every
run is not said of none. -/
namespace Zucrypt
open Effects ByteMemory

variable {O : Objects} {M α β : Type}

/-- No allocation fails in this call. -/
def Calm : Event (Call O) → Prop
  | ⟨.psa _, r⟩ => r.allocFailed = false
  | ⟨.calloc _, p⟩ => p ≠ none
  | ⟨.malloc _, p⟩ => p ≠ none
  | _ => True

/-- Every promise of `L'` is one of `L`. -/
structure StoreLaw.Implies (L L' : StoreLaw O M) : Prop where
  makes : ∀ e m, L.makes e m → L'.makes e m
  allows : ∀ e m, L.allows e m → L'.allows e m
  elsewhere : ∀ e, L.elsewhere e → L'.elsewhere e

theorem StoreLaw.Obeys.mono {L L' : StoreLaw O M} (h : L.Implies L') {S S' : KeyStore M}
    {t : List (Event (Call O))} (ht : L.Obeys S t S') : L'.Obeys S t S' := by
  induction t generalizing S with
  | nil => exact ht
  | cons e t ih =>
    obtain ⟨S₁, hstep, ht⟩ := ht
    refine ⟨S₁, ?_, ih ht⟩
    unfold StoreLaw.Step at hstep ⊢
    split at hstep
    · obtain ⟨hnone, m, hm, hS₁⟩ := hstep
      exact ⟨hnone, m, h.makes e m hm, hS₁⟩
    · exact ⟨fun m hm => h.allows e m (hstep.1 m hm), hstep.2⟩
    · exact hstep
    · exact ⟨h.elsewhere e hstep.1, hstep.2⟩

/-- Both laws. -/
def StoreLaw.and (L L' : StoreLaw O M) : StoreLaw O M where
  makes e m := L.makes e m ∧ L'.makes e m
  allows e m := L.allows e m ∧ L'.allows e m
  elsewhere e := L.elsewhere e ∧ L'.elsewhere e

theorem StoreLaw.and_left (L L' : StoreLaw O M) : (L.and L').Implies L :=
  ⟨fun _ _ => And.left, fun _ _ => And.left, fun _ => And.left⟩

theorem StoreLaw.and_right (L L' : StoreLaw O M) : (L.and L').Implies L' :=
  ⟨fun _ _ => And.right, fun _ _ => And.right, fun _ => And.right⟩

theorem StoreLaw.Implies.trans {L L' L'' : StoreLaw O M} (h : L.Implies L') (h' : L'.Implies L'') :
    L.Implies L'' :=
  ⟨fun e m hm => h'.makes e m (h.makes e m hm), fun e m hm => h'.allows e m (h.allows e m hm),
    fun e he => h'.elsewhere e (h.elsewhere e he)⟩

/-- Against every backend that obeys `L`, starting from the keys `S`, and while no
allocation fails, the function ends in `Q`. -/
def Meets (L : StoreLaw O M) (w : World) (S : KeyStore M) (p : Adapter O α)
    (Q : α → World → KeyStore M → Prop) : Prop :=
  Ensures Calm p w fun t a w' => ∀ S', L.Obeys S t S' → Q a w' S'

namespace Meets

variable {L : StoreLaw O M} {w : World} {S : KeyStore M} {p : Adapter O α} {f : α → Adapter O β}
  {Q : β → World → KeyStore M → Prop}

theorem pure {b : β} (h : Q b w S) : Meets L w S (Pure.pure b : Adapter O β) Q := by
  refine Ensures.pure_iff.mpr ?_
  rintro S' rfl
  exact h

theorem mono {Q' : β → World → KeyStore M → Prop} {p : Adapter O β} (h : Meets L w S p Q)
    (hQ : ∀ b w' S', Q b w' S' → Q' b w' S') : Meets L w S p Q' :=
  Ensures.mono h fun _ b w' hb S' hS => hQ b w' S' (hb S' hS)

/-- One step, and then the rest from where it leads. -/
theorem bind (h : Meets L w S p fun a w₁ S₁ => Meets L w₁ S₁ (f a) Q) : Meets L w S (p >>= f) Q := by
  refine Ensures.bind_iff.mpr ?_
  intro t a w₁ hrun hok t' b w' hrun' hok' S' hS
  obtain ⟨S₁, hS₁, hS'⟩ := StoreLaw.obeys_append.mp hS
  exact h t a w₁ hrun hok S₁ hS₁ t' b w' hrun' hok' S' hS'

/-- A function that has been dealt with, and then the rest. -/
theorem andThen {R : α → World → KeyStore M → Prop} (hp : Meets L w S p R)
    (hf : ∀ a w₁ S₁, R a w₁ S₁ → Meets L w₁ S₁ (f a) Q) : Meets L w S (p >>= f) Q :=
  bind (hp.mono hf)

theorem ite {c : Prop} [Decidable c] {p q : Adapter O β} (hp : c → Meets L w S p Q)
    (hq : ¬ c → Meets L w S q Q) : Meets L w S (if c then p else q) Q :=
  Ensures.ite hp hq

/-- A branch that is known to be taken. -/
theorem pos {c : Prop} [Decidable c] {p q : Adapter O β} (hc : c) (hp : Meets L w S p Q) :
    Meets L w S (if c then p else q) Q := by
  rwa [if_pos hc]

theorem neg {c : Prop} [Decidable c] {p q : Adapter O β} (hc : ¬ c) (hq : Meets L w S q Q) :
    Meets L w S (if c then p else q) Q := by
  rwa [if_neg hc]

/-! ### Calls -/

theorem psa_calm {c : PsaCall O α} {Q : α → World → KeyStore M → Prop}
    (h : ∀ r : Reply α, r.allocFailed = false → ∀ S', L.Step S ⟨.psa c, r⟩ S' → Q r.answer w S') :
    Meets L w S (Zucrypt.psa c) Q := by
  refine ensures_psa.mpr fun r hcalm S' hS => ?_
  have hr : r.allocFailed = false := hcalm
  rw [hr, World.noteAlloc_false]
  exact h r hr S' (StoreLaw.obeys_singleton.mp hS)

theorem psa {c : PsaCall O α} {Q : α → World → KeyStore M → Prop}
    (h : ∀ r : Reply α, ∀ S', L.Step S ⟨.psa c, r⟩ S' → Q r.answer w S') :
    Meets L w S (Zucrypt.psa c) Q :=
  psa_calm fun r _ => h r

/-- A call that works with a key. -/
theorem use_calm {c : PsaCall O α} {id : KeyId} {m : M} {Q : α → World → KeyStore M → Prop}
    (hS : S id = some m) (hrole : ∀ r, role ⟨.psa c, r⟩ = .uses id)
    (h : ∀ r : Reply α, r.allocFailed = false → L.allows ⟨.psa c, r⟩ m → Q r.answer w S) :
    Meets L w S (Zucrypt.psa c) Q := by
  refine psa_calm fun r hcalm S' hstep => ?_
  obtain ⟨hallows, rfl⟩ := (StoreLaw.step_uses (hrole r)).mp hstep
  exact h r hcalm (hallows m hS)

theorem use {c : PsaCall O α} {id : KeyId} {m : M} {Q : α → World → KeyStore M → Prop}
    (hS : S id = some m) (hrole : ∀ r, role ⟨.psa c, r⟩ = .uses id)
    (h : ∀ r : Reply α, L.allows ⟨.psa c, r⟩ m → Q r.answer w S) :
    Meets L w S (Zucrypt.psa c) Q :=
  use_calm hS hrole fun r _ => h r

/-- A call that has nothing to do with a key, or fails to create one. -/
theorem step_nothing {S' : KeyStore M} {e : Event (Call O)} (he : role e = .nothing) :
    L.Step S e S' ↔ L.elsewhere e ∧ S' = S := by
  unfold StoreLaw.Step
  rw [he]

theorem elsewhere {c : PsaCall O α} {Q : α → World → KeyStore M → Prop}
    (hrole : ∀ r, role ⟨.psa c, r⟩ = .nothing)
    (h : ∀ r : Reply α, L.elsewhere ⟨.psa c, r⟩ → Q r.answer w S) :
    Meets L w S (Zucrypt.psa c) Q := by
  refine psa fun r S' hstep => ?_
  obtain ⟨helse, rfl⟩ := (step_nothing (hrole r)).mp hstep
  exact h r helse

/-- A call that creates a key, or does not. -/
theorem create {c : PsaCall O (PsaStatus × KeyId)} {Q : PsaStatus × KeyId → World → KeyStore M → Prop}
    (hrole : ∀ r, role ⟨.psa c, r⟩ = createsKey r.answer)
    (hnew : ∀ r : Reply (PsaStatus × KeyId), ∀ m, r.answer.1 = .success → L.makes ⟨.psa c, r⟩ m →
      Q r.answer w (Function.update S r.answer.2 (some m)))
    (hfail : ∀ r : Reply (PsaStatus × KeyId), r.answer.1 ≠ .success → L.elsewhere ⟨.psa c, r⟩ →
      Q r.answer w S) :
    Meets L w S (Zucrypt.psa c) Q := by
  refine psa fun r S' hstep => ?_
  by_cases hr : r.answer.1 = .success
  · obtain ⟨-, m, hm, rfl⟩ := (StoreLaw.step_creates ((hrole r).trans (if_pos hr))).mp hstep
    exact hnew r m hr hm
  · obtain ⟨helse, rfl⟩ := (step_nothing ((hrole r).trans (if_neg hr))).mp hstep
    exact hfail r hr helse

/-- A key that is no longer needed. -/
theorem destroy {id : KeyId} {Q : Unit → World → KeyStore M → Prop}
    (h : Q () w (Function.update S id none)) : Meets L w S (Zucrypt.psa (.destroyKey id)) Q := by
  refine psa fun r S' hstep => ?_
  obtain rfl : S' = Function.update S id none := hstep
  exact h

theorem perform {op : Call O α} {Q : α → World → KeyStore M → Prop}
    (hrole : ∀ a, role ⟨op, a⟩ = .nothing) (h : ∀ a, Calm ⟨op, a⟩ → Q a w S) :
    Meets L w S (Proc.perform op) Q := by
  refine Ensures.perform_iff.mpr fun a hcalm S' hS => ?_
  obtain ⟨-, rfl⟩ := (step_nothing (hrole a)).mp (StoreLaw.obeys_singleton.mp hS)
  exact h a hcalm

theorem mallocBytes {n : Nat} {Q : Option HeapBuf → World → KeyStore M → Prop}
    (h : ∀ p, Q (some (.fresh p n)) w S) : Meets L w S (Zucrypt.mallocBytes n) Q := by
  refine bind (perform (fun _ => rfl) fun a hcalm => pure ?_)
  cases a with
  | none => exact absurd rfl hcalm
  | some p => exact h p

theorem callocRecord {what : Record} {Q : Option Nat → World → KeyStore M → Prop}
    (h : ∀ p, Q (some p) w S) : Meets L w S (Zucrypt.callocRecord what) Q := by
  refine perform (fun _ => rfl) fun a hcalm => ?_
  cases a with
  | none => exact absurd rfl hcalm
  | some p => exact h p

theorem freeBytes {b : HeapBuf} {Q : Unit → World → KeyStore M → Prop} (h : Q () w S) :
    Meets L w S (Zucrypt.freeBytes b) Q :=
  perform (fun _ => rfl) fun _ _ => h

theorem freeRecord {what : Record} {p : Nat} {Q : Unit → World → KeyStore M → Prop} (h : Q () w S) :
    Meets L w S (Zucrypt.freeRecord what p) Q :=
  perform (fun _ => rfl) fun _ _ => h

/-! ### The world -/

/-- A step that makes no call. -/
theorem of_done {p : Adapter O β} {b : β} {w' : World} (hp : p w = .done (b, w')) (h : Q b w' S) :
    Meets L w S p Q := by
  refine (Ensures.of_done hp).mpr ?_
  rintro S' rfl
  exact h

theorem ready {Q : Bool → World → KeyStore M → Prop} (h : Q (decide (0 < w.refcount)) w S) :
    Meets L w S zucIntReady Q := of_done rfl h

theorem readMem {p n : Nat} {Q : List Byte → World → KeyStore M → Prop} (h : Q (read w.mem p n) w S) :
    Meets L w S (Zucrypt.readMem p n) Q := of_done rfl h

theorem writeMem {p : Nat} {bs : List Byte} {Q : Unit → World → KeyStore M → Prop}
    (h : Q () (w.store p bs) S) : Meets L w S (Zucrypt.writeMem p bs) Q := of_done rfl h

theorem writeOutput {p size : Nat} {o : Output} {Q : Unit → World → KeyStore M → Prop}
    (h : Q () (w.store p (o.bytes.take size)) S) : Meets L w S (Zucrypt.writeOutput p size o) Q :=
  of_done rfl h

theorem liveAdd {d : Int} {Q : Unit → World → KeyStore M → Prop}
    (h : Q () { w with live := w.live + d } S) : Meets L w S (zucIntLiveAdd d) Q := of_done rfl h

/-- Under the watch nothing changes: no allocation fails. -/
theorem watched {impl : Adapter O (ZucStatus × α)} {Q : ZucStatus × α → World → KeyStore M → Prop}
    (h : ∀ w₀ : World, w₀.mem = w.mem → w₀.refcount = w.refcount → w₀.allocFailed = false →
      Meets L w₀ S impl fun r w' S' => w'.allocFailed = false ∧ Q r w' S') :
    Meets L w S (Zucrypt.watched impl) Q := by
  have himpl := h { w with allocFailed := false } rfl rfl rfl
  refine bind (of_done rfl (himpl.andThen fun r w₁ S₁ h₁ => ?_))
  refine bind (of_done rfl (pure ?_))
  rw [if_neg (by simp [h₁.1])]
  exact h₁.2

end Meets

/-! ### Against one backend -/

/-- A backend that keeps the law of its keys, which are those of `store`, and has memory for
everyone. -/
def CalmBackend {σ : Type} (L : StoreLaw O M) (h : Handler (Call O) σ) (store : σ → KeyStore M) : Prop :=
  ∀ (γ : Type) (op : Call O γ) (s : σ), Calm ⟨op, (h _ op s).1⟩ ∧
    L.Step (store s) ⟨op, (h _ op s).1⟩ (store (h _ op s).2)

section
variable {σ : Type} {L : StoreLaw O M} {h : Handler (Call O) σ} {store : σ → KeyStore M}

theorem CalmBackend.trace (hh : CalmBackend L h store) (p : Program (Call O) α) (s : σ) :
    (∀ e ∈ p.trace h s, Calm e) ∧ L.Obeys (store s) (p.trace h s) (store (p.run h s).2) := by
  refine ⟨Program.trace_forall (fun op s => (hh _ op s).1) p s, ?_⟩
  induction p generalizing s with
  | done r => rfl
  | call op k ih => exact ⟨_, (hh _ op s).2, ih (h _ op s).1 (h _ op s).2⟩

/-- A promise that is kept whatever key it is about. -/
def StoreLaw.Kept (L : StoreLaw O M) (e : Event (Call O)) : Prop :=
  (∀ m, L.makes e m) ∧ (∀ m, L.allows e m) ∧ L.elsewhere e

/-- A backend that keeps one law, and all of another. -/
theorem CalmBackend.and {L' : StoreLaw O M} (hh : CalmBackend L h store)
    (hkept : ∀ (γ : Type) (op : Call O γ) (s : σ), L'.Kept ⟨op, (h _ op s).1⟩) :
    CalmBackend (L.and L') h store := by
  intro γ op s
  obtain ⟨hcalm, hstep⟩ := hh γ op s
  obtain ⟨hmakes, hallows, helse⟩ := hkept γ op s
  refine ⟨hcalm, ?_⟩
  unfold StoreLaw.Step at hstep ⊢
  split at hstep
  · obtain ⟨hnone, m, hm, hS⟩ := hstep
    exact ⟨hnone, m, ⟨hm, hmakes m⟩, hS⟩
  · exact ⟨fun m hm => ⟨hstep.1 m hm, hallows m⟩, hstep.2⟩
  · exact hstep
  · exact ⟨⟨hstep.1, helse⟩, hstep.2⟩

/-- What holds against every backend that keeps the law holds against this one. -/
theorem Meets.exec (hh : CalmBackend L h store) {w : World} {s : σ} {p : Adapter O α}
    {Q : α → World → KeyStore M → Prop} (hp : Meets L w (store s) p Q) :
    Q (p.exec h w s).value (p.exec h w s).world (store (p.exec h w s).env) := by
  obtain ⟨hcalm, hobeys⟩ := hh.trace (p w) s
  exact hp _ _ _ (Runs.run h (p w) s) hcalm _ hobeys

end

end Zucrypt
