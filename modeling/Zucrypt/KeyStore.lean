import Mathlib.Logic.Function.Basic
import Zucrypt.Session

/-! # The backend's keys

The backend keeps keys for the adapter, and the adapter knows them by number.  `role` is what a call
does with a key, and `StoreLaw` what a backend promises of its keys: what a key it creates may be,
and what it may answer when it is given one.  The store itself is not part of the model; a trace
`Obeys` a law if there is a store that explains its answers, one call after the other.

`Lawfully` is what a function does against every backend that obeys a law.  A function that makes
and uses keys is told by its keys in this way, with the backend's own state never in sight; and a
function that uses none is `Keyless`, and may be run in between.

That the vendored backend, which keeps its keys in slots, obeys such a law is in `KeyService`. -/
namespace Zucrypt
open Effects ByteMemory

variable {O : Objects} {M α β : Type}

/-- What a call does with a key. -/
inductive KeyRole where
  | creates (id : KeyId)
  | uses (id : KeyId)
  | destroys (id : KeyId)
  | nothing
  deriving DecidableEq, Repr

/-- A call that creates a key does so if it succeeds. -/
def createsKey (r : PsaStatus × KeyId) : KeyRole :=
  if r.1 = .success then .creates r.2 else .nothing

/-- What a call, with its answer, did with a key. -/
def role : Event (Call O) → KeyRole
  | ⟨.psa (.importKey ..), r⟩ => createsKey r.answer
  | ⟨.psa (.generateKey ..), r⟩ => createsKey r.answer
  | ⟨.psa (.pkImportIntoPsa ..), r⟩ => createsKey r.answer
  | ⟨.psa (.destroyKey id), _⟩ => .destroys id
  | ⟨.psa (.macSignSetup _ id _), _⟩ => .uses id
  | ⟨.psa (.macCompute id ..), _⟩ => .uses id
  | ⟨.psa (.getKeyAttributes id), _⟩ => .uses id
  | ⟨.psa (.exportKey id _), _⟩ => .uses id
  | ⟨.psa (.exportPublicKey id _), _⟩ => .uses id
  | ⟨.psa (.cipherEncryptSetup _ id _), _⟩ => .uses id
  | ⟨.psa (.cipherDecryptSetup _ id _), _⟩ => .uses id
  | ⟨.psa (.aeadEncryptSetup _ id _), _⟩ => .uses id
  | ⟨.psa (.aeadDecryptSetup _ id _), _⟩ => .uses id
  | ⟨.psa (.signHash id ..), _⟩ => .uses id
  | ⟨.psa (.verifyHash id ..), _⟩ => .uses id
  | ⟨.psa (.asymmetricEncrypt id ..), _⟩ => .uses id
  | ⟨.psa (.asymmetricDecrypt id ..), _⟩ => .uses id
  | ⟨.psa (.rawKeyAgreement _ id ..), _⟩ => .uses id
  | ⟨.psa (.pkCopyPublicFromPsa id _), _⟩ => .uses id
  | _ => .nothing

/-- The keys there are; `M` is what a backend keeps of a key. -/
abbrev KeyStore (M : Type) : Type := KeyId → Option M

/-- What a backend promises of its keys, and of what has nothing to do with one. -/
structure StoreLaw (O : Objects) (M : Type) where
  makes : Event (Call O) → M → Prop
  allows : Event (Call O) → M → Prop
  elsewhere : Event (Call O) → Prop

namespace StoreLaw

variable (L : StoreLaw O M)

/-- One call: a new key has a number that no key had. -/
def Step (S : KeyStore M) (e : Event (Call O)) (S' : KeyStore M) : Prop :=
  match role e with
  | .creates id => S id = none ∧ ∃ m, L.makes e m ∧ S' = Function.update S id (some m)
  | .uses id => (∀ m, S id = some m → L.allows e m) ∧ S' = S
  | .destroys id => S' = Function.update S id none
  | .nothing => L.elsewhere e ∧ S' = S

/-- A store explains the answers of a trace, and becomes another. -/
def Obeys : KeyStore M → List (Event (Call O)) → KeyStore M → Prop
  | S, [], S' => S' = S
  | S, e :: t, S' => ∃ S₁, L.Step S e S₁ ∧ Obeys S₁ t S'

variable {L}

theorem step_creates {S S' : KeyStore M} {e : Event (Call O)} {id : KeyId}
    (he : role e = .creates id) :
    L.Step S e S' ↔ S id = none ∧ ∃ m, L.makes e m ∧ S' = Function.update S id (some m) := by
  unfold Step
  rw [he]

theorem step_uses {S S' : KeyStore M} {e : Event (Call O)} {id : KeyId} (he : role e = .uses id) :
    L.Step S e S' ↔ (∀ m, S id = some m → L.allows e m) ∧ S' = S := by
  unfold Step
  rw [he]

theorem obeys_append {S S' : KeyStore M} {t t' : List (Event (Call O))} :
    L.Obeys S (t ++ t') S' ↔ ∃ S₁, L.Obeys S t S₁ ∧ L.Obeys S₁ t' S' := by
  induction t generalizing S with
  | nil =>
    constructor
    · exact fun h => ⟨S, rfl, h⟩
    · rintro ⟨S₁, rfl, h⟩
      exact h
  | cons e t ih =>
    constructor
    · rintro ⟨S₀, hstep, h⟩
      obtain ⟨S₁, h₁, h₂⟩ := ih.mp h
      exact ⟨S₁, ⟨S₀, hstep, h₁⟩, h₂⟩
    · rintro ⟨S₁, ⟨S₀, hstep, h₁⟩, h₂⟩
      exact ⟨S₀, hstep, ih.mpr ⟨S₁, h₁, h₂⟩⟩

theorem obeys_singleton {S S' : KeyStore M} {e : Event (Call O)} :
    L.Obeys S [e] S' ↔ L.Step S e S' := by
  constructor
  · rintro ⟨S₁, hstep, rfl⟩
    exact hstep
  · exact fun h => ⟨S', h, rfl⟩

end StoreLaw

/-- However a backend that obeys `L` answers, starting from `S`, the function ends in
`Q`. -/
def Lawfully (L : StoreLaw O M) (S : KeyStore M) (p : Adapter O α)
    (Q : List (Event (Call O)) → α → KeyStore M → Prop) : Prop :=
  ∀ w, Ensures (fun _ => True) p w fun t a _ => ∀ S', L.Obeys S t S' → Q t a S'

namespace Lawfully

variable {L : StoreLaw O M} {S : KeyStore M} {p : Adapter O α} {f : α → Adapter O β}
  {Q : List (Event (Call O)) → β → KeyStore M → Prop}

theorem pure {b : β} (h : Q [] b S) : Lawfully L S (Pure.pure b : Adapter O β) Q := by
  intro w
  refine Ensures.pure_iff.mpr ?_
  rintro S' rfl
  exact h

theorem mono {Q' : List (Event (Call O)) → β → KeyStore M → Prop} {p : Adapter O β}
    (h : Lawfully L S p Q) (hQ : ∀ t b S', Q t b S' → Q' t b S') : Lawfully L S p Q' :=
  fun w => (h w).mono fun t b _ hb S' hS => hQ t b S' (hb S' hS)

theorem bind {R : List (Event (Call O)) → α → KeyStore M → Prop} (hp : Lawfully L S p R)
    (hf : ∀ t a S₁, R t a S₁ → Lawfully L S₁ (f a) fun t' b S' => Q (t ++ t') b S') :
    Lawfully L S (p >>= f) Q := by
  intro w
  refine Ensures.bind_iff.mpr ?_
  intro t a w₁ hrun hok t' b w' hrun' hok' S' hS
  obtain ⟨S₁, hS₁, hS'⟩ := StoreLaw.obeys_append.mp hS
  exact hf t a S₁ (hp w t a w₁ hrun hok S₁ hS₁) w₁ t' b w' hrun' hok' S' hS'

theorem ite {c : Prop} [Decidable c] {p q : Adapter O β} (hp : c → Lawfully L S p Q)
    (hq : ¬ c → Lawfully L S q Q) : Lawfully L S (if c then p else q) Q :=
  fun w => Ensures.ite (fun hc => hp hc w) (fun hc => hq hc w)

/-- What holds against any backend holds here too. -/
theorem yields {R : β → Prop} {p : Adapter O β} (h : Lawfully L S p Q) (hR : Yields p R) :
    Lawfully L S p fun t b S' => Q t b S' ∧ R b :=
  fun w => ((h w).and (hR w)).mono fun _ _ _ hb S' hS => ⟨hb.1 S' hS, hb.2⟩

theorem psa {c : PsaCall O α} {Q : List (Event (Call O)) → α → KeyStore M → Prop}
    (h : ∀ r S', L.Step S ⟨.psa c, r⟩ S' → Q [⟨.psa c, r⟩] r.answer S') :
    Lawfully L S (Zucrypt.psa c) Q :=
  fun _ => ensures_psa.mpr fun r _ S' hS => h r S' (StoreLaw.obeys_singleton.mp hS)

/-- A call that works with a key. -/
theorem use {c : PsaCall O α} {id : KeyId} {m : M} (hS : S id = some m)
    (hrole : ∀ r, role ⟨.psa c, r⟩ = .uses id) :
    Lawfully L S (Zucrypt.psa c) fun t a S' =>
      S' = S ∧ ∃ r, t = [⟨.psa c, r⟩] ∧ r.answer = a ∧ L.allows ⟨.psa c, r⟩ m :=
  psa fun r _ hstep =>
    have h := (StoreLaw.step_uses (hrole r)).mp hstep
    ⟨h.2, r, rfl, rfl, h.1 m hS⟩

/-- A call that creates a key, if it succeeds. -/
theorem create {c : PsaCall O (PsaStatus × KeyId)}
    (hrole : ∀ r, role ⟨.psa c, r⟩ = createsKey r.answer) :
    Lawfully L S (Zucrypt.psa c) fun _ a S' =>
      a.1 = .success → ∃ m r, S' a.2 = some m ∧ r.answer = a ∧ L.makes ⟨.psa c, r⟩ m := by
  refine psa fun r S' hstep hsuccess => ?_
  have hcreates : role ⟨.psa c, r⟩ = .creates r.answer.2 := (hrole r).trans (if_pos hsuccess)
  obtain ⟨-, m, hm, rfl⟩ := (StoreLaw.step_creates hcreates).mp hstep
  exact ⟨m, r, Function.update_self _ _ _, rfl, hm⟩

end Lawfully

/-- A function that does nothing with keys. -/
def Keyless (p : Adapter O α) : Prop :=
  ∀ w, Ensures (fun _ => True) p w fun t _ _ => ∀ e ∈ t, role e = .nothing

theorem StoreLaw.Obeys.of_keyless {L : StoreLaw O M} {S S' : KeyStore M}
    {t : List (Event (Call O))} (h : L.Obeys S t S') (ht : ∀ e ∈ t, role e = .nothing) : S' = S := by
  induction t generalizing S with
  | nil => exact h
  | cons e t ih =>
    obtain ⟨S₁, hstep, h⟩ := h
    have hS₁ : S₁ = S := by
      unfold StoreLaw.Step at hstep
      rw [ht e List.mem_cons_self] at hstep
      exact hstep.2
    rw [ih h fun e he => ht e (List.mem_cons_of_mem _ he), hS₁]

/-- First something that does nothing with keys. -/
theorem Keyless.then {L : StoreLaw O M} {S : KeyStore M} {p : Adapter O α} {f : α → Adapter O β}
    {Q : List (Event (Call O)) → β → KeyStore M → Prop} (hp : Keyless p)
    (hf : ∀ t a, Lawfully L S (f a) fun t' b S' => Q (t ++ t') b S') :
    Lawfully L S (p >>= f) Q := by
  have hsame : Lawfully L S p fun _ _ S' => S' = S :=
    fun w => (hp w).mono fun t _ _ ht S' hS => hS.of_keyless ht
  refine hsame.bind fun t a S₁ hS₁ => ?_
  rw [hS₁]
  exact hf t a

namespace Keyless

theorem pure (a : α) : Keyless (Pure.pure a : Adapter O α) := fun _ => Ensures.pure_iff.mpr (by simp)

theorem bind {p : Adapter O α} {f : α → Adapter O β} (hp : Keyless p) (hf : ∀ a, Keyless (f a)) :
    Keyless (p >>= f) := by
  intro w
  refine Ensures.bind_iff.mpr ((hp w).mono fun t a w₁ ht => (hf a w₁).mono fun t' b w' ht' => ?_)
  intro e he
  exact (List.mem_append.mp he).elim (ht e) (ht' e)

theorem ite {c : Prop} [Decidable c] {p q : Adapter O α} (hp : c → Keyless p)
    (hq : ¬ c → Keyless q) : Keyless (if c then p else q) := by
  split
  · exact hp ‹_›
  · exact hq ‹_›

theorem psa {c : PsaCall O α} (h : ∀ r, role ⟨.psa c, r⟩ = .nothing) : Keyless (Zucrypt.psa c) :=
  fun _ => ensures_psa.mpr fun r _ => by simpa using h r

theorem readMem (p n : Nat) : Keyless (Zucrypt.readMem p n : Adapter O _) :=
  fun _ => ensures_readMem.mpr (by simp)

theorem ready : Keyless (zucIntReady : Adapter O _) :=
  fun _ => Ensures.bind_iff.mpr (Ensures.read_iff.mpr (Ensures.pure_iff.mpr (by simp)))

theorem perform {op : Call O α} (h : ∀ a, role ⟨op, a⟩ = .nothing) :
    Keyless (Proc.perform op : Adapter O α) :=
  fun _ => Ensures.perform_iff.mpr fun a _ => by simpa using h a

theorem mallocBytes (n : Nat) : Keyless (Zucrypt.mallocBytes n : Adapter O _) :=
  bind (perform fun _ => rfl) fun _ => pure _

theorem freeIf {γ : Type} {release : γ → Adapter O Unit} (h : ∀ c, Keyless (release c))
    (p : Option γ) : Keyless (Zucrypt.freeIf release p) := by
  cases p with
  | none => exact pure _
  | some c => exact h c

theorem count (d : Int) : Keyless (zucIntLiveAdd d : Adapter O _) :=
  fun _ => Ensures.update_iff.mpr (by simp)

end Keyless

end Zucrypt
