import Zucrypt.Accounts
import Zucrypt.KeyStore

/-! # A share of the backend's keys

Whoever makes calls holds some of the keys there are, and others hold the rest.  What is held is
followed by the tariff, and what the backend keeps by its law.  `obeys_share` puts the two together:
as long as only keys are used that are held, a backend that had no other keys could have answered
the same, and the keys that are not held stay as they were.

It is an induction on the trace, and `step_share` is its step.  A key that is created has a number
that no key had, so it is nobody else's; a key that is used or destroyed is held, which is what the
tariff was settled for; and any other call leaves all keys alone. -/
namespace Zucrypt
open Effects ByteMemory Resources

variable {O : Objects} {M : Type}

/-! ### What a call does with a key, in the two accounts of it -/

/-- How often a key has to be held for a call. -/
def KeyRole.spends (r : KeyRole) (k : KeyId) : Nat :=
  match r with
  | .uses id => if k = id then 1 else 0
  | .destroys id => if k = id then 1 else 0
  | _ => 0

/-- And how often it is held through it. -/
def KeyRole.gains (r : KeyRole) (k : KeyId) : Nat :=
  match r with
  | .creates id => if k = id then 1 else 0
  | .uses id => if k = id then 1 else 0
  | _ => 0

theorem count_key_singleton (k id : KeyId) :
    ({.key id} : Multiset Resource).count (.key k) = if k = id then 1 else 0 := by
  simp [Multiset.count_singleton]

theorem count_block (k : KeyId) (p : Nat) : ({.block p} : Multiset Resource).count (.key k) = 0 := by
  simp

theorem count_pkContext (k : KeyId) : ({.pkContext} : Multiset Resource).count (.key k) = 0 := by
  simp

theorem count_createdKey (r : PsaStatus × KeyId) (k : KeyId) :
    (createdKey r).count (.key k) = (createsKey r).gains k := by
  unfold createdKey createsKey
  split
  · exact count_key_singleton k r.2
  · rfl

theorem count_allocatedBlock (p : Option Nat) (k : KeyId) :
    (allocatedBlock p).count (.key k) = 0 := by
  cases p with
  | none => rfl
  | some p => exact count_block k p

theorem createsKey_spends (r : PsaStatus × KeyId) (k : KeyId) : (createsKey r).spends k = 0 := by
  unfold createsKey
  split <;> rfl

theorem count_spends (e : Event (Call O)) (k : KeyId) :
    (tariff.spends e).count (.key k) = (role e).spends k := by
  obtain ⟨op, r⟩ := e
  cases op with
  | psa c =>
    cases c with
    | importKey => exact (createsKey_spends _ k).symm
    | generateKey => exact (createsKey_spends _ k).symm
    | pkImportIntoPsa => exact (createsKey_spends _ k).symm
    | pkFree => exact count_pkContext k
    | _ => first | rfl | exact count_key_singleton k _
  | freeRecord => exact count_block k _
  | freeBytes => exact count_block k _
  | _ => rfl

theorem count_gains (e : Event (Call O)) (k : KeyId) :
    (tariff.gains e).count (.key k) = (role e).gains k := by
  obtain ⟨op, r⟩ := e
  cases op with
  | psa c =>
    cases c with
    | importKey => exact count_createdKey _ k
    | generateKey => exact count_createdKey _ k
    | pkImportIntoPsa => exact count_createdKey _ k
    | pkParseKey => exact count_pkContext k
    | pkParsePublicKey => exact count_pkContext k
    | pkCopyPublicFromPsa id pk =>
      show (({.key id} : Multiset Resource) + {.pkContext}).count (.key k) = _
      rw [Multiset.count_add, count_pkContext]
      exact count_key_singleton k id
    | _ => first | rfl | exact count_key_singleton k _
  | calloc => exact count_allocatedBlock _ k
  | malloc => exact count_allocatedBlock _ k
  | _ => rfl

/-! ### Shares -/

/-- The keys of a store that are held, and no others. -/
def KeyStore.only (S : KeyStore M) (held : Multiset Resource) : KeyStore M :=
  fun k => if .key k ∈ held then S k else none

/-- What is held is there, once. -/
structure Owned (S : KeyStore M) (held : Multiset Resource) : Prop where
  there : ∀ {k}, .key k ∈ held → S k ≠ none
  once : ∀ k, held.count (.key k) ≤ 1

theorem Owned.zero (S : KeyStore M) : Owned S 0 where
  there h := absurd h (Multiset.notMem_zero _)
  once _ := Nat.zero_le _

theorem KeyStore.only_of_mem {S : KeyStore M} {held : Multiset Resource} {k : KeyId}
    (h : .key k ∈ held) : S.only held k = S k := if_pos h

theorem KeyStore.only_zero (S : KeyStore M) : S.only 0 = fun _ => none :=
  funext fun _ => if_neg (Multiset.notMem_zero _)

/-- Stores that agree on what is held have the same share. -/
theorem KeyStore.only_congr {S S' : KeyStore M} {held : Multiset Resource}
    (h : ∀ k, .key k ∈ held → S' k = S k) : S'.only held = S.only held := by
  funext k
  unfold KeyStore.only
  split
  · exact h k ‹_›
  · rfl

/-- Keys that others hold. -/
def Others (S : KeyStore M) (held : Multiset Resource) (k : KeyId) : Prop :=
  S k ≠ none ∧ .key k ∉ held

/-- What calls do to shares: the one they are made from is the share of a backend without other
keys, and the others are left alone. -/
structure Shared (L : StoreLaw O M) (S : KeyStore M) (held : Multiset Resource)
    (t : List (Event (Call O))) (S' : KeyStore M) (held' : Multiset Resource) : Prop where
  alone : L.Obeys (S.only held) t (S'.only held')
  owned : Owned S' held'
  others : ∀ k, Others S held k → S' k = S k ∧ Others S' held' k

section
variable {L : StoreLaw O M} {S S' : KeyStore M} {held : Multiset Resource} {e : Event (Call O)}

/-- How often a key is held after a call. -/
theorem count_after (hspends : tariff.spends e ≤ held) (k : KeyId) :
    (held - tariff.spends e + tariff.gains e).count (.key k) + (role e).spends k =
      held.count (.key k) + (role e).gains k := by
  have hle := Multiset.count_le_of_le (.key k) hspends
  rw [Multiset.count_add, Multiset.count_sub, count_gains, count_spends]
  rw [count_spends] at hle
  omega

/-- A call that leaves the store as it is, and the keys that are held too. -/
theorem Shared.same {held' : Multiset Resource} (hS : Owned S held)
    (hcount : ∀ k, held'.count (.key k) = held.count (.key k)) (hstep : L.Step (S.only held) e (S.only held)) :
    Shared L S held [e] S held' := by
  have hmem : ∀ k, .key k ∈ held' ↔ .key k ∈ held := by
    intro k
    rw [← Multiset.count_pos, ← Multiset.count_pos, hcount]
  have honly : S.only held' = S.only held := by
    funext k
    simp only [KeyStore.only, hmem]
  refine ⟨?_, ⟨fun hk => hS.there ((hmem _).mp hk), fun k => ?_⟩, fun k hk => ⟨rfl, hk.1, ?_⟩⟩
  · rw [honly]
    exact StoreLaw.obeys_singleton.mpr hstep
  · rw [hcount]
    exact hS.once k
  · rw [hmem]
    exact hk.2

/-- One call. -/
theorem step_share (hstep : L.Step S e S') (hspends : tariff.spends e ≤ held) (hS : Owned S held) :
    Shared L S held [e] S' (held - tariff.spends e + tariff.gains e) := by
  have hcount := count_after hspends
  cases hrole : role e with
  | creates id =>
    generalize held - tariff.spends e + tariff.gains e = held' at hcount ⊢
    simp only [hrole, KeyRole.spends, KeyRole.gains, Nat.add_zero] at hcount
    obtain ⟨hnew, m, hm, rfl⟩ := (StoreLaw.step_creates hrole).mp hstep
    -- what is held is there, so a number that no key had is not held yet
    have hnone : .key id ∉ held := fun hid => hS.there hid hnew
    have hmem : ∀ k, .key k ∈ held' ↔ .key k ∈ held ∨ k = id := by
      intro k
      rw [← Multiset.count_pos, hcount, ← Multiset.count_pos (s := held)]
      by_cases hk : k = id
      · simp [hk]
      · simp [hk]
    refine ⟨?_, ⟨fun {k} hk => ?_, fun k => ?_⟩, fun k hk => ?_⟩
    · refine StoreLaw.obeys_singleton.mpr ((StoreLaw.step_creates hrole).mpr ⟨if_neg hnone, m, hm, ?_⟩)
      funext k
      by_cases hk : k = id
      · subst hk
        rw [KeyStore.only_of_mem ((hmem k).mpr (Or.inr rfl)), Function.update_self, Function.update_self]
      · simp only [KeyStore.only, hmem, hk, or_false, Function.update_of_ne hk]
    · by_cases hid : k = id
      · rw [hid, Function.update_self]
        simp
      · rw [Function.update_of_ne hid]
        exact hS.there (((hmem k).mp hk).resolve_right hid)
    · rw [hcount]
      have hid : held.count (.key id) = 0 := Multiset.count_eq_zero.mpr hnone
      have honce := hS.once k
      split
      · subst k
        omega
      · omega
    · have hid : k ≠ id := by
        rintro rfl
        exact hk.1 hnew
      have hsame : Function.update S id (some m) k = S k := Function.update_of_ne hid _ _
      refine ⟨hsame, by rw [hsame]; exact hk.1, fun hmem' => ?_⟩
      exact ((hmem k).mp hmem').elim hk.2 hid
  | uses id =>
    obtain ⟨hallows, rfl⟩ := (StoreLaw.step_uses hrole).mp hstep
    refine Shared.same hS (fun k => ?_) ((StoreLaw.step_uses hrole).mpr ⟨fun m hm => ?_, rfl⟩)
    · have hk := hcount k
      simp only [hrole, KeyRole.spends, KeyRole.gains] at hk
      omega
    · unfold KeyStore.only at hm
      split at hm
      · exact hallows m hm
      · cases hm
  | destroys id =>
    generalize held - tariff.spends e + tariff.gains e = held' at hcount ⊢
    simp only [hrole, KeyRole.spends, KeyRole.gains, Nat.add_zero] at hcount
    have hS' : S' = Function.update S id none := by
      unfold StoreLaw.Step at hstep
      rwa [hrole] at hstep
    subst hS'
    -- it was held once, and the call has spent it
    have hnone : .key id ∉ held' := by
      have hid := hcount id
      have honce := hS.once id
      rw [if_pos rfl] at hid
      rw [← Multiset.count_eq_zero]
      omega
    have hmem : ∀ k, k ≠ id → (.key k ∈ held' ↔ .key k ∈ held) := by
      intro k hk
      have hother := hcount k
      rw [if_neg hk] at hother
      rw [← Multiset.count_pos, ← Multiset.count_pos]
      omega
    -- so it is nobody else's key that is gone
    have hid : .key id ∈ held := by
      have hid := hcount id
      rw [if_pos rfl] at hid
      rw [← Multiset.count_pos]
      omega
    refine ⟨?_, ⟨fun {k} hk => ?_, fun k => ?_⟩, fun k hk => ?_⟩
    · refine StoreLaw.obeys_singleton.mpr ?_
      unfold StoreLaw.Step
      rw [hrole]
      funext k
      by_cases hk : k = id
      · subst hk
        rw [Function.update_self]
        exact if_neg hnone
      · simp only [KeyStore.only, hmem k hk, Function.update_of_ne hk]
    · have hne : k ≠ id := by
        rintro rfl
        exact hnone hk
      rw [Function.update_of_ne hne]
      exact hS.there ((hmem k hne).mp hk)
    · have honce := hS.once k
      have hk := hcount k
      omega
    · have hne : k ≠ id := by
        rintro rfl
        exact hk.2 hid
      have hsame : Function.update S id none k = S k := Function.update_of_ne hne _ _
      exact ⟨hsame, by rw [hsame]; exact hk.1, fun hmem' => hk.2 ((hmem k hne).mp hmem')⟩
  | nothing =>
    obtain ⟨helse, rfl⟩ : L.elsewhere e ∧ S' = S := by
      unfold StoreLaw.Step at hstep
      rwa [hrole] at hstep
    refine Shared.same hS (fun k => ?_) ?_
    · have hk := hcount k
      simp only [hrole, KeyRole.spends, KeyRole.gains] at hk
      omega
    · unfold StoreLaw.Step
      rw [hrole]
      exact ⟨helse, rfl⟩

/-- Any calls that can be paid for. -/
theorem obeys_share {held' : Multiset Resource} {t : List (Event (Call O))} (ht : L.Obeys S t S')
    (hsettle : settle tariff held t = some held') (hS : Owned S held) :
    Shared L S held t S' held' := by
  induction t generalizing S held with
  | nil =>
    obtain rfl : S' = S := ht
    obtain rfl : held = held' := Option.some.inj hsettle
    exact ⟨rfl, hS, fun k hk => ⟨rfl, hk⟩⟩
  | cons e t ih =>
    obtain ⟨S₁, hstep, ht⟩ := ht
    unfold settle at hsettle
    split at hsettle
    · have hfirst := step_share hstep ‹_› hS
      have hrest := ih ht hsettle hfirst.owned
      refine ⟨?_, hrest.owned, fun k hk => ?_⟩
      · exact StoreLaw.obeys_append.mpr ⟨_, hfirst.alone, hrest.alone⟩
      · obtain ⟨hsame, hother⟩ := hfirst.others k hk
        obtain ⟨hsame', hother'⟩ := hrest.others k hother
        exact ⟨hsame'.trans hsame, hother'⟩
    · cases hsettle

end

end Zucrypt
