import Zucrypt.NativeCalls
import Zucrypt.NoLeak

/-! # Contexts are held by pointers

However an entry point is left, what it has created is held by a pointer whose finalizer is
registered.  Each works on one pointer: `Tends` follows the context there along a function, and says
what it is where the function ends or is left.

`H.At s slot` is where an entry point is: the pointers before its own, its own with `slot` in it,
and those after.  The rules of `Tends` follow the function's text.  Where R may jump, the function
is left with what is in the slot then.  What a native call creates or changes is in no pointer until
`setAddress`, so the two are one step (`Tends.step`), with no point to jump from between them. -/
namespace Zucrypt
open Effects ByteMemory Resources Entry

variable {O : Objects} {α β : Type}

/-! ### What the pointers hold -/

/-- What the pointers of a list point to. -/
def contexts (ps : List (ExternalPtr O)) : Pool O := ps.map (·.addr)

namespace RHeap

/-- What belongs to the contexts that pointers hold. -/
def resources (H : RHeap O) : Multiset Resource := (contexts H.pointers).resources

/-- How many contexts pointers hold. -/
def count (H : RHeap O) : Int := (contexts H.pointers).count

/-- A pointer with a context has the finalizer for it. -/
def Owned (H : RHeap O) : Prop :=
  ∀ p ∈ H.pointers, ∀ c ∈ p.addr, p.finalizer = some c.kind

end RHeap

/-- A place on R's heap: a pointer with its finalizer, and the others around it. -/
structure Spot (O : Objects) where
  before : List (ExternalPtr O)
  after : List (ExternalPtr O)
  finalizer : Option ContextKind
  tag : Option StreamTag

/-- The pointer at a place, with this in it. -/
def Spot.ptr (s : Spot O) (slot : Option (LiveHandle O)) : ExternalPtr O := ⟨slot, s.finalizer, s.tag⟩

/-- The heap is that of the place, with this context there, if any. -/
structure RHeap.At (H : RHeap O) (s : Spot O) (slot : Option (LiveHandle O)) : Prop where
  pointers : H.pointers = s.before ++ s.ptr slot :: s.after
  owned : ∀ c ∈ slot, s.finalizer = some c.kind

namespace RHeap.At

variable {H : RHeap O} {s : Spot O} {slot slot' : Option (LiveHandle O)}

theorem pointer (h : H.At s slot) : H.pointer s.before.length = s.ptr slot := by
  rw [RHeap.pointer, h.pointers]
  simp

/-- The same heap, with another context there. -/
theorem set (h : H.At s slot) (howned : ∀ c ∈ slot', s.finalizer = some c.kind) :
    (H.setPointer s.before.length { H.pointer s.before.length with addr := slot' }).At s slot' := by
  refine ⟨?_, howned⟩
  rw [h.pointer, RHeap.setPointer, h.pointers]
  show (s.before ++ s.ptr slot :: s.after).set s.before.length (s.ptr slot') = _
  rw [List.set_append_right _ _ (Nat.le_refl _), Nat.sub_self, List.set_cons_zero]

/-- Only the pointers count. -/
theorem of_pointers {H' : RHeap O} (h : H.At s slot) (hH : H'.pointers = H.pointers) : H'.At s slot :=
  ⟨hH.trans h.pointers, h.owned⟩

end RHeap.At

/-! ### One pointer -/

/-- From this context at the place, the function ends or is left with one that `Q` knows,
and all that it holds is there. -/
def Tends (s : Spot O) (slot : Option (LiveHandle O)) (p : Entry O α)
    (Q : Option α → Option (LiveHandle O) → Prop) : Prop :=
  ∀ H : RHeap O, H.At s slot → ∀ w, Settles tariff InWindow (p H) w (slotResources slot) fun r w' held =>
    ∃ slot', r.2.At s slot' ∧ held = slotResources slot' ∧
      w'.live = w.live + (slotCount slot' - slotCount slot) ∧ Q r.1 slot'

namespace Tends

variable {s : Spot O} {slot : Option (LiveHandle O)} {p : Entry O α} {f : α → Entry O β}
  {Q : Option β → Option (LiveHandle O) → Prop}

theorem pure {b : β} (h : Q (some b) slot) : Tends s slot (Pure.pure b : Entry O β) Q := by
  intro H hH w
  exact Settles.pure ⟨slot, hH, rfl, by omega, h⟩

theorem leave (h : Q none slot) : Tends s slot (Entry.leave : Entry O β) Q := by
  intro H hH w
  exact Settles.pure ⟨slot, hH, rfl, by omega, h⟩

theorem mono {Q' : Option β → Option (LiveHandle O) → Prop} {p : Entry O β} (h : Tends s slot p Q)
    (hQ : ∀ r slot', Q r slot' → Q' r slot') : Tends s slot p Q' := by
  intro H hH w
  refine (h H hH w).mono ?_
  rintro r w' held ⟨slot', hH', hheld, hlive, hr⟩
  exact ⟨slot', hH', hheld, hlive, hQ _ _ hr⟩

/-- One part of a function and then the rest, unless it has been left. -/
theorem bind (hp : Tends s slot p fun r slot' =>
    match r with
    | none => Q none slot'
    | some a => Tends s slot' (f a) Q) : Tends s slot (p >>= f) Q := by
  intro H hH w
  show Settles tariff InWindow (Entry.seq p f H) w _ _
  unfold Entry.seq
  refine (hp H hH w).bind ?_
  rintro ⟨r, H'⟩ w' held ⟨slot', hH', rfl, hlive, hr⟩
  cases r with
  | none => exact Settles.pure ⟨slot', hH', rfl, hlive, hr⟩
  | some a =>
    refine (hr H' hH' w').mono ?_
    rintro r'' w'' held' ⟨slot'', hH'', hheld', hlive', hr'⟩
    exact ⟨slot'', hH'', hheld', by omega, hr'⟩

/-- The context there is the finalizer's. -/
theorem owned {p : Entry O β} (h : (∀ c ∈ slot, s.finalizer = some c.kind) → Tends s slot p Q) :
    Tends s slot p Q :=
  fun H hH => h hH.owned H hH

theorem ite {c : Prop} [Decidable c] {p q : Entry O β} (hp : c → Tends s slot p Q)
    (hq : ¬ c → Tends s slot q Q) : Tends s slot (if c then p else q) Q := by
  split
  · exact hp ‹_›
  · exact hq ‹_›

/-- A point where it may be left. -/
theorem jumpPoint {Q : Option Unit → Option (LiveHandle O) → Prop} (hleft : Q none slot)
    (hpassed : Q (some ()) slot) : Tends s slot (Entry.jumpPoint : Entry O Unit) Q := by
  intro H hH w
  unfold Entry.jumpPoint
  split
  · exact Settles.pure ⟨slot, hH, rfl, by omega, hpassed⟩
  · exact Settles.pure ⟨slot, hH, rfl, by omega, hleft⟩
  · exact Settles.pure ⟨slot, hH.of_pointers rfl, rfl, by omega, hpassed⟩

theorem allocations {Q : Option Unit → Option (LiveHandle O) → Prop} (hleft : Q none slot)
    (hpassed : Q (some ()) slot) (n : Nat) : Tends s slot (Entry.allocations n : Entry O Unit) Q := by
  induction n with
  | zero => exact pure hpassed
  | succ n ih => exact bind (jumpPoint hleft ih)

/-- A call that has nothing to do with the context. -/
theorem native {p : Adapter O β} (hp : Neutral p) (h : ∀ b, Q (some b) slot) :
    Tends s slot (Entry.native p) Q := by
  intro H hH w
  have hframe := ((hp w).frame (slotResources slot))
  rw [Multiset.zero_add] at hframe
  refine hframe.bind ?_
  rintro b w' held ⟨r', ⟨rfl, hlive⟩, rfl⟩
  refine Settles.pure ⟨slot, hH, Multiset.zero_add _, ?_, h b⟩
  rw [hlive, Int.sub_self]

theorem allocVector {Q : Option Nat → Option (LiveHandle O) → Prop} (hleft : Q none slot)
    (hpassed : ∀ p, Q (some p) slot) (n : Nat) : Tends s slot (Entry.allocVector n : Entry O Nat) Q := by
  have hneutral : Neutral (allocRaw n : Adapter O _) := accounts_perform fun _ _ => ⟨rfl, rfl⟩
  exact bind (jumpPoint hleft (native hneutral hpassed))

theorem address {Q : Option (Option (LiveHandle O)) → Option (LiveHandle O) → Prop}
    (h : Q (some slot) slot) : Tends s slot (Entry.address s.before.length) Q := by
  intro H hH w
  refine Settles.pure ⟨slot, hH, rfl, by omega, ?_⟩
  show Q (some (H.pointer s.before.length).addr) slot
  rw [hH.pointer]
  exact h

/-- A call that works on the context, whose pointer then holds what it left. -/
theorem step {γ : Type} {p : Adapter O γ} (l : γ → Option (LiveHandle O)) {R : γ → Prop}
    {f : γ → Entry O β} {i : Nat} (hi : i = s.before.length)
    (hp : Accounts p (slotResources slot) (fun r => slotResources (l r))
      fun r => slotCount (l r) - slotCount slot) (hyields : Yields p R)
    (howned : ∀ r, ∀ c ∈ l r, s.finalizer = some c.kind)
    (hf : ∀ r, R r → Tends s (l r) (f r) Q) :
    Tends s slot (Entry.native p >>= fun r => setAddress i (l r) >>= fun _ => f r) Q := by
  subst hi
  intro H hH w
  have hboth : Settles tariff InWindow (p) w (slotResources slot) fun r w' held =>
      (held = slotResources (l r) ∧ w'.live = w.live + (slotCount (l r) - slotCount slot)) ∧ R r := by
    intro t r w' hrun hok
    obtain ⟨held, ht, hr⟩ := hp w t r w' hrun hok
    exact ⟨held, ht, hr, hyields w t r w' hrun fun _ _ => trivial⟩
  have hnative : Settles tariff InWindow (Entry.native p H) w (slotResources slot) fun r w' held =>
      ∃ c, r = (some c, H) ∧ held = slotResources (l c) ∧
        w'.live = w.live + (slotCount (l c) - slotCount slot) ∧ R c :=
    hboth.bind fun c w' held hc => Settles.pure ⟨c, rfl, hc.1.1, hc.1.2, hc.2⟩
  show Settles tariff InWindow (Entry.seq (Entry.native p) _ H) w _ _
  unfold Entry.seq
  refine hnative.bind ?_
  rintro r w' held ⟨c, rfl, rfl, hlive, hc⟩
  refine (hf c hc _ (hH.set (howned c)) w').mono ?_
  rintro r'' w'' held' ⟨slot'', hH'', hheld', hlive', hr'⟩
  exact ⟨slot'', hH'', hheld', by omega, hr'⟩

end Tends

/-! ### Release -/

theorem accounts_free (c : LiveHandle O) : Accounts c.free c.resources (fun _ => 0) (fun _ => -1) := by
  cases c with
  | hash h => exact zucHashFree_frees (some h)
  | hmac h => exact zucHmacFree_frees (some h)
  | aes a => exact zucAesFree_frees (some a)
  | pkey k => exact zucPkeyFree_frees (some k)

section
variable {s : Spot O} {slot : Option (LiveHandle O)} {i : Nat}

theorem at_none {H : RHeap O} (hH : H.At s slot) :
    (H.setPointer s.before.length { H.pointer s.before.length with addr := none }).At s none :=
  hH.set (by simp)

/-- `release_ptr`: the pointer is cleared, and then the context is freed. -/
theorem tends_releasePtr (hi : i = s.before.length) {Q : Option Unit → Option (LiveHandle O) → Prop}
    (h : Q (some ()) none) : Tends s slot (releasePtr i) Q := by
  subst hi
  refine Tends.bind (Tends.address ?_)
  cases slot with
  | none => exact Tends.pure h
  | some c =>
    intro H hH w
    have hfree : Settles tariff InWindow c.free w c.resources fun _ w' held =>
        held = 0 ∧ w'.live = w.live + -1 := accounts_free c w
    have hcleared : ((setAddress s.before.length none : Entry O Unit) >>= fun _ => native c.free) H =
        native c.free (H.setPointer s.before.length { H.pointer s.before.length with addr := none }) :=
      Entry.bind_some rfl
    show Settles tariff InWindow (((setAddress s.before.length none : Entry O Unit) >>= fun _ =>
      native c.free) H) w c.resources _
    rw [hcleared]
    refine hfree.bind ?_
    rintro r w' held ⟨rfl, hlive⟩
    exact Settles.pure ⟨none, at_none hH, rfl, by rw [hlive]; rfl, h⟩

/-- A finalizer: the context is freed, and then the pointer is cleared. -/
theorem tends_finalizePtr (hi : i = s.before.length) {Q : Option Unit → Option (LiveHandle O) → Prop}
    (h : Q (some ()) none) : Tends s slot (finalizePtr i) Q := by
  subst hi
  refine Tends.bind (Tends.address ?_)
  cases slot with
  | none => exact Tends.pure h
  | some c =>
    intro H hH w
    have hfree : Settles tariff InWindow c.free w c.resources fun _ w' held =>
        held = 0 ∧ w'.live = w.live + -1 := accounts_free c w
    have hnative : Settles tariff InWindow (Entry.native c.free H) w c.resources fun r w' held =>
        r = (some (), H) ∧ held = 0 ∧ w'.live = w.live + -1 :=
      hfree.bind fun _ _ _ hr => Settles.pure ⟨rfl, hr⟩
    show Settles tariff InWindow (Entry.seq (Entry.native c.free) _ H) w _ _
    unfold Entry.seq
    refine hnative.bind ?_
    rintro r w' held ⟨rfl, rfl, hlive⟩
    exact Settles.pure ⟨none, at_none hH, rfl, by rw [hlive]; rfl, h⟩

theorem tends_result {Q : Option NativeResult → Option (LiveHandle O) → Prop} {st : ZucStatus}
    {v : Sexp} (hleft : Q none slot) (h : Q (some (nativeResult st v)) slot) :
    Tends s slot (result st v) Q :=
  Tends.bind (Tends.allocations hleft (Tends.pure h) 6)

end

/-! ### Digests and HMAC -/

/-- What a function leaves of the context it was given. -/
theorem Returns.slot {γ δ : Type} {p : Adapter O γ} {kind : δ → LiveHandle O} {h : δ}
    {handle : γ → Option δ} (hp : Returns kind (some h) p handle) (hkeeps : Keeps (some h) p handle) :
    Accounts p (slotResources (some (kind h))) (fun r => slotResources ((handle r).map kind))
      fun r => slotCount ((handle r).map kind) - slotCount (some (kind h)) := by
  intro w t r w' hrun hok
  obtain ⟨left, ht, rfl, hlive⟩ := hp w t r w' hrun hok
  have hsome : (handle r).isSome = true := hkeeps w t r w' hrun fun _ _ => trivial
  obtain ⟨h', hh'⟩ := Option.isSome_iff_exists.mp hsome
  refine ⟨_, ht, rfl, ?_⟩
  show w'.live = w.live + (slotCount ((handle r).map kind) - 1)
  rw [hlive, hh']
  rfl

section
variable {κ Op : Type} {K : DigestKind O κ Op} {held : κ → Multiset Resource} {s : Spot O} {i : Nat}

/-- What the functions of a kind do is accounted for. -/
structure Accountable (K : DigestKind O κ Op) (held : κ → Multiset Resource) : Prop where
  ops : NeutralOps K.ops held
  made : MadeOf K.context held
  kind : ∀ h, (K.context h).kind = K.kind

theorem accountable_hash : Accountable (hashKind : DigestKind O _ _) (fun _ => 0) :=
  ⟨neutral_hashOps, madeOf_hash, fun _ => rfl⟩

theorem accountable_hmac : Accountable (hmacKind : DigestKind O _ _) (fun k => {.key k}) :=
  ⟨neutral_macOps, madeOf_hmac, fun _ => rfl⟩

theorem Accountable.owned (hK : Accountable K held) (hkind : s.finalizer = some K.kind)
    (h : Option (StreamHandle κ Op)) : ∀ c ∈ h.map K.context, s.finalizer = some c.kind := by
  intro c hc
  obtain ⟨h', -, rfl⟩ := Option.map_eq_some_iff.mp hc
  rw [hkind, hK.kind h']

/-- The pointer holds a context of the kind, which is what the function returns. -/
def StillHeld (K : DigestKind O κ Op) (r : Option (ZucStatus × Option (StreamHandle κ Op)))
    (slot : Option (LiveHandle O)) : Prop :=
  ∃ h', slot = some (K.context h') ∧ ∀ u ∈ r, u.2 = some h'

/-- The loop keeps the context at its pointer, wherever it is left. -/
theorem tends_digestLoop (hK : Accountable K held) (hi : i = s.before.length) (hkind : s.finalizer = some K.kind)
    (bytes total offset : Nat) (h : StreamHandle κ Op) :
    Tends s (some (K.context h)) (digestLoop K i bytes total offset (some h)) (StillHeld K) := by
  induction hn : total - offset using Nat.strong_induction_on generalizing offset h with
  | _ n ih =>
    unfold digestLoop
    refine Tends.ite (fun hlt => ?_) fun _ => Tends.pure ⟨h, rfl, by simp⟩
    have hkeeps := streamUpdate_keeps K.ops (some h) (bytes + offset) (chunkLength total offset)
    have hreturns := streamUpdate_returns hK.ops hK.made (some h) (bytes + offset)
      (chunkLength total offset)
    refine Tends.step (fun r => r.2.map K.context) hi (hreturns.slot hkeeps) hkeeps
      (fun r => hK.owned hkind r.2) fun r hr => ?_
    obtain ⟨h', hh'⟩ := Option.isSome_iff_exists.mp hr
    rw [hh']
    refine Tends.bind (Tends.jumpPoint ⟨h', rfl, by simp⟩ ?_)
    refine Tends.ite (fun _ => Tends.pure ⟨h', rfl, ?_⟩) fun _ => ?_
    · rintro u ⟨⟩
      exact hh'
    · exact ih _ (hn ▸ chunk_shrinks hlt) _ _ rfl

/-- A context is gone if the function has come to its end. -/
def ReleasedIf (r : Option α) (slot : Option (LiveHandle O)) : Prop := r.isSome = true → slot = none

/-- The end of a digest releases its context, unless there is no memory for its vector. -/
theorem tends_digestFinish (hK : Accountable K held) (hi : i = s.before.length)
    (hkind : s.finalizer = some K.kind) (alg : ZucAlg) (h : StreamHandle κ Op) :
    Tends s (some (K.context h)) (digestFinish K i alg (some h)) ReleasedIf := by
  refine Tends.bind (Tends.allocVector (by simp [ReleasedIf]) (fun out => ?_) _)
  have hkeeps := streamFinish_keeps K.ops (some h) out (zucAlgSize alg) (some 0)
  have hreturns := streamFinish_returns hK.ops hK.made (some h) out (zucAlgSize alg) (some 0)
  refine Tends.step (fun r => r.2.1.map K.context) hi (hreturns.slot hkeeps) hkeeps
    (fun r => hK.owned hkind r.2.1) fun r _ => ?_
  refine Tends.bind (tends_releasePtr hi ?_)
  exact tends_result (fun _ => rfl) fun _ => rfl

/-- An update of a stream keeps its context. -/
theorem tends_streamFeed (hK : Accountable K held) (hi : i = s.before.length)
    (hkind : s.finalizer = some K.kind) (h : StreamHandle κ Op) (data : Sexp) :
    Tends s (some (K.context h)) (streamFeed K i h data) fun _ slot => slot.isSome = true := by
  have hkeeps := streamUpdate_keeps K.ops (some h) data.RAW data.XLENGTH
  have hreturns := streamUpdate_returns hK.ops hK.made (some h) data.RAW data.XLENGTH
  refine Tends.step (fun r => r.2.map K.context) hi (hreturns.slot hkeeps) hkeeps
    (fun r => hK.owned hkind r.2) fun r hr => ?_
  have hheld : (r.2.map K.context).isSome = true := by
    rw [Option.isSome_map]
    exact hr
  exact Tends.bind (Tends.jumpPoint hheld (Tends.bind (Tends.allocations hheld (Tends.pure hheld) 1)))

end

/-! ### AES-CBC -/

section
variable {s : Spot O} {i : Nat}

theorem owned_aes (hkind : s.finalizer = some .aes) (a : Option ZucAes) :
    ∀ c ∈ a.map (LiveHandle.aes : ZucAes → LiveHandle O), s.finalizer = some c.kind := by
  intro c hc
  obtain ⟨a', -, rfl⟩ := Option.map_eq_some_iff.mp hc
  exact hkind

theorem zucAesCbc_returns (dir : BlockChaining.Direction) (a : Option ZucAes) (inp len out : Nat) :
    Returns .aes a (zucAesCbc dir a inp len out : Adapter O _) Prod.snd := by
  cases dir with
  | encrypt => exact zucAesCbcEncrypt_returns a inp len out
  | decrypt => exact zucAesCbcDecrypt_returns a inp len out

theorem zucAesCbc_keeps (dir : BlockChaining.Direction) (a : Option ZucAes) (inp len out : Nat) :
    Keeps a (zucAesCbc dir a inp len out : Adapter O _) Prod.snd := by
  cases dir with
  | encrypt => exact zucAesCbcEncrypt_keeps a inp len out
  | decrypt => exact zucAesCbcDecrypt_keeps a inp len out

/-- The loop over the chunks of a message. -/
theorem tends_cbcLoop (hi : i = s.before.length) (hkind : s.finalizer = some .aes) (dir : BlockChaining.Direction)
    (bytes out total offset : Nat) (st : ZucStatus) (a : ZucAes) :
    Tends s (some (.aes a)) (cbcLoop dir i bytes out total offset st (some a)) fun _ _ => True := by
  induction hn : total - offset using Nat.strong_induction_on generalizing offset st a with
  | _ n ih =>
    unfold cbcLoop
    refine Tends.ite (fun hlt => ?_) fun _ => Tends.pure trivial
    refine Tends.ite (fun _ => Tends.pure trivial) fun _ => ?_
    have hkeeps := zucAesCbc_keeps (O := O) dir (some a) (bytes + offset) (chunkLength total offset)
      (out + offset)
    have hreturns := zucAesCbc_returns (O := O) dir (some a) (bytes + offset)
      (chunkLength total offset) (out + offset)
    refine Tends.step (fun r => r.2.map .aes) hi (hreturns.slot hkeeps) hkeeps
      (fun r => owned_aes hkind r.2) fun r hr => ?_
    obtain ⟨a', ha'⟩ := Option.isSome_iff_exists.mp hr
    rw [ha']
    refine Tends.bind (Tends.jumpPoint trivial ?_)
    exact ih _ (hn ▸ chunk_shrinks hlt) _ _ _ rfl

end

/-! ### Streams -/

section
variable {s : Spot O} {slot : Option (LiveHandle O)} {i : Nat}

theorem tends_streamTag (hi : i = s.before.length) {Q : Option StreamTag → Option (LiveHandle O) → Prop}
    (hleft : Q none slot) (htag : ∀ tag, s.tag = some tag → Q (some tag) slot) :
    Tends s slot (streamTag i) Q := by
  subst hi
  intro H hH w
  have htagged : (H.pointer s.before.length).tag = s.tag := by rw [hH.pointer]; rfl
  unfold streamTag
  rw [Entry.bind_some (a := (H.pointer s.before.length).tag) rfl, htagged]
  cases ht : s.tag with
  | none => exact Tends.leave hleft H hH w
  | some tag => exact Tends.pure (htag tag ht) H hH w

/-- What an update of a stream does to its context: nothing. -/
theorem tends_streamUpdate (hi : i = s.before.length) (data : Sexp) :
    Tends s slot (zucryptStreamUpdate i data) fun r slot' =>
      slot'.isSome = slot.isSome ∧ (slot = none → ∀ st ∈ r, st = .errInvalidArgument) := by
  refine Tends.owned fun howned => ?_
  refine Tends.bind (tends_streamTag hi ⟨rfl, by simp⟩ fun tag _ => ?_)
  refine Tends.bind ?_
  subst hi
  refine Tends.address ?_
  cases slot with
  | none =>
    refine Tends.bind (Tends.allocations ⟨rfl, by simp⟩ (Tends.pure ⟨rfl, ?_⟩) 1)
    rintro - st ⟨⟩
    rfl
  | some c =>
    have hfinalizer := howned c rfl
    have hkept : ∀ (r : Option ZucStatus) (slot' : Option (LiveHandle O)), slot'.isSome = true →
        slot'.isSome = (some c).isSome ∧ (some c = none → ∀ st ∈ r, st = .errInvalidArgument) :=
      fun r slot' h => ⟨h, by simp⟩
    cases htag : tag.isHmac <;> cases c
    all_goals first
      | exact Tends.leave (hkept _ _ rfl)
      | exact (tends_streamFeed accountable_hash rfl hfinalizer _ data).mono hkept
      | exact (tends_streamFeed accountable_hmac rfl hfinalizer _ data).mono hkept

/-- And a finish: it releases it, unless it is left before. -/
theorem tends_streamFinish (hi : i = s.before.length) :
    Tends s slot (zucryptStreamFinish i) fun r slot' =>
      ReleasedIf r slot' ∧ (slot = none → slot' = none ∧ ∀ u ∈ r, u.status = .errInvalidArgument) := by
  refine Tends.owned fun howned => ?_
  refine Tends.bind (tends_streamTag hi ⟨by simp [ReleasedIf], by simp⟩ fun tag _ => ?_)
  refine Tends.bind ?_
  subst hi
  refine Tends.address ?_
  cases slot with
  | none =>
    refine tends_result ⟨fun _ => rfl, by simp⟩ ⟨fun _ => rfl, ?_⟩
    rintro - 
    refine ⟨rfl, ?_⟩
    rintro u ⟨⟩
    rfl
  | some c =>
    have hfinalizer := howned c rfl
    have hkept : ∀ (r : Option NativeResult) (slot' : Option (LiveHandle O)), ReleasedIf r slot' →
        ReleasedIf r slot' ∧ (some c = none → slot' = none ∧ ∀ u ∈ r, u.status = .errInvalidArgument) :=
      fun r slot' h => ⟨h, by simp⟩
    cases htag : tag.isHmac <;> cases c
    all_goals first
      | exact Tends.leave (hkept _ _ (by simp [ReleasedIf]))
      | exact (tends_digestFinish accountable_hash rfl hfinalizer _ _).mono hkept
      | exact (tends_digestFinish accountable_hmac rfl hfinalizer _ _).mono hkept

end

end Zucrypt
