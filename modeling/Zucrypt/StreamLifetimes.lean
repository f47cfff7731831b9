import Zucrypt.NativeLifetimes
import Zucrypt.StaleHandles

/-! # The lifetime of a stream

Whatever is done with a stream's pointer, in whatever order and wherever it is left: its context is
freed once, and then nothing reaches it any more.

`contexts_survive_longjmp` collects what holds of R's entry points, each of which R may leave by a
jump wherever it allocates, raises, or looks for an interrupt.  From any heap whose pointers own
what they say (`Owned`):

* wherever an entry point is left, its context is in a pointer with a finalizer, or freed;
* after the next collection there is a context more if an object was returned, and one less if a
  stream was finished, and so none is lost between R and C;
* of a sequence of updates, finishes and finalizers on one stream, each with a jump of its own,
  what comes after a finish that returned or a finalizer is refused, and the block is freed as often
  as it was owned.

The first two are `NativeCall.keeps` and `NativeCall.collects` of the modules before.  For the
third, `settles_streamActs` follows the pointer and `takesNoBlock_streamActs` says that no act takes
a block, so that what was there in the beginning is all there is to free.

Nothing is assumed of the backend but that it is not stopped meanwhile (`InWindow`).  A finished
stream gives up its context although no object is returned; `finished_stream_releases` is a run. -/
namespace Zucrypt
open Effects ByteMemory Resources Entry

variable {O : Objects} {α β : Type}

/-! ### No new blocks -/

/-- A function that takes no block of memory. -/
def TakesNoBlock (p : Adapter O α) : Prop :=
  ∀ w, Ensures (fun _ => True) p w fun t _ _ => ∀ b, gained tariff (.block b) t = 0

/-- What two stretches of a trace took, together. -/
theorem gained_append (x : Resource) (t t' : List (Event (Call O))) :
    gained tariff x (t ++ t') = gained tariff x t + gained tariff x t' := by
  rw [gained, List.map_append, List.sum_append]
  rfl

namespace TakesNoBlock

theorem pure (a : α) : TakesNoBlock (Pure.pure a : Adapter O α) :=
  fun _ => Ensures.pure_iff.mpr fun _ => rfl

theorem bind {p : Adapter O α} {f : α → Adapter O β} (hp : TakesNoBlock p)
    (hf : ∀ a, TakesNoBlock (f a)) : TakesNoBlock (p >>= f) := by
  intro w
  refine Ensures.bind_iff.mpr ((hp w).mono ?_)
  intro t a w' ht
  refine (hf a w').mono ?_
  intro t' b w'' ht' b
  rw [gained_append, ht b, ht' b]

theorem ite {c : Prop} [Decidable c] {p q : Adapter O α} (hp : c → TakesNoBlock p)
    (hq : ¬ c → TakesNoBlock q) : TakesNoBlock (if c then p else q) := by
  split
  · exact hp ‹_›
  · exact hq ‹_›

theorem read : TakesNoBlock (Proc.read : Adapter O World) :=
  fun _ => Ensures.read_iff.mpr fun _ => rfl

theorem update (f : World → World) : TakesNoBlock (Proc.update f : Adapter O Unit) :=
  fun _ => Ensures.update_iff.mpr fun _ => rfl

theorem perform {op : Call O α}
    (h : ∀ a b, (tariff.gains (⟨op, a⟩ : Event (Call O))).count (.block b) = 0) :
    TakesNoBlock (Proc.perform op : Adapter O α) := by
  refine fun _ => Ensures.perform_iff.mpr fun a _ b => ?_
  show (tariff.gains _).count _ + 0 = 0
  rw [h]

/-- The backend takes blocks of its own only. -/
theorem psa (c : PsaCall O α) : TakesNoBlock (psa c) := by
  refine bind (perform fun r b => ?_) fun r => bind (update _) fun _ => pure _
  have hcreated : ∀ k : PsaStatus × KeyId, (createdKey k).count (.block b) = 0 := by
    intro k
    unfold createdKey
    split
    · simp
    · rfl
  have hused : c.usedKey.count (.block b) = 0 := by cases c <;> rfl
  cases c
  all_goals first
    | exact hused
    | exact hcreated _

theorem writeMem (p : Nat) (bs : List Byte) : TakesNoBlock (Zucrypt.writeMem p bs : Adapter O _) :=
  update _

theorem readMem (p n : Nat) : TakesNoBlock (Zucrypt.readMem p n : Adapter O _) :=
  bind read fun _ => pure _

theorem freeRecord (what : Record) (p : Nat) :
    TakesNoBlock (Zucrypt.freeRecord what p : Adapter O _) := perform fun _ _ => rfl

theorem liveAdd (d : Int) : TakesNoBlock (zucIntLiveAdd d : Adapter O _) := update _

end TakesNoBlock

open TakesNoBlock

section
variable {κ Op : Type} {B : StreamOps O κ Op} {h : StreamHandle κ Op}

/-- The backend's functions on a kind of operation are single calls. -/
structure OpsTakeNoBlock (B : StreamOps O κ Op) : Prop where
  update : ∀ op bs, TakesNoBlock (B.update op bs)
  finish : ∀ op n, TakesNoBlock (B.finish op n)

/-- An update takes no block. -/
theorem takesNoBlock_streamUpdate (hB : OpsTakeNoBlock B) (data dataLen : Nat) :
    TakesNoBlock (streamUpdate B (some h) data dataLen) := by
  refine ite (fun _ => pure _) fun _ => ?_
  refine ite (fun _ => pure _) fun _ => ?_
  refine ite (fun _ => pure _) fun _ => ?_
  exact bind (TakesNoBlock.readMem _ _) fun _ => bind (hB.update _ _) fun _ => pure _

/-- Nor does a finish. -/
theorem takesNoBlock_streamFinish (hB : OpsTakeNoBlock B) (out outSize : Nat) (outLen : SizeCell) :
    TakesNoBlock (streamFinish B (some h) out outSize outLen) := by
  refine ite (fun _ => pure _) fun _ => ?_
  refine ite (fun _ => pure _) fun _ => ?_
  refine ite (fun _ => pure _) fun _ => ?_
  exact bind (hB.finish _ _) fun _ => bind (TakesNoBlock.writeMem _ _) fun _ => pure _

end

/-- Nor does freeing a handle, of any kind. -/
theorem takesNoBlock_free (c : LiveHandle O) : TakesNoBlock c.free := by
  cases c with
  | hash h =>
    exact bind (TakesNoBlock.psa _) fun _ => bind (TakesNoBlock.freeRecord _ _) fun _ => liveAdd _
  | hmac h =>
    refine bind (TakesNoBlock.psa _) fun _ => bind (TakesNoBlock.psa _) fun _ => ?_
    exact bind (TakesNoBlock.freeRecord _ _) fun _ => liveAdd _
  | aes a =>
    exact bind (TakesNoBlock.psa _) fun _ => bind (TakesNoBlock.freeRecord _ _) fun _ => liveAdd _
  | pkey k =>
    have hdestroy : TakesNoBlock (pkeyDestroy k : Adapter O _) :=
      bind (perform fun _ _ => rfl) fun _ => TakesNoBlock.freeRecord _ _
    exact bind hdestroy fun _ => liveAdd _

/-! The same of a function that may be left. -/

/-- Wherever it is left. -/
def Entry.TakesNoBlock (p : Entry O α) : Prop := ∀ H, Zucrypt.TakesNoBlock (p H)

namespace Entry.TakesNoBlock

theorem bind {p : Entry O α} {f : α → Entry O β} (hp : TakesNoBlock p) (hf : ∀ a, TakesNoBlock (f a)) :
    TakesNoBlock (p >>= f) := by
  intro H
  show Zucrypt.TakesNoBlock (Entry.seq p f H)
  refine Zucrypt.TakesNoBlock.bind (hp H) fun r => ?_
  split
  · exact Zucrypt.TakesNoBlock.pure _
  · exact hf _ _

theorem pure (a : α) : TakesNoBlock (Pure.pure a : Entry O α) := fun _ => Zucrypt.TakesNoBlock.pure _

theorem leave : TakesNoBlock (Entry.leave : Entry O α) := fun _ => Zucrypt.TakesNoBlock.pure _

theorem look (f : RHeap O → α) : TakesNoBlock (Entry.look f) := fun _ => Zucrypt.TakesNoBlock.pure _

theorem change (f : RHeap O → RHeap O) : TakesNoBlock (Entry.change f) :=
  fun _ => Zucrypt.TakesNoBlock.pure _

theorem native {p : Adapter O α} (hp : Zucrypt.TakesNoBlock p) : TakesNoBlock (Entry.native p) :=
  fun _ => Zucrypt.TakesNoBlock.bind hp fun _ => Zucrypt.TakesNoBlock.pure _

theorem jumpPoint : TakesNoBlock (Entry.jumpPoint : Entry O Unit) := by
  intro H
  unfold Entry.jumpPoint
  split <;> exact Zucrypt.TakesNoBlock.pure _

theorem allocations (n : Nat) : TakesNoBlock (Entry.allocations n : Entry O Unit) := by
  induction n with
  | zero => exact pure ()
  | succ n ih => exact bind jumpPoint fun _ => ih

theorem result (st : ZucStatus) (v : Sexp) : TakesNoBlock (Entry.result st v : Entry O _) :=
  bind (allocations 6) fun _ => pure _

theorem allocVector (n : Nat) : TakesNoBlock (Entry.allocVector n : Entry O Nat) :=
  bind jumpPoint fun _ => native (perform fun _ _ => rfl)

theorem releasePtr (i : Nat) : TakesNoBlock (Zucrypt.releasePtr i : Entry O Unit) := by
  refine bind (look _) fun addr => ?_
  cases addr with
  | none => exact pure ()
  | some c => exact bind (change _) fun _ => native (takesNoBlock_free c)

theorem finalizePtr (i : Nat) : TakesNoBlock (Zucrypt.finalizePtr i : Entry O Unit) := by
  refine bind (look _) fun addr => ?_
  cases addr with
  | none => exact pure ()
  | some c => exact bind (native (takesNoBlock_free c)) fun _ => change _

theorem streamTag (i : Nat) : TakesNoBlock (Zucrypt.streamTag i : Entry O _) := by
  refine bind (look _) fun tag => ?_
  cases tag with
  | none => exact leave
  | some tag => exact pure tag

variable {κ Op : Type} {K : DigestKind O κ Op}

theorem streamFeed (hB : OpsTakeNoBlock K.ops) (i : Nat) (h : StreamHandle κ Op) (data : Sexp) :
    TakesNoBlock (Zucrypt.streamFeed K i h data) :=
  bind (native (takesNoBlock_streamUpdate hB _ _)) fun _ => bind (change _) fun _ =>
    bind jumpPoint fun _ => bind (allocations 1) fun _ => pure _

theorem digestFinish (hB : OpsTakeNoBlock K.ops) (i : Nat) (alg : ZucAlg) (h : StreamHandle κ Op) :
    TakesNoBlock (Zucrypt.digestFinish K i alg (some h)) :=
  bind (allocVector _) fun _ => bind (native (takesNoBlock_streamFinish hB _ _ _)) fun _ =>
    bind (change _) fun _ => bind (releasePtr i) fun _ => result _ _

theorem streamAct (i : Nat) (a : StreamAct) : TakesNoBlock (a.run i : Entry O _) := by
  have hhash : OpsTakeNoBlock (hashOps : StreamOps O _ _) :=
    ⟨fun _ _ => Zucrypt.TakesNoBlock.psa _, fun _ _ => Zucrypt.TakesNoBlock.psa _⟩
  have hmac : OpsTakeNoBlock (macOps : StreamOps O _ _) :=
    ⟨fun _ _ => Zucrypt.TakesNoBlock.psa _, fun _ _ => Zucrypt.TakesNoBlock.psa _⟩
  cases a with
  | update data =>
    refine bind (bind (streamTag i) fun tag => bind (look _) fun addr => ?_) fun _ => pure _
    cases htag : tag.isHmac <;> rcases addr with _ | (_ | _ | _ | _)
    all_goals first
      | exact leave
      | exact bind (allocations 1) fun _ => pure _
      | exact streamFeed hhash i _ data
      | exact streamFeed hmac i _ data
  | finish =>
    refine bind (bind (streamTag i) fun tag => bind (look _) fun addr => ?_) fun _ => pure _
    cases htag : tag.isHmac <;> rcases addr with _ | (_ | _ | _ | _)
    all_goals first
      | exact leave
      | exact result _ _
      | exact digestFinish hhash i _ _
      | exact digestFinish hmac i _ _
  | finalize => exact bind (finalizePtr i) fun _ => pure _

end Entry.TakesNoBlock

/-- So no acts on a stream take one. -/
theorem takesNoBlock_streamActs (ptr : Nat) (acts : List (StreamAct × Option Nat)) (H : RHeap O) :
    TakesNoBlock (streamActs ptr acts H) := by
  induction acts generalizing H with
  | nil => exact TakesNoBlock.pure _
  | cons a acts ih =>
    refine TakesNoBlock.bind (Entry.TakesNoBlock.streamAct ptr a.1 _) fun r => ?_
    exact TakesNoBlock.bind (ih r.2) fun _ => TakesNoBlock.pure _

/-! ### One act after another -/

/-- After this the pointer is empty: a finish that was not left, or a finalizer. -/
def StreamAct.Closes : StreamAct → Option ZucStatus → Prop
  | update _, _ => False
  | finish, st => st.isSome = true
  | finalize, _ => True

/-- Nothing was done, unless it was left before. -/
def Refused (st : Option ZucStatus) : Prop := ∀ e ∈ st, e = .errInvalidArgument

section
variable {s : Spot O} {slot : Option (LiveHandle O)} {ptr : Nat}

/-- What one act leaves in the pointer: an empty one stays empty and refuses, and a finish that
returns, or a finalizer, empties it. -/
theorem tends_streamAct (hi : ptr = s.before.length) (a : StreamAct) :
    Tends s slot (a.run ptr) fun r slot' =>
      (slot = none → slot' = none ∧ Refused r.join) ∧ (a.Closes r.join → slot' = none) := by
  cases a with
  | update data =>
    refine Tends.bind ((tends_streamUpdate hi data).mono ?_)
    rintro r slot' ⟨hkept, hrefused⟩
    have hnone : slot = none → slot' = none := by
      rintro rfl
      exact Option.isNone_iff_eq_none.mp (Option.isSome_eq_false_iff.mp hkept)
    cases r with
    | none => exact ⟨fun h => ⟨hnone h, by rintro e ⟨⟩⟩, by rintro ⟨⟩⟩
    | some st => exact Tends.pure ⟨fun h => ⟨hnone h, hrefused h⟩, by rintro ⟨⟩⟩
  | finish =>
    refine Tends.bind ((tends_streamFinish hi).mono ?_)
    rintro r slot' ⟨hreleased, hrefused⟩
    cases r with
    | none => exact ⟨fun h => ⟨(hrefused h).1, by rintro e ⟨⟩⟩, by rintro ⟨⟩⟩
    | some u =>
      refine Tends.pure ⟨fun h => ⟨(hrefused h).1, ?_⟩, fun _ => hreleased rfl⟩
      rintro e ⟨⟩
      exact (hrefused h).2 u rfl
  | finalize =>
    exact Tends.bind (tends_finalizePtr hi (Tends.pure ⟨fun _ => ⟨rfl, by rintro e ⟨⟩⟩, fun _ => rfl⟩))

/-- What any sequence of them leaves in the pointer. -/
theorem settles_streamActs (hi : ptr = s.before.length) (acts : List (StreamAct × Option Nat))
    (H : RHeap O) (hH : H.At s slot) (w : World) :
    Settles tariff InWindow (streamActs ptr acts H) w (slotResources slot) fun rs w' held =>
      ∃ slot', rs.2.At s slot' ∧ held = slotResources slot' ∧
        w'.live = w.live + (slotCount slot' - slotCount slot) ∧
        (slot = none → slot' = none ∧ ∀ r ∈ rs.1, Refused r) ∧
        (acts.zip rs.1).Pairwise (fun a b => a.1.1.Closes a.2 → Refused b.2) ∧
        ((∃ a ∈ acts, a.1 = .finalize) → slot' = none) := by
  -- on the calls; the pointer is what one leaves for the next
  induction acts generalizing H slot w with
  | nil =>
    refine Settles.pure ⟨slot, hH, rfl, by omega, ?_, List.Pairwise.nil, ?_⟩
    · rintro rfl
      exact ⟨rfl, by simp⟩
    · rintro ⟨a, ha, -⟩
      cases ha
  | cons a acts ih =>
    have hact : Tends s slot (a.1.run ptr) fun r slot' =>
        (slot = none → slot' = none ∧ Refused r.join) ∧ (a.1.Closes r.join → slot' = none) :=
      tends_streamAct hi a.1
    refine (hact { H with jump := a.2 } (hH.of_pointers rfl) w).bind ?_
    rintro ⟨r, H'⟩ w' held ⟨slot', hH', rfl, hlive, hempty, hcloses⟩
    refine (ih H' hH' w').bind ?_
    rintro ⟨rs, H''⟩ w'' held ⟨slot'', hH'', rfl, hlive', hempty', hpairs, hfinal⟩
    refine Settles.pure ⟨slot'', hH'', rfl, by omega, ?_, ?_, ?_⟩
    · intro hslot
      refine ⟨(hempty' (hempty hslot).1).1, ?_⟩
      intro st hst
      rcases List.mem_cons.mp hst with rfl | hst
      · exact (hempty hslot).2
      · exact (hempty' (hempty hslot).1).2 st hst
    · -- a call that closes it leaves the pointer empty for all later ones
      refine List.Pairwise.cons ?_ hpairs
      rintro ⟨b, st⟩ hb hclosed
      exact (hempty' (hcloses hclosed)).2 st (List.of_mem_zip hb).2
    · rintro ⟨b, hb, hfinalize⟩
      rcases List.mem_cons.mp hb with rfl | hb
      · have hnone : slot' = none := hcloses (by rw [hfinalize]; trivial)
        exact (hempty' hnone).1
      · exact hfinal ⟨b, hb, hfinalize⟩

end

/-! ### An empty pointer -/

/-- Nothing is called and no pointer is touched. -/
def StaysIdle (p : Entry O α) (H : RHeap O) (Q : Option α → Prop) : Prop :=
  ∃ r H', p H = Pure.pure (r, H') ∧ H'.pointers = H.pointers ∧ Q r

namespace StaysIdle

variable {H : RHeap O} {Q : Option β → Prop}

theorem pure {b : β} (h : Q (some b)) : StaysIdle (Pure.pure b) H Q := ⟨_, H, rfl, rfl, h⟩

theorem leave (h : Q none) : StaysIdle (Entry.leave : Entry O β) H Q := ⟨_, H, rfl, rfl, h⟩

theorem bind {p : Entry O α} {f : α → Entry O β} {P : Option α → Prop} (hp : StaysIdle p H P)
    (hleft : P none → Q none)
    (hf : ∀ a H', H'.pointers = H.pointers → P (some a) → StaysIdle (f a) H' Q) : StaysIdle (p >>= f) H Q := by
  obtain ⟨r, H', hrun, hH', hr⟩ := hp
  cases r with
  | none =>
    refine ⟨none, H', ?_, hH', hleft hr⟩
    show Entry.seq p f H = _
    unfold Entry.seq
    rw [hrun]
    rfl
  | some a =>
    obtain ⟨r', H'', hrun', hH'', hr'⟩ := hf a H' hH' hr
    exact ⟨r', H'', by rw [Entry.bind_some hrun, hrun'], hH''.trans hH', hr'⟩

theorem jumpPoint {Q : Option Unit → Prop} (hleft : Q none) (hpassed : Q (some ())) :
    StaysIdle (Entry.jumpPoint : Entry O Unit) H Q := by
  unfold StaysIdle Entry.jumpPoint
  split
  · exact ⟨_, H, rfl, rfl, hpassed⟩
  · exact ⟨_, H, rfl, rfl, hleft⟩
  · exact ⟨_, _, rfl, rfl, hpassed⟩

theorem allocations {Q : Option Unit → Prop} (hleft : Q none) (hpassed : Q (some ())) (n : Nat) :
    StaysIdle (Entry.allocations n : Entry O Unit) H Q := by
  induction n generalizing H with
  | zero => exact pure hpassed
  | succ n ih =>
    have hpoint : StaysIdle (Entry.jumpPoint : Entry O Unit) H fun _ => True := jumpPoint trivial trivial
    exact bind hpoint (fun _ => hleft) fun _ _ _ _ => ih

end StaysIdle

section
variable {H : RHeap O} {ptr : Nat}

/-- The pointer's tag is looked up, or the call is left. -/
theorem idle_streamTag : StaysIdle (streamTag ptr) H fun _ => True := by
  unfold streamTag
  have hlook : StaysIdle (look fun H => (H.pointer ptr).tag) H fun _ => True := ⟨_, H, rfl, rfl, trivial⟩
  refine StaysIdle.bind hlook (fun _ => trivial) fun tag H' _ _ => ?_
  cases tag with
  | none => exact StaysIdle.leave trivial
  | some tag => exact StaysIdle.pure trivial

/-- An empty pointer has no address. -/
theorem idle_address (hempty : (H.pointer ptr).addr = none) :
    StaysIdle (address ptr) H fun addr => addr = some none :=
  ⟨_, H, rfl, rfl, congrArg some hempty⟩

/-- On an empty pointer every act is refused, and calls nothing. -/
theorem idle_streamAct (hempty : (H.pointer ptr).addr = none) (a : StreamAct) :
    StaysIdle (a.run ptr) H fun r => Refused r.join := by
  have hempty' : ∀ H' : RHeap O, H'.pointers = H.pointers → (H'.pointer ptr).addr = none := by
    intro H' hH'
    rw [RHeap.pointer, hH']
    exact hempty
  have hleft : Refused (none : Option (Option ZucStatus)).join := by rintro e ⟨⟩
  -- each looks up the address before it does anything, and there is none
  cases a with
  | update data =>
    have hcall : StaysIdle (zucryptStreamUpdate ptr data) H Refused := by
      refine StaysIdle.bind idle_streamTag (fun _ => hleft) fun tag H' hH' _ => ?_
      refine StaysIdle.bind (idle_address (hempty' H' hH')) (fun h => by cases h) fun addr H'' _ haddr => ?_
      obtain rfl := Option.some.inj haddr
      have hone : StaysIdle (allocations 1 : Entry O Unit) H'' fun _ => True :=
        StaysIdle.allocations trivial trivial 1
      refine StaysIdle.bind hone (fun _ => hleft) fun _ _ _ _ => StaysIdle.pure ?_
      rintro e ⟨⟩
      rfl
    exact StaysIdle.bind hcall (fun _ => hleft) fun st _ _ hst => StaysIdle.pure hst
  | finish =>
    have hcall : StaysIdle (zucryptStreamFinish ptr) H fun r => ∀ u ∈ r, u.status = .errInvalidArgument := by
      refine StaysIdle.bind idle_streamTag (fun _ => by simp) fun tag H' hH' _ => ?_
      refine StaysIdle.bind (idle_address (hempty' H' hH')) (fun h => by cases h) fun addr H'' _ haddr => ?_
      obtain rfl := Option.some.inj haddr
      have hsix : StaysIdle (allocations 6 : Entry O Unit) H'' fun _ => True :=
        StaysIdle.allocations trivial trivial 6
      refine StaysIdle.bind hsix (fun _ => by simp) fun _ _ _ _ => StaysIdle.pure ?_
      rintro u ⟨⟩
      rfl
    refine StaysIdle.bind hcall (fun _ => hleft) fun u _ _ hu => StaysIdle.pure ?_
    rintro e ⟨⟩
    exact hu u rfl
  | finalize =>
    have hcall : StaysIdle (finalizePtr ptr) H fun _ => True := by
      refine StaysIdle.bind (idle_address hempty) (fun _ => trivial) fun addr H' _ haddr => ?_
      obtain rfl := Option.some.inj haddr
      exact StaysIdle.pure trivial
    exact StaysIdle.bind hcall (fun _ => hleft) fun _ _ _ _ => StaysIdle.pure hleft

/-- So it is with any acts, one after the other. -/
theorem idle_streamActs (acts : List (StreamAct × Option Nat)) (hempty : (H.pointer ptr).addr = none) :
    ∃ rs H', streamActs ptr acts H = Pure.pure (rs, H') ∧ H'.pointers = H.pointers ∧
      ∀ r ∈ rs, Refused r := by
  induction acts generalizing H with
  | nil => exact ⟨[], H, rfl, rfl, by simp⟩
  | cons a acts ih =>
    obtain ⟨r, H', hrun, hH', hr⟩ := idle_streamAct (H := { H with jump := a.2 }) hempty a.1
    have hempty' : (H'.pointer ptr).addr = none := by
      rw [RHeap.pointer, hH']
      exact hempty
    obtain ⟨rs, H'', hrun', hH'', hrs⟩ := ih hempty'
    refine ⟨r.join :: rs, H'', ?_, hH''.trans hH', ?_⟩
    · calc streamActs ptr (a :: acts) H
          = streamActs ptr acts H' >>= fun rs => Pure.pure (r.join :: rs.1, rs.2) := by
            rw [streamActs, hrun]
            rfl
        _ = Pure.pure (r.join :: rs, H'') := by
            rw [hrun']
            rfl
    · intro st hst
      rcases List.mem_cons.mp hst with rfl | hst
      · exact hr
      · exact hrs st hst

end

/-! ### Native contexts -/

/-- Whatever is done with a stream's pointer, its context is freed once. -/
theorem streamActs_frees {H : RHeap O} (howned : H.Owned) (ptr : Nat)
    (acts : List (StreamAct × Option Nat)) (w : World) :
    Ensures InWindow (streamActs ptr acts H) w fun t rs w' =>
      (acts.zip rs.1).Pairwise (fun a b => a.1.1.Closes a.2 → Refused b.2) ∧
      (∀ b, spent tariff (.block b) t + (slotResources (rs.2.pointer ptr).addr).count (.block b) =
        (slotResources (H.pointer ptr).addr).count (.block b)) ∧
      w'.live = w.live + (slotCount (rs.2.pointer ptr).addr - slotCount (H.pointer ptr).addr) ∧
      ((∃ a ∈ acts, a.1 = .finalize) → (rs.2.pointer ptr).addr = none) := by
  by_cases hlt : ptr < H.pointers.length
  · obtain ⟨s, hi, hat, -⟩ := howned.exists_at hlt
    intro t rs w' hrun hok
    obtain ⟨held, htrades, slot, hat', rfl, hlive, -, hpairs, hfinal⟩ :=
      settles_streamActs hi acts H hat w t rs w' hrun hok
    have hslot : (rs.2.pointer ptr).addr = slot := by
      rw [hi, hat'.pointer]
      rfl
    rw [hslot]
    refine ⟨hpairs, fun b => ?_, hlive, hfinal⟩
    have hnone : gained tariff (.block b) t = 0 :=
      takesNoBlock_streamActs ptr acts H w t rs w' hrun (fun _ _ => trivial) b
    have hcount := htrades.count_eq (.block b)
    omega
  · -- no such pointer: every act is refused, or left
    have hempty : (H.pointer ptr).addr = none := by
      rw [RHeap.pointer_of_le (by omega)]
    obtain ⟨rs, H', hrun, hH', hrefused⟩ := idle_streamActs acts hempty
    have hempty' : (H'.pointer ptr).addr = none := by
      rw [RHeap.pointer, hH']
      exact hempty
    rw [hrun]
    refine Ensures.pure_iff.mpr ⟨?_, fun b => ?_, ?_, fun _ => hempty'⟩
    · refine List.Pairwise.imp_of_mem ?_ (List.pairwise_of_forall fun _ _ => trivial)
      rintro a ⟨b, st⟩ - hb - -
      exact hrefused st (List.of_mem_zip hb).2
    · rw [hempty, hempty']
      rfl
    · rw [hempty, hempty']
      omega

/-- Wherever an entry point is left, its context is in a pointer with a finalizer; after the
next collection there is one context more if an object was returned, and one less if a stream
was finished; and whatever is done with a stream's pointer, its context is freed once. -/
theorem contexts_survive_longjmp (H : RHeap O) (howned : H.Owned) (w : World) :
    (∀ c : NativeCall, Ensures InWindow (c.run H) w fun t r w' =>
      r.2.Owned ∧ Trades tariff H.resources t r.2.resources ∧
        w'.live = w.live + (r.2.count - H.count)) ∧
    (∀ c : NativeCall, Ensures InWindow (c.collected H) w fun t r w' =>
      r.2.Owned ∧ Trades tariff H.resources t r.2.resources ∧
        w'.live = w.live + (if (returned r.1).isSome then 1 else 0) - c.released H r.2 ∧
        (∀ i, returned r.1 = some i → H.pointers.length ≤ i ∧ (r.2.pointer i).addr.isSome = true) ∧
        ∀ ptr, c.releases = some ptr → r.1.isSome = true → (r.2.pointer ptr).addr = none) ∧
    ∀ (ptr : Nat) (acts : List (StreamAct × Option Nat)),
      (Ensures InWindow (streamActs ptr acts H) w fun t rs w' =>
        (acts.zip rs.1).Pairwise (fun a b => a.1.1.Closes a.2 → Refused b.2) ∧
        (∀ b, spent tariff (.block b) t + (slotResources (rs.2.pointer ptr).addr).count (.block b) =
          (slotResources (H.pointer ptr).addr).count (.block b)) ∧
        w'.live = w.live + (slotCount (rs.2.pointer ptr).addr - slotCount (H.pointer ptr).addr) ∧
        ((∃ a ∈ acts, a.1 = .finalize) → (rs.2.pointer ptr).addr = none)) ∧
      ((H.pointer ptr).addr = none → ∃ rs H', streamActs ptr acts H = Pure.pure (rs, H') ∧
        H'.pointers = H.pointers ∧ ∀ r ∈ rs, Refused r) := by
  refine ⟨fun c => ?_, fun c => ?_, fun ptr acts => ⟨?_, idle_streamActs acts⟩⟩
  · -- what is held is what the pointers own
    intro t r w' hrun hok
    obtain ⟨held, ht, hkept⟩ := c.keeps howned t r w' hrun hok
    obtain rfl := hkept.held
    exact ⟨hkept.owned, ht, hkept.live⟩
  · intro t r w' hrun hok
    obtain ⟨held, ht, hcollected⟩ := c.collects howned t r w' hrun hok
    obtain rfl := hcollected.held
    exact ⟨hcollected.owned, ht, hcollected.live, hcollected.object, hcollected.released⟩
  · exact streamActs_frees howned ptr acts w

/-- A heap with one hash stream, which the next call is left in at its second point. -/
def streamHeap : RHeap referenceObjects where
  pointers :=
    [⟨some (.hash ⟨0x10000, .sha256, .sha256, (), some (.sha256, []), true⟩), some .hash,
      some ⟨false, .sha256⟩⟩]
  jump := some 1

/-- The library with that stream's context. -/
def streamWorld : World := { readyWorld with live := 1 }

/-- The stream is updated, finished twice and collected, and the first two calls are left. -/
def streamKnownActs : List (StreamAct × Option Nat) :=
  [(.update (.raw 0x300 3 []), some 0), (.finish, some 1), (.finish, none), (.finalize, none)]

/-- The stream is finished, and left there; it is finished and collected; a second one is made;
and whatever the calls above do, the context is freed once. -/
theorem contexts_survive_longjmp_stream :
    streamHeap.Owned ∧
    (Ensures InWindow ((NativeCall.streamFinish 0).run streamHeap) streamWorld fun t r w' =>
      r.2.Owned ∧ Trades tariff streamHeap.resources t r.2.resources ∧
        w'.live = 1 + (r.2.count - streamHeap.count)) ∧
    (Ensures InWindow ((NativeCall.streamFinish 0).collected streamHeap) streamWorld fun _ r w' =>
      r.1.isSome = true → returned r.1 = none → (r.2.pointer 0).addr = none ∧ w'.live = 0) ∧
    (Ensures InWindow ((NativeCall.hashStreamNew "sha256").collected streamHeap) streamWorld
      fun _ r w' => ∀ i, returned r.1 = some i →
        1 ≤ i ∧ (r.2.pointer i).addr.isSome = true ∧ w'.live = 2) ∧
    (Ensures InWindow (streamActs 0 streamKnownActs streamHeap) streamWorld fun t rs w' =>
      spent tariff (.block 0x10000) t = 1 ∧ (rs.2.pointer 0).addr = none ∧ w'.live = 0 ∧
        ∀ r₁ r₂ r₃ r₄, rs.1 = [r₁, r₂, r₃, r₄] → r₂.isSome = true → Refused r₃) ∧
    ∃ rs H', streamActs 1 streamKnownActs streamHeap = Pure.pure (rs, H') ∧
      H'.pointers = streamHeap.pointers ∧ ∀ r ∈ rs, Refused r := by
  have howned : streamHeap.Owned := by
    intro p hp c hc
    obtain rfl := List.mem_singleton.mp hp
    obtain rfl := Option.some.inj hc
    rfl
  obtain ⟨hrun, hcollected, hacts⟩ := contexts_survive_longjmp streamHeap howned streamWorld
  have hslot : slotCount (streamHeap.pointer 0).addr = 1 := rfl
  have hblocks : (slotResources (streamHeap.pointer 0).addr).count (.block 0x10000) = 1 := by
    decide +kernel
  refine ⟨howned, hrun (.streamFinish 0), ?_, ?_, ?_, (hacts 1 streamKnownActs).2 rfl⟩
  · intro t r w' h hok hleft hreturned
    obtain ⟨-, -, hlive, -, hreleased⟩ := hcollected (.streamFinish 0) t r w' h hok
    have hgone := hreleased 0 rfl hleft
    refine ⟨hgone, hlive.trans ?_⟩
    rw [hreturned]
    show (1 : Int) + 0 - (slotCount (streamHeap.pointer 0).addr - slotCount (r.2.pointer 0).addr) = 0
    rw [hslot, hgone]
    rfl
  · intro t r w' h hok i hi
    obtain ⟨-, -, hlive, hobject, -⟩ := hcollected (.hashStreamNew "sha256") t r w' h hok
    obtain ⟨hnew, haddr⟩ := hobject i hi
    refine ⟨hnew, haddr, hlive.trans ?_⟩
    rw [hi]
    rfl
  · intro t rs w' h hok
    obtain ⟨hrefused, hspent, hlive, hgone⟩ := (hacts 0 streamKnownActs).1 t rs w' h hok
    have hfinal : (.finalize, none) ∈ streamKnownActs := by simp [streamKnownActs]
    have hnone := hgone ⟨_, hfinal, rfl⟩
    have hblock := hspent 0x10000
    rw [hnone, hblocks] at hblock
    rw [hnone, hslot] at hlive
    refine ⟨hblock, hnone, hlive, fun r₁ r₂ r₃ r₄ hrs hreturned => ?_⟩
    rw [hrs] at hrefused
    simp only [streamKnownActs, List.zip_cons_cons, List.pairwise_cons] at hrefused
    exact hrefused.2.1 ((.finish, none), r₃) (by simp) hreturned

/-- R's heap and the library with one new hash stream. -/
def streamMade : Outcome (Option (ZucStatus × Option Nat) × RHeap referenceObjects) World
    (SlotState (PsaKeyAttributes × List Byte) Unit) :=
  ((NativeCall.hashStreamNew "sha256").run ⟨[], none⟩).exec
    (slotBackend (referenceEngine knownPrimitives)) readyWorld ⟨.empty, ()⟩

/-- The stream is finished there: one context less, and no object. -/
theorem finished_stream_releases :
    let before := streamMade
    let after := ((NativeCall.streamFinish 0).collected before.value.2).exec
      (slotBackend (referenceEngine knownPrimitives)) before.world before.env
    returned before.value.1 = some 0 ∧ before.world.live = 1 ∧
      returned after.value.1 = none ∧ after.world.live = 0 ∧
      after.world.live ≠ before.world.live + (if (returned after.value.1).isSome then 1 else 0) := by
  decide +kernel

end Zucrypt
