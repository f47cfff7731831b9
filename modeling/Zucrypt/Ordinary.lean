import Zucrypt.Session

/-! # What the functions of the adapter are made of

Almost every function of the adapter is made of the same few steps: it calls the backend and the
allocator, asks whether the library is ready, reads and writes its caller's memory, and counts live
handles.  `Ordinary` says so of a function; it leaves out what starts and stops the backend, and
what sets and asks the allocation watch.

What is true of each step and of one step after another is true of every such function: it depends
on the caller's memory and on whether the library is ready, and on nothing else (`Ordinary.runs`);
it leaves the reference count alone, and the watch has recorded exactly the failures of its own
calls (`Ordinary.frame`).

Two kinds of them are told apart further.  A `Discreet` function frees no block of bytes, and the
arrays that go out of scope in it are all zero; a `Silent` one stores nothing in its caller's
memory.  Each function is shown to be of the kind it is used as, and that it is ordinary follows. -/
namespace Zucrypt
open Effects ByteMemory

variable {O : Objects} {α β : Type}

/-- Not a call that starts or stops the backend. -/
def PsaCall.Inside : PsaCall O α → Prop
  | .cryptoInit => False
  | .cryptoFree => False
  | _ => True

/-- A call of the C library's or of R's allocator, or the end of a local array. -/
def Call.Heap : Call O α → Prop
  | .psa _ => False
  | _ => True

/-- A function made of the steps that functions of the adapter are made of. -/
inductive Ordinary : {α : Type} → Adapter O α → Prop
  | pure {α : Type} (a : α) : Ordinary (Pure.pure a)
  | bind {α β : Type} {p : Adapter O α} {f : α → Adapter O β} (hp : Ordinary p)
      (hf : ∀ a, Ordinary (f a)) : Ordinary (p >>= f)
  | psa {α : Type} {c : PsaCall O α} (hc : c.Inside) : Ordinary (psa c)
  | heap {α : Type} {op : Call O α} (hop : op.Heap) : Ordinary (Proc.perform op)
  | look {α : Type} (f : Memory → Bool → α) :
      Ordinary (do
        let w ← Proc.read
        return f w.mem (decide (0 < w.refcount)))
  | write (p : Nat) (bs : List Byte) : Ordinary (writeMem p bs)
  | count (d : Int) : Ordinary (zucIntLiveAdd d)

theorem Ordinary.ite {c : Prop} [Decidable c] {p q : Adapter O α} (hp : c → Ordinary p)
    (hq : ¬ c → Ordinary q) : Ordinary (if c then p else q) := by
  split
  · exact hp ‹_›
  · exact hq ‹_›

/-! ### What follows -/

/-- A relation between worlds that no function can get out of, and that hides nothing a
function looks at. -/
structure Indistinct (R : World → World → Prop) : Prop where
  mem : ∀ {w w₂}, R w w₂ → w.mem = w₂.mem
  ready : ∀ {w w₂}, R w w₂ → (0 < w.refcount ↔ 0 < w₂.refcount)
  noteAlloc : ∀ {w w₂} b, R w w₂ → R (w.noteAlloc b) (w₂.noteAlloc b)
  store : ∀ {w w₂} p bs, R w w₂ → R (w.store p bs) (w₂.store p bs)
  count : ∀ {w w₂} d, R w w₂ → R { w with live := w.live + d } { w₂ with live := w₂.live + d }

/-- The memory is the same, and the library is ready in both or in neither. -/
def SeesSame (w w₂ : World) : Prop := w.mem = w₂.mem ∧ (0 < w.refcount ↔ 0 < w₂.refcount)

theorem indistinct_seesSame : Indistinct SeesSame where
  mem h := h.1
  ready h := h.2
  noteAlloc _ h := h
  store p bs h := ⟨congrArg (ByteMemory.write · p bs) h.1, h.2⟩
  count _ h := h

/-- All is the same but what the watch has recorded. -/
def SameButRecord (w w₂ : World) : Prop :=
  w.mem = w₂.mem ∧ w.refcount = w₂.refcount ∧ w.live = w₂.live

theorem indistinct_sameButRecord : Indistinct SameButRecord where
  mem h := h.1
  ready h := by rw [h.2.1]
  noteAlloc _ h := h
  store p bs h := ⟨congrArg (ByteMemory.write · p bs) h.1, h.2⟩
  count d h := ⟨h.1, h.2.1, congrArg (· + d) h.2.2⟩

/-- What a function can do in one world it can do in another it cannot tell from it. -/
theorem Ordinary.runs {R : World → World → Prop} (hR : Indistinct R) {p : Adapter O α}
    (hp : Ordinary p) {w w₂ : World} (hw : R w w₂) {t : List (Event (Call O))} {a : α} {w' : World}
    (hrun : Runs (p w) t (a, w')) : ∃ w₂', Runs (p w₂) t (a, w₂') ∧ R w' w₂' := by
  -- on how the function is put together
  induction hp generalizing w w₂ t w' with
  | pure b =>
    obtain ⟨rfl, heq⟩ := Runs.done_iff.mp hrun
    obtain ⟨rfl, rfl⟩ := Prod.mk.inj heq
    exact ⟨w₂, .done _, hw⟩
  | bind hp hf ihp ihf =>
    obtain ⟨t₁, ⟨b, w₁⟩, t₂, rfl, hrun₁, hrun₂⟩ := Runs.bind_iff.mp hrun
    obtain ⟨w₁', hrun₁', hw₁⟩ := ihp hw hrun₁
    obtain ⟨w₂', hrun₂', hw₂⟩ := ihf b hw₁ hrun₂
    exact ⟨w₂', Runs.bind_iff.mpr ⟨t₁, (b, w₁'), t₂, rfl, hrun₁', hrun₂'⟩, hw₂⟩
  | psa hc =>
    obtain ⟨r, t', rfl, hdone⟩ := Runs.call_iff.mp hrun
    obtain ⟨rfl, heq⟩ := Runs.done_iff.mp hdone
    obtain ⟨rfl, rfl⟩ := Prod.mk.inj heq
    exact ⟨w₂.noteAlloc r.allocFailed, .call r (.done _), hR.noteAlloc _ hw⟩
  | heap hop =>
    obtain ⟨r, t', rfl, hdone⟩ := Runs.call_iff.mp hrun
    obtain ⟨rfl, heq⟩ := Runs.done_iff.mp hdone
    obtain ⟨rfl, rfl⟩ := Prod.mk.inj heq
    exact ⟨w₂, .call a (.done _), hw⟩
  | look f =>
    obtain ⟨rfl, heq⟩ := Runs.done_iff.mp hrun
    obtain ⟨rfl, rfl⟩ := Prod.mk.inj heq
    refine ⟨w₂, ?_, hw⟩
    rw [hR.mem hw, decide_eq_decide.mpr (hR.ready hw)]
    exact .done _
  | write q bs =>
    obtain ⟨rfl, heq⟩ := Runs.done_iff.mp hrun
    obtain ⟨rfl, rfl⟩ := Prod.mk.inj heq
    exact ⟨w₂.store q bs, .done _, hR.store q bs hw⟩
  | count d =>
    obtain ⟨rfl, heq⟩ := Runs.done_iff.mp hrun
    obtain ⟨rfl, rfl⟩ := Prod.mk.inj heq
    exact ⟨{ w₂ with live := w₂.live + d }, .done _, hR.count d hw⟩

/-- An allocation of the backend failed in this call. -/
def FailedAlloc : Event (Call O) → Prop
  | ⟨.psa _, r⟩ => r.allocFailed = true
  | _ => False

/-- The backend is neither started nor stopped. -/
def IsInside : Event (Call O) → Prop
  | ⟨.psa c, _⟩ => c.Inside
  | _ => True

/-- What a function does to the static variables of the adapter. -/
structure Frame (w : World) (t : List (Event (Call O))) (w' : World) : Prop where
  refcount : w'.refcount = w.refcount
  /-- the watch has recorded what it had, and the failures of these calls -/
  recorded : w'.allocFailed = true ↔ w.allocFailed = true ∨ ∃ e ∈ t, FailedAlloc e
  inside : ∀ e ∈ t, IsInside e

theorem Frame.nil {w w' : World} (hrefcount : w'.refcount = w.refcount)
    (halloc : w'.allocFailed = w.allocFailed) : Frame w ([] : List (Event (Call O))) w' where
  refcount := hrefcount
  recorded := by simp [halloc]
  inside := by simp

theorem Frame.append {w w₁ w' : World} {t t' : List (Event (Call O))} (h : Frame w t w₁)
    (h' : Frame w₁ t' w') : Frame w (t ++ t') w' where
  refcount := h'.refcount.trans h.refcount
  recorded := by
    rw [h'.recorded, h.recorded, or_assoc]
    simp only [List.mem_append, or_and_right, exists_or]
  inside e he := (List.mem_append.mp he).elim (h.inside e) (h'.inside e)

theorem Ordinary.frame {p : Adapter O α} (hp : Ordinary p) (w : World) :
    Ensures (fun _ => True) p w fun t _ w' => Frame w t w' := by
  induction hp generalizing w with
  | pure b => exact Ensures.pure_iff.mpr (Frame.nil rfl rfl)
  | bind hp hf ihp ihf =>
    refine Ensures.bind_iff.mpr ((ihp w).mono fun t a w₁ h => ?_)
    exact (ihf a w₁).mono fun t' b w' h' => h.append h'
  | @psa _ c hc =>
    refine ensures_psa.mpr fun r _ => ⟨rfl, ?_, ?_⟩
    · simp [World.noteAlloc, FailedAlloc]
    · simpa [IsInside] using hc
  | @heap _ op hop =>
    refine Ensures.perform_iff.mpr fun r _ => ⟨rfl, ?_, ?_⟩
    · cases op <;> first | exact hop.elim | simp [FailedAlloc]
    · cases op <;> first | exact hop.elim | simp [IsInside]
  | look f => exact Ensures.bind_iff.mpr (Ensures.read_iff.mpr (Ensures.pure_iff.mpr (Frame.nil rfl rfl)))
  | write q bs => exact ensures_writeMem.mpr (Frame.nil rfl rfl)
  | count d => exact Ensures.update_iff.mpr (Frame.nil rfl rfl)

/-! ### Functions that free no block

Outside the public-key functions no block of bytes is ever freed, and the arrays that go
out of scope have been wiped. -/

/-- A call of an allocator that frees no block, or the end of an array that is all zero. -/
def Call.Discreet : Call O α → Prop
  | .psa _ => False
  | .freeBytes _ => False
  | .dropLocal bs => ∀ b ∈ bs, b = 0
  | _ => True

/-- A function made of the same steps, but for these. -/
inductive Discreet : {α : Type} → Adapter O α → Prop
  | pure {α : Type} (a : α) : Discreet (Pure.pure a)
  | bind {α β : Type} {p : Adapter O α} {f : α → Adapter O β} (hp : Discreet p)
      (hf : ∀ a, Discreet (f a)) : Discreet (p >>= f)
  | psa {α : Type} {c : PsaCall O α} (hc : c.Inside) : Discreet (psa c)
  | heap {α : Type} {op : Call O α} (hop : op.Discreet) : Discreet (Proc.perform op)
  | look {α : Type} (f : Memory → Bool → α) :
      Discreet (do
        let w ← Proc.read
        return f w.mem (decide (0 < w.refcount)))
  | write (p : Nat) (bs : List Byte) : Discreet (writeMem p bs)
  | count (d : Int) : Discreet (zucIntLiveAdd d)

theorem Call.Discreet.heap {op : Call O α} (h : op.Discreet) : op.Heap := by
  cases op <;> trivial

theorem Discreet.ordinary {p : Adapter O α} (hp : Discreet p) : Ordinary p := by
  induction hp with
  | pure a => exact .pure a
  | bind _ _ ihp ihf => exact .bind ihp ihf
  | psa hc => exact .psa hc
  | heap hop => exact .heap hop.heap
  | look f => exact .look f
  | write p bs => exact .write p bs
  | count d => exact .count d

theorem Discreet.ite {c : Prop} [Decidable c] {p q : Adapter O α} (hp : c → Discreet p)
    (hq : ¬ c → Discreet q) : Discreet (if c then p else q) := by
  split
  · exact hp ‹_›
  · exact hq ‹_›

theorem discreet_readMem (p n : Nat) : Discreet (readMem p n : Adapter O _) :=
  .look fun m _ => read m p n

theorem discreet_zucIntReady : Discreet (zucIntReady : Adapter O _) := .look fun _ ready => ready

theorem discreet_writeOutput (p size : Nat) (o : Output) :
    Discreet (writeOutput p size o : Adapter O _) := .write _ _

theorem discreet_zucSecureZero (p n : Nat) : Discreet (zucSecureZero p n : Adapter O _) :=
  .ite (fun _ => .pure _) fun _ => .write _ _

theorem discreet_callocRecord (what : Record) : Discreet (callocRecord what : Adapter O _) :=
  .heap trivial

theorem discreet_freeRecord (what : Record) (p : Nat) :
    Discreet (freeRecord what p : Adapter O _) := .heap trivial

theorem discreet_dropLocal (bs : List Byte) : Discreet (dropLocal (secureZero bs) : Adapter O _) :=
  .heap fun _ hb => List.eq_of_mem_replicate hb

/-! ### Functions that leave the caller's memory alone -/

/-- A function made of the same steps, that stores nothing. -/
inductive Silent : {α : Type} → Adapter O α → Prop
  | pure {α : Type} (a : α) : Silent (Pure.pure a)
  | bind {α β : Type} {p : Adapter O α} {f : α → Adapter O β} (hp : Silent p)
      (hf : ∀ a, Silent (f a)) : Silent (p >>= f)
  | psa {α : Type} {c : PsaCall O α} (hc : c.Inside) : Silent (psa c)
  | heap {α : Type} {op : Call O α} (hop : op.Heap) : Silent (Proc.perform op)
  | look {α : Type} (f : Memory → Bool → α) :
      Silent (do
        let w ← Proc.read
        return f w.mem (decide (0 < w.refcount)))
  | count (d : Int) : Silent (zucIntLiveAdd d)

theorem Silent.ordinary {p : Adapter O α} (hp : Silent p) : Ordinary p := by
  induction hp with
  | pure a => exact .pure a
  | bind _ _ ihp ihf => exact .bind ihp ihf
  | psa hc => exact .psa hc
  | heap hop => exact .heap hop
  | look f => exact .look f
  | count d => exact .count d

theorem Silent.ite {c : Prop} [Decidable c] {p q : Adapter O α} (hp : c → Silent p)
    (hq : ¬ c → Silent q) : Silent (if c then p else q) := by
  split
  · exact hp ‹_›
  · exact hq ‹_›

theorem Silent.mem {p : Adapter O α} (hp : Silent p) (w : World) :
    Ensures (fun _ => True) p w fun _ _ w' => w'.mem = w.mem := by
  induction hp generalizing w with
  | pure a => exact Ensures.pure_iff.mpr rfl
  | bind _ _ ihp ihf =>
    refine Ensures.bind_iff.mpr ((ihp w).mono fun _ a w₁ h => ?_)
    exact (ihf a w₁).mono fun _ _ _ h' => h'.trans h
  | psa _ => exact ensures_psa.mpr fun _ _ => rfl
  | heap _ => exact Ensures.perform_iff.mpr fun _ _ => rfl
  | look f => exact Ensures.bind_iff.mpr (Ensures.read_iff.mpr (Ensures.pure_iff.mpr rfl))
  | count d => exact Ensures.update_iff.mpr rfl

/-! ### Steps -/

theorem silent_readMem (p n : Nat) : Silent (readMem p n : Adapter O _) := .look fun m _ => read m p n

theorem silent_zucIntReady : Silent (zucIntReady : Adapter O _) := .look fun _ ready => ready

theorem silent_callocRecord (what : Record) : Silent (callocRecord what : Adapter O _) :=
  .heap trivial

theorem silent_freeRecord (what : Record) (p : Nat) : Silent (freeRecord what p : Adapter O _) :=
  .heap trivial

theorem silent_mallocBytes (n : Nat) : Silent (mallocBytes n : Adapter O _) :=
  .bind (.heap trivial) fun _ => .pure _

theorem silent_freeBytes (b : HeapBuf) : Silent (freeBytes b : Adapter O _) := .heap trivial

theorem silent_freeIf {γ : Type} {release : γ → Adapter O Unit} (h : ∀ c, Silent (release c))
    (p : Option γ) : Silent (freeIf release p) := by
  cases p with
  | none => exact .pure _
  | some c => exact h c

/-! ### Digests and HMAC -/

/-- The backend's functions of a kind of operation are called inside a window. -/
structure DiscreetOps {κ Op : Type} (B : StreamOps O κ Op) : Prop where
  setup : ∀ op k alg, Discreet (B.setup op k alg)
  update : ∀ op bs, Discreet (B.update op bs)
  finish : ∀ op n, Discreet (B.finish op n)
  abort : ∀ op, Discreet (B.abort op)

theorem discreet_hashOps : DiscreetOps (hashOps : StreamOps O _ _) where
  setup _ _ _ := .psa trivial
  update _ _ := .psa trivial
  finish _ _ := .psa trivial
  abort _ := .psa trivial

theorem discreet_macOps : DiscreetOps (macOps : StreamOps O _ _) where
  setup _ _ _ := .psa trivial
  update _ _ := .psa trivial
  finish _ _ := .psa trivial
  abort _ := .psa trivial

section
variable {κ Op : Type} {B : StreamOps O κ Op} (hB : DiscreetOps B) (h : Option (StreamHandle κ Op))
include hB

theorem discreet_streamUpdate (data dataLen : Nat) : Discreet (streamUpdate B h data dataLen) := by
  cases h with
  | none => exact .pure _
  | some h =>
    refine .ite (fun _ => .pure _) fun _ => ?_
    refine .ite (fun _ => .pure _) fun _ => ?_
    refine .ite (fun _ => .pure _) fun _ => ?_
    refine .bind (discreet_readMem _ _) fun input => ?_
    exact .bind (hB.update _ _) fun r => .pure _

theorem discreet_streamFinish (out outSize : Nat) (outLen : SizeCell) :
    Discreet (streamFinish B h out outSize outLen) := by
  cases h with
  | none => exact .pure _
  | some h =>
    refine .ite (fun _ => .pure _) fun _ => ?_
    refine .ite (fun _ => .pure _) fun _ => ?_
    refine .ite (fun _ => .pure _) fun _ => ?_
    refine .bind (hB.finish _ _) fun r => ?_
    exact .bind (discreet_writeOutput _ _ _) fun _ => .pure _

theorem discreet_streamReset : Discreet (streamReset B h) := by
  cases h with
  | none => exact .pure _
  | some h =>
    have habort : Discreet (streamAbortActive B h) :=
      .ite (fun _ => .bind (hB.abort _) fun op => .pure _) fun _ => .pure _
    refine .bind habort fun h' => .bind (hB.setup _ _ _) fun r => ?_
    exact .ite (fun _ => .bind (hB.abort _) fun op => .pure _) fun _ => .pure _

end

theorem discreet_checkDigestArgs (alg : ZucAlg) (data dataLen out outSize : Nat)
    (outLen : SizeCell) :
    Discreet (checkDigestArgs alg data dataLen out outSize outLen : Adapter O _) := by
  refine .bind discreet_zucIntReady fun ready => ?_
  refine .ite (fun _ => .pure _) fun _ => ?_
  refine .ite (fun _ => .pure _) fun _ => ?_
  refine .ite (fun _ => .pure _) fun _ => ?_
  refine .ite (fun _ => .pure _) fun _ => ?_
  exact .ite (fun _ => .pure _) fun _ => .pure _

theorem discreet_zucHashCompute (alg : ZucAlg) (data dataLen out outSize : Nat)
    (outLen : SizeCell) :
    Discreet (zucHashCompute alg data dataLen out outSize outLen : Adapter O _) := by
  refine .bind (discreet_checkDigestArgs _ _ _ _ _ _) fun st => ?_
  refine .ite (fun _ => .pure _) fun _ => ?_
  refine .bind (discreet_readMem _ _) fun input => ?_
  refine .bind (.psa trivial) fun r => ?_
  exact .bind (discreet_writeOutput _ _ _) fun _ => .pure _

theorem discreet_zucHashNew (alg : ZucAlg) (out : Bool) :
    Discreet (zucHashNew alg out : Adapter O _) := by
  refine .ite (fun _ => .pure _) fun _ => ?_
  refine .bind discreet_zucIntReady fun ready => ?_
  refine .ite (fun _ => .pure _) fun _ => ?_
  refine .ite (fun _ => .pure _) fun _ => ?_
  refine .bind (discreet_callocRecord _) fun p => ?_
  cases p with
  | none => exact .pure _
  | some self =>
    refine .bind (.psa trivial) fun r => ?_
    refine .ite (fun _ => ?_) fun _ => .bind (.count _) fun _ => .pure _
    exact .bind (.psa trivial) fun _ => .bind (discreet_freeRecord _ _) fun _ => .pure _

theorem discreet_zucHashFree (h : Option (ZucHash O)) : Discreet (zucHashFree h) := by
  cases h with
  | none => exact .pure _
  | some h =>
    exact .bind (.psa trivial) fun _ => .bind (discreet_freeRecord _ _) fun _ => .count _

theorem discreet_importHmacKey (alg : ZucAlg) (key keyLen : Nat) (palg : PsaAlg) :
    Discreet (importHmacKey alg key keyLen palg : Adapter O _) := by
  have hreduced : ∀ reduced bytes : List Byte,
      Discreet (importReducedKey palg reduced bytes : Adapter O _) := fun _ _ =>
    .bind (.psa trivial) fun r => .bind (discreet_dropLocal _) fun _ => .pure _
  refine .bind (discreet_readMem _ _) fun bytes => ?_
  refine .ite (fun _ => ?_) fun _ => hreduced _ _
  refine .bind (.psa trivial) fun r => ?_
  refine .ite (fun _ => ?_) fun _ => hreduced _ _
  exact .bind (discreet_dropLocal _) fun _ => .pure _

theorem discreet_zucHmacCompute (alg : ZucAlg) (key keyLen data dataLen out outSize : Nat)
    (outLen : SizeCell) :
    Discreet (zucHmacCompute alg key keyLen data dataLen out outSize outLen : Adapter O _) := by
  refine .bind (discreet_checkDigestArgs _ _ _ _ _ _) fun st => ?_
  refine .ite (fun _ => .pure _) fun _ => ?_
  refine .ite (fun _ => .pure _) fun _ => ?_
  refine .bind (discreet_importHmacKey _ _ _ _) fun k => ?_
  refine .ite (fun _ => .pure _) fun _ => ?_
  refine .bind (discreet_readMem _ _) fun input => ?_
  refine .bind (.psa trivial) fun r => ?_
  refine .bind (discreet_writeOutput _ _ _) fun _ => ?_
  exact .bind (.psa trivial) fun _ => .pure _

theorem discreet_zucHmacNew (alg : ZucAlg) (key keyLen : Nat) (out : Bool) :
    Discreet (zucHmacNew alg key keyLen out : Adapter O _) := by
  refine .ite (fun _ => .pure _) fun _ => ?_
  refine .bind discreet_zucIntReady fun ready => ?_
  refine .ite (fun _ => .pure _) fun _ => ?_
  refine .ite (fun _ => .pure _) fun _ => ?_
  refine .ite (fun _ => .pure _) fun _ => ?_
  refine .bind (discreet_callocRecord _) fun p => ?_
  cases p with
  | none => exact .pure _
  | some self =>
    refine .bind (discreet_importHmacKey _ _ _ _) fun k => ?_
    refine .ite (fun _ => .bind (discreet_freeRecord _ _) fun _ => .pure _) fun _ => ?_
    refine .bind (.psa trivial) fun r => ?_
    refine .ite (fun _ => ?_) fun _ => .bind (.count _) fun _ => .pure _
    refine .bind (.psa trivial) fun _ => .bind (.psa trivial) fun _ => ?_
    exact .bind (discreet_freeRecord _ _) fun _ => .pure _

theorem discreet_zucHmacFree (h : Option (ZucHmac O)) : Discreet (zucHmacFree h) := by
  cases h with
  | none => exact .pure _
  | some h =>
    refine .bind (.psa trivial) fun _ => .bind (.psa trivial) fun _ => ?_
    exact .bind (discreet_freeRecord _ _) fun _ => .count _

/-! ### Ciphers -/

theorem discreet_zucAesNew (key keyLen : Nat) (out : Bool) :
    Discreet (zucAesNew key keyLen out : Adapter O _) := by
  refine .ite (fun _ => .pure _) fun _ => ?_
  refine .bind discreet_zucIntReady fun ready => ?_
  refine .ite (fun _ => .pure _) fun _ => ?_
  refine .ite (fun _ => .pure _) fun _ => ?_
  refine .ite (fun _ => .pure _) fun _ => ?_
  refine .bind (discreet_callocRecord _) fun p => ?_
  cases p with
  | none => exact .pure _
  | some self =>
    have himport : Discreet (importAesKey key keyLen .cbcNoPadding : Adapter O _) :=
      .bind (discreet_readMem _ _) fun _ => .bind (.psa trivial) fun _ => .pure _
    refine .bind himport fun k => ?_
    refine .ite (fun _ => .bind (discreet_freeRecord _ _) fun _ => .pure _) fun _ => ?_
    exact .bind (.count _) fun _ => .pure _

theorem discreet_zucAesFree (a : Option ZucAes) : Discreet (zucAesFree a : Adapter O _) := by
  cases a with
  | none => exact .pure _
  | some a =>
    exact .bind (.psa trivial) fun _ => .bind (discreet_freeRecord _ _) fun _ => .count _

theorem discreet_readBlock (p : Nat) : Discreet (readBlock p : Adapter O _) :=
  .look fun m _ => blockAt m p

theorem discreet_zucAesCbcSetState (a : Option ZucAes) (state : Nat) :
    Discreet (zucAesCbcSetState a state : Adapter O _) := by
  cases a with
  | none => exact .pure _
  | some a => exact .ite (fun _ => .pure _) fun _ => .bind (discreet_readBlock _) fun _ => .pure _

theorem discreet_zucAesCbcGetState (a : Option ZucAes) (state : Nat) :
    Discreet (zucAesCbcGetState a state : Adapter O _) := by
  cases a with
  | none => exact .pure _
  | some a => exact .ite (fun _ => .pure _) fun _ => .bind (.write _ _) fun _ => .pure _

theorem discreet_checkBlockArgs (a : Option ZucAes) (inp len out : Nat) :
    Discreet (checkBlockArgs a inp len out : Adapter O _) := by
  cases a with
  | none => exact .pure _
  | some a =>
    refine .bind discreet_zucIntReady fun ready => ?_
    refine .ite (fun _ => .pure _) fun _ => ?_
    refine .ite (fun _ => .pure _) fun _ => ?_
    refine .ite (fun _ => .pure _) fun _ => ?_
    refine .ite (fun _ => .pure _) fun _ => ?_
    exact .ite (fun _ => .pure _) fun _ => .pure _

theorem discreet_cipherRun (key : KeyId) (dir : BlockChaining.Direction) (iv : AesBlock)
    (inp len out : Nat) : Discreet (cipherRun key dir iv inp len out : Adapter O _) := by
  have hsetup : Discreet (psa (cipherSetup dir O.cipherInit key .cbcNoPadding)) := by
    cases dir <;> exact .psa trivial
  have hfail : ∀ (op : O.Cipher) ps, Discreet (cipherFail op ps) :=
    fun op ps => .bind (.psa trivial) fun _ => .pure _
  refine .bind hsetup fun setup => ?_
  refine .ite (fun _ => hfail _ _) fun _ => ?_
  refine .bind (.psa trivial) fun start => ?_
  refine .ite (fun _ => hfail _ _) fun _ => ?_
  refine .bind (discreet_readMem _ _) fun input => ?_
  refine .bind (.psa trivial) fun update => ?_
  refine .bind (discreet_writeOutput _ _ _) fun _ => ?_
  refine .ite (fun _ => hfail _ _) fun _ => ?_
  refine .bind (.psa trivial) fun finish => ?_
  refine .bind (discreet_writeOutput _ _ _) fun _ => ?_
  refine .ite (fun _ => hfail _ _) fun _ => ?_
  exact .ite (fun _ => .bind (.psa trivial) fun _ => .pure _) fun _ => .pure _

theorem discreet_zucAesCbcEncrypt (a : Option ZucAes) (inp len out : Nat) :
    Discreet (zucAesCbcEncrypt a inp len out : Adapter O _) := by
  refine .bind (discreet_checkBlockArgs _ _ _ _) fun st => ?_
  cases a with
  | none => exact .pure _
  | some a =>
    refine .ite (fun _ => .pure _) fun _ => .bind (discreet_cipherRun _ _ _ _ _ _) fun st => ?_
    exact .ite (fun _ => .pure _) fun _ => .bind (discreet_readBlock _) fun _ => .pure _

theorem discreet_zucAesCbcDecrypt (a : Option ZucAes) (inp len out : Nat) :
    Discreet (zucAesCbcDecrypt a inp len out : Adapter O _) := by
  refine .bind (discreet_checkBlockArgs _ _ _ _) fun st => ?_
  cases a with
  | none => exact .pure _
  | some a =>
    refine .ite (fun _ => .pure _) fun _ => .bind (discreet_readBlock _) fun next => ?_
    refine .bind (discreet_cipherRun _ _ _ _ _ _) fun st => ?_
    refine .bind (discreet_dropLocal _) fun _ => ?_
    exact .ite (fun _ => .pure _) fun _ => .pure _

theorem discreet_aeadRun (dir : BlockChaining.Direction) (alg : ZucAlg)
    (key keyLen nonce nonceLen aad aadLen inp len out tag tagLen : Nat) :
    Discreet (aeadRun dir alg key keyLen nonce nonceLen aad aadLen inp len out tag tagLen :
      Adapter O _) := by
  have himport : Discreet (importAeadKey key keyLen (psaAeadAlg alg) : Adapter O _) :=
    .bind (discreet_readMem _ _) fun _ => .bind (.psa trivial) fun _ => .pure _
  have hsetup : ∀ k, Discreet (psa (aeadSetup dir O.aeadInit k (psaAeadAlg alg))) := by
    intro k
    cases dir <;> exact .psa trivial
  have hnonce : ∀ a : AeadProgress O, Discreet (aeadNonce nonce nonceLen a) := fun a =>
    .ite (fun _ => .bind (discreet_readMem _ _) fun _ => .bind (.psa trivial) fun _ => .pure _)
      fun _ => .pure _
  have had : ∀ a : AeadProgress O, Discreet (aeadAd aad aadLen a) := fun a =>
    .ite (fun _ => .bind (discreet_readMem _ _) fun _ => .bind (.psa trivial) fun _ => .pure _)
      fun _ => .pure _
  have hdata : ∀ a : AeadProgress O, Discreet (aeadData inp len out a) := fun a =>
    .ite (fun _ => .bind (discreet_readMem _ _) fun _ => .bind (.psa trivial) fun _ =>
      .bind (discreet_writeOutput _ _ _) fun _ => .pure _) fun _ => .pure _
  have hlast : ∀ a : AeadProgress O, Discreet (aeadLast dir len out tag tagLen a) := by
    intro a
    refine .ite (fun _ => ?_) fun _ => .pure _
    cases dir with
    | encrypt =>
      refine .bind (.psa trivial) fun r => .bind (discreet_writeOutput _ _ _) fun _ => ?_
      exact .bind (discreet_writeOutput _ _ _) fun _ => .pure _
    | decrypt =>
      refine .bind (discreet_readMem _ _) fun bytes => .bind (.psa trivial) fun r => ?_
      exact .bind (discreet_writeOutput _ _ _) fun _ => .pure _
  refine .bind himport fun k => .ite (fun _ => .pure _) fun _ => ?_
  refine .bind (hsetup k.2) fun setup => ?_
  refine .bind (hnonce _) fun a => .bind (had _) fun a => .bind (hdata _) fun a => ?_
  refine .bind (hlast _) fun a => ?_
  refine .ite (fun _ => .bind (.psa trivial) fun _ => ?_) fun _ => ?_
  · exact .bind (.psa trivial) fun _ => .pure _
  · exact .bind (.psa trivial) fun _ => .pure _

theorem discreet_zucAeadEncrypt (alg : ZucAlg) (key keyLen nonce nonceLen aad aadLen plaintext len
    ciphertext tag tagLen : Nat) :
    Discreet (zucAeadEncrypt alg key keyLen nonce nonceLen aad aadLen plaintext len ciphertext tag
      tagLen : Adapter O _) := by
  have hcheck : Discreet (checkAeadArgs .encrypt alg key keyLen nonce nonceLen aad aadLen plaintext
      len ciphertext tag tagLen : Adapter O _) := .bind discreet_zucIntReady fun _ => .pure _
  refine .bind hcheck fun st => .ite (fun _ => .pure _) fun _ => ?_
  refine .bind (discreet_aeadRun _ _ _ _ _ _ _ _ _ _ _ _ _) fun st => ?_
  have hdata : Discreet (if len ≠ 0 then zucSecureZero ciphertext len else pure () :
      Adapter O Unit) := .ite (fun _ => discreet_zucSecureZero _ _) fun _ => .pure _
  refine .ite (fun _ => .bind hdata fun _ => ?_) fun _ => .pure _
  exact .bind (discreet_zucSecureZero _ _) fun _ => .pure _

theorem discreet_zucAeadDecrypt (alg : ZucAlg) (key keyLen nonce nonceLen aad aadLen ciphertext len
    tag tagLen plaintext : Nat) :
    Discreet (zucAeadDecrypt alg key keyLen nonce nonceLen aad aadLen ciphertext len tag tagLen
      plaintext : Adapter O _) := by
  have hcheck : Discreet (checkAeadArgs .decrypt alg key keyLen nonce nonceLen aad aadLen ciphertext
      len plaintext tag tagLen : Adapter O _) := .bind discreet_zucIntReady fun _ => .pure _
  refine .bind hcheck fun st => .ite (fun _ => .pure _) fun _ => ?_
  refine .bind (discreet_aeadRun _ _ _ _ _ _ _ _ _ _ _ _ _) fun st => ?_
  refine .ite (fun _ => ?_) fun _ => .pure _
  exact .bind (discreet_zucSecureZero _ _) fun _ => .pure _

/-! ### Key derivation -/

theorem discreet_zucPbkdf2Hmac (hash : ZucAlg) (password passwordLen salt saltLen : Nat)
    (iterations : UInt32) (out outLen : Nat) :
    Discreet (zucPbkdf2Hmac hash password passwordLen salt saltLen iterations out outLen :
      Adapter O _) := by
  have hstep : ∀ (call : O.Kdf → PsaCall O (PsaStatus × O.Kdf)) r, (∀ op, (call op).Inside) →
      Discreet (kdfStep call r) := fun call r hcall =>
    .ite (fun _ => .psa (hcall _)) fun _ => .pure _
  have houtput : ∀ r : PsaStatus × O.Kdf, Discreet (kdfOutput out outLen r) := fun r =>
    .ite (fun _ => .bind (.psa trivial) fun _ => .bind (.write _ _) fun _ => .pure _)
      fun _ => .pure _
  refine .bind discreet_zucIntReady fun ready => .ite (fun _ => .pure _) fun _ => ?_
  have hrun : Discreet (pbkdf2Run (pbkdf2Hash hash) password passwordLen salt saltLen iterations out
      outLen : Adapter O _) := by
    refine .bind (.psa trivial) fun r => .bind (hstep _ _ fun _ => trivial) fun r => ?_
    refine .bind (discreet_readMem _ _) fun _ => .bind (hstep _ _ fun _ => trivial) fun r => ?_
    refine .bind (discreet_readMem _ _) fun _ => .bind (hstep _ _ fun _ => trivial) fun r => ?_
    exact .bind (houtput _) fun r => .bind (.psa trivial) fun _ => .pure _
  refine .bind hrun fun ps => .ite (fun _ => ?_) fun _ => .pure _
  exact .bind (discreet_zucSecureZero _ _) fun _ => .pure _

end Zucrypt
