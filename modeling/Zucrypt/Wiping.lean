import Zucrypt.Ordinary

/-! # Blocks that held a secret are released as zeros

What the adapter gives back to the C library's allocator is either all zero, or has never held
anything but public data: bytes that the backend exported as a public key, in a trace `T`.
`Releases` says so of one call, and `Tidy` of every run of a function; its rules follow the
function's text.

A block is there with its contents, from the allocator to `free`, so a function that leaves out a
byte when it wipes is not tidy.  An encoding may be shorter than its buffer; what is past its end
has to be zero already (`ZeroPast`), as the encoding is all that is wiped.

Of the backend one thing is assumed: an exported key is followed by zeros, to the end of the buffer
it is exported into (`ExportsPadded`). -/
namespace Zucrypt
open Effects ByteMemory

variable {O : Objects} {α β : Type}

/-! ### Blocks -/

/-- Nothing but zeros has been left in the block. -/
def HeapBuf.Wiped (b : HeapBuf) : Prop := ∀ c ∈ b.cells, c = none ∨ c = some 0

mutual

/-- What a function may leave in a block it releases: `T` shows where it is from. -/
inductive PublicData (T : List (Event (Call O))) : List Byte → Prop
  | exported (id : KeyId) (size : Nat) (r : Reply (PsaStatus × Output))
      (h : (⟨.psa (.exportPublicKey id size), r⟩ : Event (Call O)) ∈ T) :
      PublicData T (r.answer.2.bytes.take size)
  | written (pk : O.Pk) (size : Nat) (r : Reply (Except PsaStatus (List Byte))) (der : List Byte)
      (hr : r.answer = .ok der)
      (h : (⟨.psa (.pkWritePubkeyDer pk size), r⟩ : Event (Call O)) ∈ T) : PublicData T der
  | zeros (n : Nat) : PublicData T (List.replicate n 0)
  | held (b : HeapBuf) (n : Nat) (h : PublicBlock T b) : PublicData T (b.bytes n)

/-- A block that only such data has been stored in. -/
inductive PublicBlock (T : List (Event (Call O))) : HeapBuf → Prop
  | fresh (p n : Nat) : PublicBlock T (.fresh p n)
  | store (b : HeapBuf) (off : Nat) (bs : List Byte) (h : PublicBlock T b) (hbs : PublicData T bs) :
      PublicBlock T (b.store off bs)

end

/-- What is released has been wiped, or was public all along. -/
def Releases (T : List (Event (Call O))) : Event (Call O) → Prop
  | ⟨.freeBytes b, _⟩ => b.Wiped ∨ PublicBlock T b
  | ⟨.dropLocal bs, _⟩ => ∀ b ∈ bs, b = 0
  | _ => True

/-- The backend fills the rest of the buffer it exports a key into with zeros. -/
def ExportsPadded : Event (Call O) → Prop
  | ⟨.psa (.exportKey _ size), r⟩ =>
    r.answer.1 = .success → ∀ b ∈ (r.answer.2.bytes.take size).drop r.answer.2.len, b = 0
  | _ => True

theorem PublicBlock.wipe {T : List (Event (Call O))} {b : HeapBuf} (h : PublicBlock T b) (n : Nat) :
    PublicBlock T (b.wipe n) := .store b 0 _ h (.zeros n)

theorem HeapBuf.wiped_fresh (p n : Nat) : (HeapBuf.fresh p n).Wiped :=
  fun _ hc => .inl (List.eq_of_mem_replicate hc)

/-- What is in a block after a store was there before, or has been stored. -/
theorem HeapBuf.mem_store {b : HeapBuf} {off : Nat} {bs : List Byte} {c : Option Byte}
    (hc : c ∈ (b.store off bs).cells) :
    c ∈ b.cells.take off ∨ (∃ x ∈ bs, c = some x) ∨ c ∈ b.cells.drop (off + bs.length) := by
  simp only [HeapBuf.store, List.mem_append] at hc
  rcases hc with (hc | hc) | hc
  · exact .inl hc
  · obtain ⟨x, hx, rfl⟩ := List.mem_map.mp (List.mem_of_mem_take hc)
    exact .inr (.inl ⟨x, hx, rfl⟩)
  · exact .inr (.inr hc)

/-- The same, past what has been stored. -/
theorem HeapBuf.mem_drop_store {b : HeapBuf} {off n : Nat} {bs : List Byte} {c : Option Byte}
    (hn : off + bs.length ≤ n) (hc : c ∈ (b.store off bs).cells.drop n) : c ∈ b.cells.drop n := by
  have hlen : (b.cells.take off ++ (bs.map some).take (b.cells.length - off)).length ≤
      off + bs.length := by
    simp only [List.length_append, List.length_take, List.length_map]
    omega
  simp only [HeapBuf.store] at hc
  rw [List.drop_append, List.drop_eq_nil_of_le (Nat.le_trans hlen hn), List.nil_append, List.drop_drop] at hc
  by_cases hfits : b.cells.length ≤ off + bs.length
  · rw [List.drop_eq_nil_of_le (by omega)] at hc
    exact nomatch hc
  · have hfull : (b.cells.take off ++ (bs.map some).take (b.cells.length - off)).length =
        off + bs.length := by
      simp only [List.length_append, List.length_take, List.length_map]
      omega
    rwa [hfull, Nat.add_sub_cancel' hn] at hc

/-- Past its length, a buffer holds nothing but zeros: to wipe its length is to wipe all of
its block. -/
def HeapBytes.ZeroPast (d : HeapBytes) : Prop := ∀ c ∈ d.buf.cells.drop d.len, c = none ∨ c = some 0

theorem HeapBytes.ZeroPast.wiped {d : HeapBytes} (h : d.ZeroPast) : (d.buf.wipe d.len).Wiped := by
  intro c hc
  rcases HeapBuf.mem_store hc with hc | ⟨x, hx, rfl⟩ | hc
  · exact nomatch hc
  · rw [List.eq_of_mem_replicate hx]
    exact .inr rfl
  · rw [List.length_replicate, Nat.zero_add] at hc
    exact h c hc

theorem HeapBytes.zeroPast_of_size_le {d : HeapBytes} (h : d.buf.size ≤ d.len) : d.ZeroPast := by
  intro c hc
  rw [List.drop_eq_nil_of_le h] at hc
  exact nomatch hc

theorem HeapBuf.size_store_le (b : HeapBuf) (off : Nat) (bs : List Byte) :
    (b.store off bs).size ≤ b.size := by
  simp only [HeapBuf.size, HeapBuf.store, List.length_append, List.length_take, List.length_map,
    List.length_drop]
  omega

theorem HeapBuf.size_fresh (p n : Nat) : (HeapBuf.fresh p n).size = n := List.length_replicate

/-! ### Functions -/

/-- In every run of `p` that is part of `T`, what is released is wiped or public, and the
value is one of `P`. -/
def Tidy (T : List (Event (Call O))) (p : Adapter O α) (P : α → Prop) : Prop :=
  ∀ w, Ensures ExportsPadded p w fun t a _ => (∀ e ∈ t, e ∈ T) → (∀ e ∈ t, Releases T e) ∧ P a

variable {T : List (Event (Call O))} {P : α → Prop} {Q : β → Prop} {p : Adapter O α}
  {f : α → Adapter O β}

namespace Tidy

theorem pure {a : α} (h : P a) : Tidy T (Pure.pure a) P :=
  fun _ => Ensures.pure_iff.mpr fun _ => ⟨by simp, h⟩

theorem bind (hp : Tidy T p P) (hf : ∀ a, P a → Tidy T (f a) Q) : Tidy T (p >>= f) Q := by
  refine fun w => Ensures.bind_iff.mpr ((hp w).mono fun t a w₁ h => ?_)
  intro t' b w' hrun hok hT
  obtain ⟨hrel, ha⟩ := h fun e he => hT e (List.mem_append_left _ he)
  obtain ⟨hrel', hb⟩ := hf a ha w₁ t' b w' hrun hok fun e he => hT e (List.mem_append_right _ he)
  exact ⟨fun e he => (List.mem_append.mp he).elim (hrel e) (hrel' e), hb⟩

theorem mono (hp : Tidy T p P) {P' : α → Prop} (h : ∀ a, P a → P' a) : Tidy T p P' :=
  fun w => (hp w).mono fun _ a _ ha hT => ⟨(ha hT).1, h a (ha hT).2⟩

theorem ite {c : Prop} [Decidable c] {q : Adapter O α} (hp : c → Tidy T p P)
    (hq : ¬ c → Tidy T q P) : Tidy T (if c then p else q) P :=
  fun w => Ensures.ite (fun hc => hp hc w) fun hc => hq hc w

/-- A step that makes no call. -/
theorem update (g : World → World) : Tidy T (Proc.update g : Adapter O _) fun _ => True :=
  fun _ => Ensures.update_iff.mpr fun _ => ⟨by simp, trivial⟩

theorem read : Tidy T (Proc.read : Adapter O _) fun _ => True :=
  fun _ => Ensures.read_iff.mpr fun _ => ⟨by simp, trivial⟩

/-- One call. -/
theorem perform {op : Call O α}
    (h : ∀ r : α, (⟨op, r⟩ : Event (Call O)) ∈ T → ExportsPadded (⟨op, r⟩ : Event (Call O)) →
      Releases T (⟨op, r⟩ : Event (Call O)) ∧ P r) : Tidy T (Proc.perform op) P := by
  refine fun w => Ensures.perform_iff.mpr fun r hr hT => ?_
  obtain ⟨hrel, hP⟩ := h r (hT _ (List.mem_singleton_self _)) hr
  exact ⟨by simpa using hrel, hP⟩

/-- A call of the backend: its answer is in `T`. -/
theorem psa {c : PsaCall O α}
    (h : ∀ r : Reply α, (⟨.psa c, r⟩ : Event (Call O)) ∈ T →
      ExportsPadded (⟨.psa c, r⟩ : Event (Call O)) → P r.answer) :
    Tidy T (psa c) P :=
  bind (perform (P := fun r => P r.answer) fun r hr hok => ⟨trivial, h r hr hok⟩) fun _ hr =>
    bind (update _) fun _ _ => pure hr

theorem freeBytes {b : HeapBuf} (h : b.Wiped ∨ PublicBlock T b) :
    Tidy T (freeBytes b) fun _ => True :=
  perform fun _ _ _ => ⟨h, trivial⟩

theorem mallocBytes (n : Nat) :
    Tidy T (mallocBytes n) fun b => ∀ b', b = some b' → ∃ p, b' = .fresh p n :=
  bind (P := fun _ => True) (perform fun _ _ _ => ⟨trivial, trivial⟩) fun r _ => pure fun b' hb => by
    obtain ⟨p, rfl, rfl⟩ := Option.map_eq_some_iff.mp hb
    exact ⟨p, rfl⟩

/-- What is true whatever came before. -/
theorem after (hp : Tidy T p fun _ => True) (hf : ∀ a, Tidy T (f a) Q) : Tidy T (p >>= f) Q :=
  bind hp fun a _ => hf a

end Tidy

/-- A function that frees no block of bytes. -/
theorem Discreet.tidy {p : Adapter O α} (hp : Discreet p) : Tidy T p fun _ => True := by
  induction hp with
  | pure a => exact .pure trivial
  | bind _ _ ihp ihf => exact .after ihp ihf
  | psa _ => exact .psa fun _ _ _ => trivial
  | @heap _ op hop =>
    refine .perform fun r _ _ => ⟨?_, trivial⟩
    cases op with
    | psa => exact hop.elim
    | freeBytes => exact hop.elim
    | dropLocal bs => exact hop
    | _ => trivial
  | look f => exact .after .read fun _ => .pure trivial
  | write q bs => exact .update _
  | count d => exact .update _

end Zucrypt
