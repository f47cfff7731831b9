import Zucrypt.CalmVectors
import Zucrypt.ChunkedCalls
import Zucrypt.HmacKeys
import Zucrypt.PkeyOrdinary

/-! # Chunks make up the input

The loops of the entry points cut their input into `slices`: they are in order, next to each other,
and none goes past the end.  So a digest fed in slices is the digest of the input.

`chunk_induction` is the loop's own induction: a last pass, or one chunk before the others.
`slices_read` and `slices_within` say what slices are, and `exec_digestOver` what a pass over them
leaves in a native context, by the laws of its kind (`StreamLaws`); where the context is held while
that goes on is not seen here. -/
namespace Zucrypt
open Effects ByteMemory Entry

variable {O : Objects} {κ Op α β : Type}

/-! ### Slices -/

/-- The chunks of an input from `offset` on: where each begins, and its length. -/
def slices (total offset : Nat) : List (Nat × Nat) :=
  if offset < total then
    (offset, chunkLength total offset) :: slices total (offset + chunkLength total offset)
  else
    []
termination_by total - offset
decreasing_by exact chunk_shrinks ‹offset < total›

theorem slices_of_lt {total offset : Nat} (h : offset < total) :
    slices total offset =
      (offset, chunkLength total offset) :: slices total (offset + chunkLength total offset) := by
  rw [slices, if_pos h]

theorem slices_of_ge {total offset : Nat} (h : ¬ offset < total) : slices total offset = [] := by
  rw [slices, if_neg h]

theorem chunkLength_pos {total offset : Nat} (h : offset < total) : 0 < chunkLength total offset := by
  unfold chunkLength ZUCRYPT_CHUNK
  split <;> omega

theorem chunkLength_le {total offset : Nat} (h : offset ≤ total) :
    offset + chunkLength total offset ≤ total := by
  unfold chunkLength
  split <;> omega

/-- Induction over the loops: the last pass, and one chunk before the others. -/
theorem chunk_induction (total : Nat) {P : Nat → Prop} (hdone : ∀ offset, ¬ offset < total → P offset)
    (hnext : ∀ offset, offset < total → P (offset + chunkLength total offset) → P offset)
    (offset : Nat) : P offset := by
  induction hk : total - offset using Nat.strongRecOn generalizing offset with
  | _ k ih =>
    subst hk
    by_cases hless : offset < total
    · refine hnext offset hless (ih _ ?_ _ rfl)
      have hpos := chunkLength_pos hless
      omega
    · exact hdone offset hless

/-- No slice is empty, longer than a chunk, or goes past the end. -/
theorem slices_within {total offset : Nat} :
    ∀ c ∈ slices total offset, offset ≤ c.1 ∧ 0 < c.2 ∧ c.2 ≤ ZUCRYPT_CHUNK ∧ c.1 + c.2 ≤ total := by
  refine chunk_induction total (P := fun offset => ∀ c ∈ slices total offset,
    offset ≤ c.1 ∧ 0 < c.2 ∧ c.2 ≤ ZUCRYPT_CHUNK ∧ c.1 + c.2 ≤ total) ?_ ?_ offset
  · intro offset hdone c hc
    rw [slices_of_ge hdone] at hc
    cases hc
  · intro offset hless ih c hc
    rw [slices_of_lt hless] at hc
    rcases List.mem_cons.mp hc with rfl | hc
    · refine ⟨Nat.le_refl _, chunkLength_pos hless, ?_, chunkLength_le (Nat.le_of_lt hless)⟩
      show chunkLength total offset ≤ ZUCRYPT_CHUNK
      unfold chunkLength
      split <;> omega
    · obtain ⟨hfrom, hrest⟩ := ih c hc
      exact ⟨by omega, hrest⟩

/-- Together they are the input. -/
theorem slices_read (m : Memory) (p : Nat) {total offset : Nat} (h : offset ≤ total) :
    (slices total offset).flatMap (fun c => read m (p + c.1) c.2) =
      read m (p + offset) (total - offset) := by
  revert h
  refine chunk_induction total (P := fun offset => offset ≤ total →
    (slices total offset).flatMap (fun c => read m (p + c.1) c.2) =
      read m (p + offset) (total - offset)) ?_ ?_ offset
  · intro offset hdone h
    have hempty : total - offset = 0 := by omega
    rw [slices_of_ge hdone, hempty]
    rfl
  · intro offset hless ih h
    have hle := chunkLength_le h
    have hsplit : total - offset =
        chunkLength total offset + (total - (offset + chunkLength total offset)) := by omega
    rw [slices_of_lt hless, List.flatMap_cons, ih hle, hsplit, read_add, Nat.add_assoc]

/-! ### The loops are passes over the slices -/

/-- The pass of `digestLoop` over some slices. -/
def digestOver (K : DigestKind O κ Op) (ptr bytes : Nat) :
    List (Nat × Nat) → Option (StreamHandle κ Op) → Entry O (ZucStatus × Option (StreamHandle κ Op))
  | [], h => return (.ok, h)
  | c :: cs, h => do
    let r ← native (streamUpdate K.ops h (bytes + c.1) c.2)
    setAddress ptr (r.2.map K.context)
    checkUserInterrupt
    if r.1 ≠ .ok then
      return r
    else
      digestOver K ptr bytes cs r.2

theorem digestLoop_eq_over (K : DigestKind O κ Op) (ptr bytes total offset : Nat)
    (h : Option (StreamHandle κ Op)) :
    digestLoop K ptr bytes total offset h = digestOver K ptr bytes (slices total offset) h := by
  revert h
  refine chunk_induction total (P := fun offset => ∀ h, digestLoop K ptr bytes total offset h =
    digestOver K ptr bytes (slices total offset) h) ?_ ?_ offset
  · intro offset hdone h
    rw [digestLoop, if_neg hdone, slices_of_ge hdone, digestOver]
  · intro offset hless ih h
    rw [digestLoop, if_pos hless, slices_of_lt hless, digestOver]
    simp only [ih]

/-! ### Nothing that is not asked for is stored -/

theorem silent_zucHashNew (alg : ZucAlg) (out : Bool) : Silent (zucHashNew alg out : Adapter O _) := by
  refine .ite (fun _ => .pure _) fun _ => ?_
  refine .bind silent_zucIntReady fun ready => ?_
  refine .ite (fun _ => .pure _) fun _ => ?_
  refine .ite (fun _ => .pure _) fun _ => ?_
  refine .bind (silent_callocRecord _) fun p => ?_
  cases p with
  | none => exact .pure _
  | some self =>
    refine .bind (.psa trivial) fun r => ?_
    refine .ite (fun _ => ?_) fun _ => .bind (.count _) fun _ => .pure _
    exact .bind (.psa trivial) fun _ => .bind (silent_freeRecord _ _) fun _ => .pure _

theorem silent_importHmacKey (alg : ZucAlg) (key keyLen : Nat) (palg : PsaAlg) :
    Silent (importHmacKey alg key keyLen palg : Adapter O _) := by
  have hdrop : ∀ bs : List Byte, Silent (dropLocal bs : Adapter O _) := fun _ => .heap trivial
  have hreduced : ∀ reduced bytes : List Byte,
      Silent (importReducedKey palg reduced bytes : Adapter O _) := fun _ _ =>
    .bind (.psa trivial) fun r => .bind (hdrop _) fun _ => .pure _
  refine .bind (silent_readMem _ _) fun bytes => ?_
  refine .ite (fun _ => ?_) fun _ => hreduced _ _
  refine .bind (.psa trivial) fun r => ?_
  refine .ite (fun _ => ?_) fun _ => hreduced _ _
  exact .bind (hdrop _) fun _ => .pure _

theorem silent_zucHmacNew (alg : ZucAlg) (key keyLen : Nat) (out : Bool) :
    Silent (zucHmacNew alg key keyLen out : Adapter O _) := by
  refine .ite (fun _ => .pure _) fun _ => ?_
  refine .bind silent_zucIntReady fun ready => ?_
  refine .ite (fun _ => .pure _) fun _ => ?_
  refine .ite (fun _ => .pure _) fun _ => ?_
  refine .ite (fun _ => .pure _) fun _ => ?_
  refine .bind (silent_callocRecord _) fun p => ?_
  cases p with
  | none => exact .pure _
  | some self =>
    refine .bind (silent_importHmacKey _ _ _ _) fun k => ?_
    refine .ite (fun _ => .bind (silent_freeRecord _ _) fun _ => .pure _) fun _ => ?_
    refine .bind (.psa trivial) fun r => ?_
    refine .ite (fun _ => ?_) fun _ => .bind (.count _) fun _ => .pure _
    refine .bind (.psa trivial) fun _ => .bind (.psa trivial) fun _ => ?_
    exact .bind (silent_freeRecord _ _) fun _ => .pure _

theorem silent_zucAesNew (key keyLen : Nat) (out : Bool) :
    Silent (zucAesNew key keyLen out : Adapter O _) := by
  refine .ite (fun _ => .pure _) fun _ => ?_
  refine .bind silent_zucIntReady fun ready => ?_
  refine .ite (fun _ => .pure _) fun _ => ?_
  refine .ite (fun _ => .pure _) fun _ => ?_
  refine .ite (fun _ => .pure _) fun _ => ?_
  refine .bind (silent_callocRecord _) fun p => ?_
  cases p with
  | none => exact .pure _
  | some self =>
    have himport : Silent (importAesKey key keyLen .cbcNoPadding : Adapter O _) :=
      .bind (silent_readMem _ _) fun _ => .bind (.psa trivial) fun _ => .pure _
    refine .bind himport fun k => ?_
    refine .ite (fun _ => .bind (silent_freeRecord _ _) fun _ => .pure _) fun _ => ?_
    exact .bind (.count _) fun _ => .pure _

/-- Freeing a context stores nothing. -/
theorem silent_free (c : LiveHandle O) : Silent c.free := by
  cases c with
  | hash h =>
    exact .bind (.psa trivial) fun _ => .bind (silent_freeRecord _ _) fun _ => .count _
  | hmac h =>
    refine .bind (.psa trivial) fun _ => .bind (.psa trivial) fun _ => ?_
    exact .bind (silent_freeRecord _ _) fun _ => .count _
  | aes a => exact .bind (.psa trivial) fun _ => .bind (silent_freeRecord _ _) fun _ => .count _
  | pkey k => exact silent_zucPkeyFree (some k)

theorem Silent.exec_mem {σ : Type} {p : Adapter O α} (hp : Silent p) (h : Handler (Call O) σ)
    (w : World) (s : σ) : (p.exec h w s).world.mem = w.mem :=
  (hp.mem w).exec h s fun _ _ => trivial

/-! ### While nothing jumps -/

section
variable {σ : Type} {h : Handler (Call O) σ} {H : RHeap O} {w : World} {s : σ}

theorem exec_jumpPoint (hq : H.jump = none) :
    ((jumpPoint : Entry O Unit) H).exec h w s = ⟨(some (), H), w, s⟩ := by
  unfold jumpPoint
  rw [hq]
  rfl

theorem exec_allocations (hq : H.jump = none) (n : Nat) :
    ((allocations n : Entry O Unit) H).exec h w s = ⟨(some (), H), w, s⟩ := by
  induction n with
  | zero => rfl
  | succ n ih =>
    rw [allocations, Entry.exec_bind (exec_jumpPoint hq)]
    exact ih

theorem exec_setAddress (i : Nat) (addr : Option (LiveHandle O)) :
    (setAddress i addr H).exec h w s =
      ⟨(some (), H.setPointer i { H.pointer i with addr }), w, s⟩ := (rfl)

theorem exec_result (hq : H.jump = none) (st : ZucStatus) (value : Sexp) :
    (result st value H).exec h w s = ⟨(some (nativeResult st value), H), w, s⟩ := by
  unfold result
  rw [Entry.exec_bind (exec_allocations hq 6)]
  rfl

theorem exec_allocVector (hq : H.jump = none) (n : Nat) :
    (allocVector n H).exec h w s =
      ⟨(some (h _ (.allocRaw n) s).1, H), w, (h _ (.allocRaw n) s).2⟩ := by
  unfold allocVector
  rw [Entry.exec_bind (exec_jumpPoint hq), Entry.exec_native]
  rfl

/-- A release frees what there is, and stores nothing. -/
theorem exec_releasePtr (ptr : Nat) : ∃ H' w' s',
    (releasePtr ptr H).exec h w s = ⟨(some (), H'), w', s'⟩ ∧ w'.mem = w.mem ∧ H'.jump = H.jump := by
  unfold releasePtr
  have haddress : (address ptr H).exec h w s = ⟨(some (H.pointer ptr).addr, H), w, s⟩ := rfl
  rw [Entry.exec_bind haddress]
  cases (H.pointer ptr).addr with
  | none => exact ⟨H, w, s, rfl, rfl, rfl⟩
  | some c =>
    dsimp only
    rw [Entry.exec_bind (exec_setAddress ptr none), Entry.exec_native]
    exact ⟨_, _, _, rfl, (silent_free c).exec_mem h w s, rfl⟩

theorem exec_checkUserInterrupt (hq : H.jump = none) :
    ((checkUserInterrupt : Entry O Unit) H).exec h w s = ⟨(some (), H), w, s⟩ := exec_jumpPoint hq

theorem RHeap.pointer_setPointer {i : Nat} (hi : i < H.pointers.length) (p : ExternalPtr O) :
    (H.setPointer i p).pointer i = p := by
  unfold RHeap.pointer RHeap.setPointer
  simp [List.getD_eq_getElem?_getD, hi]

/-- The owner is made first, and is empty. -/
theorem exec_ownerPtr (hq : H.jump = none) (kind : ContextKind) (tag : Option StreamTag) : ∃ H',
    (ownerPtr kind tag H).exec h w s = ⟨(some H.pointers.length, H'), w, s⟩ ∧ H'.jump = none ∧
      H.pointers.length < H'.pointers.length ∧
      H'.pointer H.pointers.length = { finalizer := some kind, tag } := by
  have hmake : (makeExternalPtr tag H).exec h w s =
      ⟨(some H.pointers.length, { H with pointers := H.pointers ++ [{ tag }] }), w, s⟩ := by
    unfold makeExternalPtr
    rw [Entry.exec_bind (exec_jumpPoint hq)]
    rfl
  have hregister : ∀ (i : Nat) {H : RHeap O}, H.jump = none → (registerFinalizer i kind H).exec h w s =
      ⟨(some (), H.setPointer i { H.pointer i with finalizer := some kind }), w, s⟩ := by
    intro i H hq
    unfold registerFinalizer
    rw [Entry.exec_bind (exec_jumpPoint hq)]
    rfl
  have hlast : H.pointers.length < (H.pointers ++ [({ tag } : ExternalPtr O)]).length := by simp
  unfold ownerPtr
  rw [Entry.exec_bind hmake, Entry.exec_bind (hregister H.pointers.length (by exact hq))]
  refine ⟨_, rfl, hq, ?_, ?_⟩
  · simp [RHeap.setPointer]
  · rw [RHeap.pointer_setPointer (by exact hlast)]
    simp [RHeap.pointer, List.getD_eq_getElem?_getD]

end

/-! ### Against a correct backend -/

section
variable {σ : Type} {h : Handler (Call O) σ} {K : DigestKind O κ Op} {palg : PsaAlg} {key : κ}
  {D : List Byte → List Byte} {L : StreamLaws h K.ops palg key D} {H : RHeap O} {w : World} {s : σ}
  {hd : StreamHandle κ Op} {m : List Byte} {alg : ZucAlg}

/-- A pass over slices of a buffer feeds them all. -/
theorem exec_digestOver (hq : H.jump = none) (hc : Collecting L hd s m) (ptr : Nat) {bytes : Nat}
    {cs : List (Nat × Nat)} (hcs : ∀ c ∈ cs, bytes + c.1 ≠ NULL) : ∃ op b s' H',
    (digestOver K ptr bytes cs (some hd) H).exec h w s =
      ⟨(some (.ok, some { hd with op }), H'), w.noteAlloc b, s'⟩ ∧
    Collecting L { hd with op } s' (m ++ cs.flatMap fun c => read w.mem (bytes + c.1) c.2) ∧
    H'.jump = none := by
  induction cs generalizing hd m w s H with
  | nil =>
    refine ⟨hd.op, false, s, H, ?_, ?_, hq⟩
    · rw [digestOver, Entry.exec_pure, World.noteAlloc_false]
    · simpa using hc
  | cons c cs ih =>
    have hdata : ¬ (bytes + c.1 = NULL ∧ c.2 ≠ 0) := fun hnull => hcs c List.mem_cons_self hnull.1
    obtain ⟨op, b, s₁, hupdate, hc₁⟩ := exec_streamUpdate_collecting (w := w) hc hdata
    have hnative : (native (streamUpdate K.ops (some hd) (bytes + c.1) c.2) H).exec h w s =
        ⟨(some (.ok, some { hd with op }), H), w.noteAlloc b, s₁⟩ := by
      rw [Entry.exec_native, hupdate]
    obtain ⟨op', b', s', H', hrest, hc', hq'⟩ := ih (H := H.setPointer ptr
      { H.pointer ptr with addr := some (K.context { hd with op }) }) (w := w.noteAlloc b) hq hc₁
      fun c hc => hcs c (List.mem_cons_of_mem _ hc)
    refine ⟨op', b || b', s', H', ?_, ?_, hq'⟩
    · rw [digestOver, Entry.exec_bind hnative, Entry.exec_bind (exec_setAddress ptr _),
        Entry.exec_bind (exec_checkUserInterrupt (by exact hq)), if_neg (by simp)]
      rw [← World.noteAlloc_noteAlloc]
      exact hrest
    · rw [List.flatMap_cons, ← List.append_assoc]
      exact hc'

/-- The end of a digest delivers it in a vector of its own, if R has memory for one. -/
theorem exec_digestFinish (hq : H.jump = none) (hc : Collecting L hd s m) (halg : hd.alg = alg)
    (hD : (D m).length = zucAlgSize alg) (hkeep : ∀ s n, L.usable s → L.usable (h _ (.allocRaw n) s).2)
    (ptr : Nat) (hout : (h _ (.allocRaw (zucAlgSize alg)) s).1 ≠ NULL) : ∃ p w' s' H',
    (digestFinish K ptr alg (some hd) H).exec h w s =
      ⟨(some ⟨.ok, .raw p (zucAlgSize alg) []⟩, H'), w', s'⟩ ∧
    read w'.mem p (zucAlgSize alg) = D m ∧ H'.jump = none := by
  subst halg
  have hc₁ : Collecting L hd (h _ (.allocRaw (zucAlgSize hd.alg)) s).2 m :=
    ⟨hc.active, hc.absorbed, hkeep _ _ hc.usable⟩
  generalize hp : (h _ (.allocRaw (zucAlgSize hd.alg)) s).1 = p at hout
  have hnull : ¬ (p = NULL ∨ some 0 = (none : SizeCell)) := by simpa using hout
  obtain ⟨op, o, b, s₁, hfinish, ho, -⟩ :=
    exec_streamFinish_collecting (w := w) hc₁ hnull (Nat.le_refl _) hD
  have hnative : (native (streamFinish K.ops (some hd) p (zucAlgSize hd.alg) (some 0)) H).exec h w
      (h _ (.allocRaw (zucAlgSize hd.alg)) s).2 =
      ⟨(some (.ok, some { hd with op, active := false }, some (zucAlgSize hd.alg)), H),
        (w.noteAlloc b).store p (o.bytes.take (zucAlgSize hd.alg)), s₁⟩ := by
    rw [Entry.exec_native, hfinish]
    rfl
  obtain ⟨H', w', s', hrelease, hmem, hq'⟩ := exec_releasePtr (h := h)
    (H := H.setPointer ptr { H.pointer ptr with addr := some (K.context { hd with op, active := false }) })
    (w := (w.noteAlloc b).store p (o.bytes.take (zucAlgSize hd.alg))) (s := s₁) ptr
  have hread := ho.read_store (w.noteAlloc b) p (Nat.le_of_eq hD)
  refine ⟨p, w', s', H', ?_, ?_, hq'.trans hq⟩
  · unfold digestFinish
    rw [Entry.exec_bind (exec_allocVector hq _), hp, Entry.exec_bind hnative]
    refine (Entry.exec_bind (exec_setAddress ptr _)).trans ?_
    refine (Entry.exec_bind hrelease).trans ?_
    refine (exec_result (hq'.trans hq) _ _).trans ?_
    simp [nativeResult]
  · rw [hmem, ← hD]
    rw [← hD] at hread
    exact hread

end

end Zucrypt
