import Zucrypt.ChunkedDigests
import Zucrypt.CryptHash

/-! # Chunked and streamed results

Against a correct backend, whatever the entry points and the functions over them do in chunks comes
to what is done at once: the digest of a connection is the digest of what it yields, and a CBC pass
in chunks is one pass.

`FreshRun` is the logic of such runs, in which R gives each new vector memory of its own.  A loop
over chunks is there with what has been done from its offset on, and what is left to do; the digest
accumulates the slices so far, and CBC leaves the next chunk its chaining value.  `Dispatches` is
for the functions that know the kind of a stream by its tag only: given the tag, they do what the
functions of the kind do, and one proof is for hashes and HMACs. -/
namespace Zucrypt
open Effects ByteMemory BlockChaining Entry

variable {O : Objects} {σ κ Op α β : Type} {h : Handler (Call O) σ} {live : List (Nat × Nat)}
  {w w' : World} {s s' : σ}

/-! ### Runs against one backend -/

/-- Where each vector R makes in the run is apart from those there are, the run ends in `Q`. -/
def FreshRun (h : Handler (Call O) σ) (live : List (Nat × Nat)) (w : World) (s : σ)
    (p : Adapter O α) (Q : Outcome α World σ → Prop) : Prop :=
  FreshVectors live ((p w).trace h s) → Q (p.exec h w s)

namespace FreshRun

variable {H H' : RHeap O} {st st' : RState}

theorem of_exec {p : Adapter O α} {r : Outcome α World σ} {Q : Outcome α World σ → Prop}
    (hp : p.exec h w s = r) (hQ : Q r) : FreshRun h live w s p Q := by
  subst hp
  exact fun _ => hQ

theorem mono {p : Adapter O α} {Q Q' : Outcome α World σ → Prop} (hp : FreshRun h live w s p Q)
    (hQ : ∀ r, Q r → Q' r) : FreshRun h live w s p Q' :=
  fun hfresh => hQ _ (hp hfresh)

/-- One step that is known, and then the rest; no vector has gone away. -/
theorem bind {p : Adapter O α} {f : α → Adapter O β} {a : α} {Q : Outcome β World σ → Prop}
    (hp : p.exec h w s = ⟨a, w', s'⟩)
    (hf : ∀ live', (∀ v ∈ live, v ∈ live') → FreshRun h live' w' s' (f a) Q) :
    FreshRun h live w s (p >>= f) Q := by
  intro hfresh
  have htrace : ((p >>= f) w).trace h s =
      (p w).trace h s ++ (f (p.exec h w s).value (p.exec h w s).world).trace h (p.exec h w s).env :=
    Program.trace_bind h (p w) (fun x => f x.1 x.2) s
  rw [htrace, hp] at hfresh
  rw [Proc.exec_bind, hp]
  exact hf _ (fun v hv => mem_vectorsAfter hv) (freshVectors_append.mp hfresh).2

theorem entry {p : Entry O α} {f : α → Entry O β} {a : α}
    {Q : Outcome (Option β × RHeap O) World σ → Prop}
    (hp : (p H).exec h w s = ⟨(some a, H'), w', s'⟩)
    (hf : ∀ live', (∀ v ∈ live, v ∈ live') → FreshRun h live' w' s' (f a H') Q) :
    FreshRun h live w s ((p >>= f) H) Q := by
  show FreshRun h live w s (Entry.seq p f H) Q
  unfold Entry.seq
  exact bind hp hf

theorem rfun {p : RFun O α} {f : α → RFun O β} {a : α}
    {Q : Outcome (Except Condition β × RState) World σ → Prop}
    (hp : (p st).exec h w s = ⟨(.ok a, st'), w', s'⟩)
    (hf : ∀ live', (∀ v ∈ live, v ∈ live') → FreshRun h live' w' s' (f a st') Q) :
    FreshRun h live w s ((p >>= f) st) Q := by
  show FreshRun h live w s (RFun.seq p f st) Q
  unfold RFun.seq
  exact bind hp hf

/-- A new vector is apart from the others. -/
theorem allocRaw {n : Nat} {f : Nat → Adapter O β} {Q : Outcome β World σ → Prop}
    (hn : n ≤ R.VECTOR_MAX)
    (hf : ∀ live', (∀ v ∈ live, v ∈ live') → ValidBuffer (h _ (.allocRaw n) s).1 n →
      (∀ v ∈ live, Apart (h _ (.allocRaw n) s).1 n v.1 v.2) →
      FreshRun h live' w (h _ (.allocRaw n) s).2 (f (h _ (.allocRaw n) s).1) Q) :
    FreshRun h live w s (Zucrypt.allocRaw n >>= f) Q := by
  intro hfresh
  obtain ⟨hvalid, hapart⟩ := hfresh.1 ((h _ (.allocRaw n) s).1, n) rfl hn
  exact hf _ (fun v hv => List.mem_append_right _ hv) hvalid hapart hfresh.2

/-- The same of a vector that an entry point begins with. -/
theorem of_vector {n : Nat} {f : Nat → Entry O β}
    {Q : Outcome (Option β × RHeap O) World σ → Prop} (hq : H.jump = none) (hn : n ≤ R.VECTOR_MAX)
    (hQ : ValidBuffer (h _ (.allocRaw n) s).1 n →
      (∀ v ∈ live, Apart (h _ (.allocRaw n) s).1 n v.1 v.2) →
      Q (((Entry.allocVector n >>= f) H).exec h w s)) :
    FreshRun h live w s ((Entry.allocVector n >>= f) H) Q := by
  have hrun : (Entry.allocVector n >>= f) H = Zucrypt.allocRaw n >>= fun p => f p H := by
    have hjump : (jumpPoint : Entry O Unit) H = pure (some (), H) := by
      unfold jumpPoint
      rw [hq]
    show Entry.seq (Entry.seq jumpPoint fun _ => native (Zucrypt.allocRaw n)) f H = _
    unfold Entry.seq
    rw [hjump]
    rfl
  rw [hrun] at hQ ⊢
  intro hfresh
  obtain ⟨hvalid, hapart⟩ := hfresh.1 ((h _ (.allocRaw n) s).1, n) rfl hn
  exact hQ hvalid hapart

theorem newRaw {bs : List Byte} {f : Sexp → Adapter O β} {Q : Outcome β World σ → Prop}
    (hbs : bs.length ≤ R.VECTOR_MAX)
    (hf : ∀ p live', (∀ v ∈ live, v ∈ live') → ValidBuffer p bs.length →
      FreshRun h live' (w.store p bs) (h _ (.allocRaw bs.length) s).2 (f (.raw p bs.length [])) Q) :
    FreshRun h live w s (Zucrypt.newRaw bs >>= f) Q := by
  have hassoc : Zucrypt.newRaw bs >>= f = Zucrypt.allocRaw bs.length >>= fun p =>
      (writeMem p bs >>= fun _ => (pure (.raw p bs.length []) : Adapter O Sexp)) >>= f := by
    funext w
    exact Program.bind_assoc _ _ _
  rw [hassoc]
  refine allocRaw hbs fun live₁ hlive₁ hvalid _ => ?_
  have hwrite : (writeMem (h _ (.allocRaw bs.length) s).1 bs >>= fun _ =>
      (pure (.raw (h _ (.allocRaw bs.length) s).1 bs.length []) : Adapter O Sexp)).exec h w
        (h _ (.allocRaw bs.length) s).2 =
      ⟨.raw (h _ (.allocRaw bs.length) s).1 bs.length [], w.store (h _ (.allocRaw bs.length) s).1 bs,
        (h _ (.allocRaw bs.length) s).2⟩ := (rfl)
  refine bind hwrite fun live₂ hlive₂ => ?_
  exact hf _ live₂ (fun v hv => hlive₂ v (hlive₁ v hv)) hvalid

/-- A part whose run is known, and then what needs no vector. -/
theorem andThen {p : Adapter O α} {f : α → Adapter O β} {R : Outcome α World σ → Prop}
    {Q : Outcome β World σ → Prop} (hp : FreshRun h live w s p R)
    (hf : ∀ r, R r → Q ((f r.value).exec h r.world r.env)) : FreshRun h live w s (p >>= f) Q := by
  intro hfresh
  have htrace : ((p >>= f) w).trace h s =
      (p w).trace h s ++ (f (p.exec h w s).value (p.exec h w s).world).trace h (p.exec h w s).env :=
    Program.trace_bind h (p w) (fun x => f x.1 x.2) s
  rw [htrace] at hfresh
  rw [Proc.exec_bind]
  exact hf _ (hp (freshVectors_append.mp hfresh).1)

end FreshRun

/-! ### Digests -/

theorem zucAlgSize_le_vector (alg : ZucAlg) : zucAlgSize alg ≤ R.VECTOR_MAX := by
  have hmax : zucAlgSize alg ≤ 64 := by cases alg <;> simp [zucAlgSize]
  exact Nat.le_trans hmax (by decide)

/-- An entry point leaves a digest, in a vector of its own. -/
def LeavesDigest (alg : ZucAlg) (d : List Byte) (r : Outcome (Option NativeResult × RHeap O) World σ) :
    Prop :=
  ∃ p H', r.value = (some ⟨.ok, .raw p (zucAlgSize alg) []⟩, H') ∧
    read r.world.mem p (zucAlgSize alg) = d

section
variable {K : DigestKind O κ Op} {palg : PsaAlg} {key : κ} {D : List Byte → List Byte}
  {L : StreamLaws h K.ops palg key D} {H : RHeap O} {hd : StreamHandle κ Op} {m : List Byte}
  {alg : ZucAlg}

theorem freshRun_digestFinish (hq : H.jump = none) (hc : Collecting L hd s m) (halg : hd.alg = alg)
    (hD : (D m).length = zucAlgSize alg) (hkeep : ∀ s n, L.usable s → L.usable (h _ (.allocRaw n) s).2)
    (ptr : Nat) : FreshRun h live w s (digestFinish K ptr alg (some hd) H) (LeavesDigest alg (D m)) := by
  refine FreshRun.of_vector hq (zucAlgSize_le_vector alg) fun hvalid _ => ?_
  obtain ⟨p, w', s', H', hexec, hread, -⟩ :=
    exec_digestFinish (w := w) hq hc halg hD hkeep ptr hvalid.1
  refine ⟨p, H', congrArg Outcome.value hexec, ?_⟩
  rw [← hread]
  exact congrArg (fun r => read (Outcome.world r).mem p (zucAlgSize alg)) hexec

/-- A one-shot entry point, once its context has been created. -/
theorem freshRun_digestCall (hq : H.jump = none) {new : Adapter O (ZucStatus × Option (StreamHandle κ Op))}
    {w₁ : World} {s₁ : σ} (hnew : new.exec h w s = ⟨(.ok, some hd), w₁, s₁⟩) (hmem : w₁.mem = w.mem)
    (hc : Collecting L hd s₁ []) (halg : hd.alg = alg) (hD : ∀ m, (D m).length = zucAlgSize alg)
    (hkeep : ∀ s n, L.usable s → L.usable (h _ (.allocRaw n) s).2) {data : Sexp}
    (hdata : data.XLENGTH ≠ 0 → data.RAW ≠ NULL) :
    FreshRun h live w s (digestCall K new alg data H) (LeavesDigest alg (D (data.bytes w.mem))) := by
  obtain ⟨H₁, howner, hq₁, -⟩ := exec_ownerPtr (h := h) (w := w) (s := s) hq K.kind none
  have hnative : (native new H₁).exec h w s = ⟨(some (.ok, some hd), H₁), w₁, s₁⟩ := by
    rw [Entry.exec_native, hnew]
  have hcs : ∀ c ∈ slices data.XLENGTH 0, data.RAW + c.1 ≠ NULL := by
    intro c hc
    obtain ⟨-, hpos, -, hend⟩ := slices_within c hc
    have hne := hdata (by omega)
    unfold NULL at hne ⊢
    omega
  obtain ⟨op, b, s₂, H₂, hloop, hc₂, hq₂⟩ := exec_digestOver (w := w₁)
    (H := H₁.setPointer H.pointers.length
      { H₁.pointer H.pointers.length with addr := some (K.context hd) }) hq₁ hc H.pointers.length hcs
  have hwhole : (slices data.XLENGTH 0).flatMap (fun c => read w₁.mem (data.RAW + c.1) c.2) =
      data.bytes w.mem := by
    rw [slices_read _ _ (Nat.zero_le _), hmem]
    rfl
  rw [List.nil_append, hwhole] at hc₂
  unfold digestCall
  refine .entry howner fun live₁ hlive₁ => ?_
  refine .entry hnative fun live₂ hlive₂ => ?_
  rw [if_neg (by simp)]
  refine .entry (exec_setAddress _ _) fun live₃ hlive₃ => ?_
  rw [digestLoop_eq_over]
  refine .entry hloop fun live₄ hlive₄ => ?_
  rw [if_neg (by simp)]
  exact freshRun_digestFinish hq₂ hc₂ halg (hD _) hkeep _

end

/-! ### Streams -/

/-- The pointer of a stream with this context. -/
structure StreamAt (K : DigestKind O κ Op) (isHmac : Bool) (H : RHeap O) (ptr : Nat) (alg : ZucAlg)
    (hd : StreamHandle κ Op) : Prop where
  inside : ptr < H.pointers.length
  tag : (H.pointer ptr).tag = some ⟨isHmac, alg⟩
  addr : (H.pointer ptr).addr = some (K.context hd)

/-- What the stream functions do by the tag is what they do to a context of the kind. -/
structure Dispatches (K : DigestKind O κ Op) (isHmac : Bool) : Prop where
  update : ∀ {H : RHeap O} {ptr alg hd} data, StreamAt K isHmac H ptr alg hd →
    zucryptStreamUpdate ptr data H = streamFeed K ptr hd data H
  finish : ∀ {H : RHeap O} {ptr alg hd}, StreamAt K isHmac H ptr alg hd →
    zucryptStreamFinish ptr H = digestFinish K ptr alg (some hd) H

theorem StreamAt.streamTag {K : DigestKind O κ Op} {isHmac : Bool} {H : RHeap O} {ptr : Nat}
    {alg : ZucAlg} {hd : StreamHandle κ Op} (hat : StreamAt K isHmac H ptr alg hd) :
    Zucrypt.streamTag ptr H = pure (some ⟨isHmac, alg⟩, H) := by
  have hlook : (look fun H => (H.pointer ptr).tag) H = pure (some (some ⟨isHmac, alg⟩), H) := by
    show pure (some (H.pointer ptr).tag, H) = _
    rw [hat.tag]
  unfold Zucrypt.streamTag
  rw [Entry.bind_some hlook]
  rfl

theorem StreamAt.address {K : DigestKind O κ Op} {isHmac : Bool} {H : RHeap O} {ptr : Nat}
    {alg : ZucAlg} {hd : StreamHandle κ Op} (hat : StreamAt K isHmac H ptr alg hd) :
    Entry.address ptr H = pure (some (some (K.context hd)), H) := by
  show pure (some (H.pointer ptr).addr, H) = _
  rw [hat.addr]

theorem dispatches_hash : Dispatches (hashKind : DigestKind O _ _) false where
  update data hat := by
    unfold zucryptStreamUpdate
    rw [Entry.bind_some hat.streamTag, Entry.bind_some hat.address]
    rfl
  finish hat := by
    unfold zucryptStreamFinish
    rw [Entry.bind_some hat.streamTag, Entry.bind_some hat.address]
    rfl

theorem dispatches_hmac : Dispatches (hmacKind : DigestKind O _ _) true where
  update data hat := by
    unfold zucryptStreamUpdate
    rw [Entry.bind_some hat.streamTag, Entry.bind_some hat.address]
    rfl
  finish hat := by
    unfold zucryptStreamFinish
    rw [Entry.bind_some hat.streamTag, Entry.bind_some hat.address]
    rfl

section
variable {K : DigestKind O κ Op} {palg : PsaAlg} {key : κ} {D : List Byte → List Byte}
  {L : StreamLaws h K.ops palg key D} {H : RHeap O} {hd : StreamHandle κ Op} {m : List Byte}
  {alg : ZucAlg} {isHmac : Bool}

/-- A stream that has been created. -/
theorem exec_streamNew (isHmac : Bool) (alg : ZucAlg) (hq : H.jump = none) {new : Adapter O (ZucStatus × Option (StreamHandle κ Op))}
    (hnew : new.exec h w s = ⟨(.ok, some hd), w', s'⟩) : ∃ ptr H',
    (streamNew K new ⟨isHmac, alg⟩ H).exec h w s = ⟨(some (.ok, some ptr), H'), w', s'⟩ ∧
      StreamAt K isHmac H' ptr alg hd ∧ H'.jump = none := by
  obtain ⟨H₁, howner, hq₁, hinside, hptr⟩ := exec_ownerPtr (h := h) (w := w) (s := s) hq
    (if isHmac then .hmac else .hash) (some ⟨isHmac, alg⟩)
  have hstream : (streamPtr ⟨isHmac, alg⟩ H).exec h w s = ⟨(some H.pointers.length, H₁), w, s⟩ := by
    unfold streamPtr
    rw [Entry.exec_bind (exec_jumpPoint hq)]
    exact howner
  have hnative : (native new H₁).exec h w s = ⟨(some (.ok, some hd), H₁), w', s'⟩ := by
    rw [Entry.exec_native, hnew]
  have hself := RHeap.pointer_setPointer hinside
    { H₁.pointer H.pointers.length with addr := some (K.context hd) }
  refine ⟨H.pointers.length, H₁.setPointer H.pointers.length
    { H₁.pointer H.pointers.length with addr := some (K.context hd) }, ?_, ⟨?_, ?_, ?_⟩, hq₁⟩
  · unfold streamNew
    rw [Entry.exec_bind hstream, Entry.exec_bind hnative, if_pos rfl]
    refine (Entry.exec_bind (exec_setAddress _ _)).trans ?_
    exact Entry.exec_bind (exec_allocations (by exact hq₁) 6)
  · simpa [RHeap.setPointer] using hinside
  · rw [hself, hptr]
  · rw [hself]

/-- A chunk that is fed to it. -/
theorem exec_streamUpdate (hq : H.jump = none) (hK : Dispatches K isHmac) {ptr : Nat}
    (hat : StreamAt K isHmac H ptr alg hd) (hc : Collecting L hd s m) (data : Sexp)
    (hdata : data.RAW ≠ NULL) : ∃ op b s' H',
    (zucryptStreamUpdate ptr data H).exec h w s = ⟨(some .ok, H'), w.noteAlloc b, s'⟩ ∧
      StreamAt K isHmac H' ptr alg { hd with op } ∧
      Collecting L { hd with op } s' (m ++ data.bytes w.mem) ∧ H'.jump = none := by
  obtain ⟨op, b, s', hupdate, hc'⟩ := exec_streamUpdate_collecting (w := w) (n := data.XLENGTH) hc
    fun hnull => hdata hnull.1
  have hnative : (native (Zucrypt.streamUpdate K.ops (some hd) data.RAW data.XLENGTH) H).exec h w s =
      ⟨(some (.ok, some { hd with op }), H), w.noteAlloc b, s'⟩ := by
    rw [Entry.exec_native, hupdate]
  refine ⟨op, b, s', H.setPointer ptr
    { H.pointer ptr with addr := some (K.context { hd with op }) }, ?_, ?_, hc', hq⟩
  · rw [hK.update data hat]
    unfold streamFeed
    rw [Entry.exec_bind hnative]
    refine (Entry.exec_bind (exec_setAddress ptr _)).trans ?_
    refine (Entry.exec_bind (exec_checkUserInterrupt (by exact hq))).trans ?_
    exact Entry.exec_bind (exec_allocations (by exact hq) 1)
  · have hself := RHeap.pointer_setPointer hat.inside
      { H.pointer ptr with addr := some (K.context { hd with op }) }
    refine ⟨?_, ?_, ?_⟩
    · simpa [RHeap.setPointer] using hat.inside
    · rw [hself]
      exact hat.tag
    · rw [hself]

/-! ### Connections -/

/-- A function leaves a digest, in a vector of its own. -/
def GivesDigest (alg : ZucAlg) (d : List Byte)
    (r : Outcome (Except Condition Sexp × RState) World σ) : Prop :=
  ∃ p st', r.value = (.ok (.raw p (zucAlgSize alg) []), st') ∧
    read r.world.mem p (zucAlgSize alg) = d

theorem exec_entry {p : Entry O α} {H H' : RHeap O} {st : RState} {a : α}
    (hp : (p H).exec h w s = ⟨(some a, H'), w', s'⟩) :
    (RFun.entry p H st).exec h w s = ⟨(.ok (a, H'), st), w', s'⟩ := by
  unfold RFun.entry
  rw [Proc.exec_bind, hp]
  rfl

/-- Each chunk of a connection is fed to its stream. -/
theorem freshRun_feedLoop (hK : Dispatches K isHmac)
    (hkeep : ∀ s n, L.usable s → L.usable (h _ (.allocRaw n) s).2) {i stream : Nat}
    {algorithm : String} {f : RHeap O → RFun O Sexp}
    {Q : Outcome (Except Condition Sexp × RState) World σ → Prop} {chunks : List (List Byte)}
    (hchunks : ∀ c ∈ chunks, c.length ≤ R.VECTOR_MAX) {st : RState}
    (hq : H.jump = none) (hat : StreamAt K isHmac H stream alg hd) (hc : Collecting L hd s m)
    (hf : ∀ live' H' w' s' st' op, StreamAt K isHmac H' stream alg { hd with op } →
      Collecting L { hd with op } s' (m ++ chunks.flatten) → H'.jump = none →
      FreshRun h live' w' s' (f H' st') Q) :
    FreshRun h live w s ((feedLoop i algorithm stream H chunks >>= f) st) Q := by
  induction chunks generalizing live H w s st hd m with
  | nil =>
    have hc' : Collecting L hd s (m ++ [].flatten) := by simpa using hc
    exact hf live H w s st hd.op hat hc' hq
  | cons c cs ih =>
    have hshort := hchunks c List.mem_cons_self
    rw [feedLoop, RFun.bind_assoc]
    refine .rfun (by rfl) fun live₁ _ => ?_
    rw [RFun.bind_assoc, RFun.native_bind]
    refine .newRaw hshort fun p live₂ _ hvalid => ?_
    have hc₁ : Collecting L hd (h _ (.allocRaw c.length) s).2 m :=
      ⟨hc.active, hc.absorbed, hkeep _ _ hc.usable⟩
    obtain ⟨op, b, s', H', hupdate, hat', hc', hq'⟩ := exec_streamUpdate (w := w.store p c) hq hK hat
      hc₁ (.raw p c.length []) hvalid.1
    have hbytes : (Sexp.raw p c.length []).bytes (w.store p c).mem = c := read_write_self w.mem p c
    rw [hbytes] at hc'
    rw [RFun.bind_assoc]
    refine .rfun (exec_entry hupdate) fun live₃ _ => ?_
    rw [if_neg (by simp)]
    refine ih (fun c hc => hchunks c (List.mem_cons_of_mem _ hc)) hq' hat' hc' ?_
    intro live' H'' w'' s'' st'' op' hat'' hc'' hq''
    rw [List.append_assoc] at hc''
    exact hf live' H'' w'' s'' st'' op' hat'' hc'' hq''

/-- An entry point that leaves a digest, and a function that gives it. -/
theorem freshRun_value {p : Entry O NativeResult} {d : List Byte}
    (hp : FreshRun h live w s (p H) (LeavesDigest alg d)) {f : NativeResult × RHeap O → RFun O Sexp}
    (hf : ∀ a H', f (⟨.ok, a⟩, H') = pure a) (st : RState) :
    FreshRun h live w s ((RFun.entry p H >>= f) st) (GivesDigest alg d) := by
  have hentry : FreshRun h live w s (RFun.entry p H st) fun r => ∃ q H',
      r.value = (.ok (⟨.ok, .raw q (zucAlgSize alg) []⟩, H'), st) ∧
        read r.world.mem q (zucAlgSize alg) = d := by
    unfold RFun.entry
    refine hp.andThen ?_
    rintro r ⟨q, H', hvalue, hread⟩
    refine ⟨q, H', ?_, ?_⟩
    · rw [hvalue]
      rfl
    · rw [hvalue]
      exact hread
  show FreshRun h live w s (RFun.seq (RFun.entry p H) f st) _
  unfold RFun.seq
  refine hentry.andThen ?_
  rintro r ⟨q, H', hvalue, hread⟩
  refine ⟨q, st, ?_, ?_⟩
  · rw [hvalue]
    simp only [hf]
    rfl
  · rw [hvalue]
    simp only [hf]
    exact hread

/-- A connection that reading finds binary data on, to its end. -/
structure Connection.Readable (c : Connection) : Prop where
  valid : c.invalid = none
  opens : c.isOpen = true ∨ c.opening = .works
  canRead : c.canRead = true
  binary : c.binary = true
  complete : c.ending = .complete
  /-- a read finds no more than it was asked for -/
  short : ∀ chunk ∈ c.chunks, chunk.length ≤ ZUCRYPT_CHUNK

theorem freshRun_digestOpen (hK : Dispatches K isHmac)
    (hkeep : ∀ s n, L.usable s → L.usable (h _ (.allocRaw n) s).2)
    (hD : ∀ m, (D m).length = zucAlgSize alg) {i : Nat} {algorithm : String} {key : Option Sexp}
    {st : RState} (hst : (st.connection i).Readable) {H' : RHeap O} {stream : Nat}
    (hnew : (digestStream algorithm key H).exec h w s = ⟨(some (.ok, some stream), H'), w', s'⟩)
    (hq : H'.jump = none) (hat : StreamAt K isHmac H' stream alg hd) (hc : Collecting L hd s' [])
    (halg : hd.alg = alg) :
    FreshRun h live w s (digestOpen i algorithm key H st)
      (GivesDigest alg (D (st.connection i).chunks.flatten)) := by
  have hshort : ∀ c ∈ (st.connection i).chunks, c.length ≤ R.VECTOR_MAX := fun c hc =>
    Nat.le_trans (hst.short c hc) (by decide)
  unfold digestOpen
  refine .rfun (by rfl) fun live₁ _ => ?_
  rw [if_neg (by simp [hst.canRead, hst.binary])]
  refine .rfun (exec_entry hnew) fun live₂ _ => ?_
  refine freshRun_feedLoop hK hkeep hshort hq hat hc ?_
  intro live' H'' w'' s'' st'' op hat' hc' hq'
  rw [hst.complete]
  dsimp only
  rw [if_neg (Connection.isIncomplete_complete hst.complete)]
  rw [List.nil_append] at hc'
  refine freshRun_value (p := zucryptStreamFinish stream) ?_ (fun _ _ => rfl) st''
  rw [hK.finish hat']
  exact freshRun_digestFinish hq' hc' halg (hD _) hkeep stream

theorem freshRun_digestConnection (hK : Dispatches K isHmac)
    (hkeep : ∀ s n, L.usable s → L.usable (h _ (.allocRaw n) s).2)
    (hD : ∀ m, (D m).length = zucAlgSize alg) {i : Nat} {algorithm : String} {key : Option Sexp}
    {st : RState} (hst : (st.connection i).Readable) {H' : RHeap O} {stream : Nat}
    (hnew : (digestStream algorithm key H).exec h w s = ⟨(some (.ok, some stream), H'), w', s'⟩)
    (hq : H'.jump = none) (hat : StreamAt K isHmac H' stream alg hd) (hc : Collecting L hd s' [])
    (halg : hd.alg = alg) :
    FreshRun h live w s (digestConnection i algorithm key H st)
      (GivesDigest alg (D (st.connection i).chunks.flatten)) := by
  unfold digestConnection
  refine .rfun (by rfl) fun live₁ _ => ?_
  rw [hst.valid]
  dsimp only
  by_cases hopen : (st.connection i).isOpen = true
  · rw [if_pos hopen]
    exact freshRun_digestOpen hK hkeep hD hst hnew hq hat hc halg
  · rw [if_neg hopen, hst.opens.resolve_left hopen]
    -- the connection is closed again, whatever has been read
    unfold RFun.onExit
    refine FreshRun.andThen (R := GivesDigest alg (D (st.connection i).chunks.flatten)) ?_ ?_
    · refine .rfun (by rfl) fun live₂ _ => ?_
      have hopened : ((st.update i (st.connection i).opened).connection i).Readable := by
        rw [RState.connection_update]
        exact ⟨hst.valid, .inl rfl, hst.canRead, hst.binary, hst.complete, hst.short⟩
      have hrun : FreshRun h live₂ w s
          (digestOpen i algorithm key H (st.update i (st.connection i).opened)) _ :=
        freshRun_digestOpen hK hkeep hD hopened hnew hq hat hc halg
      rwa [RState.connection_update] at hrun
    · rintro r ⟨p, st', hvalue, hread⟩
      exact ⟨p, _, congrArg (fun v => (v.1, _)) hvalue, hread⟩

end

/-! ### The contexts of both kinds -/

section
variable {H : PsaAlg → List Byte → List Byte} {alg : ZucAlg}

/-- A digest context, where there is memory for it. -/
theorem exec_zucHashNew (LH : HashLaws h H) (halg : zucIntDigestAvailable alg = true) (hready : 0 < w.refcount)
    (hcalloc : (h _ (.calloc .zucHash) s).1 ≠ none) : ∃ hd w' s',
    (zucHashNew alg true).exec h w s = ⟨(.ok, some hd), w', s'⟩ ∧ w'.mem = w.mem ∧
      hd.alg = alg ∧ Collecting (LH.stream ((zucIntDigestAvailable_iff alg).mp halg)) hd s' [] := by
  have hhash := (zucIntDigestAvailable_iff alg).mp halg
  obtain ⟨self, hself⟩ := Option.ne_none_iff_exists'.mp hcalloc
  have hvalue : ∃ hd, ((zucHashNew alg true).exec h w s).value = (.ok, some hd) := by
    obtain ⟨hok, -⟩ := LH.setup (h _ (.calloc .zucHash) s).2 (zucIntPsaHash alg) hhash
    have hready : decide (0 < w.refcount) = true := decide_eq_true hready
    simp only [zucHashNew, Proc.exec_bind, exec_zucIntReady, hready, Bool.true_eq_false, if_false,
      halg, exec_callocRecord, hself, ne_eq, not_true_eq_false, exec_psa, hok, exec_zucIntLiveAdd,
      Proc.exec_pure]
    exact ⟨_, rfl⟩
  obtain ⟨hd, hvalue⟩ := hvalue
  have hexec : (zucHashNew alg true).exec h w s = ⟨(.ok, some hd),
      ((zucHashNew alg true).exec h w s).world, ((zucHashNew alg true).exec h w s).env⟩ :=
    Outcome.eq_of_value hvalue
  have hcreated : HashCreated h alg ⟨hd, ((zucHashNew alg true).exec h w s).world,
      ((zucHashNew alg true).exec h w s).env⟩ := ⟨w, s, hexec⟩
  have htracks := hcreated.tracks LH hhash
  exact ⟨hd, _, _, hexec, (silent_zucHashNew alg true).exec_mem h w s, htracks.alg, htracks.phase⟩

/-- An HMAC context, where there is memory for it. -/
theorem exec_zucHmacNew_collecting (LH : HashLaws h H) (LM : MacLaws h H)
    (halg : zucIntDigestAvailable alg = true)
    (hready : 0 < w.refcount) (key keyLen : Nat) (hkey : ¬ (key = NULL ∧ keyLen ≠ 0))
    (hcalloc : (h _ (.calloc .zucHmac) s).1 ≠ none) : ∃ hd w' s',
    (zucHmacNew alg key keyLen true).exec h w s = ⟨(.ok, some hd), w', s'⟩ ∧ w'.mem = w.mem ∧
      hd.alg = alg ∧ Collecting (LM.stream (zucIntPsaHash alg) hd.key
        (importedKey H (zucIntPsaHash alg) (read w.mem key keyLen))) hd s' [] := by
  obtain ⟨self, hself⟩ := Option.ne_none_iff_exists'.mp hcalloc
  obtain ⟨hd, hvalue⟩ := exec_zucHmacNew LH LM hready halg hkey hself
  have hexec : (zucHmacNew alg key keyLen true).exec h w s = ⟨(.ok, some hd),
      ((zucHmacNew alg key keyLen true).exec h w s).world,
      ((zucHmacNew alg key keyLen true).exec h w s).env⟩ := Outcome.eq_of_value hvalue
  have hcreated : HmacCreated h alg (read w.mem key keyLen) ⟨hd,
      ((zucHmacNew alg key keyLen true).exec h w s).world,
      ((zucHmacNew alg key keyLen true).exec h w s).env⟩ := by
    refine ⟨w, s, key, ?_, ?_⟩
    · rw [length_read]
    · rw [length_read]
      exact hexec
  have htracks := hcreated.tracks_imported LH LM
  exact ⟨hd, _, _, hexec, (silent_zucHmacNew alg key keyLen true).exec_mem h w s, htracks.alg,
    htracks.phase⟩

end

end Zucrypt
