import Zucrypt.HashLaws
import Zucrypt.Machine

/-! # What an incremental handle computes

Any sequence of update, finish and reset calls on one handle, with the caller's memory in any
condition at each of them, is a run of `streamMachine`.  The abstract machine it is compared with,
`accumulator`, is what the handle is for: it holds the message so far, or nothing once it has been
finished.

Against a backend whose operations are correct and do not fail, the two answer every sequence of
calls alike (`streamMachine_accumulates`): the `active` flag and the state of the backend's
operation never come apart.  What a caller may rely on is then read off the accumulator
(`StreamContract`).

A state is either `Collecting` a message, and then the handle is active and the operation has been
given that message, or `Finished`.  A call goes from one to the other, or is refused and changes
neither.  All of it is over `StreamOps`, so that a hash and an HMAC are two instances of one proof. -/
namespace Zucrypt
open Effects ByteMemory Machines

variable {O : Objects} {σ κ Op : Type}

/-! ### Runs of calls on one handle -/

/-- A call on an incremental handle. -/
inductive StreamCall where
  | update (data dataLen : Nat)
  | finish (out outSize : Nat) (outLen : SizeCell)
  | reset

/-- A call, and the caller's memory when it is made. -/
structure StreamStep where
  mem : Memory
  call : StreamCall

/-- What the caller gets: the status, what `out_len` points to, and after a
successful finish the bytes that many. -/
@[ext] structure StreamReply where
  status : ZucStatus
  outLen : SizeCell
  digest : List Byte

/-- The handle, and the state of everything else the library has. -/
structure StreamState (κ Op σ : Type) where
  handle : StreamHandle κ Op
  world : World
  env : σ

/-- One call of the interface. -/
def streamCall (B : StreamOps O κ Op) (handle : Option (StreamHandle κ Op)) :
    StreamCall → Adapter O (ZucStatus × Option (StreamHandle κ Op) × SizeCell)
  | .update data dataLen => do
    let r ← streamUpdate B handle data dataLen
    return (r.1, r.2, none)
  | .finish out outSize outLen => streamFinish B handle out outSize outLen
  | .reset => do
    let r ← streamReset B handle
    return (r.1, r.2, none)

/-- The bytes a call delivered, given its status, its length and the memory it left. -/
def StreamCall.delivered (c : StreamCall) (st : ZucStatus) (len : SizeCell) (mem : Memory) :
    List Byte :=
  match c with
  | .finish out _ _ => if st = .ok then read mem out (len.getD 0) else []
  | _ => []

/-- A handle under a sequence of calls. -/
def streamMachine (h : Handler (Call O) σ) (B : StreamOps O κ Op) :
    Machine StreamStep StreamReply (StreamState κ Op σ) where
  step st i :=
    let r := (streamCall B (some st.handle) i.call).exec h { st.world with mem := i.mem } st.env
    (⟨r.value.1, r.value.2.2, i.call.delivered r.value.1 r.value.2.2 r.world.mem⟩,
      ⟨r.value.2.1.getD st.handle, r.world, r.env⟩)

/-! ### What the handle is for -/

/-- The message so far, or `none` after a finish; `size` bytes of digest. -/
def accumulator (size : Nat) (D : List Byte → List Byte) :
    Machine StreamStep StreamReply (Option (List Byte)) where
  step st i :=
    match i.call with
    | .update data dataLen =>
      if data = NULL ∧ dataLen ≠ 0 then
        (⟨.errInvalidArgument, none, []⟩, st)
      else
        match st with
        | none => (⟨.errInvalidArgument, none, []⟩, none)
        | some m => (⟨.ok, none, []⟩, some (m ++ read i.mem data dataLen))
    | .finish out outSize outLen =>
      if out = NULL ∨ outLen = none then
        (⟨.errInvalidArgument, outLen, []⟩, st)
      else
        match st with
        | none => (⟨.errInvalidArgument, outLen, []⟩, none)
        | some m =>
          if outSize < size then
            (⟨.errBadLength, outLen, []⟩, some m)
          else
            (⟨.ok, outLen.store size, D m⟩, none)
    | .reset => (⟨.ok, none, []⟩, some [])

/-! ### Each call, one at a time -/

section
variable {h : Handler (Call O) σ} {B : StreamOps O κ Op} {palg : PsaAlg} {key : κ}
  {D : List Byte → List Byte} (L : StreamLaws h B palg key D)

/-- The handle is ready to take more after `m`. -/
structure Collecting (hd : StreamHandle κ Op) (s : σ) (m : List Byte) : Prop where
  active : hd.active = true
  absorbed : L.absorbed hd.op m
  usable : L.usable s

/-- The handle has been finished. -/
structure Finished (hd : StreamHandle κ Op) (s : σ) : Prop where
  active : hd.active = false
  usable : L.usable s

variable {L} {hd : StreamHandle κ Op} {w : World} {s : σ}

theorem exec_streamUpdate_collecting {data n : Nat} {m : List Byte} (hc : Collecting L hd s m)
    (hnull : ¬ (data = NULL ∧ n ≠ 0)) : ∃ op b s',
    (streamUpdate B (some hd) data n).exec h w s =
      ⟨(.ok, some { hd with op }), w.noteAlloc b, s'⟩ ∧
    Collecting L { hd with op } s' (m ++ read w.mem data n) := by
  by_cases hn : n = 0
  · subst hn
    refine ⟨hd.op, false, s, ?_, hc.active, ?_, hc.usable⟩
    · rw [exec_streamUpdate_empty hc.active, World.noteAlloc_false]
    · simpa using hc.absorbed
  · obtain ⟨op, b, s', hexec, hs', hop⟩ :=
      L.update w s hd.op m (read w.mem data n) hc.usable hc.absorbed
    refine ⟨op, b, s', ?_, hc.active, hop, hs'⟩
    rw [exec_streamUpdate_call hc.active (fun hdata => hnull ⟨hdata, hn⟩) hn, hexec]
    rfl

theorem exec_streamFinish_collecting {out size : Nat} {cell : SizeCell} {m : List Byte}
    (hc : Collecting L hd s m) (hnull : ¬ (out = NULL ∨ cell = none))
    (hsize : zucAlgSize hd.alg ≤ size) (hD : (D m).length = zucAlgSize hd.alg) :
    ∃ (op : Op) (o : Output) (b : Bool) (s' : σ), (streamFinish B (some hd) out size cell).exec h w s =
      ⟨(.ok, some { hd with op, active := false }, cell.store (zucAlgSize hd.alg)),
        (w.noteAlloc b).store out (o.bytes.take size), s'⟩ ∧
    o.Delivers (D m) ∧ Finished L { hd with op, active := false } s' := by
  obtain ⟨op, o, b, s', hexec, hs', ho⟩ :=
    L.finish w s hd.op m size hc.usable hc.absorbed (hD ▸ hsize)
  refine ⟨op, o, b, s', ?_, ho, rfl, hs'⟩
  rw [exec_streamFinish_call hc.active hnull hsize, hexec, ← hD, ← ho.1]
  rfl

theorem exec_streamAbortActive (hd : StreamHandle κ Op) (w : World) (hs : L.usable s) :
    ∃ op b s',
    (streamAbortActive B hd).exec h w s = ⟨{ hd with op, active := false }, w.noteAlloc b, s'⟩ ∧
      L.usable s' := by
  cases hactive : hd.active with
  | true =>
    obtain ⟨op, b, s', hexec, hs'⟩ := L.abort w s hd.op hs
    refine ⟨op, b, s', ?_, hs'⟩
    simp only [streamAbortActive, hactive, if_true, Proc.exec_bind, hexec, Proc.exec_pure]
  | false =>
    refine ⟨hd.op, false, s, ?_, hs⟩
    simp only [streamAbortActive, hactive, Bool.false_eq_true, if_false, Proc.exec_pure,
      World.noteAlloc_false]
    rw [with_active_eq hactive]

/-- A reset works from any condition of the handle. -/
theorem exec_streamReset (w : World) (hs : L.usable s) (hpalg : hd.palg = palg) (hkey : hd.key = key) :
    ∃ op b s', (streamReset B (some hd)).exec h w s =
      ⟨(.ok, some { hd with op, active := true }), w.noteAlloc b, s'⟩ ∧
    Collecting L { hd with op, active := true } s' [] := by
  obtain ⟨op₁, b₁, s₁, hexec₁, hs₁⟩ := exec_streamAbortActive hd w hs
  obtain ⟨op₂, b₂, s₂, hexec₂, hs₂, hop⟩ := L.setup (w.noteAlloc b₁) s₁ hs₁
  refine ⟨op₂, b₁ || b₂, s₂, ?_, rfl, hop, hs₂⟩
  simp only [streamReset, Proc.exec_bind, hexec₁, hpalg, hkey, hexec₂, ne_eq, not_true_eq_false,
    if_false, Proc.exec_pure, World.noteAlloc_noteAlloc]

/-! ### Step for step with the accumulator -/

/-- The state of the machine beside that of the accumulator. -/
structure Tracks (L : StreamLaws h B palg key D) (alg : ZucAlg) (st : StreamState κ Op σ)
    (a : Option (List Byte)) : Prop where
  alg : st.handle.alg = alg
  palg : st.handle.palg = palg
  key : st.handle.key = key
  phase : match a with
    | some m => Collecting L st.handle st.env m
    | none => Finished L st.handle st.env

theorem Tracks.usable {alg : ZucAlg} {st : StreamState κ Op σ} {a : Option (List Byte)}
    (ht : Tracks L alg st a) : L.usable st.env := by
  cases a with
  | none => exact ht.phase.usable
  | some m => exact ht.phase.usable

variable {alg : ZucAlg} {st : StreamState κ Op σ} {a : Option (List Byte)}

theorem step_update (ht : Tracks L alg st a) (mem : Memory) (data n : Nat) :
    ((streamMachine h B).step st ⟨mem, .update data n⟩).1 =
        ((accumulator (zucAlgSize alg) D).step a ⟨mem, .update data n⟩).1 ∧
      Tracks L alg ((streamMachine h B).step st ⟨mem, .update data n⟩).2
        ((accumulator (zucAlgSize alg) D).step a ⟨mem, .update data n⟩).2 := by
  obtain ⟨halg, hpalg, hkey, hphase⟩ := ht
  simp only [streamMachine, streamCall, accumulator, Proc.exec_bind, Proc.exec_pure,
    StreamCall.delivered]
  by_cases hnull : data = NULL ∧ n ≠ 0
  · rw [exec_streamUpdate_null hnull, if_pos hnull]
    exact ⟨rfl, halg, hpalg, hkey, hphase⟩
  · rw [if_neg hnull]
    cases a with
    | none =>
      rw [exec_streamUpdate_inactive hphase.active]
      exact ⟨rfl, halg, hpalg, hkey, hphase⟩
    | some m =>
      obtain ⟨op, b, s', hexec, hc⟩ :=
        exec_streamUpdate_collecting (w := { st.world with mem := mem }) hphase hnull
      rw [hexec]
      exact ⟨rfl, halg, hpalg, hkey, hc⟩

theorem step_finish (hD : ∀ m, (D m).length = zucAlgSize alg) (ht : Tracks L alg st a)
    (mem : Memory) (out size : Nat) (cell : SizeCell) :
    ((streamMachine h B).step st ⟨mem, .finish out size cell⟩).1 =
        ((accumulator (zucAlgSize alg) D).step a ⟨mem, .finish out size cell⟩).1 ∧
      Tracks L alg ((streamMachine h B).step st ⟨mem, .finish out size cell⟩).2
        ((accumulator (zucAlgSize alg) D).step a ⟨mem, .finish out size cell⟩).2 := by
  obtain ⟨halg, hpalg, hkey, hphase⟩ := ht
  simp only [streamMachine, streamCall, accumulator]
  by_cases hnull : out = NULL ∨ cell = none
  · rw [exec_streamFinish_null hnull, if_pos hnull]
    exact ⟨rfl, halg, hpalg, hkey, hphase⟩
  · rw [if_neg hnull]
    cases a with
    | none =>
      rw [exec_streamFinish_inactive hphase.active]
      exact ⟨rfl, halg, hpalg, hkey, hphase⟩
    | some m =>
      by_cases hshort : size < zucAlgSize alg
      · rw [exec_streamFinish_short hphase.active hnull (halg ▸ hshort)]
        simp only [if_pos hshort]
        exact ⟨rfl, halg, hpalg, hkey, hphase⟩
      · -- here both give the digest of what was absorbed
        obtain ⟨op, o, b, s', hexec, ho, hf⟩ :=
          exec_streamFinish_collecting (w := { st.world with mem := mem }) hphase hnull
            (halg ▸ Nat.le_of_not_lt hshort) (halg ▸ hD m)
        obtain ⟨len, rfl⟩ := Option.ne_none_iff_exists'.mp (not_or.mp hnull).2
        rw [hexec]
        simp only [if_neg hshort]
        refine ⟨StreamReply.ext rfl (halg ▸ rfl) ?_, halg, hpalg, hkey, hf⟩
        have hread := ho.read_store (({ st.world with mem := mem } : World).noteAlloc b) out
          (Nat.le_of_not_lt (hD m ▸ hshort))
        rwa [hD m, ← halg] at hread

theorem step_reset (ht : Tracks L alg st a) (mem : Memory) :
    ((streamMachine h B).step st ⟨mem, .reset⟩).1 =
        ((accumulator (zucAlgSize alg) D).step a ⟨mem, .reset⟩).1 ∧
      Tracks L alg ((streamMachine h B).step st ⟨mem, .reset⟩).2
        ((accumulator (zucAlgSize alg) D).step a ⟨mem, .reset⟩).2 := by
  obtain ⟨op, b, s', hexec, hc⟩ := exec_streamReset { st.world with mem := mem } ht.usable ht.palg
    ht.key
  simp only [streamMachine, streamCall, accumulator, Proc.exec_bind, Proc.exec_pure,
    StreamCall.delivered, hexec]
  exact ⟨trivial, ht.alg, ht.palg, ht.key, hc⟩

theorem step_accumulates (hD : ∀ m, (D m).length = zucAlgSize alg) (ht : Tracks L alg st a)
    (i : StreamStep) :
    ((streamMachine h B).step st i).1 = ((accumulator (zucAlgSize alg) D).step a i).1 ∧
      Tracks L alg ((streamMachine h B).step st i).2 ((accumulator (zucAlgSize alg) D).step a i).2 := by
  obtain ⟨mem, call⟩ := i
  cases call with
  | update data n => exact step_update ht mem data n
  | finish out size cell => exact step_finish hD ht mem out size cell
  | reset => exact step_reset ht mem

/-- A call writes inside the buffer of a finish that succeeds, and nowhere else. -/
theorem step_frame (hD : ∀ m, (D m).length = zucAlgSize alg) (ht : Tracks L alg st a)
    (i : StreamStep) (x : Nat)
    (hx : ∀ out size cell, i.call = .finish out size cell →
      ((streamMachine h B).step st i).1.status = .ok → x < out ∨ out + size ≤ x) :
    ((streamMachine h B).step st i).2.world.mem x = i.mem x := by
  obtain ⟨halg, hpalg, hkey, hphase⟩ := ht
  obtain ⟨mem, call⟩ := i
  cases call with
  | update data n =>
    simp only [streamMachine, streamCall, Proc.exec_bind, Proc.exec_pure]
    by_cases hnull : data = NULL ∧ n ≠ 0
    · rw [exec_streamUpdate_null hnull]
    · cases a with
      | none => rw [exec_streamUpdate_inactive hphase.active]
      | some m =>
        obtain ⟨op, b, s', hexec, -⟩ :=
          exec_streamUpdate_collecting (w := { st.world with mem := mem }) hphase hnull
        rw [hexec]
        rfl
  | finish out size cell =>
    simp only [streamMachine, streamCall] at hx ⊢
    by_cases hnull : out = NULL ∨ cell = none
    · rw [exec_streamFinish_null hnull]
    · cases a with
      | none => rw [exec_streamFinish_inactive hphase.active]
      | some m =>
        by_cases hshort : size < zucAlgSize st.handle.alg
        · rw [exec_streamFinish_short hphase.active hnull hshort]
        · obtain ⟨op, o, b, s', hexec, -, -⟩ :=
            exec_streamFinish_collecting (w := { st.world with mem := mem }) hphase hnull
              (Nat.le_of_not_lt hshort) (halg ▸ hD m)
          rw [hexec] at hx ⊢
          -- the only store: a result, and it fits the buffer
          have hout := hx out size cell rfl rfl
          refine write_apply_outside _ ?_
          rw [List.length_take]
          omega
  | reset =>
    obtain ⟨op, b, s', hexec, -⟩ := exec_streamReset { st.world with mem := mem }
      (Tracks.usable ⟨halg, hpalg, hkey, hphase⟩) hpalg hkey
    simp only [streamMachine, streamCall, Proc.exec_bind, Proc.exec_pure, hexec]
    rfl

/-- **The handle is the accumulator.**  A handle that has taken `m` answers every
sequence of calls as the accumulator does. -/
theorem streamMachine_accumulates (hD : ∀ m, (D m).length = zucAlgSize alg)
    (ht : Tracks L alg st a) :
    Machine.Indistinguishable (streamMachine h B) st (accumulator (zucAlgSize alg) D) a := by
  have hstep : ∀ st a i, Tracks L alg st a → _ := fun st a i ht => step_accumulates hD ht i
  exact Machine.indistinguishable_of_simulation _ _ hstep ht

theorem tracks_after (hD : ∀ m, (D m).length = zucAlgSize alg) (ht : Tracks L alg st a)
    (steps : List StreamStep) :
    Tracks L alg ((streamMachine h B).after st steps)
      ((accumulator (zucAlgSize alg) D).after a steps) := by
  have hstep : ∀ st a i, Tracks L alg st a → _ := fun st a i ht => (step_accumulates hD ht i).2
  exact Machine.after_simulation _ _ hstep ht steps

end

/-! ### Reading a log -/

/-- The accepted bytes after one more call. -/
def acceptedNext (m : List Byte) (e : StreamStep × StreamReply) : List Byte :=
  match e.1.call with
  | .update data n => if e.2.status = .ok then m ++ read e.1.mem data n else m
  | .finish .. => m
  | .reset => if e.2.status = .ok then [] else m

/-- The bytes of the updates that returned `ZUC_OK` since the handle was created or
last successfully reset. -/
def accepted (log : List (StreamStep × StreamReply)) : List Byte := log.foldl acceptedNext []

/-- Whether the handle is finished after one more call. -/
def finishedNext (b : Bool) (e : StreamStep × StreamReply) : Bool :=
  match e.1.call with
  | .update .. => b
  | .finish .. => b || decide (e.2.status = .ok)
  | .reset => b && decide (e.2.status ≠ .ok)

/-- Whether a finish has succeeded, and no reset since. -/
def finishedAfter (log : List (StreamStep × StreamReply)) : Bool := log.foldl finishedNext false

theorem accepted_concat (log : List (StreamStep × StreamReply)) (e : StreamStep × StreamReply) :
    accepted (log ++ [e]) = acceptedNext (accepted log) e := by
  simp [accepted]

theorem finishedAfter_concat (log : List (StreamStep × StreamReply))
    (e : StreamStep × StreamReply) :
    finishedAfter (log ++ [e]) = finishedNext (finishedAfter log) e := by
  simp [finishedAfter]

/-- The accumulator's state, from what a log says. -/
def accumulated (finished : Bool) (m : List Byte) : Option (List Byte) :=
  if finished then none else some m

section
variable {size : Nat} {D : List Byte → List Byte}

theorem accumulator_step_log (f : Bool) (m : List Byte) (i : StreamStep) :
    ((accumulator size D).step (accumulated f m) i).2 =
      accumulated (finishedNext f (i, ((accumulator size D).step (accumulated f m) i).1))
        (acceptedNext m (i, ((accumulator size D).step (accumulated f m) i).1)) := by
  obtain ⟨mem, call⟩ := i
  cases call with
  | update data n =>
    by_cases hnull : data = NULL ∧ n ≠ 0 <;> cases f <;>
      simp [accumulator, accumulated, hnull, finishedNext, acceptedNext]
  | finish out outSize cell =>
    by_cases hnull : out = NULL ∨ cell = none <;> by_cases hshort : outSize < size <;> cases f <;>
      simp [accumulator, accumulated, hnull, hshort, finishedNext, acceptedNext]
  | reset => simp [accumulator, accumulated, finishedNext, acceptedNext]

/-- The accumulator is in the state its log says. -/
theorem accumulator_after_log (steps : List StreamStep) :
    (accumulator size D).after (some []) steps =
      accumulated (finishedAfter ((accumulator size D).log (some []) steps))
        (accepted ((accumulator size D).log (some []) steps)) := by
  have hstep : ∀ l a i, a = accumulated (finishedAfter l) (accepted l) →
      ((accumulator size D).step a i).2 =
        accumulated (finishedAfter (l ++ [(i, ((accumulator size D).step a i).1)]))
          (accepted (l ++ [(i, ((accumulator size D).step a i).1)])) := by
    rintro l a i rfl
    rw [finishedAfter_concat, accepted_concat]
    exact accumulator_step_log _ _ i
  exact Machine.log_invariant (accumulator size D) hstep rfl steps

end

end Zucrypt
