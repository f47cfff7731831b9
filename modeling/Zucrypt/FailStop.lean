import Zucrypt.DigestTrace
import Zucrypt.PsaMultipart

/-! # After an update that failed

A digest of a message with a chunk missing must not be reported as a success.  When an update of an
active handle fails, `active` stays set, so it is the backend's operation that has to be over: then
every later update and finish fails, until a reset sets up a new one.

`EndsOnFailure` says of a kind of operation that it is: a failed update ends it, an ended operation
stays ended, and gives no result.  `failStop_of_endsOnFailure` makes fail-stop runs of that, by one
step (`stopped_step`) and the induction over the calls between the failed update and the finish.

`psa_hash_update` ends its operation whatever failed, so digest handles are fail-stop in every run
(`hash_endsOnFailure`).  `psa_mac_update` copies its input first, and leaves without the abort when
that copy cannot be allocated.  So HMAC handles are fail-stop in the runs where this does not happen
to an update of a live operation (`CopiesInput`), and not in general: `hmac_not_failStop` is a run
that loses a chunk and then delivers the MAC of the rest.

The driver under the two functions is a parameter, and may fail at any call; so may every
allocation.  Nothing is assumed of either, which is why no law of digests appears here. -/
namespace Zucrypt
open Effects ByteMemory Machines

variable {O : Objects} {σ κ Op : Type}

/-- An update that gets past its argument checks. -/
def PassesChecks (st : StreamState κ Op σ) (i : StreamStep) : Prop :=
  ∃ data n, i.call = .update data n ∧ st.handle.active = true ∧ data ≠ NULL ∧ n ≠ 0

/-- In this run, no finish succeeds after a failed update until a reset has. -/
def FailStop (M : Machine StreamStep StreamReply (StreamState κ Op σ)) (st : StreamState κ Op σ)
    (steps : List StreamStep) : Prop :=
  ∀ before i between j rest, steps = before ++ i :: (between ++ j :: rest) →
    let st₁ := M.after st before
    let st₂ := (M.step st₁ i).2
    PassesChecks st₁ i → (M.step st₁ i).1.status ≠ .ok →
      (∃ out size cell, j.call = .finish out size cell) →
        (M.step (M.after st₂ between) j).1.status = .ok →
          ∃ b₁ k b₂, between = b₁ ++ k :: b₂ ∧ k.call = .reset ∧
            (M.step (M.after st₂ b₁) k).1.status = .ok

/-! ### Operations that are over -/

/-- `ended` says of an operation that it is: it takes no update, gives no result,
and is where a failed update leads unless `lossy` allows otherwise. -/
structure EndsOnFailure (h : Handler (Call O) σ) (B : StreamOps O κ Op) (ended : Op → Prop)
    (lossy : Op → σ → Prop) : Prop where
  update_failed : ∀ w s op bs, bs.length ≠ 0 → ¬ lossy op s →
    ((B.update op bs).exec h w s).value.1 ≠ .success →
      ended ((B.update op bs).exec h w s).value.2
  update_over : ∀ w s op bs, ended op → ended ((B.update op bs).exec h w s).value.2
  finish_over : ∀ w s op size, ended op → ((B.finish op size).exec h w s).value.1 ≠ .success

section
variable {h : Handler (Call O) σ} {B : StreamOps O κ Op} {ended : Op → Prop} {lossy : Op → σ → Prop}

/-- The handle accepts no more, or its operation is over. -/
def Stopped (ended : Op → Prop) (st : StreamState κ Op σ) : Prop :=
  st.handle.active = true → ended st.handle.op

/-- After a failed update the handle is stopped, unless the failure is one that loses the chunk. -/
theorem stopped_of_failed_update (hB : EndsOnFailure h B ended lossy) {st : StreamState κ Op σ}
    {i : StreamStep} (hi : PassesChecks st i) (hlossy : ¬ lossy st.handle.op st.env)
    (hst : ((streamMachine h B).step st i).1.status ≠ .ok) :
    Stopped ended ((streamMachine h B).step st i).2 := by
  obtain ⟨mem, call⟩ := i
  obtain ⟨data, n, rfl, hactive, hdata, hn⟩ := hi
  simp only [streamMachine, streamCall, Proc.exec_bind, Proc.exec_pure,
    exec_streamUpdate_call hactive hdata hn] at hst ⊢
  exact fun _ => hB.update_failed _ _ _ _ (by simpa using hn) hlossy
    (fun hok => hst (zucIntFromPsa_eq_ok.mpr hok))

/-- A stopped handle stays stopped, unless it is reset. -/
theorem stopped_step (hB : EndsOnFailure h B ended lossy) {st : StreamState κ Op σ} (i : StreamStep)
    (hs : Stopped ended st) :
    Stopped ended ((streamMachine h B).step st i).2 ∨
      (i.call = .reset ∧ ((streamMachine h B).step st i).1.status = .ok) := by
  obtain ⟨mem, call⟩ := i
  cases call with
  | update data n =>
    refine Or.inl ?_
    simp only [streamMachine, streamCall, Proc.exec_bind, Proc.exec_pure]
    by_cases hnull : data = NULL ∧ n ≠ 0
    · rw [exec_streamUpdate_null hnull]
      exact hs
    · cases hactive : st.handle.active with
      | false =>
        rw [exec_streamUpdate_inactive hactive]
        exact hs
      | true =>
        by_cases hn : n = 0
        · subst hn
          rw [exec_streamUpdate_empty hactive]
          exact hs
        · -- only here is the backend called, and its operation is over
          rw [exec_streamUpdate_call hactive (fun hdata => hnull ⟨hdata, hn⟩) hn]
          exact fun _ => hB.update_over _ _ _ _ (hs hactive)
  | finish out size cell =>
    refine Or.inl ?_
    simp only [streamMachine, streamCall]
    by_cases hnull : out = NULL ∨ cell = none
    · rw [exec_streamFinish_null hnull]
      exact hs
    · cases hactive : st.handle.active with
      | false =>
        rw [exec_streamFinish_inactive hactive]
        exact hs
      | true =>
        by_cases hshort : size < zucAlgSize st.handle.alg
        · rw [exec_streamFinish_short hactive hnull hshort]
          exact hs
        · rw [exec_streamFinish_call hactive hnull (Nat.le_of_not_lt hshort)]
          exact fun h => absurd h (by simp)
  | reset =>
    by_cases hok : ((streamMachine h B).step st ⟨mem, .reset⟩).1.status = .ok
    · exact Or.inr ⟨rfl, hok⟩
    · refine Or.inl ?_
      simp only [streamMachine, streamCall, Proc.exec_bind, Proc.exec_pure] at hok ⊢
      obtain ⟨op, hvalue⟩ := streamReset_failed hok
      rw [hvalue]
      exact fun h => absurd h (by simp)

/-- A stopped handle gives no result. -/
theorem stopped_finish (hB : EndsOnFailure h B ended lossy) {st : StreamState κ Op σ}
    (hs : Stopped ended st) (mem : Memory) (out size : Nat) (cell : SizeCell) :
    ((streamMachine h B).step st ⟨mem, .finish out size cell⟩).1.status ≠ .ok := by
  simp only [streamMachine, streamCall]
  by_cases hnull : out = NULL ∨ cell = none
  · simp [exec_streamFinish_null hnull]
  · cases hactive : st.handle.active with
    | false => simp [exec_streamFinish_inactive hactive]
    | true =>
      by_cases hshort : size < zucAlgSize st.handle.alg
      · simp [exec_streamFinish_short hactive hnull hshort]
      · rw [exec_streamFinish_call hactive hnull (Nat.le_of_not_lt hshort)]
        exact fun hok => hB.finish_over _ _ _ _ (hs hactive) (zucIntFromPsa_eq_ok.mp hok)

/-- Operations that end on failure make fail-stop handles. -/
theorem failStop_of_endsOnFailure (hB : EndsOnFailure h B ended lossy) {st : StreamState κ Op σ}
    {steps : List StreamStep}
    (hsteps : (streamMachine h B).Throughout
      (fun st i => PassesChecks st i → ¬ lossy st.handle.op st.env) st steps) :
    FailStop (streamMachine h B) st steps := by
  rintro before i between ⟨mem, call⟩ rest rfl st₁ st₂ hi hfailed ⟨out, size, cell, rfl⟩ hok
  have hlossy := ((Machine.throughout_append _).mp hsteps).2.1 hi
  have hstopped := stopped_of_failed_update hB hi hlossy hfailed
  rcases Machine.after_invariant_or (streamMachine h B)
    (E := fun s k => k.call = .reset ∧ ((streamMachine h B).step s k).1.status = .ok)
    (fun s k hs => stopped_step hB k hs) hstopped between with hs | ⟨b₁, k, b₂, hb, hk, hkok⟩
  · exact absurd hok (stopped_finish hB hs mem out size cell)
  · exact ⟨b₁, k, b₂, hb, hk, hkok⟩

end

/-! ### On the vendored layer -/

section
variable {δ HC MC : Type} (D : Driver δ HC MC) (rest : Handler (Call (multipartObjects D)) δ)

/-- `psa_hash_update` aborts on every failure, the copy of the input included. -/
theorem hash_endsOnFailure : EndsOnFailure (multipartBackend D rest) hashOps
    (fun op : PsaHashOperation HC => op.id = 0) (fun _ _ => False) where
  update_failed _ _ _ _ _ _ hst := psaHashUpdate_failed D hst
  update_over _ s _ bs hop := (psaHashUpdate_over D hop bs s).2
  finish_over _ s _ size hop := psaHashFinish_over D hop size s

/-- `psa_mac_update` does not abort when a live operation's input cannot be copied. -/
theorem hmac_endsOnFailure : EndsOnFailure (multipartBackend D rest) macOps
    (fun op : PsaMacOperation MC => op.id = 0)
    (fun op s => op.id ≠ 0 ∧ (D.alloc s).1 = true) where
  update_failed _ s op _ _ hlossy hst := by
    refine psaMacUpdate_failed D (fun hid _ => ?_) hst
    exact Bool.eq_false_iff.mpr (fun hfails => hlossy ⟨hid, hfails⟩)
  update_over _ s _ bs hop := (psaMacUpdate_over D hop bs s).2
  finish_over _ s _ size hop := psaMacSignFinish_over D hop size s

end

/-- A step that is not an update of a live operation whose input cannot be copied. -/
def CopiesInput {δ HC MC : Type} (D : Driver δ HC MC)
    (st : StreamState KeyId (PsaMacOperation MC) δ) (i : StreamStep) : Prop :=
  PassesChecks st i → st.handle.op.id ≠ 0 → (D.alloc st.env).1 = false

/-! ### Known values -/

/-- A driver over known values whose allocations fail as a list says, in order;
the one key there is is a zero byte.  Setup and update of a MAC copy one buffer
each, as the built-in driver does. -/
def knownDriver : Driver (List Bool) (PsaAlg × List Byte) (PsaAlg × List Byte × List Byte) where
  hashCtx := (.none, [])
  macCtx := (.none, [], [])
  alloc s := (s.headD false, s.tail)
  failedBetween s s' := (s.take (s.length - s'.length)).any id
  hashSetup alg s := ((.success, (alg, [])), s)
  hashUpdate c bs s := ((.success, (c.1, c.2 ++ bs)), s)
  hashFinish c _ s := ((.success, .full (knownHash c.1 c.2)), s)
  hashAbort _ s := s
  lockKey id _ alg s :=
    ((if id = 1 then .success else .errorInvalidArgument, hmacKeyAttributes alg, [0]), s)
  unlockKey _ s := (.success, s)
  macSignSetup _ K alg s :=
    match alg with
    | .hmac alg =>
      ((if s.headD false then .errorInsufficientMemory else .success, (alg, K, [])), s.tail)
    | _ => ((.errorNotSupported, (alg, K, [])), s)
  macUpdate c bs s :=
    ((if s.headD false then .errorInsufficientMemory else .success, (c.1, c.2.1, c.2.2 ++ bs)),
      s.tail)
  macSignFinish c _ s := ((.success, .full (hmacOf knownHash c.1 c.2.1 c.2.2)), s)
  macAbort _ s := (.success, s)

/-- The rest of that backend: an import gives key 1, and `calloc` succeeds. -/
def knownRest : Handler (Call (multipartObjects knownDriver)) (List Bool)
  | _, .psa (.importKey _ _), s => (⟨(.success, 1), false⟩, s)
  | _, .psa c, s => (⟨refusal c, false⟩, s)
  | _, .calloc _, s => (some 0x10000, s)
  | _, .malloc _, s => (some 0x20000, s)
  | _, .freeRecord .., s => ((), s)
  | _, .freeBytes _, s => ((), s)
  | _, .dropLocal _, s => ((), s)
  | _, .allocRaw _, s => (0x30000, s)

/-- An HMAC handle created with the empty key, when the allocations inside the
backend fail as `fails` says. -/
def knownHandle (fails : List Bool) :
    Outcome (ZucStatus × Option (ZucHmac (multipartObjects knownDriver))) World (List Bool) :=
  (zucHmacNew .sha256 NULL 0 true).exec (multipartBackend knownDriver knownRest)
    ⟨fun _ => 0, 1, 0, false⟩ fails

/-- An update of one byte. -/
def oneByte : StreamStep := ⟨fun _ => 0, .update 0x100 1⟩

def finishStep : StreamStep := ⟨fun _ => 0, .finish 0x200 32 (some 0)⟩

/-- **Fail-stop.**  From any state of a handle, whatever the driver does and
whichever allocations fail: digest handles are fail-stop in every run, and HMAC
handles in every run that copies the input of each update of a live operation. -/
theorem incremental_failStop {δ HC MC : Type} (D : Driver δ HC MC)
    (rest : Handler (Call (multipartObjects D)) δ) :
    (∀ st steps, FailStop (streamMachine (multipartBackend D rest) hashOps) st steps) ∧
      (∀ st steps, (streamMachine (multipartBackend D rest) macOps).Throughout (CopiesInput D) st
          steps →
        FailStop (streamMachine (multipartBackend D rest) macOps) st steps) := by
  constructor
  · intro st steps
    refine failStop_of_endsOnFailure (hash_endsOnFailure D rest) ?_
    exact Machine.throughout_of_forall _ (fun _ _ _ => id) st steps
  · intro st steps hsteps
    refine failStop_of_endsOnFailure (hmac_endsOnFailure D rest) ?_
    refine Machine.Throughout.mono (fun st i hcopies hi hlossy => ?_) hsteps
    exact absurd hlossy.2 (Bool.eq_false_iff.mp (hcopies hi hlossy.1))

/-- A run that meets the condition and has a failing update: of the allocations
the third fails, the driver's own in that update. -/
theorem incremental_failStop_known : ∃ hd, (knownHandle [false, false, true]).value = (.ok, some hd) ∧
    let M := streamMachine (multipartBackend knownDriver knownRest) macOps
    let st : StreamState KeyId _ _ := ⟨hd, (knownHandle [false, false, true]).world,
      (knownHandle [false, false, true]).env⟩
    (M.step st oneByte).1.status = .errMemory ∧ FailStop M st [oneByte, finishStep] := by
  refine ⟨_, rfl, rfl, (incremental_failStop knownDriver knownRest).2 _ _ ⟨fun _ _ => rfl, ?_, trivial⟩⟩
  rintro ⟨data, n, hcall, -⟩
  cases hcall

/-- Where the second fails instead, the one for the copy of the update's input, the
update reports `ZUC_ERR_MEMORY` and the finish after it `ZUC_OK`, with the MAC of
the empty message. -/
theorem hmac_not_failStop : ∃ hd, (knownHandle [false, true]).value = (.ok, some hd) ∧
    let M := streamMachine (multipartBackend knownDriver knownRest) macOps
    let st : StreamState KeyId _ _ :=
      ⟨hd, (knownHandle [false, true]).world, (knownHandle [false, true]).env⟩
    (M.step st oneByte).1.status = .errMemory ∧
      (M.step (M.step st oneByte).2 finishStep).1 = ⟨.ok, some 32, hmacOf knownHash .sha256 [] []⟩ ∧
      ¬ FailStop M st [oneByte, finishStep] := by
  refine ⟨_, rfl, rfl, StreamReply.ext rfl rfl (by decide), fun hstop => ?_⟩
  obtain ⟨b₁, k, b₂, hb, -⟩ := hstop [] _ [] _ [] rfl ⟨0x100, 1, rfl, rfl, by decide, by decide⟩
    (by decide) ⟨_, _, _, rfl⟩ (by decide)
  simp at hb

end Zucrypt
