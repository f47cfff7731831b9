import Zucrypt.AllocationWatch

/-! # Memory failures are reported exactly

Every command of a caller that runs under the allocation watch is its implementation between the two
ends of the watch (`run_eq_underWatch`), and every other one never asks what the watch has recorded.
So whatever the calls before it recorded, a call does the same, and what the watch has recorded when
it ends is what failed during the call.

`memory_reports_exact` is about a call after any session.  The first half (`IgnoresRecord`) is that
the record the session left makes no difference: against any backend the call ends alike with any
other.  The second (`WatchExact`) is of the commands under the watch:

* a call that fails, and in which an allocation failed, of the heap or inside the backend, reports
  `ZUC_ERR_MEMORY`;
* one that reports it had such a failure, or was told of one by the backend;
* when it ends the record says exactly whether an allocation inside the backend failed;
* all else is as the implementation left it, and a success of that stays a success.

It is proved for the implementations as they are (`blames_impl`: none says memory where memory was
there) and the watch around any of them (`watchExact_underWatch`).  The backend may answer anything,
and fail to allocate at any call; which calls did is told to the adapter by the hook in its
allocator. -/
namespace Zucrypt
open Effects ByteMemory

variable {O : Objects} {α β : Type}

/-! ### Commands under the watch -/

namespace Command

/-- The implementation of a command that runs under the watch. -/
def impl (pool : Pool O) : Command → Option (Adapter O (CallResult × Pool O))
  | .pkeyParse inp len privateKey out =>
    some (constructor .pkey pool (pkeyParseImpl inp len privateKey out))
  | .pkeyGenerate type bits out => some (constructor .pkey pool (pkeyGenerateImpl type bits out))
  | .pkeyImport type privateKey data len out =>
    some (constructor .pkey pool (pkeyImportImpl type privateKey data len out))
  | .pkeyPublic i out => some (constructor .pkey pool (pkeyPublicImpl (pool.pkey i) out))
  | .pkeyWrite i format publicOnly out outSize outLen =>
    some (plainCell pool (pkeyWriteImpl (pool.pkey i) format publicOnly out outSize outLen))
  | .pkeySignHash i scheme hash digest digestLen sig sigSize sigLen =>
    some (plainCell pool
      (pkeySignHashImpl (pool.pkey i) scheme hash digest digestLen sig sigSize sigLen))
  | .pkeyVerifyHash i scheme hash digest digestLen sig sigLen =>
    some (plain pool (pkeyVerifyHashImpl (pool.pkey i) scheme hash digest digestLen sig sigLen))
  | .pkeyEncrypt i scheme hash inp len out outSize outLen =>
    some (plainCell pool (pkeyEncryptImpl (pool.pkey i) scheme hash inp len out outSize outLen))
  | .pkeyDecrypt i scheme hash inp len out outSize outLen =>
    some (plainCell pool (pkeyDecryptImpl (pool.pkey i) scheme hash inp len out outSize outLen))
  | .pkeyExport i publicOnly out outSize outLen =>
    some (plainCell pool (pkeyExportImpl (pool.pkey i) publicOnly out outSize outLen))
  | .pkeyAgree i peer out outSize outLen =>
    some (plainCell pool (pkeyAgreeImpl (pool.pkey i) (pool.pkey peer) out outSize outLen))
  | _ => none

/-- An implementation between the two ends of the watch. -/
def underWatch (p : Adapter O (CallResult × Pool O)) : Adapter O (CallResult × Pool O) := do
  zucIntAllocWatch
  let r ← p
  let st ← zucIntMemoryOr r.1.status
  return ({ r.1 with status := st }, r.2)

/-- A constructor of keys is one under the watch. -/
theorem constructor_watched (kind : α → LiveHandle O) (pool : Pool O)
    (p : Adapter O (ZucStatus × Option α)) :
    constructor kind pool (watched p) = underWatch (constructor kind pool p) := by
  simp only [constructor, watched, underWatch, Proc.bind_assoc, Proc.pure_bind]

/-- So is a function that reports a length. -/
theorem plainCell_watched (pool : Pool O) (p : Adapter O (ZucStatus × SizeCell)) :
    plainCell pool (watched p) = underWatch (plainCell pool p) := by
  simp only [plainCell, watched, underWatch, Proc.bind_assoc, Proc.pure_bind]

/-- Every command that has an implementation is that, under the watch. -/
theorem run_eq_underWatch {pool : Pool O} {c : Command} {p : Adapter O (CallResult × Pool O)}
    (hc : c.impl pool = some p) : c.run pool = underWatch p := by
  cases c with
  | pkeyParse => cases hc; exact constructor_watched _ _ _
  | pkeyGenerate => cases hc; exact constructor_watched _ _ _
  | pkeyImport => cases hc; exact constructor_watched _ _ _
  | pkeyPublic => cases hc; exact constructor_watched _ _ _
  | pkeyVerifyHash =>
    cases hc
    simp only [run, plain, zucPkeyVerifyHash, underWatch, Proc.bind_assoc, Proc.pure_bind]
  | pkeyWrite => cases hc; exact plainCell_watched _ _
  | pkeySignHash => cases hc; exact plainCell_watched _ _
  | pkeyEncrypt => cases hc; exact plainCell_watched _ _
  | pkeyDecrypt => cases hc; exact plainCell_watched _ _
  | pkeyExport => cases hc; exact plainCell_watched _ _
  | pkeyAgree => cases hc; exact plainCell_watched _ _
  | _ => cases hc

/-- The implementations are ordinary functions of the adapter. -/
theorem ordinary_impl {pool : Pool O} {c : Command} {p : Adapter O (CallResult × Pool O)}
    (hc : c.impl pool = some p) : Ordinary p := by
  cases c with
  | pkeyParse => cases hc; exact .bind (silent_pkeyParseImpl _ _ _ _).ordinary fun _ => .pure _
  | pkeyGenerate => cases hc; exact .bind (silent_pkeyGenerateImpl _ _ _).ordinary fun _ => .pure _
  | pkeyImport => cases hc; exact .bind (silent_pkeyImportImpl _ _ _ _ _).ordinary fun _ => .pure _
  | pkeyPublic => cases hc; exact .bind (silent_pkeyPublicImpl _ _).ordinary fun _ => .pure _
  | pkeyWrite => cases hc; exact .bind (ordinary_pkeyWriteImpl _ _ _ _ _ _) fun _ => .pure _
  | pkeySignHash =>
    cases hc; exact .bind (discreet_pkeySignHashImpl _ _ _ _ _ _ _ _).ordinary fun _ => .pure _
  | pkeyVerifyHash =>
    cases hc; exact .bind (discreet_pkeyVerifyHashImpl _ _ _ _ _ _ _).ordinary fun _ => .pure _
  | pkeyEncrypt =>
    cases hc; exact .bind (discreet_pkeyEncryptImpl _ _ _ _ _ _ _ _).ordinary fun _ => .pure _
  | pkeyDecrypt =>
    cases hc; exact .bind (discreet_pkeyDecryptImpl _ _ _ _ _ _ _ _).ordinary fun _ => .pure _
  | pkeyExport => cases hc; exact .bind (ordinary_pkeyExportImpl _ _ _ _ _) fun _ => .pure _
  | pkeyAgree => cases hc; exact .bind (ordinary_pkeyAgreeImpl _ _ _ _ _) fun _ => .pure _
  | _ => cases hc

/-- The two commands that start and stop the backend. -/
def IsLifetime : Command → Prop
  | .init => True
  | .shutdown => True
  | _ => False

/-- Every other command is an ordinary function of the adapter. -/
theorem ordinary_run {pool : Pool O} {c : Command} (hc : c.impl pool = none)
    (hlifetime : ¬ c.IsLifetime) : Ordinary (c.run pool) := by
  cases c with
  | init => exact (hlifetime trivial).elim
  | shutdown => exact (hlifetime trivial).elim
  | store p bs => exact .bind (.write p bs) fun _ => .pure _
  | hashCompute => exact .bind (discreet_zucHashCompute _ _ _ _ _ _).ordinary fun _ => .pure _
  | hashNew => exact .bind (discreet_zucHashNew _ _).ordinary fun _ => .pure _
  | hashUpdate => exact .bind (discreet_streamUpdate discreet_hashOps _ _ _).ordinary fun _ => .pure _
  | hashFinish => exact .bind (discreet_streamFinish discreet_hashOps _ _ _ _).ordinary fun _ => .pure _
  | hashReset => exact .bind (discreet_streamReset discreet_hashOps _).ordinary fun _ => .pure _
  | hashFree => exact .bind (discreet_zucHashFree _).ordinary fun _ => .pure _
  | hmacCompute => exact .bind (discreet_zucHmacCompute _ _ _ _ _ _ _ _).ordinary fun _ => .pure _
  | hmacNew => exact .bind (discreet_zucHmacNew _ _ _ _).ordinary fun _ => .pure _
  | hmacUpdate => exact .bind (discreet_streamUpdate discreet_macOps _ _ _).ordinary fun _ => .pure _
  | hmacFinish => exact .bind (discreet_streamFinish discreet_macOps _ _ _ _).ordinary fun _ => .pure _
  | hmacReset => exact .bind (discreet_streamReset discreet_macOps _).ordinary fun _ => .pure _
  | hmacFree => exact .bind (discreet_zucHmacFree _).ordinary fun _ => .pure _
  | aesNew => exact .bind (discreet_zucAesNew _ _ _).ordinary fun _ => .pure _
  | aesSetState => exact .bind (discreet_zucAesCbcSetState _ _).ordinary fun _ => .pure _
  | aesGetState => exact .bind (discreet_zucAesCbcGetState _ _).ordinary fun _ => .pure _
  | aesCbcEncrypt => exact .bind (discreet_zucAesCbcEncrypt _ _ _ _).ordinary fun _ => .pure _
  | aesCbcDecrypt => exact .bind (discreet_zucAesCbcDecrypt _ _ _ _).ordinary fun _ => .pure _
  | aesFree => exact .bind (discreet_zucAesFree _).ordinary fun _ => .pure _
  | aeadEncrypt =>
    exact .bind (discreet_zucAeadEncrypt _ _ _ _ _ _ _ _ _ _ _ _).ordinary fun _ => .pure _
  | aeadDecrypt =>
    exact .bind (discreet_zucAeadDecrypt _ _ _ _ _ _ _ _ _ _ _ _).ordinary fun _ => .pure _
  | pbkdf2Hmac => exact .bind (discreet_zucPbkdf2Hmac _ _ _ _ _ _ _ _).ordinary fun _ => .pure _
  | pkeyFree => exact .bind (silent_zucPkeyFree _).ordinary fun _ => .pure _
  | _ => cases hc

end Command

/-! ### What earlier calls recorded makes no difference -/

/-- What a function does does not depend on what the watch has recorded. -/
def IgnoresRecord (p : Adapter O α) : Prop :=
  ∀ w w₂, SameButRecord w w₂ → ∀ t a w', Runs (p w) t (a, w') →
    ∃ w₂', Runs (p w₂) t (a, w₂') ∧ SameButRecord w' w₂'

/-- An ordinary function does not look at the record. -/
theorem Ordinary.ignoresRecord {p : Adapter O α} (hp : Ordinary p) : IgnoresRecord p :=
  fun _ _ hw _ _ _ hrun => hp.runs indistinct_sameButRecord hw hrun

/-- One function after another. -/
theorem IgnoresRecord.bind {p : Adapter O α} {f : α → Adapter O β} (hp : IgnoresRecord p)
    (hf : ∀ a, IgnoresRecord (f a)) : IgnoresRecord (p >>= f) := by
  intro w w₂ hw t b w' hrun
  obtain ⟨t₁, ⟨a, w₁⟩, t₂, rfl, hrun₁, hrun₂⟩ := Runs.bind_iff.mp hrun
  obtain ⟨w₁', hrun₁', hw₁⟩ := hp w w₂ hw t₁ a w₁ hrun₁
  obtain ⟨w₂', hrun₂', hw₂⟩ := hf a w₁ w₁' hw₁ t₂ b w' hrun₂
  exact ⟨w₂', Runs.bind_iff.mpr ⟨t₁, (a, w₁'), t₂, rfl, hrun₁', hrun₂'⟩, hw₂⟩

/-- A branch. -/
theorem IgnoresRecord.ite {c : Prop} [Decidable c] {p q : Adapter O α} (hp : IgnoresRecord p)
    (hq : IgnoresRecord q) : IgnoresRecord (if c then p else q) := by
  split
  · exact hp
  · exact hq

/-- To change the count is not to look at the record. -/
theorem ignoresRecord_refcount (n : UInt32 → UInt32) :
    IgnoresRecord (Proc.update (fun w => { w with refcount := n w.refcount }) : Adapter O Unit) := by
  intro w w₂ hw t a w' hrun
  obtain ⟨rfl, heq⟩ := Runs.done_iff.mp hrun
  obtain ⟨rfl, rfl⟩ := Prod.mk.inj heq
  exact ⟨_, .done _, hw.1, congrArg n hw.2.1, hw.2.2⟩

/-- To call the backend may add to the record, and does not look at it. -/
theorem ignoresRecord_psa (c : PsaCall O α) : IgnoresRecord (psa c) := by
  intro w w₂ hw t a w' hrun
  obtain ⟨r, t', rfl, hdone⟩ := Runs.call_iff.mp hrun
  obtain ⟨rfl, heq⟩ := Runs.done_iff.mp hdone
  obtain ⟨rfl, rfl⟩ := Prod.mk.inj heq
  exact ⟨w₂.noteAlloc r.allocFailed, .call r (.done _), hw⟩

/-- A function that looks at the reference count. -/
theorem ignoresRecord_look {f : World → Adapter O α} (g : UInt32 → Adapter O α)
    (hf : ∀ w, f w = g w.refcount) (hg : ∀ n, IgnoresRecord (g n)) :
    IgnoresRecord (Proc.read >>= f) := by
  intro w w₂ hw t a w' hrun
  obtain rfl : f = fun w => g w.refcount := funext hf
  have hrun' : Runs (g w.refcount w) t (a, w') := hrun
  obtain ⟨w₂', hrun₂, hw₂⟩ := hg w.refcount w w₂ hw t a w' hrun'
  refine ⟨w₂', ?_, hw₂⟩
  rw [hw.2.1] at hrun₂
  exact hrun₂

/-- `zuc_init` does not look at the record. -/
theorem ignoresRecord_zucInit : IgnoresRecord (zucInit : Adapter O _) := by
  refine ignoresRecord_look (fun n => if 0 < n then
      if n = 0xFFFFFFFF then return .errInternal else do
        Proc.update (fun w => { w with refcount := w.refcount + 1 })
        return .ok
    else do
      let status ← psa .cryptoInit
      if status ≠ .success then return zucIntFromPsa status else do
        Proc.update (fun w => { w with refcount := 1 })
        return .ok) (fun w => rfl) fun n => ?_
  have hpure : ∀ st : ZucStatus, IgnoresRecord (pure st : Adapter O _) :=
    fun st => (Ordinary.pure st).ignoresRecord
  refine .ite (.ite (hpure _) ?_) (.bind (ignoresRecord_psa _) fun status => .ite (hpure _) ?_)
  · exact .bind (ignoresRecord_refcount (· + 1)) fun _ => hpure _
  · exact .bind (ignoresRecord_refcount fun _ => 1) fun _ => hpure _

/-- Nor does `zuc_shutdown`. -/
theorem ignoresRecord_zucShutdown : IgnoresRecord (zucShutdown : Adapter O _) := by
  have hpure : ∀ st : ZucStatus, IgnoresRecord (pure st : Adapter O _) :=
    fun st => (Ordinary.pure st).ignoresRecord
  have hlast : IgnoresRecord (do
      let w ← Proc.read
      if w.refcount = 0 then
        psa .cryptoFree
        return .ok
      else
        return .ok : Adapter O ZucStatus) := by
    refine ignoresRecord_look (fun n => if n = 0 then do
        psa .cryptoFree
        return .ok
      else return .ok) (fun w => rfl) fun n => .ite ?_ (hpure _)
    exact .bind (ignoresRecord_psa _) fun _ => hpure _
  refine ignoresRecord_look (fun n => if n = 0 then return .errInvalidArgument else do
      Proc.update (fun w => { w with refcount := w.refcount - 1 })
      let w ← Proc.read
      if w.refcount = 0 then
        psa .cryptoFree
        return .ok
      else
        return .ok) (fun w => rfl) fun n => .ite (hpure _) ?_
  exact .bind (ignoresRecord_refcount (· - 1)) fun _ => hlast

/-- The watch starts with nothing recorded, whatever there was. -/
theorem ignoresRecord_underWatch (p : Adapter O (CallResult × Pool O)) :
    IgnoresRecord (Command.underWatch p) := by
  intro w w₂ hw t a w' hrun
  have hclear : ({ w with allocFailed := false } : World) = { w₂ with allocFailed := false } := by
    rw [World.mk.injEq]
    exact ⟨hw.1, hw.2.1, hw.2.2, rfl⟩
  have hsame : Command.underWatch p w = Command.underWatch p w₂ := by
    simp only [Command.underWatch, zucIntAllocWatch, Proc.bind_apply, Proc.update_apply,
      Program.done_bind, hclear]
  exact ⟨w', hsame ▸ hrun, rfl, rfl, rfl⟩

/-- No command looks at it. -/
theorem ignoresRecord_run (pool : Pool O) (c : Command) : IgnoresRecord (c.run pool) := by
  cases himpl : c.impl pool with
  | some p =>
    rw [Command.run_eq_underWatch himpl]
    exact ignoresRecord_underWatch p
  | none =>
    by_cases hlifetime : c.IsLifetime
    · cases c with
      | init => exact .bind ignoresRecord_zucInit fun _ => (Ordinary.pure _).ignoresRecord
      | shutdown => exact .bind ignoresRecord_zucShutdown fun _ => (Ordinary.pure _).ignoresRecord
      | _ => exact hlifetime.elim
    · exact (Command.ordinary_run himpl hlifetime).ignoresRecord

/-! ### What a call reports -/

theorem blames_result {excuse : Prop} {q : Adapter O α} {failed : α → Prop}
    {f : α → CallResult × Pool O} (hq : Blames excuse q failed)
    (hf : ∀ a, (f a).1.status = .errMemory ↔ failed a) :
    Blames excuse (do
      let a ← q
      return f a : Adapter O (CallResult × Pool O)) (fun r => r.1.status = .errMemory) :=
  .bind hq (fun a ha => Yields.pure ((hf a).mpr ha)) fun a ha => .pure fun h => (ha ((hf a).mp h)).elim

/-- What the implementations say about memory. -/
theorem blames_impl {pool : Pool O} {c : Command} {p : Adapter O (CallResult × Pool O)}
    (hc : c.impl pool = some p) : Blames False p (fun r => r.1.status = .errMemory) := by
  cases c with
  | pkeyParse =>
    cases hc; exact blames_result (blames_pkeyParseImpl _ _ _ _ _) fun _ => Iff.rfl
  | pkeyGenerate =>
    cases hc; exact blames_result (blames_pkeyGenerateImpl _ _ _ _) fun _ => Iff.rfl
  | pkeyImport =>
    cases hc; exact blames_result (blames_pkeyImportImpl _ _ _ _ _ _) fun _ => Iff.rfl
  | pkeyPublic =>
    cases hc; exact blames_result (blames_pkeyPublicImpl _ _ _) fun _ => Iff.rfl
  | pkeyWrite =>
    cases hc; exact blames_result (blames_pkeyWriteImpl _ _ _ _ _ _ _) fun _ => Iff.rfl
  | pkeySignHash =>
    cases hc; exact blames_result (blames_pkeySignHashImpl _ _ _ _ _ _ _ _ _) fun _ => Iff.rfl
  | pkeyVerifyHash =>
    cases hc; exact blames_result (blames_pkeyVerifyHashImpl _ _ _ _ _ _ _ _) fun _ => Iff.rfl
  | pkeyEncrypt =>
    cases hc; exact blames_result (blames_pkeyEncryptImpl _ _ _ _ _ _ _ _ _) fun _ => Iff.rfl
  | pkeyDecrypt =>
    cases hc; exact blames_result (blames_pkeyDecryptImpl _ _ _ _ _ _ _ _ _) fun _ => Iff.rfl
  | pkeyExport =>
    cases hc; exact blames_result (blames_pkeyExportImpl _ _ _ _ _ _) fun _ => Iff.rfl
  | pkeyAgree =>
    cases hc; exact blames_result (blames_pkeyAgreeImpl _ _ _ _ _ _) fun _ => Iff.rfl
  | _ => cases hc

/-- A call under the watch, of an implementation `p`: what it reports of memory is what
happened during this call, and the rest is what the implementation did. -/
structure WatchExact (p : Adapter O (CallResult × Pool O)) (w : World) (t : List (Event (Call O)))
    (r : CallResult × Pool O) (w' : World) : Prop where
  reported : r.1.status ≠ .ok → (∃ e ∈ t, FailedAlloc e ∨ HeapFailed e) → r.1.status = .errMemory
  justified : r.1.status = .errMemory → ∃ e ∈ t, FailedAlloc e ∨ HeapFailed e ∨ SaysNoMemory e
  recorded : w'.allocFailed = true ↔ ∃ e ∈ t, FailedAlloc e
  implemented : ∃ st, Runs (p { w with allocFailed := false }) t (({ r.1 with status := st }, r.2), w') ∧
    (st = .ok → r.1.status = .ok)

/-- What the watch makes of an ordinary function that does not blame memory without cause. -/
theorem watchExact_underWatch {p : Adapter O (CallResult × Pool O)} (hp : Ordinary p)
    (hblames : Blames False p (fun r => r.1.status = .errMemory)) (w : World) :
    Ensures (fun _ => True) (Command.underWatch p) w (WatchExact p w) := by
  refine Ensures.bind_iff.mpr (Ensures.update_iff.mpr (Ensures.bind_iff.mpr ?_))
  intro t r w' hrun hok
  have hframe : Frame { w with allocFailed := false } t w' := hp.frame _ t r w' hrun hok
  obtain ⟨hheap, hblame⟩ := hblames _ t r w' hrun hok
  have hrecorded : w'.allocFailed = true ↔ ∃ e ∈ t, FailedAlloc e :=
    hframe.recorded.trans (by simp)
  refine Ensures.bind_iff.mpr (Ensures.bind_iff.mpr (Ensures.read_iff.mpr
    (Ensures.pure_iff.mpr (Ensures.pure_iff.mpr ?_))))
  simp only [List.append_nil, List.nil_append]
  by_cases hfail : r.1.status ≠ .ok ∧ w'.allocFailed = true
  · -- the record replaces the failure of the implementation
    rw [if_pos hfail]
    refine ⟨fun _ _ => rfl, fun _ => ?_, hrecorded, r.1.status, hrun, fun h => (hfail.1 h).elim⟩
    obtain ⟨e, he, hfailed⟩ := hrecorded.mp hfail.2
    exact ⟨e, he, .inl hfailed⟩
  · rw [if_neg hfail]
    refine ⟨fun hne => ?_, fun hst => ?_, hrecorded, r.1.status, hrun, fun h => h⟩
    · rintro ⟨e, he, hfailed | hfailed⟩
      · exact (hfail ⟨hne, hrecorded.mpr ⟨e, he, hfailed⟩⟩).elim
      · exact hheap ⟨e, he, hfailed⟩
    · obtain ⟨e, he, h⟩ := (hblame hst).resolve_left id
      exact ⟨e, he, .inr h⟩

/-- After any calls, by whatever failures, a call does what it would have done without
them; and one under the watch reports a failure of memory exactly when there was one. -/
theorem memory_reports_exact (pool₀ : Pool O) (w₀ : World) (cmds : List Command) :
    Ensures (fun _ => True) (session pool₀ cmds) w₀ fun _ rs w => ∀ c : Command,
      IgnoresRecord (c.run rs.2) ∧ ∀ p, c.impl rs.2 = some p →
        Ensures (fun _ => True) (c.run rs.2) w (WatchExact p w) := by
  intro t rs w hrun hok c
  refine ⟨ignoresRecord_run rs.2 c, fun p hp => ?_⟩
  rw [Command.run_eq_underWatch hp]
  exact watchExact_underWatch (Command.ordinary_impl hp) (blames_impl hp) w

end Zucrypt
