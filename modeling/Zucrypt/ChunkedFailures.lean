import Zucrypt.ChunkedDigests
import Zucrypt.CryptHash

/-! # A failed chunk fails the whole

Against any backend, an entry point that works in chunks returns a value only if each native call
over each slice of the input has succeeded, in order; otherwise it returns a status and no value, or
is left.  The functions over them raise an error then.

The lemmas take a run apart from its end: what has been returned says what was done.  `DigestRun`,
`StreamRun` and `CbcRun` are what was done, as relations between a state and the next; none of them
speaks of a law, so no failure of the backend is left out, and a chunk that failed is in none of
them. -/
namespace Zucrypt
open Effects ByteMemory BlockChaining Entry

variable {O : Objects} {σ κ Op α β : Type} {h : Handler (Call O) σ} {H H' : RHeap O}
  {w w' : World} {s s' : σ} {st st' : RState}

/-! ### Taking runs apart -/

theorem Entry.exec_bind_some {p : Entry O α} {f : α → Entry O β} {b : β}
    (hrun : ((p >>= f) H).exec h w s = ⟨(some b, H'), w', s'⟩) : ∃ a H₁ w₁ s₁,
    (p H).exec h w s = ⟨(some a, H₁), w₁, s₁⟩ ∧ (f a H₁).exec h w₁ s₁ = ⟨(some b, H'), w', s'⟩ := by
  have hseq : (Entry.seq p f H).exec h w s = ⟨(some b, H'), w', s'⟩ := hrun
  unfold Entry.seq at hseq
  rw [Proc.exec_bind] at hseq
  rcases hp : (p H).exec h w s with ⟨⟨r, H₁⟩, w₁, s₁⟩
  rw [hp] at hseq
  cases r with
  | none => simp at hseq
  | some a => exact ⟨a, H₁, w₁, s₁, rfl, hseq⟩

theorem RFun.exec_bind_ok {p : RFun O α} {f : α → RFun O β} {b : β}
    (hrun : ((p >>= f) st).exec h w s = ⟨(.ok b, st'), w', s'⟩) : ∃ a st₁ w₁ s₁,
    (p st).exec h w s = ⟨(.ok a, st₁), w₁, s₁⟩ ∧
      (f a st₁).exec h w₁ s₁ = ⟨(.ok b, st'), w', s'⟩ := by
  have hseq : (RFun.seq p f st).exec h w s = ⟨(.ok b, st'), w', s'⟩ := hrun
  unfold RFun.seq at hseq
  rw [Proc.exec_bind] at hseq
  rcases hp : (p st).exec h w s with ⟨⟨r, st₁⟩, w₁, s₁⟩
  rw [hp] at hseq
  cases r with
  | error c => simp at hseq
  | ok a => exact ⟨a, st₁, w₁, s₁, rfl, hseq⟩

theorem RFun.exec_pure_ok {a b : α}
    (hrun : ((pure a : RFun O α) st).exec h w s = ⟨(.ok b, st'), w', s'⟩) :
    b = a ∧ st' = st ∧ w' = w ∧ s' = s := by
  obtain ⟨hvalue, rfl, rfl⟩ := Outcome.mk.inj hrun
  obtain ⟨ha, rfl⟩ := Prod.mk.inj hvalue
  exact ⟨(Except.ok.inj ha).symm, rfl, rfl, rfl⟩

theorem RFun.exec_look_ok {f : RState → α} {a : α}
    (hrun : ((RFun.look f : RFun O α) st).exec h w s = ⟨(.ok a, st'), w', s'⟩) :
    a = f st ∧ st' = st ∧ w' = w ∧ s' = s := RFun.exec_pure_ok hrun

theorem RFun.exec_check_ok {e : Except Condition α} {a : α}
    (hrun : ((RFun.check e : RFun O α) st).exec h w s = ⟨(.ok a, st'), w', s'⟩) :
    e = .ok a ∧ st' = st ∧ w' = w ∧ s' = s := by
  obtain ⟨hvalue, rfl, rfl⟩ := Outcome.mk.inj hrun
  obtain ⟨ha, rfl⟩ := Prod.mk.inj hvalue
  exact ⟨ha, rfl, rfl, rfl⟩

theorem RFun.exec_change_ok {f : RState → RState} {u : Unit}
    (hrun : ((RFun.change f : RFun O Unit) st).exec h w s = ⟨(.ok u, st'), w', s'⟩) :
    st' = f st ∧ w' = w ∧ s' = s := by
  obtain ⟨hvalue, rfl, rfl⟩ := Outcome.mk.inj hrun
  exact ⟨(Prod.mk.inj hvalue).2.symm, rfl, rfl⟩

theorem RFun.exec_native_ok {p : Adapter O α} {a : α}
    (hrun : (RFun.native p st).exec h w s = ⟨(.ok a, st'), w', s'⟩) :
    p.exec h w s = ⟨a, w', s'⟩ ∧ st' = st := by
  unfold RFun.native at hrun
  rw [Proc.exec_bind] at hrun
  obtain ⟨hvalue, rfl, rfl⟩ := Outcome.mk.inj hrun
  obtain ⟨ha, rfl⟩ := Prod.mk.inj hvalue
  exact ⟨Outcome.ext (Except.ok.inj ha) rfl rfl, rfl⟩

theorem RFun.exec_onExit_ok {p : RFun O α} {f : RState → RState} {a : α}
    (hrun : (RFun.onExit p f st).exec h w s = ⟨(.ok a, st'), w', s'⟩) :
    ∃ st₁, (p st).exec h w s = ⟨(.ok a, st₁), w', s'⟩ ∧ st' = f st₁ := by
  unfold RFun.onExit at hrun
  rw [Proc.exec_bind] at hrun
  obtain ⟨hvalue, rfl, rfl⟩ := Outcome.mk.inj hrun
  obtain ⟨ha, rfl⟩ := Prod.mk.inj hvalue
  exact ⟨_, Outcome.ext (Prod.ext ha rfl) rfl rfl, rfl⟩

/-- A condition is no value. -/
theorem RFun.exec_raise_ok {c : Condition} {a : α}
    (hrun : ((RFun.raise c : RFun O α) st).exec h w s = ⟨(.ok a, st'), w', s'⟩) : False :=
  nomatch (Prod.mk.inj (Outcome.mk.inj hrun).1).1

theorem exec_native_some {p : Adapter O α} {a : α}
    (hrun : (native p H).exec h w s = ⟨(some a, H'), w', s'⟩) :
    p.exec h w s = ⟨a, w', s'⟩ ∧ H' = H := by
  rw [Entry.exec_native] at hrun
  obtain ⟨hvalue, rfl, rfl⟩ := Outcome.mk.inj hrun
  obtain ⟨ha, rfl⟩ := Prod.mk.inj hvalue
  exact ⟨Outcome.ext (Option.some.inj ha) rfl rfl, rfl⟩

theorem exec_entry_ok {p : Entry O α} {r : α × RHeap O}
    (hrun : (RFun.entry p H st).exec h w s = ⟨(.ok r, st'), w', s'⟩) :
    (p H).exec h w s = ⟨(some r.1, r.2), w', s'⟩ ∧ st' = st := by
  unfold RFun.entry at hrun
  rw [Proc.exec_bind] at hrun
  rcases hp : (p H).exec h w s with ⟨⟨v, H₁⟩, w₁, s₁⟩
  rw [hp] at hrun
  cases v with
  | none => simp at hrun
  | some a =>
    obtain ⟨hvalue, rfl, rfl⟩ := Outcome.mk.inj hrun
    obtain ⟨hr, rfl⟩ := Prod.mk.inj hvalue
    obtain rfl : (a, H₁) = r := Except.ok.inj hr
    exact ⟨rfl, rfl⟩

/-- A point that is passed does nothing else. -/
theorem exec_jumpPoint_some {u : Unit}
    (hrun : ((jumpPoint : Entry O Unit) H).exec h w s = ⟨(some u, H'), w', s'⟩) :
    H'.pointers = H.pointers ∧ w' = w ∧ s' = s := by
  unfold jumpPoint at hrun
  split at hrun
  · obtain ⟨hvalue, rfl, rfl⟩ := Outcome.mk.inj hrun
    obtain ⟨-, rfl⟩ := Prod.mk.inj hvalue
    exact ⟨rfl, rfl, rfl⟩
  · obtain ⟨hvalue, -, -⟩ := Outcome.mk.inj hrun
    exact absurd (Prod.mk.inj hvalue).1 (by simp)
  · obtain ⟨hvalue, rfl, rfl⟩ := Outcome.mk.inj hrun
    obtain ⟨-, rfl⟩ := Prod.mk.inj hvalue
    exact ⟨rfl, rfl, rfl⟩

theorem exec_allocations_some {n : Nat} {u : Unit}
    (hrun : ((allocations n : Entry O Unit) H).exec h w s = ⟨(some u, H'), w', s'⟩) :
    H'.pointers = H.pointers ∧ w' = w ∧ s' = s := by
  induction n generalizing H w s with
  | zero =>
    obtain ⟨hvalue, rfl, rfl⟩ := Outcome.mk.inj hrun
    obtain ⟨-, rfl⟩ := Prod.mk.inj hvalue
    exact ⟨rfl, rfl, rfl⟩
  | succ n ih =>
    rw [allocations] at hrun
    obtain ⟨_, H₁, w₁, s₁, hpoint, hrest⟩ := Entry.exec_bind_some hrun
    obtain ⟨hH, rfl, rfl⟩ := exec_jumpPoint_some hpoint
    obtain ⟨hH', hw, hs⟩ := ih hrest
    exact ⟨hH'.trans hH, hw, hs⟩

theorem exec_allocVector_some {n p : Nat}
    (hrun : (allocVector n H).exec h w s = ⟨(some p, H'), w', s'⟩) :
    h _ (.allocRaw n) s = (p, s') ∧ w' = w := by
  unfold allocVector at hrun
  obtain ⟨_, H₁, w₁, s₁, hpoint, hrest⟩ := Entry.exec_bind_some hrun
  obtain ⟨-, rfl, rfl⟩ := exec_jumpPoint_some hpoint
  obtain ⟨hcall, -⟩ := exec_native_some hrest
  obtain ⟨hp, rfl, rfl⟩ := Outcome.mk.inj hcall
  exact ⟨Prod.ext hp rfl, rfl⟩

theorem exec_setAddress_some {i : Nat} {addr : Option (LiveHandle O)} {u : Unit}
    (hrun : (setAddress i addr H).exec h w s = ⟨(some u, H'), w', s'⟩) :
    H' = H.setPointer i { H.pointer i with addr } ∧ w' = w ∧ s' = s := by
  obtain ⟨hvalue, rfl, rfl⟩ := Outcome.mk.inj hrun
  obtain ⟨-, rfl⟩ := Prod.mk.inj hvalue
  exact ⟨rfl, rfl, rfl⟩

theorem exec_result_some {status : ZucStatus} {value : Sexp} {r : NativeResult}
    (hrun : (result status value H).exec h w s = ⟨(some r, H'), w', s'⟩) :
    r = nativeResult status value ∧ w' = w ∧ s' = s := by
  unfold result at hrun
  obtain ⟨_, H₁, w₁, s₁, hallocations, hrest⟩ := Entry.exec_bind_some hrun
  obtain ⟨-, rfl, rfl⟩ := exec_allocations_some hallocations
  obtain ⟨hvalue, rfl, rfl⟩ := Outcome.mk.inj hrest
  exact ⟨(Option.some.inj (Prod.mk.inj hvalue).1).symm, rfl, rfl⟩

theorem exec_pure_some {a b : α}
    (hrun : ((pure a : Entry O α) H).exec h w s = ⟨(some b, H'), w', s'⟩) :
    b = a ∧ H' = H ∧ w' = w ∧ s' = s := by
  obtain ⟨hvalue, rfl, rfl⟩ := Outcome.mk.inj hrun
  obtain ⟨ha, rfl⟩ := Prod.mk.inj hvalue
  exact ⟨(Option.some.inj ha).symm, rfl, rfl, rfl⟩

theorem exec_makeExternalPtr_some {tag : Option StreamTag} {i : Nat}
    (hrun : (makeExternalPtr tag H).exec h w s = ⟨(some i, H'), w', s'⟩) :
    i = H.pointers.length ∧ H'.pointers = H.pointers ++ [({ tag } : ExternalPtr O)] ∧ w' = w ∧ s' = s := by
  unfold makeExternalPtr at hrun
  obtain ⟨_, H₁, w₁, s₁, hpoint, hrest⟩ := Entry.exec_bind_some hrun
  obtain ⟨hH, rfl, rfl⟩ := exec_jumpPoint_some hpoint
  obtain ⟨hvalue, rfl, rfl⟩ := Outcome.mk.inj hrest
  obtain ⟨hi, rfl⟩ := Prod.mk.inj hvalue
  refine ⟨?_, ?_, rfl, rfl⟩
  · rw [← Option.some.inj hi, ← hH]
  · show H₁.pointers ++ [({ tag } : ExternalPtr O)] = _
    rw [hH]

theorem exec_registerFinalizer_some {i : Nat} {kind : ContextKind} {u : Unit}
    (hrun : (registerFinalizer i kind H).exec h w s = ⟨(some u, H'), w', s'⟩) :
    w' = w ∧ s' = s := by
  unfold registerFinalizer at hrun
  obtain ⟨_, H₁, w₁, s₁, hpoint, hrest⟩ := Entry.exec_bind_some hrun
  obtain ⟨-, rfl, rfl⟩ := exec_jumpPoint_some hpoint
  obtain ⟨-, rfl, rfl⟩ := Outcome.mk.inj hrest
  exact ⟨rfl, rfl⟩

theorem exec_ownerPtr_some {kind : ContextKind} {tag : Option StreamTag} {ptr : Nat}
    (hrun : (ownerPtr kind tag H).exec h w s = ⟨(some ptr, H'), w', s'⟩) : w' = w ∧ s' = s := by
  unfold ownerPtr at hrun
  obtain ⟨i, H₁, w₁, s₁, hmake, hrest⟩ := Entry.exec_bind_some hrun
  obtain ⟨_, H₂, w₂, s₂, hregister, hreturn⟩ := Entry.exec_bind_some hrest
  obtain ⟨-, -, rfl, rfl⟩ := exec_makeExternalPtr_some hmake
  obtain ⟨rfl, rfl⟩ := exec_registerFinalizer_some hregister
  obtain ⟨-, -, rfl, rfl⟩ := exec_pure_some hreturn
  exact ⟨rfl, rfl⟩

/-! ### Slices of a raw vector -/

/-- A native context, and the state of the library around it. -/
structure NativeState (X σ : Type) where
  context : Option X
  world : World
  env : σ

/-- The native updates of a digest over some slices, each of which succeeds. -/
def Fed (h : Handler (Call O) σ) (K : DigestKind O κ Op) (bytes : Nat) :
    List (Nat × Nat) → NativeState (StreamHandle κ Op) σ → NativeState (StreamHandle κ Op) σ → Prop
  | [], r, r' => r' = r
  | c :: cs, r, r' => ∃ r₁ : NativeState (StreamHandle κ Op) σ,
    (streamUpdate K.ops r.context (bytes + c.1) c.2).exec h r.world r.env =
      ⟨(.ok, r₁.context), r₁.world, r₁.env⟩ ∧ Fed h K bytes cs r₁ r'

theorem digestOver_fed {K : DigestKind O κ Op} {ptr bytes : Nat} {cs : List (Nat × Nat)}
    {hd hd' : Option (StreamHandle κ Op)} {status : ZucStatus}
    (hrun : (digestOver K ptr bytes cs hd H).exec h w s = ⟨(some (status, hd'), H'), w', s'⟩)
    (hok : status = .ok) : Fed h K bytes cs ⟨hd, w, s⟩ ⟨hd', w', s'⟩ := by
  subst hok
  induction cs generalizing hd H w s with
  | nil =>
    rw [digestOver] at hrun
    obtain ⟨hvalue, -, rfl, rfl⟩ := exec_pure_some hrun
    rw [(Prod.mk.inj hvalue).2]
    rfl
  | cons c cs ih =>
    rw [digestOver] at hrun
    obtain ⟨⟨status₁, hd₁⟩, H₁, w₁, s₁, hnative, hrest⟩ := Entry.exec_bind_some hrun
    obtain ⟨_, H₂, w₂, s₂, haddress, hrest₁⟩ := Entry.exec_bind_some hrest
    obtain ⟨_, H₃, w₃, s₃, hcheck, hrest₂⟩ := Entry.exec_bind_some hrest₁
    obtain ⟨hcall, -⟩ := exec_native_some hnative
    obtain ⟨-, rfl, rfl⟩ := exec_setAddress_some haddress
    obtain ⟨-, rfl, rfl⟩ := exec_jumpPoint_some hcheck
    by_cases hst : status₁ = .ok
    · rw [if_neg (by simpa using hst)] at hrest₂
      refine ⟨⟨hd₁, w₃, s₃⟩, ?_, ih hrest₂⟩
      rw [hcall, hst]
    · -- a failed chunk is what the loop ends with
      rw [if_pos hst] at hrest₂
      obtain ⟨hvalue, -⟩ := exec_pure_some hrest₂
      exact absurd (Prod.mk.inj hvalue).1.symm hst

/-- What the end of a digest returns: its value, where the native finish has succeeded. -/
theorem digestFinish_outcome {K : DigestKind O κ Op} {ptr : Nat} {alg : ZucAlg}
    {hd : Option (StreamHandle κ Op)} {r : NativeResult}
    (hrun : (digestFinish K ptr alg hd H).exec h w s = ⟨(some r, H'), w', s'⟩) :
    r.status ≠ .ok ∧ r.value = .null ∨
      ∃ out s₁ hd' w₂ s₂, h _ (.allocRaw (zucAlgSize alg)) s = (out, s₁) ∧
        (streamFinish K.ops hd out (zucAlgSize alg) (some 0)).exec h w s₁ =
          ⟨(.ok, hd', some (zucAlgSize alg)), w₂, s₂⟩ ∧ r = ⟨.ok, .raw out (zucAlgSize alg) []⟩ := by
  unfold digestFinish at hrun
  obtain ⟨out, H₁, w₁, s₁, hvector, hrest⟩ := Entry.exec_bind_some hrun
  obtain ⟨⟨status, hd', len⟩, H₂, w₂, s₂, hnative, hrest₁⟩ := Entry.exec_bind_some hrest
  obtain ⟨_, H₃, w₃, s₃, -, hrest₂⟩ := Entry.exec_bind_some hrest₁
  obtain ⟨_, H₄, w₄, s₄, -, hrest₃⟩ := Entry.exec_bind_some hrest₂
  obtain ⟨hout, rfl⟩ := exec_allocVector_some hvector
  obtain ⟨hcall, -⟩ := exec_native_some hnative
  obtain ⟨rfl, -, -⟩ := exec_result_some hrest₃
  dsimp only
  by_cases hst : status = .ok
  · by_cases hlen : len = some (zucAlgSize alg)
    · rw [if_neg fun hbad => hbad.2 hlen, hst]
      refine .inr ⟨out, s₁, hd', w₂, s₂, hout, ?_, rfl⟩
      rw [hcall, hst, hlen]
    · rw [if_pos ⟨hst, hlen⟩]
      exact .inl ⟨by simp [nativeResult], rfl⟩
  · rw [if_neg fun hbad => hst hbad.1]
    exact .inl ⟨hst, if_neg hst⟩

/-- Every native call of a one-shot digest has succeeded: the creation of the context, each
update, and the finish, which wrote to the vector that is returned. -/
def DigestRun (h : Handler (Call O) σ) (K : DigestKind O κ Op)
    (new : Adapter O (ZucStatus × Option (StreamHandle κ Op))) (alg : ZucAlg) (data : Sexp)
    (w : World) (s : σ) (r : NativeResult) : Prop :=
  ∃ (r₀ r₁ : NativeState (StreamHandle κ Op) σ) (out : Nat) (s₂ : σ)
    (hd : Option (StreamHandle κ Op)) (w₃ : World) (s₃ : σ),
    new.exec h w s = ⟨(.ok, r₀.context), r₀.world, r₀.env⟩ ∧
    Fed h K data.RAW (slices data.XLENGTH 0) r₀ r₁ ∧
    h _ (.allocRaw (zucAlgSize alg)) r₁.env = (out, s₂) ∧
    (streamFinish K.ops r₁.context out (zucAlgSize alg) (some 0)).exec h r₁.world s₂ =
      ⟨(.ok, hd, some (zucAlgSize alg)), w₃, s₃⟩ ∧
    r = ⟨.ok, .raw out (zucAlgSize alg) []⟩

theorem digestCall_outcome {K : DigestKind O κ Op}
    {new : Adapter O (ZucStatus × Option (StreamHandle κ Op))} {alg : ZucAlg} {data : Sexp}
    {r : NativeResult}
    (hrun : (digestCall K new alg data H).exec h w s = ⟨(some r, H'), w', s'⟩) :
    r.status ≠ .ok ∧ r.value = .null ∨ DigestRun h K new alg data w s r := by
  unfold digestCall at hrun
  obtain ⟨ptr, H₁, w₁, s₁, howner, hrest⟩ := Entry.exec_bind_some hrun
  obtain ⟨⟨status, hd⟩, H₂, w₂, s₂, hnative, hrest₁⟩ := Entry.exec_bind_some hrest
  obtain ⟨rfl, rfl⟩ := exec_ownerPtr_some howner
  obtain ⟨hcall, -⟩ := exec_native_some hnative
  by_cases hst : status = .ok
  · rw [if_neg (by simpa using hst)] at hrest₁
    obtain ⟨_, H₃, w₃, s₃, haddress, hrest₂⟩ := Entry.exec_bind_some hrest₁
    obtain ⟨⟨status', hd'⟩, H₄, w₄, s₄, hloop, hrest₃⟩ := Entry.exec_bind_some hrest₂
    obtain ⟨-, rfl, rfl⟩ := exec_setAddress_some haddress
    -- the loop is a pass over the list of chunks
    rw [digestLoop_eq_over] at hloop
    by_cases hst' : status' = .ok
    · rw [if_neg (by simpa using hst')] at hrest₃
      have hfed := digestOver_fed hloop hst'
      rcases digestFinish_outcome hrest₃ with hfail | ⟨out, s₅, hd₂, w₆, s₆, hout, hfinish, hr⟩
      · exact .inl hfail
      · refine .inr ⟨⟨hd, w₃, s₃⟩, ⟨hd', w₄, s₄⟩, out, s₅, hd₂, w₆, s₆, ?_, hfed, hout, hfinish, hr⟩
        rw [hcall, hst]
    · rw [if_pos hst'] at hrest₃
      obtain ⟨_, H₅, w₅, s₅, -, hrest₄⟩ := Entry.exec_bind_some hrest₃
      obtain ⟨rfl, -, -⟩ := exec_result_some hrest₄
      exact .inl ⟨hst', if_neg hst'⟩
  · rw [if_pos hst] at hrest₁
    obtain ⟨rfl, -, -⟩ := exec_result_some hrest₁
    exact .inl ⟨hst, if_neg hst⟩

/-! ### CBC -/

/-- The pass of `cbcLoop` over some slices. -/
def cbcOver (dir : Direction) (ptr bytes out : Nat) :
    List (Nat × Nat) → ZucStatus → Option ZucAes → Entry O ZucStatus
  | [], status, _ => return status
  | c :: cs, status, aes =>
    if status ≠ .ok then
      return status
    else do
      let r ← native (zucAesCbc dir aes (bytes + c.1) c.2 (out + c.1))
      setAddress ptr (r.2.map .aes)
      checkUserInterrupt
      cbcOver dir ptr bytes out cs r.1 r.2

theorem cbcLoop_eq_over (dir : Direction) (ptr bytes out total offset : Nat) (status : ZucStatus)
    (aes : Option ZucAes) :
    (cbcLoop dir ptr bytes out total offset status aes : Entry O _) =
      cbcOver dir ptr bytes out (slices total offset) status aes := by
  revert status aes
  refine chunk_induction total (P := fun offset => ∀ status aes,
    (cbcLoop dir ptr bytes out total offset status aes : Entry O _) =
      cbcOver dir ptr bytes out (slices total offset) status aes) ?_ ?_ offset
  · intro offset hdone status aes
    rw [cbcLoop, if_neg hdone, slices_of_ge hdone, cbcOver]
  · intro offset hless ih status aes
    rw [cbcLoop, if_pos hless, slices_of_lt hless, cbcOver]
    simp only [ih]

/-- The passes of CBC over some slices, each of which succeeds and leaves the next its
chaining value. -/
def Chained (h : Handler (Call O) σ) (dir : Direction) (bytes out : Nat) :
    List (Nat × Nat) → NativeState ZucAes σ → NativeState ZucAes σ → Prop
  | [], r, r' => r'.world = r.world ∧ r'.env = r.env
  | c :: cs, r, r' => ∃ r₁ : NativeState ZucAes σ,
    (zucAesCbc dir r.context (bytes + c.1) c.2 (out + c.1)).exec h r.world r.env =
      ⟨(.ok, r₁.context), r₁.world, r₁.env⟩ ∧ Chained h dir bytes out cs r₁ r'

theorem cbcOver_chained {dir : Direction} {ptr bytes out : Nat} {cs : List (Nat × Nat)}
    {status status' : ZucStatus} {aes : Option ZucAes}
    (hrun : (cbcOver dir ptr bytes out cs status aes H).exec h w s = ⟨(some status', H'), w', s'⟩)
    (hok : status' = .ok) :
    status = .ok ∧ Chained h dir bytes out cs ⟨aes, w, s⟩ ⟨none, w', s'⟩ := by
  subst hok
  induction cs generalizing status aes H w s with
  | nil =>
    rw [cbcOver] at hrun
    obtain ⟨hstatus, -, rfl, rfl⟩ := exec_pure_some hrun
    exact ⟨hstatus.symm, rfl, rfl⟩
  | cons c cs ih =>
    rw [cbcOver] at hrun
    by_cases hst : status = .ok
    · rw [if_neg (by simpa using hst)] at hrun
      obtain ⟨⟨status₁, aes₁⟩, H₁, w₁, s₁, hnative, hrest⟩ := Entry.exec_bind_some hrun
      obtain ⟨_, H₂, w₂, s₂, haddress, hrest₁⟩ := Entry.exec_bind_some hrest
      obtain ⟨_, H₃, w₃, s₃, hcheck, hrest₂⟩ := Entry.exec_bind_some hrest₁
      obtain ⟨hcall, -⟩ := exec_native_some hnative
      obtain ⟨-, rfl, rfl⟩ := exec_setAddress_some haddress
      obtain ⟨-, rfl, rfl⟩ := exec_jumpPoint_some hcheck
      obtain ⟨hst₁, hchained⟩ := ih hrest₂
      refine ⟨hst, ⟨aes₁, w₃, s₃⟩, ?_, hchained⟩
      rw [hcall, ← hst₁]
    · rw [if_pos hst] at hrun
      obtain ⟨hstatus, -⟩ := exec_pure_some hrun
      exact absurd hstatus.symm hst

/-- Every native call of `zucrypt_aes_cbc` has succeeded: the creation of the context, the
setting of the chaining value, and each pass, into the vector that is returned. -/
def CbcRun (h : Handler (Call O) σ) (dir : Direction) (data key iv : Sexp) (w : World) (s : σ)
    (r : NativeResult) : Prop :=
  ∃ (r₀ r₁ r₂ : NativeState ZucAes σ) (out : Nat) (s₂ : σ),
    (zucAesNew key.RAW key.XLENGTH true).exec h w s = ⟨(.ok, r₀.context), r₀.world, r₀.env⟩ ∧
    (zucAesCbcSetState r₀.context iv.RAW).exec h r₀.world r₀.env =
      ⟨(.ok, r₁.context), r₁.world, r₁.env⟩ ∧
    h _ (.allocRaw data.XLENGTH) r₁.env = (out, s₂) ∧
    Chained h dir data.RAW out (slices data.XLENGTH 0) ⟨r₁.context, r₁.world, s₂⟩ r₂ ∧
    r = ⟨.ok, .raw out data.XLENGTH []⟩

theorem zucryptAesCbc_outcome {data key iv : Sexp} {encrypt : Bool} {r : NativeResult}
    (hrun : (zucryptAesCbc data key iv encrypt H).exec h w s = ⟨(some r, H'), w', s'⟩) :
    r.status ≠ .ok ∧ r.value = .null ∨
      CbcRun h (if encrypt then .encrypt else .decrypt) data key iv w s r := by
  unfold zucryptAesCbc at hrun
  obtain ⟨ptr, H₁, w₁, s₁, howner, hrest⟩ := Entry.exec_bind_some hrun
  obtain ⟨⟨status, aes⟩, H₂, w₂, s₂, hnative, hrest₁⟩ := Entry.exec_bind_some hrest
  obtain ⟨rfl, rfl⟩ := exec_ownerPtr_some howner
  obtain ⟨hcall, -⟩ := exec_native_some hnative
  by_cases hst : status = .ok
  · rw [if_neg (by simpa using hst)] at hrest₁
    obtain ⟨_, H₃, w₃, s₃, haddress, hrest₂⟩ := Entry.exec_bind_some hrest₁
    obtain ⟨⟨status₁, aes₁⟩, H₄, w₄, s₄, hset, hrest₃⟩ := Entry.exec_bind_some hrest₂
    obtain ⟨_, H₅, w₅, s₅, haddress₁, hrest₄⟩ := Entry.exec_bind_some hrest₃
    obtain ⟨out, H₆, w₆, s₆, hvector, hrest₅⟩ := Entry.exec_bind_some hrest₄
    obtain ⟨status₂, H₇, w₇, s₇, hloop, hrest₆⟩ := Entry.exec_bind_some hrest₅
    obtain ⟨_, H₈, w₈, s₈, -, hrest₇⟩ := Entry.exec_bind_some hrest₆
    obtain ⟨rfl, -, -⟩ := exec_result_some hrest₇
    obtain ⟨-, rfl, rfl⟩ := exec_setAddress_some haddress
    obtain ⟨hsetCall, -⟩ := exec_native_some hset
    obtain ⟨-, rfl, rfl⟩ := exec_setAddress_some haddress₁
    obtain ⟨hout, rfl⟩ := exec_allocVector_some hvector
    rw [cbcLoop_eq_over] at hloop
    -- a chunk that fails ends the call without a value
    by_cases hst₂ : status₂ = .ok
    · obtain ⟨hst₁, hchained⟩ := cbcOver_chained hloop hst₂
      refine .inr ⟨⟨aes, w₃, s₃⟩, ⟨aes₁, w₆, s₅⟩, ⟨none, w₇, s₇⟩, out, s₆, ?_, ?_, hout, hchained, ?_⟩
      · rw [hcall, hst]
      · have hset₁ : status₁ = .ok := hst₁
        rw [hsetCall, hset₁]
      · rw [hst₂]
        rfl
    · exact .inl ⟨hst₂, if_neg hst₂⟩
  · rw [if_pos hst] at hrest₁
    obtain ⟨rfl, -, -⟩ := exec_result_some hrest₁
    exact .inl ⟨hst, if_neg hst⟩

/-! ### Chunks of a connection -/

/-- R's heap, with the state of the library. -/
structure HeapState (O : Objects) (σ : Type) where
  heap : RHeap O
  world : World
  env : σ

/-- The updates of a stream, one for each chunk in a vector of its own; each succeeds. -/
def FedChunks (h : Handler (Call O) σ) (stream : Nat) :
    List (List Byte) → HeapState O σ → HeapState O σ → Prop
  | [], r, r' => r' = r
  | chunk :: chunks, r, r' => ∃ (x : Sexp) (w : World) (s : σ) (r₁ : HeapState O σ),
    (newRaw chunk).exec h r.world r.env = ⟨x, w, s⟩ ∧
    (zucryptStreamUpdate stream x r.heap).exec h w s =
      ⟨(some .ok, r₁.heap), r₁.world, r₁.env⟩ ∧ FedChunks h stream chunks r₁ r'

theorem feedLoop_fed {i stream : Nat} {algorithm : String} {chunks : List (List Byte)}
    (hrun : (feedLoop i algorithm stream H chunks st).exec h w s = ⟨(.ok H', st'), w', s'⟩) :
    FedChunks h stream chunks ⟨H, w, s⟩ ⟨H', w', s'⟩ := by
  induction chunks generalizing H st w s with
  | nil =>
    obtain ⟨hvalue, rfl, rfl⟩ := Outcome.mk.inj hrun
    obtain rfl : H = H' := Except.ok.inj (Prod.mk.inj hvalue).1
    rfl
  | cons chunk chunks ih =>
    rw [feedLoop] at hrun
    obtain ⟨_, st₁, w₁, s₁, hchange, hrest⟩ := RFun.exec_bind_ok hrun
    obtain ⟨x, st₂, w₂, s₂, hnew, hrest₁⟩ := RFun.exec_bind_ok hrest
    obtain ⟨⟨status, H₁⟩, st₃, w₃, s₃, hupdate, hrest₂⟩ := RFun.exec_bind_ok hrest₁
    obtain ⟨rfl, rfl, rfl⟩ := RFun.exec_change_ok hchange
    obtain ⟨hvector, -⟩ := RFun.exec_native_ok hnew
    obtain ⟨hfed, -⟩ := exec_entry_ok hupdate
    by_cases hst : status = .ok
    · subst hst
      rw [if_neg (by simp)] at hrest₂
      exact ⟨x, w₂, s₂, ⟨H₁, w₃, s₃⟩, hvector, hfed, ih hrest₂⟩
    · rw [if_pos hst] at hrest₂
      exact (RFun.exec_raise_ok hrest₂).elim

/-- Every native call on a stream has succeeded: its creation, the update with each chunk of
the connection, and the finish.  The last read has found the connection's end. -/
def StreamRun (h : Handler (Call O) σ) (algorithm : String) (key : Option Sexp) (c : Connection)
    (H : RHeap O) (w : World) (s : σ) (value : Sexp) : Prop :=
  c.ending = .complete ∧ ∃ (stream : Nat) (r₀ r₁ r₂ : HeapState O σ),
    (digestStream algorithm key H).exec h w s = ⟨(some (.ok, some stream), r₀.heap), r₀.world, r₀.env⟩ ∧
    FedChunks h stream c.chunks r₀ r₁ ∧
    (zucryptStreamFinish stream r₁.heap).exec h r₁.world r₁.env =
      ⟨(some ⟨.ok, value⟩, r₂.heap), r₂.world, r₂.env⟩

theorem digestOpen_run {i : Nat} {algorithm : String} {key : Option Sexp} {value : Sexp}
    (hrun : (digestOpen i algorithm key H st).exec h w s = ⟨(.ok value, st'), w', s'⟩) :
    StreamRun h algorithm key (st.connection i) H w s value := by
  unfold digestOpen at hrun
  obtain ⟨c, st₁, w₁, s₁, hlook, hrest⟩ := RFun.exec_bind_ok hrun
  obtain ⟨rfl, rfl, rfl, rfl⟩ := RFun.exec_look_ok hlook
  split at hrest
  · exact (RFun.exec_raise_ok hrest).elim
  · obtain ⟨⟨⟨status, ptr⟩, H₁⟩, st₂, w₂, s₂, hnew, hrest₁⟩ := RFun.exec_bind_ok hrest
    obtain ⟨hstream, rfl⟩ := exec_entry_ok hnew
    dsimp only at hrest₁ hstream
    -- every branch but one raises, and this run did not
    by_cases hst : status = .ok
    · subst hst
      cases ptr with
      | none => exact (RFun.exec_raise_ok hrest₁).elim
      | some stream =>
        obtain ⟨H₂, st₃, w₃, s₃, hfeed, hrest₂⟩ := RFun.exec_bind_ok hrest₁
        have hfed := feedLoop_fed hfeed
        cases hending : (st₂.connection i).ending with
        | broken message =>
          rw [hending] at hrest₂
          exact (RFun.exec_raise_ok hrest₂).elim
        | pending rest =>
          rw [hending] at hrest₂
          dsimp only at hrest₂
          rw [if_pos (Connection.isIncomplete_pending hending)] at hrest₂
          exact (RFun.exec_raise_ok hrest₂).elim
        | complete =>
          rw [hending] at hrest₂
          dsimp only at hrest₂
          rw [if_neg (Connection.isIncomplete_complete hending)] at hrest₂
          obtain ⟨⟨res, H₃⟩, st₄, w₄, s₄, hfinish, hrest₃⟩ := RFun.exec_bind_ok hrest₂
          obtain ⟨hvalue, rfl⟩ := exec_entry_ok hfinish
          by_cases hst : res.status = .ok
          · rw [if_neg (by simpa using hst)] at hrest₃
            obtain ⟨rfl, -⟩ := RFun.exec_pure_ok hrest₃
            refine ⟨hending, stream, ⟨H₁, w₂, s₂⟩, ⟨H₂, w₃, s₃⟩, ⟨H₃, w₄, s₄⟩, hstream, hfed, ?_⟩
            rw [hvalue, ← hst]
          · rw [if_pos hst] at hrest₃
            exact (RFun.exec_raise_ok hrest₃).elim
    · have hraise : ∃ c, (RFun.raise c st₂ : Adapter O (Except Condition Sexp × RState)).exec h w₂ s₂ =
          ⟨(.ok value, st'), w', s'⟩ := by
        refine ⟨abortNative status (some algorithm), ?_⟩
        cases status with
        | ok => exact absurd rfl hst
        | _ => exact hrest₁
      exact hraise.elim fun c hc => (RFun.exec_raise_ok hc).elim

theorem digestConnection_run {i : Nat} {algorithm : String} {key : Option Sexp} {value : Sexp}
    (hrun : (digestConnection i algorithm key H st).exec h w s = ⟨(.ok value, st'), w', s'⟩) :
    StreamRun h algorithm key (st.connection i) H w s value := by
  unfold digestConnection at hrun
  obtain ⟨c, st₁, w₁, s₁, hlook, hrest⟩ := RFun.exec_bind_ok hrun
  obtain ⟨rfl, rfl, rfl, rfl⟩ := RFun.exec_look_ok hlook
  cases hinvalid : (st₁.connection i).invalid with
  | some message =>
    rw [hinvalid] at hrest
    exact (RFun.exec_raise_ok hrest).elim
  | none =>
    rw [hinvalid] at hrest
    dsimp only at hrest
    by_cases hopen : (st₁.connection i).isOpen = true
    · rw [if_pos hopen] at hrest
      exact digestOpen_run hrest
    · rw [if_neg hopen] at hrest
      obtain ⟨st₂, hbody, -⟩ := RFun.exec_onExit_ok hrest
      cases hopening : (st₁.connection i).opening with
      | warns message | fails message =>
        rw [hopening] at hbody
        exact (RFun.exec_raise_ok hbody).elim
      | works =>
        rw [hopening] at hbody
        obtain ⟨_, st₃, w₃, s₃, hchange, hbody₁⟩ := RFun.exec_bind_ok hbody
        obtain ⟨rfl, rfl, rfl⟩ := RFun.exec_change_ok hchange
        have hdigest := digestOpen_run hbody₁
        rwa [RState.connection_update] at hdigest

end Zucrypt
