import Zucrypt.ChunkedFailures
import Zucrypt.CryptSignatures

/-! # Connections, read to their end and closed

What `key_input` makes of a connection is what the connection yields, up to the read that finds
nothing.  Whether that was the end, `key_input` does not ask: `digest_connection` does.

Whatever happens, a connection that a function opened is closed when it is left, and one that was
open stays open.  `RFun.Leaves` says so of a function, and holds of one that opens a connection and
closes it again on exit, whether by returning or by an error (`leavesOpen_keyInput`).

`exec_keyInput_connection` is the run of the loop: on a connection that can be read, binary and not
broken (`Usable`), it returns the chunks before the first empty one. -/
namespace Zucrypt
open Effects ByteMemory

variable {O : Objects} {σ α β : Type} {h : Handler (Call O) σ} {w w' : World} {s s' : σ}
  {st st' : RState} {i : Nat}

/-! ### What is left open -/

/-- A function leaves the connections, apart from those in `I`, open or not as they were. -/
structure RFun.Leaves (I : Nat → Prop) (p : RFun O α) : Prop where
  same : ∀ {σ : Type} (h : Handler (Call O) σ) (w : World) (s : σ) (st : RState) (j : Nat), ¬ I j →
    (((p st).exec h w s).value.2.connection j).isOpen = (st.connection j).isOpen

/-- It leaves them all so. -/
def RFun.LeavesOpen (p : RFun O α) : Prop := p.Leaves fun _ => False

namespace RFun

variable {I : Nat → Prop}

theorem leaves_pure (a : α) : (pure a : RFun O α).Leaves I := ⟨fun _ _ _ _ _ _ => rfl⟩

theorem leaves_raise (c : Condition) : (raise c : RFun O α).Leaves I := ⟨fun _ _ _ _ _ _ => rfl⟩

theorem leaves_check (e : Except Condition α) : (check e : RFun O α).Leaves I :=
  ⟨fun _ _ _ _ _ _ => rfl⟩

theorem leaves_look (f : RState → α) : (look f : RFun O α).Leaves I := ⟨fun _ _ _ _ _ _ => rfl⟩

theorem leaves_native (p : Adapter O α) : (native p).Leaves I := by
  refine ⟨fun h w s st j _ => ?_⟩
  unfold native
  rw [Proc.exec_bind]
  rfl

theorem leaves_entry (p : Entry O α) (H : RHeap O) : (entry p H).Leaves I := by
  refine ⟨fun h w s st j _ => ?_⟩
  unfold entry
  rw [Proc.exec_bind]
  split <;> rfl

theorem leaves_update (hI : I i) (c : Connection) :
    (change (O := O) (·.update i c)).Leaves I := by
  refine ⟨fun h w s st j hj => ?_⟩
  have hne : j ≠ i := fun heq => hj (by rwa [heq])
  exact congrArg Connection.isOpen (st.connection_update_ne hne c)

/-- A change that keeps a connection open or not leaves them all so. -/
theorem leaves_same {f : Connection → Connection} (hf : ∀ c, (f c).isOpen = c.isOpen) :
    (change (O := O) fun st => st.update i (f (st.connection i))).Leaves I := by
  refine ⟨fun h w s st j _ => ?_⟩
  show ((st.update i (f (st.connection i))).connection j).isOpen = _
  by_cases hj : j = i
  · rw [hj, RState.connection_update, hf]
  · rw [RState.connection_update_ne _ hj]

theorem Leaves.bind {p : RFun O α} {f : α → RFun O β} (hp : p.Leaves I) (hf : ∀ a, (f a).Leaves I) :
    (p >>= f).Leaves I := by
  refine ⟨fun h w s st j hj => ?_⟩
  show (((RFun.seq p f st).exec h w s).value.2.connection j).isOpen = _
  have hfirst := hp.same h w s st j hj
  unfold RFun.seq
  rw [Proc.exec_bind]
  rcases hrun : (p st).exec h w s with ⟨⟨r, st₁⟩, w₁, s₁⟩
  rw [hrun] at hfirst
  cases r with
  | error c => exact hfirst
  | ok a => exact ((hf a).same h w₁ s₁ st₁ j hj).trans hfirst

theorem Leaves.ite {c : Prop} [Decidable c] {p q : RFun O α} (hp : p.Leaves I) (hq : q.Leaves I) :
    (if c then p else q).Leaves I := by
  split
  · exact hp
  · exact hq

/-- What is closed on exit was not open before. -/
theorem leavesOpen_onExit {p : RFun O α} {f : Connection → Connection}
    (hp : p.Leaves (· = i)) (hf : ∀ c, (f c).isOpen = false) {σ : Type} (h : Handler (Call O) σ)
    (w : World) (s : σ) (st : RState) (hclosed : (st.connection i).isOpen = false) (j : Nat) :
    (((onExit p (fun st => st.update i (f (st.connection i))) st).exec h w s).value.2.connection j).isOpen =
      (st.connection j).isOpen := by
  unfold onExit
  rw [Proc.exec_bind]
  show ((((p st).exec h w s).value.2.update i _).connection j).isOpen = _
  by_cases hj : j = i
  · rw [hj, RState.connection_update, hf, hclosed]
  · rw [RState.connection_update_ne _ hj]
    exact hp.same h w s st j hj

end RFun

open RFun

/-! ### `digest_connection` -/

theorem leaves_feedLoop (i : Nat) (algorithm : String) (stream : Nat) (H : RHeap O)
    (chunks : List (List Byte)) {I : Nat → Prop} : (feedLoop i algorithm stream H chunks).Leaves I := by
  induction chunks generalizing H with
  | nil => exact leaves_pure H
  | cons chunk chunks ih =>
    rw [feedLoop]
    refine (leaves_same (f := Connection.advanced) fun _ => rfl).bind fun _ => ?_
    refine (leaves_native _).bind fun x => (leaves_entry _ _).bind fun r => ?_
    exact (leaves_raise _).ite (ih r.2)

theorem leaves_digestOpen (i : Nat) (algorithm : String) (key : Option Sexp) (H : RHeap O)
    {I : Nat → Prop} : (digestOpen i algorithm key H).Leaves I := by
  refine (leaves_look _).bind fun c => (leaves_raise _).ite ?_
  refine (leaves_entry _ _).bind fun res => ?_
  obtain ⟨⟨status, ptr⟩, H₁⟩ := res
  cases status with
  | ok =>
    cases ptr with
    | none => exact leaves_raise _
    | some stream =>
      refine (leaves_feedLoop _ _ _ _ _).bind fun H₂ => ?_
      cases c.ending with
      | broken message => exact leaves_raise _
      | pending _ | complete =>
        refine (leaves_raise _).ite ?_
        exact (leaves_entry _ _).bind fun res => (leaves_raise _).ite (leaves_pure _)
  | _ => exact leaves_raise _

theorem leavesOpen_digestConnection (i : Nat) (algorithm : String) (key : Option Sexp) (H : RHeap O) :
    (digestConnection i algorithm key H).LeavesOpen := by
  refine ⟨fun h w s st j _ => ?_⟩
  unfold digestConnection
  rw [RFun.look_bind]
  cases (st.connection i).invalid with
  | some message => rfl
  | none =>
    dsimp only
    by_cases hopen : (st.connection i).isOpen = true
    · rw [if_pos hopen]
      exact (leaves_digestOpen i algorithm key H (I := fun _ => False)).same h w s st j not_false
    · rw [if_neg hopen]
      refine leavesOpen_onExit ?_ (fun _ => rfl) h w s st (by simpa using hopen) j
      cases (st.connection i).opening with
      | warns message => exact leaves_raise _
      | fails message => exact leaves_raise _
      | works =>
        exact (leaves_update (I := (· = i)) rfl _).bind fun _ => leaves_digestOpen i algorithm key H

/-! ### `key_input` -/

/-- A connection that `key_input` returns the bytes of. -/
structure Connection.Usable (c : Connection) : Prop where
  valid : c.invalid = none
  opens : c.isOpen = true ∨ ∀ message, c.opening ≠ .fails message
  canRead : c.canRead = true
  binary : c.binary = true
  notBroken : ∀ message, c.ending ≠ .broken message

/-- Nothing is to come of it that has not been read. -/
def Connection.Whole (c : Connection) : Prop := c.chunks.flatten = c.contents

theorem readLoop_eq (out : List Byte) (chunks : List (List Byte)) :
    readLoop out chunks = out ++ chunks.flatten := by
  induction chunks generalizing out with
  | nil => exact (List.append_nil out).symm
  | cons chunk chunks ih => rw [readLoop, ih, List.flatten_cons, List.append_assoc]

/-- `readConnection`, of the connection as it is. -/
theorem readConnection_apply (i : Nat) (st : RState) :
    (readConnection i : RFun O Sexp) st =
      if (st.connection i).canRead = false then
        RFun.raise (rError "cannot read from this connection") st
      else if (st.connection i).binary = false then
        RFun.raise (rError "can only read from a binary connection") st
      else
        (match (st.connection i).ending with
        | .broken message => RFun.raise (rError message)
        | _ => RFun.native (newRaw (readLoop [] (st.connection i).chunks)) : RFun O Sexp)
          (st.update i (st.connection i).drained) := by
  show (if (st.connection i).canRead = false then _ else _ : RFun O Sexp) st = _
  split
  · rfl
  · show (if (st.connection i).binary = false then _ else _ : RFun O Sexp) st = _
    split
    · rfl
    · rfl

/-- Reading an open connection returns what it yields, in a new vector. -/
theorem exec_readConnection (hread : (st.connection i).canRead = true)
    (hbinary : (st.connection i).binary = true)
    (hending : ∀ message, (st.connection i).ending ≠ .broken message) {x : Sexp}
    (hx : (newRaw (st.connection i).chunks.flatten).exec h w s = ⟨x, w', s'⟩) :
    (readConnection i st).exec h w s = ⟨(.ok x, st.update i (st.connection i).drained), w', s'⟩ := by
  have hrun : (readConnection i st : Adapter O (Except Condition Sexp × RState)) =
      RFun.native (newRaw (st.connection i).chunks.flatten) (st.update i (st.connection i).drained) := by
    rw [readConnection_apply, if_neg (by simp [hread]), if_neg (by simp [hbinary]), readLoop_eq,
      List.nil_append]
    cases hend : (st.connection i).ending with
    | broken message => exact absurd hend (hending message)
    | complete => rfl
    | pending rest => rfl
  rw [hrun]
  unfold RFun.native
  rw [Proc.exec_bind, hx]
  rfl

theorem readConnection_ok {x : Sexp}
    (hrun : (readConnection i st).exec h w s = ⟨(.ok x, st'), w', s'⟩) :
    ((st.connection i).canRead = true ∧ (st.connection i).binary = true ∧
      ∀ message, (st.connection i).ending ≠ .broken message) ∧
    (newRaw (st.connection i).chunks.flatten).exec h w s = ⟨x, w', s'⟩ ∧
      st' = st.update i (st.connection i).drained := by
  unfold readConnection at hrun
  obtain ⟨c, st₁, w₁, s₁, hlook, hrest⟩ := RFun.exec_bind_ok hrun
  obtain ⟨rfl, rfl, rfl, rfl⟩ := RFun.exec_look_ok hlook
  by_cases hread : (st₁.connection i).canRead = false
  · rw [if_pos hread] at hrest
    exact (RFun.exec_raise_ok hrest).elim
  · rw [if_neg hread] at hrest
    by_cases hbinary : (st₁.connection i).binary = false
    · rw [if_pos hbinary] at hrest
      exact (RFun.exec_raise_ok hrest).elim
    · rw [if_neg hbinary] at hrest
      obtain ⟨_, st₂, w₂, s₂, hchange, hrest₁⟩ := RFun.exec_bind_ok hrest
      obtain ⟨rfl, rfl, rfl⟩ := RFun.exec_change_ok hchange
      -- the loop reads until nothing comes, and so all of it
      rw [readLoop_eq, List.nil_append] at hrest₁
      have hread : (st₁.connection i).canRead = true := by simpa using hread
      have hbinary : (st₁.connection i).binary = true := by simpa using hbinary
      cases hend : (st₁.connection i).ending with
      | broken message =>
        rw [hend] at hrest₁
        exact (RFun.exec_raise_ok hrest₁).elim
      | complete | pending rest =>
        rw [hend] at hrest₁
        obtain ⟨hx, hst⟩ := RFun.exec_native_ok hrest₁
        exact ⟨⟨hread, hbinary, fun _ => by simp⟩, hx, hst⟩

theorem leaves_readConnection (i : Nat) {I : Nat → Prop} : (readConnection i : RFun O Sexp).Leaves I := by
  refine ⟨fun h w s st j _ => ?_⟩
  have hdrained : ((st.update i (st.connection i).drained).connection j).isOpen =
      (st.connection j).isOpen := by
    by_cases hj : j = i
    · rw [hj, RState.connection_update]
      rfl
    · rw [RState.connection_update_ne _ hj]
  rw [readConnection_apply]
  split
  · rfl
  · split
    · rfl
    · refine Eq.trans ?_ hdrained
      have hnative := (leaves_native (O := O) (newRaw (readLoop [] (st.connection i).chunks))
        (I := fun _ => False)).same h w s (st.update i (st.connection i).drained) j not_false
      cases (st.connection i).ending with
      | broken message => rfl
      | complete => exact hnative
      | pending rest => exact hnative

/-- What `key_input` returns of a connection is what that yields, in a new vector; after that
there is nothing left of the connection, or it is closed. -/
theorem keyInput_connection_ok {arg : String} {x : Sexp}
    (hrun : (keyInput (.connection i) arg st).exec h w s = ⟨(.ok x, st'), w', s'⟩) :
    (st.connection i).Usable ∧ (newRaw (st.connection i).chunks.flatten).exec h w s = ⟨x, w', s'⟩ ∧
      st' = st.update i (if (st.connection i).isOpen then (st.connection i).drained
        else (st.connection i).opened.drained.closed) := by
  unfold keyInput at hrun
  obtain ⟨c, st₁, w₁, s₁, hlook, hrest⟩ := RFun.exec_bind_ok hrun
  obtain ⟨rfl, rfl, rfl, rfl⟩ := RFun.exec_look_ok hlook
  cases hinvalid : (st₁.connection i).invalid with
  | some message =>
    rw [hinvalid] at hrest
    exact (RFun.exec_raise_ok hrest).elim
  | none =>
    rw [hinvalid] at hrest
    dsimp only at hrest
    -- one that is not open is opened for this, and closed on exit
    by_cases hopen : (st₁.connection i).isOpen = true
    · rw [if_pos hopen] at hrest
      obtain ⟨⟨hread, hbinary, hending⟩, hx, hst⟩ := readConnection_ok hrest
      refine ⟨⟨hinvalid, .inl hopen, hread, hbinary, hending⟩, hx, ?_⟩
      rw [if_pos hopen, hst]
    · rw [if_neg hopen] at hrest ⊢
      have hopened : (∀ message, (st₁.connection i).opening ≠ .fails message) ∧
          ((do
            RFun.change (·.update i (st₁.connection i).opened)
            RFun.onExit (readConnection i) fun st => st.update i (st.connection i).closed :
              RFun O Sexp) st₁).exec h w₁ s₁ = ⟨(.ok x, st'), w', s'⟩ := by
        cases hopening : (st₁.connection i).opening with
        | fails message =>
          rw [hopening] at hrest
          exact (RFun.exec_raise_ok hrest).elim
        | works | warns message =>
          rw [hopening] at hrest
          exact ⟨fun _ => by simp, hrest⟩
      obtain ⟨hopens, hread⟩ := hopened
      obtain ⟨_, st₂, w₂, s₂, hchange, hread₁⟩ := RFun.exec_bind_ok hread
      obtain ⟨rfl, rfl, rfl⟩ := RFun.exec_change_ok hchange
      obtain ⟨st₃, hread₂, rfl⟩ := RFun.exec_onExit_ok hread₁
      obtain ⟨⟨hcan, hbinary, hending⟩, hx, rfl⟩ := readConnection_ok hread₂
      rw [RState.connection_update] at hcan hbinary hending hx
      refine ⟨⟨hinvalid, .inr hopens, hcan, hbinary, hending⟩, hx, ?_⟩
      rw [RState.connection_update, RState.connection_update]
      rw [RState.update_update, RState.update_update]

theorem exec_keyInput_connection (hc : (st.connection i).Usable) (arg : String) {x : Sexp}
    (hx : (newRaw (st.connection i).chunks.flatten).exec h w s = ⟨x, w', s'⟩) : ∃ st',
    (keyInput (.connection i) arg st).exec h w s = ⟨(.ok x, st'), w', s'⟩ := by
  unfold keyInput
  dsimp only
  rw [RFun.look_bind, hc.valid]
  dsimp only
  by_cases hopen : (st.connection i).isOpen = true
  · rw [if_pos hopen]
    exact ⟨_, exec_readConnection hc.canRead hc.binary hc.notBroken hx⟩
  · have hopens := hc.opens.resolve_left hopen
    rw [if_neg hopen]
    have hread : (readConnection i (st.update i (st.connection i).opened)).exec h w s =
        ⟨(.ok x, (st.update i (st.connection i).opened).update i (st.connection i).opened.drained), w', s'⟩ := by
      have hself := st.connection_update i (st.connection i).opened
      have hrun := @exec_readConnection O σ h w w' s s' (st.update i (st.connection i).opened) i
      rw [hself] at hrun
      exact hrun hc.canRead hc.binary hc.notBroken hx
    -- however it is opened it is closed on exit
    have hexit : ∃ st', ((do
        RFun.change (·.update i (st.connection i).opened)
        RFun.onExit (readConnection i) fun st => st.update i (st.connection i).closed :
          RFun O Sexp) st).exec h w s = ⟨(.ok x, st'), w', s'⟩ := by
      refine ⟨(st.update i (st.connection i).opened.drained).update i
        (st.connection i).opened.drained.closed, ?_⟩
      rw [RFun.change_bind]
      unfold RFun.onExit
      rw [Proc.exec_bind, hread, RState.update_update]
      dsimp only
      rw [RState.connection_update]
      rfl
    cases hopening : (st.connection i).opening with
    | fails message => exact absurd hopening (hopens message)
    | works => exact hexit
    | warns message => exact hexit

theorem leavesOpen_keyInput (src : Source) (arg : String) : (keyInput src arg : RFun O Sexp).LeavesOpen := by
  cases src with
  | sexp x =>
    cases x with
    | raw p n attrs => exact leaves_pure _
    | _ => exact leaves_raise _
  | pemText bytes => exact leaves_native _
  | path contents =>
    cases contents with
    | none => exact leaves_raise _
    | some contents => exact leaves_native _
  | connection i =>
    refine ⟨fun h w s st j _ => ?_⟩
    unfold keyInput
    dsimp only
    rw [RFun.look_bind]
    cases (st.connection i).invalid with
    | some message => rfl
    | none =>
      dsimp only
      by_cases hopen : (st.connection i).isOpen = true
      · rw [if_pos hopen]
        exact (leaves_readConnection i (I := fun _ => False)).same h w s st j not_false
      · rw [if_neg hopen]
        -- what is read is open by now, and is closed on exit
        have hexit : ((((do
            RFun.change (·.update i (st.connection i).opened)
            RFun.onExit (readConnection i) fun st => st.update i (st.connection i).closed :
              RFun O Sexp) st).exec h w s).value.2.connection j).isOpen = (st.connection j).isOpen := by
          rw [RFun.change_bind]
          unfold RFun.onExit
          rw [Proc.exec_bind]
          show ((((readConnection i _).exec h w s).value.2.update i _).connection j).isOpen = _
          by_cases hj : j = i
          · rw [hj, RState.connection_update]
            exact (Bool.eq_false_iff.mpr hopen).symm
          · rw [RState.connection_update_ne _ hj]
            refine ((leaves_readConnection i (I := fun _ => False)).same h w s _ j not_false).trans ?_
            rw [RState.connection_update_ne _ hj]
        cases (st.connection i).opening with
        | fails message => rfl
        | works => exact hexit
        | warns message => exact hexit

end Zucrypt
