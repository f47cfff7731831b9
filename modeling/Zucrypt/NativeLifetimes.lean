import Zucrypt.LongjmpSafety

/-! # The lifetime of a native context

A call of an entry point may be left anywhere.  What it made is then in a pointer, and the next
collection frees what R reaches no more.  A stream's context is freed once, whatever is done with
its pointer in whatever order.

`NativeCall.keeps` is about any call, wherever it is left: what is held then is what R's pointers
hold.  `NativeCall.collects` is about the call and the collection after it: what the call created
has been given back, but for what the pointer it returned holds.  A call of a stream works on a
pointer that was there, and every other makes one, so each is proved for the two kinds apart, from
what `HeldContexts` and `LongjmpSafety` say of them. -/
namespace Zucrypt
open Effects ByteMemory Resources Entry

variable {O : Objects} {α β : Type}

/-! ### A call, and then a collection -/

/-- Without a call on a stream nothing is garbage but the pointer of the call itself. -/
theorem garbage_same {H H' : RHeap O} (h : H'.pointers.length = H.pointers.length)
    (object : Option Nat) : garbage H H' object = [] := by
  rw [garbage, List.filter_eq_nil_iff]
  intro i hi
  have hlt : i < H'.pointers.length := List.mem_range.mp hi
  simp only [decide_eq_true_eq, not_and]
  omega

theorem garbage_one {H H' : RHeap O} {q : ExternalPtr O} (h : H'.pointers = H.pointers ++ [q])
    (object : Option Nat) :
    garbage H H' object = if object = some H.pointers.length then [] else [H.pointers.length] := by
  have hlength : H'.pointers.length = H.pointers.length + 1 := by rw [h, List.length_append]; rfl
  have hbefore : (List.range H.pointers.length).filter
      (fun i => decide (H.pointers.length ≤ i ∧ object ≠ some i)) = [] := by
    rw [List.filter_eq_nil_iff]
    intro i hi
    have hlt : i < H.pointers.length := List.mem_range.mp hi
    simp only [decide_eq_true_eq, not_and]
    omega
  rw [garbage, hlength, List.range_succ, List.filter_append, hbefore, List.nil_append]
  by_cases hobject : object = some H.pointers.length
  · rw [if_pos hobject]
    simp [hobject]
  · rw [if_neg hobject]
    simp [hobject]

/-- How much less a stream's pointer holds afterwards. -/
def NativeCall.released (c : NativeCall) (H H' : RHeap O) : Int :=
  match c.releases with
  | none => 0
  | some ptr => slotCount (H.pointer ptr).addr - slotCount (H'.pointer ptr).addr

/-- After a call and a collection: what there is belongs to what R reaches. -/
structure Collected (c : NativeCall) (H : RHeap O) (w : World)
    (r : Option (ZucStatus × Option Nat) × RHeap O) (w' : World) (held : Multiset Resource) : Prop where
  owned : r.2.Owned
  held : held = r.2.resources
  live : w'.live = w.live + (if (returned r.1).isSome then 1 else 0) - c.released H r.2
  object : ∀ i, returned r.1 = some i → H.pointers.length ≤ i ∧ (r.2.pointer i).addr.isSome = true
  released : ∀ ptr, c.releases = some ptr → r.1.isSome = true → (r.2.pointer ptr).addr = none

section
variable {H : RHeap O} {w : World}

theorem slotCount_of_isSome {slot : Option (LiveHandle O)} (h : slot.isSome = true) :
    slotCount slot = 1 := by
  obtain ⟨c, rfl⟩ := Option.isSome_iff_exists.mp h
  rfl

/-- A call that makes a pointer of its own. -/
theorem collected_adds (c : NativeCall) (hc : c.stream = none) (howned : H.Owned) :
    Settles tariff InWindow (c.collected H) w H.resources fun r w' held => Collected c H w r w' held := by
  have hreleases : c.releases = none := by
    cases c with
    | streamFinish ptr => cases hc
    | _ => rfl
  have hreleased : ∀ H' : RHeap O, c.released H H' = 0 := by
    intro H'
    rw [NativeCall.released, hreleases]
  have hnever : ∀ (r : Option (ZucStatus × Option Nat)) (H' : RHeap O) (ptr : Nat),
      c.releases = some ptr → r.isSome = true → (H'.pointer ptr).addr = none := by
    intro r H' ptr hptr
    rw [hreleases] at hptr
    cases hptr
  refine ((c.adds_run hc).kept howned w).bind ?_
  rintro ⟨r, H'⟩ w' held ⟨hkept, new, hH', hptr⟩
  obtain rfl := hkept.held
  have hlive : w'.live = w.live + (H'.count - H.count) := hkept.live
  have hcount : H'.count = H.count + slotCount (new.bind (·.addr)) := RHeap.count_of_append hH'
  cases new with
  | none =>
    -- left before there was a pointer: nothing was returned
    have hnone : returned r = none := by
      rw [Option.eq_none_iff_forall_ne_some]
      intro i hi
      cases (hptr i hi).2
    rw [garbage_same (by rw [hH']; simp)]
    refine Settles.pure ⟨hkept.owned, rfl, ?_, ?_, hnever r H'⟩
    · rw [hnone, hreleased]
      have hzero : slotCount ((none : Option (ExternalPtr O)).bind (·.addr)) = 0 := rfl
      simp only [Option.isSome_none, Bool.false_eq_true, if_false]
      omega
    · intro i hi
      rw [hnone] at hi
      cases hi
  | some q =>
    rw [garbage_one hH']
    have hq : H'.pointer H.pointers.length = q := by
      rw [RHeap.pointer, hH']
      simp
    by_cases hobject : returned r = some H.pointers.length
    · -- the object is returned, and stays
      have hsome : q.addr.isSome = true := (hptr _ hobject).2
      rw [if_pos hobject]
      refine Settles.pure ⟨hkept.owned, rfl, ?_, ?_, hnever r H'⟩
      · have hone : slotCount ((some q).bind (·.addr)) = 1 := slotCount_of_isSome hsome
        rw [hobject, hreleased]
        simp only [Option.isSome_some, if_true]
        omega
      · intro i hi
        obtain rfl := (hptr i hi).1
        exact ⟨Nat.le_refl _, by rw [hq]; exact hsome⟩
    · -- it is not, and its finalizer runs
      have hnone : returned r = none := by
        rw [Option.eq_none_iff_forall_ne_some]
        intro i hi
        exact hobject (by rw [hi, (hptr i hi).1])
      rw [if_neg hobject]
      have hat : H'.At ⟨H.pointers, [], q.finalizer, q.tag⟩ q.addr :=
        ⟨hH', fun c hc => hkept.owned q (by rw [hH']; simp) c hc⟩
      have hfinalize : Tends (⟨H.pointers, [], q.finalizer, q.tag⟩ : Spot O) q.addr
          (finalizeAll [H.pointers.length]) fun _ slot => slot = none :=
        Tends.bind (tends_finalizePtr rfl (Tends.pure rfl))
      refine (hfinalize.kept hat hkept.owned w').bind ?_
      rintro ⟨u, H''⟩ w'' held ⟨hkept', slot, hat', rfl⟩
      obtain rfl := hkept'.held
      refine Settles.pure ⟨hkept'.owned, rfl, ?_, ?_, hnever r H''⟩
      · have hcount' : H''.count = H.count := by
          have hempty : H''.pointers = H.pointers ++ (some (⟨none, q.finalizer, q.tag⟩ : ExternalPtr O)).toList :=
            hat'.pointers
          rw [RHeap.count_of_append hempty]
          exact Int.add_zero _
        have hlive' : w''.live = w'.live + (H''.count - H'.count) := hkept'.live
        rw [hnone, hreleased]
        simp only [Option.isSome_none, Bool.false_eq_true, if_false]
        omega
      · intro i hi
        rw [hnone] at hi
        cases hi

/-- What a call on a stream leaves in its pointer. -/
theorem tends_stream {c : NativeCall} {ptr : Nat} (hc : c.stream = some ptr) {s : Spot O}
    (hi : ptr = s.before.length) (slot : Option (LiveHandle O)) :
    Tends s slot c.run fun r slot' => returned r = none ∧
      (c.releases = none → slot'.isSome = slot.isSome) ∧
      (c.releases = some ptr → r.isSome = true → slot' = none) := by
  cases c with
  | streamUpdate i data =>
    obtain rfl := Option.some.inj hc
    refine Tends.bind ((tends_streamUpdate hi data).mono ?_)
    rintro r slot' ⟨hkept, -⟩
    cases r with
    | none => exact ⟨rfl, fun _ => hkept, by rintro ⟨⟩⟩
    | some st => exact Tends.pure ⟨rfl, fun _ => hkept, by rintro ⟨⟩⟩
  | streamFinish i =>
    obtain rfl := Option.some.inj hc
    refine Tends.bind ((tends_streamFinish hi).mono ?_)
    rintro r slot' ⟨hreleased, -⟩
    cases r with
    | none => exact ⟨rfl, by rintro ⟨⟩, by rintro - ⟨⟩⟩
    | some u => exact Tends.pure ⟨rfl, by rintro ⟨⟩, fun _ _ => hreleased rfl⟩
  | _ => cases hc

/-- Where there is no pointer, a call on it is left. -/
theorem stream_left {c : NativeCall} {ptr : Nat} (hc : c.stream = some ptr)
    (htag : (H.pointer ptr).tag = none) : c.run H = Pure.pure (none, H) := by
  have hleft : ∀ {γ δ : Type} (f : StreamTag → Entry O γ) (g : γ → Entry O δ),
      ((streamTag ptr >>= f) >>= g) H = Pure.pure (none, H) := by
    intro γ δ f g
    have hstop : (streamTag ptr : Entry O StreamTag) H = Pure.pure (none, H) := by
      unfold streamTag
      rw [Entry.bind_some (a := (H.pointer ptr).tag) rfl, htag]
      rfl
    show Entry.seq (Entry.seq (streamTag ptr) f) g H = _
    unfold Entry.seq
    rw [hstop]
    rfl
  cases c with
  | streamUpdate i data =>
    obtain rfl := Option.some.inj hc
    exact hleft _ _
  | streamFinish i =>
    obtain rfl := Option.some.inj hc
    exact hleft _ _
  | _ => cases hc

/-- Where there is no such pointer, it has no tag. -/
theorem RHeap.pointer_of_le {ptr : Nat} (h : H.pointers.length ≤ ptr) : H.pointer ptr = {} := by
  have hnone : H.pointers[ptr]? = none := List.getElem?_eq_none h
  simp [RHeap.pointer, hnone]

/-- A call on a stream makes nothing, and nothing is collected. -/
theorem collected_stream {c : NativeCall} {ptr : Nat} (hc : c.stream = some ptr) (howned : H.Owned) :
    Settles tariff InWindow (c.collected H) w H.resources fun r w' held => Collected c H w r w' held := by
  have hreleases : c.releases = none ∨ c.releases = some ptr := by
    cases c with
    | streamUpdate => exact .inl rfl
    | streamFinish => exact .inr hc
    | _ => cases hc
  by_cases hlt : ptr < H.pointers.length
  · obtain ⟨s, hi, hat, -⟩ := howned.exists_at hlt
    refine ((tends_stream hc hi _).kept hat howned w).bind ?_
    rintro ⟨r, H'⟩ w' held ⟨hkept, slot, hat', hnone, hupdate, hfinish⟩
    obtain rfl := hkept.held
    have hlive : w'.live = w.live + (H'.count - H.count) := hkept.live
    have hbefore := hat.count_eq
    have hafter : H'.count = slotCount slot + ((contexts s.before).count + (contexts s.after).count) :=
      hat'.count_eq
    have hslot : (H'.pointer ptr).addr = slot := by
      rw [hi, hat'.pointer]
      rfl
    have hlength : H'.pointers.length = H.pointers.length := by
      have h' : H'.pointers = s.before ++ s.ptr slot :: s.after := hat'.pointers
      rw [h', hat.pointers, List.length_append, List.length_append]
      rfl
    rw [garbage_same hlength]
    refine Settles.pure ⟨hkept.owned, rfl, ?_, ?_, ?_⟩
    · rw [hnone, NativeCall.released]
      -- an update leaves its pointer what it has; a finish takes it
      rcases hreleases with hreleases | hreleases
      · have hcount : slotCount slot = slotCount (H.pointer ptr).addr := by
          have hsame := hupdate hreleases
          cases hold : (H.pointer ptr).addr with
          | none =>
            rw [hold] at hsame
            rw [Option.isSome_eq_false_iff.mp hsame |> Option.isNone_iff_eq_none.mp]
          | some c =>
            rw [hold] at hsame
            exact slotCount_of_isSome hsame
        rw [hreleases]
        simp only [Option.isSome_none, Bool.false_eq_true, if_false]
        omega
      · rw [hreleases]
        simp only [Option.isSome_none, Bool.false_eq_true, if_false]
        rw [hslot]
        omega
    · intro i hi
      rw [hnone] at hi
      cases hi
    · intro i hptr hdone
      rcases hreleases with hreleases | hreleases
      · rw [hreleases] at hptr
        cases hptr
      · rw [hreleases] at hptr
        obtain rfl := Option.some.inj hptr
        rw [hslot]
        exact hfinish hreleases hdone
  · -- there is no such pointer, so the call does nothing
    have htag : (H.pointer ptr).tag = none := by
      rw [RHeap.pointer_of_le (by omega)]
    have hleft : Settles tariff InWindow (c.run H) w H.resources fun r w' held =>
        r = (none, H) ∧ w' = w ∧ held = H.resources := by
      rw [stream_left hc htag]
      exact Settles.pure ⟨rfl, rfl, rfl⟩
    refine hleft.bind ?_
    rintro r w' held ⟨rfl, rfl, rfl⟩
    rw [garbage_same rfl]
    refine Settles.pure ⟨howned, rfl, ?_, ?_, ?_⟩
    · have hzero : c.released H H = 0 := by
        rw [NativeCall.released]
        rcases hreleases with hreleases | hreleases
        · rw [hreleases]
        · rw [hreleases]
          exact Int.sub_self _
      rw [hzero]
      simp [returned]
    · rintro i ⟨⟩
    · rintro i - ⟨⟩

theorem NativeCall.collects (c : NativeCall) (howned : H.Owned) :
    Settles tariff InWindow (c.collected H) w H.resources fun r w' held => Collected c H w r w' held := by
  cases hc : c.stream with
  | none => exact collected_adds c hc howned
  | some ptr => exact collected_stream hc howned

/-- Wherever a call is left, what it made is in a pointer. -/
theorem NativeCall.keeps (c : NativeCall) (howned : H.Owned) :
    Settles tariff InWindow (c.run H) w H.resources fun r w' held => Kept H w r.2 w' held := by
  cases hc : c.stream with
  | none => exact ((c.adds_run hc).kept howned w).mono fun _ _ _ h => h.1
  | some ptr =>
    by_cases hlt : ptr < H.pointers.length
    · obtain ⟨s, hi, hat, -⟩ := howned.exists_at hlt
      exact ((tends_stream hc hi _).kept hat howned w).mono fun _ _ _ h => h.1
    · have htag : (H.pointer ptr).tag = none := by
        rw [RHeap.pointer_of_le (by omega)]
      rw [stream_left hc htag]
      refine Settles.pure ⟨howned, rfl, ?_⟩
      show w.live = w.live + (H.count - H.count)
      omega

end

end Zucrypt
