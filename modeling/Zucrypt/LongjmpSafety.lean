import Zucrypt.HeldContexts

/-! # Native contexts and `longjmp`

The entry points of `zucrypt_crypt.c` make their pointer first, empty and with its finalizer, and
then the context.  `Adds` says of an entry point what it adds to R's heap: at most one pointer,
whether the function is left or comes to its end.

An entry point `Opens` by making that pointer, and may be left before it is there, when it has added
nothing.  What it does then, to its end, is followed by `Tends` (`Opens.adds`).  Functions that only
look at other pointers have nothing to add (`Looks`).  `NativeCall.adds_run` goes through all of
them, and `RHeap.Owned` is what each preserves: whatever is in a pointer has the finalizer of its
kind. -/
namespace Zucrypt
open Effects ByteMemory Resources Entry

variable {O : Objects} {α β : Type}

/-! ### A pointer, and then its context -/

/-- The function makes an empty pointer with its finalizer, unless it is left. -/
def Opens (p : Entry O Nat) (kind : ContextKind) (tag : Option StreamTag) : Prop :=
  ∀ H : RHeap O, ∃ H',
    (p H = Pure.pure (some H.pointers.length, H') ∧
      H'.pointers = H.pointers ++ [⟨none, some kind, tag⟩]) ∨
    ∃ new : Option (ExternalPtr O), p H = Pure.pure (none, H') ∧
      H'.pointers = H.pointers ++ new.toList ∧ new.bind (·.addr) = none

theorem opens_ownerPtr (kind : ContextKind) (tag : Option StreamTag) :
    Opens (ownerPtr kind tag : Entry O Nat) kind tag := by
  -- the heap with the new pointer, before and after its finalizer is registered
  let made (ps : List (ExternalPtr O)) (jump : Option Nat) : RHeap O := ⟨ps ++ [⟨none, none, tag⟩], jump⟩
  let registered (ps : List (ExternalPtr O)) (jump : Option Nat) : RHeap O :=
    (made ps jump).setPointer ps.length { (made ps jump).pointer ps.length with finalizer := some kind }
  have hset : ∀ ps jump, (registered ps jump).pointers = ps ++ [⟨none, some kind, tag⟩] := by
    intro ps jump
    simp [registered, made, RHeap.setPointer, RHeap.pointer]
  rintro ⟨ps, jump⟩
  rcases jump with _ | _ | _ | n
  · exact ⟨registered ps none, .inl ⟨rfl, hset ps none⟩⟩
  · exact ⟨⟨ps, some 0⟩, .inr ⟨none, rfl, (List.append_nil _).symm, rfl⟩⟩
  · exact ⟨made ps (some 0), .inr ⟨some ⟨none, none, tag⟩, rfl, rfl, rfl⟩⟩
  · exact ⟨registered ps (some n), .inl ⟨rfl, hset ps (some n)⟩⟩

/-- A point before it changes nothing. -/
theorem Opens.jumpPoint {p : Entry O Nat} {kind : ContextKind} {tag : Option StreamTag}
    (h : Opens p kind tag) : Opens (Entry.jumpPoint >>= fun _ => p) kind tag := by
  rintro ⟨ps, jump⟩
  rcases jump with _ | _ | n
  · exact h ⟨ps, none⟩
  · exact ⟨_, .inr ⟨none, rfl, (List.append_nil _).symm, rfl⟩⟩
  · exact h ⟨ps, some n⟩

theorem opens_streamPtr (tag : StreamTag) :
    Opens (streamPtr tag : Entry O Nat) (if tag.isHmac then .hmac else .hash) (some tag) :=
  (opens_ownerPtr _ _).jumpPoint

theorem opens_pkeyPtr : Opens (pkeyPtr : Entry O Nat) .pkey none := (opens_ownerPtr _ _).jumpPoint

/-- What a function adds to R's heap: a pointer or nothing, and in the pointer a context that
its finalizer frees, or nothing.  `Q` knows where it would be, the result and what it holds. -/
def Adds (p : Entry O α) (Q : Nat → Option α → Option (LiveHandle O) → Prop) : Prop :=
  ∀ H w, Settles tariff InWindow (p H) w 0 fun r w' held =>
    ∃ new : Option (ExternalPtr O), r.2.pointers = H.pointers ++ new.toList ∧
      (∀ q ∈ new, ∀ c ∈ q.addr, q.finalizer = some c.kind) ∧
      held = slotResources (new.bind (·.addr)) ∧
      w'.live = w.live + slotCount (new.bind (·.addr)) ∧
      Q H.pointers.length r.1 (new.bind (·.addr))

section
variable {Q : Nat → Option α → Option (LiveHandle O) → Prop}

/-- A pointer is made, and the rest works on what it holds. -/
theorem Opens.adds {p : Entry O Nat} {f : Nat → Entry O α} {kind : ContextKind}
    {tag : Option StreamTag} (hp : Opens p kind tag) (hleft : ∀ n, Q n none none)
    (hf : ∀ s : Spot O, s.finalizer = some kind →
      Tends s none (f s.before.length) (Q s.before.length)) : Adds (p >>= f) Q := by
  intro H w
  obtain ⟨H', ⟨hrun, hH'⟩ | ⟨new, hrun, hH', hempty⟩⟩ := hp H
  · rw [Entry.bind_some hrun]
    have hat : H'.At ⟨H.pointers, [], some kind, tag⟩ none := ⟨hH', by simp⟩
    refine (hf ⟨H.pointers, [], some kind, tag⟩ rfl H' hat w).mono ?_
    rintro r w' held ⟨slot, hslot, hheld, hlive, hr⟩
    refine ⟨some ⟨slot, some kind, tag⟩, hslot.pointers, ?_, hheld, ?_, hr⟩
    · rintro q ⟨⟩ c hc
      exact hslot.owned c hc
    · have hnone : slotCount (none : Option (LiveHandle O)) = 0 := rfl
      rw [hlive, hnone, Int.sub_zero]
      rfl
  · -- a jump came first: the new pointer is there, with nothing in it
    have hstop : (p >>= f) H = Pure.pure (none, H') := by
      show Entry.seq p f H = _
      unfold Entry.seq
      rw [hrun]
      rfl
    rw [hstop]
    refine Settles.pure ⟨new, hH', ?_, ?_, ?_, ?_⟩
    · intro q hq c hc
      have hsome : some c = none := by
        rw [← hempty, hq]
        exact hc.symm
      cases hsome
    · rw [hempty]
      rfl
    · rw [hempty]
      exact (Int.add_zero _).symm
    · rw [hempty]
      exact hleft _

/-- A function that only looks at R's heap, and may be left. -/
def Looks (p : Entry O β) : Prop :=
  ∀ H : RHeap O, ∃ H', H'.pointers = H.pointers ∧
    (p H = Pure.pure (none, H') ∨ ∃ b, p H = Pure.pure (some b, H'))

theorem pkeyGet_address (addr : Option (LiveHandle O)) (H : RHeap O) : ∃ key,
    (match addr with
      | some (.pkey key) => Pure.pure (some key)
      | _ => Pure.pure none : Entry O (Option ZucPkey)) H = Pure.pure (some key, H) := by
  split
  · exact ⟨_, rfl⟩
  · exact ⟨_, rfl⟩

theorem looks_pkeyGet (ptr : Nat) : Looks (pkeyGet ptr : Entry O _) := by
  rintro ⟨ps, jump⟩
  rcases jump with _ | _ | n
  · exact ⟨⟨ps, none⟩, rfl, .inr (pkeyGet_address (RHeap.pointer ⟨ps, none⟩ ptr).addr ⟨ps, none⟩)⟩
  · exact ⟨⟨ps, some 0⟩, rfl, .inl rfl⟩
  · exact ⟨⟨ps, some n⟩, rfl, .inr (pkeyGet_address (RHeap.pointer ⟨ps, some n⟩ ptr).addr ⟨ps, some n⟩)⟩

theorem Looks.adds {p : Entry O β} {f : β → Entry O α} (hp : Looks p) (hleft : ∀ n, Q n none none)
    (hf : ∀ b, Adds (f b) Q) : Adds (p >>= f) Q := by
  intro H w
  obtain ⟨H', hH', hrun | ⟨b, hrun⟩⟩ := hp H
  · have hstop : (p >>= f) H = Pure.pure (none, H') := by
      show Entry.seq p f H = _
      unfold Entry.seq
      rw [hrun]
      rfl
    rw [hstop]
    exact Settles.pure ⟨none, hH'.trans (List.append_nil _).symm, by simp, rfl,
      (Int.add_zero _).symm, hleft _⟩
  · rw [Entry.bind_some hrun, ← hH']
    exact hf b H' w

/-- Something computed from the result, where the function has come to its end. -/
theorem Adds.returns {p : Entry O α} {f : α → β} {Q' : Nat → Option β → Option (LiveHandle O) → Prop}
    (hp : Adds p Q) (hQ : ∀ n r slot, Q n r slot → Q' n (r.map f) slot) :
    Adds (p >>= fun a => (Pure.pure (f a) : Entry O β)) Q' := by
  intro H w
  show Settles tariff InWindow (Entry.seq p _ H) w _ _
  unfold Entry.seq
  refine (hp H w).bind ?_
  rintro ⟨r, H'⟩ w' held ⟨new, hH', howned, hheld, hlive, hr⟩
  cases r with
  | none => exact Settles.pure ⟨new, hH', howned, hheld, hlive, hQ _ _ _ hr⟩
  | some a => exact Settles.pure ⟨new, hH', howned, hheld, hlive, hQ _ _ _ hr⟩

end

/-! ### Constructors -/

section
variable {s : Spot O} {i : Nat} {γ : Type} {kind : γ → LiveHandle O}
  {p : Adapter O (ZucStatus × Option γ)} {Q : Option β → Option (LiveHandle O) → Prop}

/-- What a constructor makes is put into the pointer at once. -/
theorem Tends.create {f : ZucStatus × Option γ → Entry O β} (hi : i = s.before.length)
    (hp : Constructs kind p) (hout : Yields p HandsOut)
    (howned : ∀ c : γ, s.finalizer = some (kind c).kind)
    (hfailed : ∀ r, r.1 ≠ .ok → Tends s none (f r) Q)
    (hmade : ∀ r c, r.1 = .ok → r.2 = some c → ∃ g : Entry O β,
      f r = (setAddress i (r.2.map kind) >>= fun _ => g) ∧ Tends s (some (kind c)) g Q) :
    Tends s none (Entry.native p >>= f) Q := by
  subst hi
  intro H hH w
  have hboth : Settles tariff InWindow p w 0 fun r w' held =>
      (held = slotResources (r.2.map kind) ∧ w'.live = w.live + slotCount (r.2.map kind)) ∧
        HandsOut r := by
    intro t r w' hrun hok
    obtain ⟨held, ht, hr⟩ := hp w t r w' hrun hok
    exact ⟨held, ht, hr, hout w t r w' hrun fun _ _ => trivial⟩
  have hnative : Settles tariff InWindow (Entry.native p H) w 0 fun r w' held => ∃ a, r = (some a, H) ∧
      held = slotResources (a.2.map kind) ∧ w'.live = w.live + slotCount (a.2.map kind) ∧
        HandsOut a :=
    hboth.bind fun a w' held ha => Settles.pure ⟨a, rfl, ha.1.1, ha.1.2, ha.2⟩
  show Settles tariff InWindow (Entry.seq (Entry.native p) f H) w _ _
  unfold Entry.seq
  refine hnative.bind ?_
  rintro r w' held ⟨a, rfl, rfl, hlive, hout⟩
  -- the pointer has the handle before anything can jump
  by_cases hok : a.1 = .ok
  · obtain ⟨c, hc⟩ := hout.exists_eq hok
    obtain ⟨g, hg, htends⟩ := hmade a c hok hc
    have hset : (setAddress s.before.length (a.2.map kind) >>= fun _ => g) H =
        g (H.setPointer s.before.length { H.pointer s.before.length with addr := a.2.map kind }) :=
      Entry.bind_some rfl
    have hat : (H.setPointer s.before.length
        { H.pointer s.before.length with addr := a.2.map kind }).At s (some (kind c)) := by
      rw [hc]
      exact hH.set (by rintro - ⟨⟩; exact howned c)
    show Settles tariff InWindow (f a H) w' _ _
    rw [hg, hset, hc]
    rw [hc] at hlive hat
    refine (htends _ hat w').mono ?_
    rintro r w'' held ⟨slot, hslot, hheld, hlive', hr⟩
    refine ⟨slot, hslot, hheld, ?_, hr⟩
    have hone : slotCount (Option.map kind (some c)) = slotCount (some (kind c)) := rfl
    have hnone : slotCount (none : Option (LiveHandle O)) = 0 := rfl
    omega
  · have hnone := hout.eq_none hok
    rw [hnone] at hlive
    rw [hnone]
    refine (hfailed a hok H hH w').mono ?_
    rintro r w'' held ⟨slot, hslot, hheld, hlive', hr⟩
    refine ⟨slot, hslot, hheld, ?_, hr⟩
    have hzero : slotCount (Option.map kind none) = 0 := rfl
    omega

end

/-! ### The entry points -/

/-- An object is returned only where it would be, and it holds a context. -/
def HandsPtr (n : Nat) (r : Option (ZucStatus × Option Nat)) (slot : Option (LiveHandle O)) : Prop :=
  ∀ i, returned r = some i → i = n ∧ slot.isSome = true

theorem handsPtr_left (n : Nat) (slot : Option (LiveHandle O)) : HandsPtr n none slot := by
  rintro i ⟨⟩

theorem adds_statusOf {p : Entry O NativeResult} (hp : Adds p fun _ _ _ => True) :
    Adds (NativeCall.statusOf p) HandsPtr := by
  refine hp.returns fun n r slot _ => ?_
  cases r with
  | none => exact handsPtr_left n slot
  | some a => rintro i ⟨⟩

section
variable {s : Spot O} {slot : Option (LiveHandle O)}

/-- A pointer is returned with its context. -/
theorem tends_resultPtr {st : ZucStatus} {i : Nat} (hi : i = s.before.length)
    (hslot : st = .ok → slot.isSome = true) :
    Tends s slot (resultPtr st i) (HandsPtr s.before.length) := by
  subst hi
  refine Tends.bind (Tends.allocations (handsPtr_left _ _) (Tends.pure ?_) 6)
  intro j hj
  obtain ⟨hok, hobject⟩ : st = .ok ∧ s.before.length = j := by
    by_cases hst : st = .ok
    · exact ⟨hst, by simpa [returned, hst] using hj⟩
    · simp [returned, hst] at hj
  exact ⟨hobject.symm, hslot hok⟩

end

section
variable {κ Op : Type} {K : DigestKind O κ Op} {held : κ → Multiset Resource}
  {new : Adapter O (ZucStatus × Option (StreamHandle κ Op))}

theorem adds_digestCall (hK : Accountable K held) (hnew : Constructs K.context new)
    (hout : Yields new HandsOut) (alg : ZucAlg) (data : Sexp) :
    Adds (digestCall K new alg data) fun _ _ _ => True := by
  refine (opens_ownerPtr _ _).adds (fun _ => trivial) fun s hs => ?_
  have hresult : ∀ (st : ZucStatus) (v : Sexp) (slot : Option (LiveHandle O)),
      Tends s slot (result st v) fun _ _ => True := fun _ _ _ => tends_result trivial trivial
  refine Tends.create rfl hnew hout (fun c => by rw [hs, hK.kind]) (fun r hr => ?_) fun r h hr hh => ?_
  · rw [if_pos hr]
    exact hresult _ _ _
  · rw [if_neg (not_not_intro hr), hh]
    refine ⟨_, rfl, Tends.bind ((tends_digestLoop hK rfl hs _ _ _ h).mono ?_)⟩
    rintro u slot ⟨h', rfl, hu⟩
    cases u with
    | none => trivial
    | some u =>
      refine Tends.ite (fun _ => Tends.bind (tends_releasePtr rfl (hresult _ _ _))) fun _ => ?_
      rw [hu u rfl]
      exact (tends_digestFinish hK rfl hs alg h').mono fun _ _ _ => trivial

theorem adds_streamNew (hK : Accountable K held) (hnew : Constructs K.context new)
    (hout : Yields new HandsOut) {tag : StreamTag} (htag : (if tag.isHmac then .hmac else .hash) = K.kind) :
    Adds (streamNew K new tag) HandsPtr := by
  refine (opens_streamPtr tag).adds (fun n => handsPtr_left n _) fun s hs => ?_
  rw [htag] at hs
  refine Tends.create rfl hnew hout (fun c => by rw [hs, hK.kind]) (fun r hr => ?_) fun r h hr hh => ?_
  · rw [if_neg hr]
    exact tends_resultPtr rfl fun hok => absurd hok hr
  · rw [if_pos hr]
    exact ⟨_, rfl, tends_resultPtr rfl fun _ => rfl⟩

end

theorem adds_aesCbc (data key iv : Sexp) (encrypt : Bool) :
    Adds (zucryptAesCbc data key iv encrypt : Entry O _) fun _ _ _ => True := by
  refine (opens_ownerPtr _ _).adds (fun _ => trivial) fun s hs => ?_
  refine Tends.create rfl (zucAesNew_constructs _ _ _) (zucAesNew_handsOut _ _ _) (fun _ => hs)
    (fun r hr => ?_) fun r a hr ha => ?_
  · rw [if_pos hr]
    exact tends_result trivial trivial
  · rw [if_neg (not_not_intro hr), ha]
    refine ⟨_, rfl, ?_⟩
    have hkeeps := zucAesCbcSetState_keeps (O := O) (some a) iv.RAW
    have hreturns := zucAesCbcSetState_returns (O := O) (some a) iv.RAW
    refine Tends.step (fun u => u.2.map .aes) rfl (hreturns.slot hkeeps) hkeeps
      (fun u => owned_aes hs u.2) fun u hu => ?_
    obtain ⟨a', ha'⟩ := Option.isSome_iff_exists.mp hu
    rw [ha']
    refine Tends.bind (Tends.allocVector trivial (fun out => ?_) _)
    refine Tends.bind ((tends_cbcLoop rfl hs _ _ _ _ _ _ a').mono ?_)
    rintro st slot -
    cases st with
    | none => trivial
    | some st => exact Tends.bind (tends_releasePtr rfl (tends_result trivial trivial))

theorem adds_pkeyConstructor {make : Adapter O (ZucStatus × Option ZucPkey)}
    (hmake : Constructs .pkey make) (hout : Yields make HandsOut) :
    Adds (pkeyConstructor make) HandsPtr := by
  refine opens_pkeyPtr.adds (fun n => handsPtr_left n _) fun s hs => ?_
  refine Tends.create rfl hmake hout (fun _ => hs) (fun r hr => ?_) fun r key hr hkey => ?_
  · show Tends s none (if r.1 = .ok then _ else _) _
    rw [if_neg hr]
    exact tends_resultPtr rfl fun hok => absurd hok hr
  · refine ⟨resultPtr r.1 s.before.length, if_pos hr, ?_⟩
    exact tends_resultPtr rfl fun _ => rfl

/-- Every call but those of a stream makes a pointer of its own. -/
theorem NativeCall.adds_run (c : NativeCall) (hc : c.stream = none) :
    Adds (c.run : Entry O _) HandsPtr := by
  cases c with
  | hash data algorithm =>
    exact adds_statusOf (adds_digestCall accountable_hash (zucHashNew_constructs _ _)
      (zucHashNew_handsOut _ _) _ _)
  | hmac data key algorithm =>
    exact adds_statusOf (adds_digestCall accountable_hmac (zucHmacNew_constructs _ _ _ _)
      (zucHmacNew_handsOut _ _ _ _) _ _)
  | hashStreamNew algorithm =>
    exact adds_streamNew accountable_hash (zucHashNew_constructs _ _) (zucHashNew_handsOut _ _) rfl
  | hmacStreamNew key algorithm =>
    exact adds_streamNew accountable_hmac (zucHmacNew_constructs _ _ _ _)
      (zucHmacNew_handsOut _ _ _ _) rfl
  | streamUpdate ptr data => cases hc
  | streamFinish ptr => cases hc
  | aesCbc data key iv encrypt => exact adds_statusOf (adds_aesCbc data key iv encrypt)
  | pkeyParse data privateKey =>
    exact adds_pkeyConstructor (zucPkeyConstructor_constructs (pkeyParseImpl_constructs _ _ _ _))
      (watched_handsOut (pkeyParseImpl_handsOut _ _ _ _))
  | pkeyGenerate type bits =>
    exact adds_pkeyConstructor (zucPkeyConstructor_constructs (pkeyGenerateImpl_constructs _ _ _))
      (watched_handsOut (pkeyGenerateImpl_handsOut _ _ _))
  | pkeyImport type privateKey data =>
    exact adds_pkeyConstructor (zucPkeyConstructor_constructs (pkeyImportImpl_constructs _ _ _ _ _))
      (watched_handsOut (pkeyImportImpl_handsOut _ _ _ _ _))
  | pkeyPublic ptr =>
    refine (looks_pkeyGet ptr).adds (fun n => handsPtr_left n _) fun key => ?_
    cases key with
    | none => exact adds_pkeyConstructor (Constructs.none _) (Yields.pure (handsOut_none (by decide)))
    | some key =>
      exact adds_pkeyConstructor (zucPkeyConstructor_constructs (pkeyPublicImpl_constructs _ _))
        (watched_handsOut (pkeyPublicImpl_handsOut _ _))

/-! ### The whole heap -/

theorem contexts_append (ps qs : List (ExternalPtr O)) : contexts (ps ++ qs) = contexts ps ++ contexts qs :=
  List.map_append

section
variable {H H' : RHeap O} {s : Spot O} {slot slot' : Option (LiveHandle O)} {i : Nat}

namespace RHeap.At

/-- What is held elsewhere. -/
theorem resources_eq (h : H.At s slot) : H.resources =
    slotResources slot + ((contexts s.before).resources + (contexts s.after).resources) := by
  rw [RHeap.resources, h.pointers, contexts_append]
  exact Pool.resources_around _ _ _

theorem count_eq (h : H.At s slot) :
    H.count = slotCount slot + ((contexts s.before).count + (contexts s.after).count) := by
  rw [RHeap.count, h.pointers, contexts_append]
  exact Pool.count_around _ _ _

/-- The other pointers do not change, and with them what they own. -/
theorem heap_owned (h : H.At s slot) (howned : H.Owned) (h' : H'.At s slot') : H'.Owned := by
  intro p hp c hc
  rw [h'.pointers] at hp
  rcases List.mem_append.mp hp with hb | hp
  · exact howned p (by rw [h.pointers]; exact List.mem_append_left _ hb) c hc
  · rcases List.mem_cons.mp hp with rfl | ha
    · exact h'.owned c hc
    · have hmem : p ∈ H.pointers := by
        rw [h.pointers]
        exact List.mem_append_right _ (List.mem_cons_of_mem _ ha)
      exact howned p hmem c hc

end RHeap.At

/-- Any pointer is at a place. -/
theorem RHeap.Owned.exists_at (howned : H.Owned) (hi : i < H.pointers.length) :
    ∃ s : Spot O, i = s.before.length ∧ H.At s (H.pointer i).addr ∧ s.tag = (H.pointer i).tag := by
  have hget : H.pointer i = H.pointers[i] := by simp [RHeap.pointer, hi]
  refine ⟨⟨H.pointers.take i, H.pointers.drop (i + 1), (H.pointer i).finalizer, (H.pointer i).tag⟩,
    ?_, ⟨?_, ?_⟩, rfl⟩
  · show i = (H.pointers.take i).length
    rw [List.length_take]
    omega
  · show H.pointers = H.pointers.take i ++ H.pointer i :: H.pointers.drop (i + 1)
    rw [hget, List.getElem_cons_drop, List.take_append_drop]
  · intro c hc
    exact howned _ (by rw [hget]; exact List.getElem_mem hi) c hc

end

section
variable {H H' : RHeap O} {new : Option (ExternalPtr O)}

theorem contexts_toList (new : Option (ExternalPtr O)) :
    (contexts new.toList).resources = slotResources (new.bind (·.addr)) ∧
      (contexts new.toList).count = slotCount (new.bind (·.addr)) := by
  cases new with
  | none => exact ⟨rfl, rfl⟩
  | some q => exact ⟨Multiset.add_zero _, Int.add_zero _⟩

/-- One pointer more. -/
theorem RHeap.resources_of_append (h : H'.pointers = H.pointers ++ new.toList) :
    H'.resources = H.resources + slotResources (new.bind (·.addr)) := by
  rw [RHeap.resources, h, contexts_append, Pool.resources_append, (contexts_toList new).1]
  rfl

theorem RHeap.count_of_append (h : H'.pointers = H.pointers ++ new.toList) :
    H'.count = H.count + slotCount (new.bind (·.addr)) := by
  rw [RHeap.count, h, contexts_append, Pool.count_append, (contexts_toList new).2]
  rfl

end

/-- After a function, whether it was left or not: what the pointers own is what there is. -/
structure Kept (H : RHeap O) (w : World) (H' : RHeap O) (w' : World) (held : Multiset Resource) :
    Prop where
  owned : H'.Owned
  held : held = H'.resources
  live : w'.live = w.live + (H'.count - H.count)

section
variable {H : RHeap O} {s : Spot O} {slot : Option (LiveHandle O)} {p : Entry O α}

theorem Tends.kept {Q : Option α → Option (LiveHandle O) → Prop} (hp : Tends s slot p Q)
    (hH : H.At s slot) (howned : H.Owned) (w : World) :
    Settles tariff InWindow (p H) w H.resources fun r w' held =>
      Kept H w r.2 w' held ∧ ∃ slot', r.2.At s slot' ∧ Q r.1 slot' := by
  rw [hH.resources_eq]
  refine ((hp H hH w).frame _).mono ?_
  rintro r w' held ⟨held, ⟨slot', hH', rfl, hlive, hr⟩, rfl⟩
  refine ⟨⟨hH.heap_owned howned hH', hH'.resources_eq.symm, ?_⟩, slot', hH', hr⟩
  have hbefore := hH.count_eq
  have hafter := hH'.count_eq
  omega

theorem Adds.kept {Q : Nat → Option α → Option (LiveHandle O) → Prop} (hp : Adds p Q)
    (howned : H.Owned) (w : World) :
    Settles tariff InWindow (p H) w H.resources fun r w' held =>
      Kept H w r.2 w' held ∧ ∃ new : Option (ExternalPtr O), r.2.pointers = H.pointers ++ new.toList ∧
        Q H.pointers.length r.1 (new.bind (·.addr)) := by
  have hframe := (hp H w).frame H.resources
  rw [Multiset.zero_add] at hframe
  refine hframe.mono ?_
  rintro r w' held ⟨held, ⟨new, hH', hnew, rfl, hlive, hr⟩, rfl⟩
  refine ⟨⟨?_, ?_, ?_⟩, new, hH', hr⟩
  · intro q hq
    rw [hH'] at hq
    rcases List.mem_append.mp hq with hq | hq
    · exact howned q hq
    · exact hnew q (Option.mem_toList.mp hq)
  · rw [RHeap.resources_of_append hH', Multiset.add_comm]
  · rw [RHeap.count_of_append hH']
    omega

end

end Zucrypt
