import Zucrypt.PkeyOperations

/-! # What constructors of keys return

A constructor returns `ZUC_OK` exactly when it hands out a handle: on every path of every
constructor, whatever the backend answers. -/
namespace Zucrypt
open Effects ByteMemory

variable {O : Objects}

/-- `ZUC_OK` and a handle, or neither. -/
def HandsOut {α : Type} (r : ZucStatus × Option α) : Prop := r.1 = .ok ↔ r.2.isSome = true

theorem handsOut_none {α : Type} {st : ZucStatus} (h : st ≠ .ok) :
    HandsOut ((st, none) : ZucStatus × Option α) := by simp [HandsOut, h]

theorem handsOut_some {α : Type} (a : α) : HandsOut (ZucStatus.ok, some a) := by simp [HandsOut]

theorem HandsOut.eq_none {α : Type} {r : ZucStatus × Option α} (h : HandsOut r) (hr : r.1 ≠ .ok) :
    r.2 = none := Option.not_isSome_iff_eq_none.mp (mt h.mpr hr)

theorem HandsOut.exists_eq {α : Type} {r : ZucStatus × Option α} (h : HandsOut r) (hr : r.1 = .ok) :
    ∃ a, r.2 = some a := Option.isSome_iff_exists.mp (h.mp hr)

/-- No failure is reported as a success. -/
theorem zucIntFromPsa_ne_ok {ps : PsaStatus} (h : ps ≠ .success) : zucIntFromPsa ps ≠ .ok :=
  mt zucIntFromPsa_eq_ok.mp h

theorem parseStatus_ne_ok (ps : PsaStatus) : parseStatus ps ≠ .ok := by
  cases ps <;> simp [parseStatus]

theorem pkeyFromPsa_handsOut (id : KeyId) (wantPrivate : Bool) :
    Yields (pkeyFromPsa id wantPrivate : Adapter O _) HandsOut := by
  refine Yields.after fun attr => ?_
  refine Yields.ite (fun h => Yields.pure (handsOut_none (zucIntFromPsa_ne_ok h))) fun _ => ?_
  refine Yields.ite (fun _ => Yields.pure (handsOut_none (by decide))) fun _ => ?_
  refine Yields.after fun self => Yields.after fun buf => ?_
  have hfail : Yields (do
      freeIf (freeRecord .zucPkey) self
      freeIf freeBytes buf
      return (.errMemory, none) : Adapter O (ZucStatus × Option ZucPkey)) HandsOut :=
    Yields.after fun _ => Yields.after fun _ => Yields.pure (handsOut_none (by decide))
  cases self with
  | none => exact hfail
  | some self =>
    cases buf with
    | none => exact hfail
    | some buf =>
      refine Yields.after fun r => ?_
      refine Yields.ite (fun h => ?_) fun _ => ?_
      · refine Yields.after fun _ => Yields.after fun _ => ?_
        exact Yields.pure (handsOut_none (zucIntFromPsa_ne_ok h))
      · exact Yields.after fun _ => Yields.pure (handsOut_some _)

/-- The key is destroyed, and the handle stays. -/
theorem fromPsa_handsOut {f : ZucStatus × Option ZucPkey → Adapter O (ZucStatus × Option ZucPkey)}
    (id : KeyId) (wantPrivate : Bool) (hf : ∀ r, HandsOut r → Yields (f r) HandsOut) :
    Yields (do
      let key ← pkeyFromPsa id wantPrivate
      psa (.destroyKey id)
      f key : Adapter O _) HandsOut :=
  (pkeyFromPsa_handsOut id wantPrivate).bind fun r hr => Yields.after fun _ => hf r hr

theorem importStatus_ne_ok (ps : PsaStatus) :
    (if ps = .errorInsufficientMemory then ZucStatus.errMemory else .errInvalidArgument) ≠ .ok := by
  split <;> decide

theorem pkeyImportBytes_handsOut (type : ZucAlg) (privateKey : Bool) (data : List Byte) :
    Yields (pkeyImportBytes type privateKey data : Adapter O _) HandsOut := by
  refine Yields.ite (fun _ => Yields.pure (handsOut_none (by decide))) fun _ => ?_
  refine Yields.after fun r => ?_
  refine Yields.ite (fun _ => Yields.pure (handsOut_none (importStatus_ne_ok _))) fun _ => ?_
  exact fromPsa_handsOut _ _ fun r hr => Yields.pure hr

theorem pkeyImportImpl_handsOut (type : ZucAlg) (privateKey : Bool) (data len : Nat) (out : Bool) :
    Yields (pkeyImportImpl type privateKey data len out : Adapter O _) HandsOut := by
  refine Yields.ite (fun _ => Yields.pure (handsOut_none (by decide))) fun _ => ?_
  refine Yields.after fun ready => ?_
  refine Yields.ite (fun _ => Yields.pure (handsOut_none (by decide))) fun _ => ?_
  refine Yields.ite (fun _ => Yields.pure (handsOut_none (by decide))) fun _ => ?_
  exact Yields.after fun bytes => pkeyImportBytes_handsOut _ _ _

theorem pkeyGenerateImpl_handsOut (type : ZucAlg) (bits : Nat) (out : Bool) :
    Yields (pkeyGenerateImpl type bits out : Adapter O _) HandsOut := by
  refine Yields.ite (fun _ => Yields.pure (handsOut_none (by decide))) fun _ => ?_
  refine Yields.after fun ready => ?_
  refine Yields.ite (fun _ => Yields.pure (handsOut_none (by decide))) fun _ => ?_
  refine Yields.ite (fun _ => Yields.pure (handsOut_none (by decide))) fun _ => ?_
  refine Yields.ite (fun _ => Yields.pure (handsOut_none (by decide))) fun _ => ?_
  refine Yields.ite (fun _ => Yields.pure (handsOut_none (by decide))) fun _ => ?_
  refine Yields.ite (fun _ => Yields.pure (handsOut_none (by decide))) fun _ => ?_
  refine Yields.after fun r => ?_
  refine Yields.ite (fun h => Yields.pure (handsOut_none (zucIntFromPsa_ne_ok h))) fun _ => ?_
  exact fromPsa_handsOut _ _ fun r hr => Yields.pure hr

/-- Loading a handle's key succeeds exactly when the backend says so. -/
theorem pkeyPublicImpl_handsOut (key : Option ZucPkey) (out : Bool) :
    Yields (pkeyPublicImpl key out : Adapter O _) HandsOut := by
  refine Yields.ite (fun _ => Yields.pure (handsOut_none (by decide))) fun _ => ?_
  cases key with
  | none => exact Yields.pure (handsOut_none (by decide))
  | some k =>
    refine Yields.after fun ready => ?_
    refine Yields.ite (fun _ => Yields.pure (handsOut_none (by decide))) fun _ => ?_
    refine Yields.after fun r => ?_
    refine Yields.ite (fun h => Yields.pure (handsOut_none h)) fun _ => ?_
    exact fromPsa_handsOut _ _ fun r hr => Yields.pure hr

theorem parseImport_handsOut (pk : O.Pk) (attr : PsaKeyAttributes) (isPair privateKey : Bool) :
    Yields (parseImport pk attr isPair privateKey) HandsOut := by
  refine Yields.after fun r => Yields.after fun _ => ?_
  refine Yields.ite (fun _ => Yields.pure (handsOut_none (importStatus_ne_ok _))) fun _ => ?_
  refine fromPsa_handsOut _ _ fun key hkey => ?_
  obtain ⟨st, key⟩ := key
  cases key with
  | none => cases st <;> exact Yields.pure hkey
  | some k =>
    cases st with
    | ok =>
      refine Yields.ite (fun _ => ?_) fun _ => Yields.pure hkey
      exact Yields.after fun _ => Yields.pure (handsOut_none (by decide))
    | _ => exact Yields.pure hkey

theorem parseDescribe_handsOut (pk : O.Pk) (isPair privateKey : Bool) :
    Yields (parseDescribe pk isPair privateKey) HandsOut := by
  refine Yields.after fun attr => ?_
  refine Yields.ite (fun _ => parseImport_handsOut _ _ _ _) fun _ => ?_
  refine Yields.after fun x25519 => ?_
  refine Yields.ite (fun _ => ?_) fun _ => ?_
  · refine Yields.after fun raw => Yields.after fun _ => ?_
    refine Yields.ite (fun _ => Yields.pure (handsOut_none (by decide))) fun _ => ?_
    exact pkeyImportBytes_handsOut _ _ _
  · exact Yields.after fun _ => Yields.pure (handsOut_none (by decide))

theorem parseSource_handsOut (src : List Byte) (copy : Option HeapBytes) (privateKey : Bool) :
    Yields (parseSource src copy privateKey : Adapter O _) HandsOut := by
  refine Yields.after fun r => Yields.after fun _ => ?_
  refine Yields.ite (fun _ => ?_) fun _ => parseDescribe_handsOut _ _ _
  exact Yields.after fun _ => Yields.pure (handsOut_none (parseStatus_ne_ok _))

theorem pkeyParseImpl_handsOut (inp len : Nat) (privateKey out : Bool) :
    Yields (pkeyParseImpl inp len privateKey out : Adapter O _) HandsOut := by
  refine Yields.ite (fun _ => Yields.pure (handsOut_none (by decide))) fun _ => ?_
  refine Yields.after fun ready => ?_
  refine Yields.ite (fun _ => Yields.pure (handsOut_none (by decide))) fun _ => ?_
  refine Yields.ite (fun _ => Yields.pure (handsOut_none (by decide))) fun _ => ?_
  refine Yields.after fun bytes => ?_
  refine Yields.ite (fun _ => ?_) fun _ => parseSource_handsOut _ _ _
  refine Yields.ite (fun _ => Yields.pure (handsOut_none (by decide))) fun _ => ?_
  refine Yields.after fun copy => ?_
  cases copy with
  | none => exact Yields.pure (handsOut_none (by decide))
  | some copy => exact parseSource_handsOut _ _ _

/-- The watch changes failures to failures. -/
theorem watched_handsOut {impl : Adapter O (ZucStatus × Option ZucPkey)} (h : Yields impl HandsOut) :
    Yields (watched impl) HandsOut := by
  refine Yields.after fun _ => h.bind fun r hr => ?_
  have hstatus : Yields (zucIntMemoryOr r.1 : Adapter O _) fun st => st = .ok ↔ r.1 = .ok := by
    refine Yields.after fun w => Yields.pure ?_
    split
    · rename_i hfail
      simp [hfail.1]
    · rfl
  exact hstatus.bind fun st hst => Yields.pure (hst.trans hr)

end Zucrypt
