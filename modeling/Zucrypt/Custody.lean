import Zucrypt.Backend

/-! # What a trace of backend calls holds and delivers

`Custody` keeps account of what a caller of the backend is responsible for: the keys
it has created and not destroyed, and the operations it has begun and not ended.  It
is read off a trace, call by call, so that a procedure that gives back all it took
is one whose traces leave the account as they found it.

`SaneReport` is all that is assumed of what the backend reports: a length, on
success, is that of bytes it has written, and fits the buffer it was given. -/
namespace Zucrypt
open Effects ByteMemory

variable {O : Objects}

/-! ### Custody -/

/-- Keys, most recent first, and whether an operation of each kind is open. -/
@[ext] structure Custody where
  keys : List KeyId
  aead : Bool
  kdf : Bool

namespace Custody

/-- A key, if it was created. -/
def withKey (c : Custody) (r : PsaStatus × KeyId) : Custody :=
  if r.1 = .success then { c with keys := r.2 :: c.keys } else c

/-- The account after one call.  A failed setup leaves an operation to be aborted;
an operation ends by an abort, or by finishing successfully. -/
def event (c : Custody) : Event (Call O) → Custody
  | ⟨.psa (.importKey _ _), r⟩ => c.withKey r.answer
  | ⟨.psa (.generateKey _), r⟩ => c.withKey r.answer
  | ⟨.psa (.pkImportIntoPsa _ _), r⟩ => c.withKey r.answer
  | ⟨.psa (.destroyKey id), _⟩ => { c with keys := c.keys.erase id }
  | ⟨.psa (.aeadEncryptSetup _ _ _), _⟩ => { c with aead := true }
  | ⟨.psa (.aeadDecryptSetup _ _ _), _⟩ => { c with aead := true }
  | ⟨.psa (.aeadFinish _ _ _), r⟩ =>
    if r.answer.1 = .success then { c with aead := false } else c
  | ⟨.psa (.aeadVerify _ _ _), r⟩ =>
    if r.answer.1 = .success then { c with aead := false } else c
  | ⟨.psa (.aeadAbort _), _⟩ => { c with aead := false }
  | ⟨.psa (.kdfSetup _ _), _⟩ => { c with kdf := true }
  | ⟨.psa (.kdfAbort _), _⟩ => { c with kdf := false }
  | _ => c

/-- The account after a trace. -/
def after (c : Custody) (t : List (Event (Call O))) : Custody := t.foldl event c

@[simp] theorem after_nil (c : Custody) : c.after ([] : List (Event (Call O))) = c := rfl

@[simp] theorem after_cons (c : Custody) (e : Event (Call O)) (t : List (Event (Call O))) :
    c.after (e :: t) = (c.event e).after t := rfl

@[simp] theorem after_append (c : Custody) (t t' : List (Event (Call O))) :
    c.after (t ++ t') = (c.after t).after t' := List.foldl_append

end Custody

/-! ### What the backend reports -/

/-- The length is that of bytes that were written, into a buffer of `size`. -/
def Output.Fits (o : Output) (size : Nat) : Prop := o.len ≤ size ∧ o.len ≤ o.bytes.length

theorem Output.Fits.length_reported {o : Output} {size : Nat} (h : o.Fits size) :
    o.reported.length = o.len := by
  rw [Output.reported, List.length_take, Nat.min_eq_left h.2]

/-- What is stored of it begins with what is reported. -/
theorem Output.Fits.stored {o : Output} {size : Nat} (h : o.Fits size) :
    o.reported <+: o.bytes.take size := by
  refine List.prefix_take_iff.mpr ⟨List.take_prefix _ _, ?_⟩
  rw [h.length_reported]
  exact h.1

/-- What a one-shot operation may rely on. -/
def SaneReport : Event (Call O) → Prop
  | ⟨.psa (.aeadUpdate _ _ size), r⟩ => r.answer.1 = .success → r.answer.2.2.Fits size
  | ⟨.psa (.aeadFinish _ size tagSize), r⟩ => r.answer.1 = .success →
    r.answer.2.2.1.Fits size ∧ r.answer.2.2.2.Fits tagSize
  | ⟨.psa (.aeadVerify _ size _), r⟩ => r.answer.1 = .success → r.answer.2.2.Fits size
  | ⟨.psa (.kdfOutputBytes _ n), r⟩ => r.answer.1 = .success → r.answer.2.2.length = n
  | _ => True

/-- The data one call reported. -/
def eventData : Event (Call O) → List Byte
  | ⟨.psa (.aeadUpdate _ _ _), r⟩ => r.answer.2.2.reported
  | ⟨.psa (.aeadFinish _ _ _), r⟩ => r.answer.2.2.1.reported
  | ⟨.psa (.aeadVerify _ _ _), r⟩ => r.answer.2.2.reported
  | ⟨.psa (.kdfOutputBytes _ _), r⟩ => r.answer.2.2
  | _ => []

/-- The tag it reported. -/
def eventTag : Event (Call O) → List Byte
  | ⟨.psa (.aeadFinish _ _ _), r⟩ => r.answer.2.2.2.reported
  | _ => []

/-- The data a trace reported, in order. -/
def reportedData (t : List (Event (Call O))) : List Byte := t.flatMap eventData

/-- And the tag. -/
def reportedTag (t : List (Event (Call O))) : List Byte := t.flatMap eventTag

theorem reportedData_append (t t' : List (Event (Call O))) :
    reportedData (t ++ t') = reportedData t ++ reportedData t' := List.flatMap_append

theorem reportedTag_append (t t' : List (Event (Call O))) :
    reportedTag (t ++ t') = reportedTag t ++ reportedTag t' := List.flatMap_append

end Zucrypt
