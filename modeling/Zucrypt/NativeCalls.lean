import Zucrypt.ChunkedCalls

/-! # The native entry points that own contexts

The entry points of `zucrypt_crypt.c` that make keys, as functions that may be left, and one type of
all calls that create, use or release a context.  Between calls R may collect what it cannot reach
any more: the finalizers of those pointers then run.

A pointer an entry point hands back is its place on R's heap.

`NativeCall` has a constructor for each entry point, and `StreamAct` for what may happen to the
pointer of a stream: a call of the entry points that take one, or its finalizer.  `collected` is a
call and the collection after it, by which the pointers go that the call made and did not return. -/
namespace Zucrypt
open Effects ByteMemory Entry

variable {O : Objects}

/-! ### Keys -/

/-- `pkey_ptr`; the tag is a symbol that may have to be installed. -/
def pkeyPtr : Entry O Nat := do
  jumpPoint
  ownerPtr .pkey none

/-- `pkey_get`: the pointers with the tag of keys are those that point to one. -/
def pkeyGet (ptr : Nat) : Entry O (Option ZucPkey) := do
  jumpPoint
  match ← address ptr with
  | some (.pkey key) => return some key
  | _ => return none

/-- `pkey_result`. -/
def pkeyResult (ptr : Nat) (r : ZucStatus × Option ZucPkey) : Entry O (ZucStatus × Option Nat) := do
  if r.1 = .ok then
    setAddress ptr (r.2.map .pkey)
    resultPtr r.1 ptr
  else
    resultPtr r.1 ptr

/-- A constructor of keys, by what it calls of the library. -/
def pkeyConstructor (make : Adapter O (ZucStatus × Option ZucPkey)) :
    Entry O (ZucStatus × Option Nat) := do
  let ptr ← pkeyPtr
  let r ← native make
  pkeyResult ptr r

/-- `zucrypt_pkey_public`. -/
def pkeyPublicOf (ptr : Nat) : Entry O (ZucStatus × Option Nat) := do
  let key ← pkeyGet ptr
  pkeyConstructor
    (match key with
    | none => pure (.errInvalidArgument, none)
    | some key => zucPkeyPublic (some key) true)

/-! ### Calls -/

/-- A call of an entry point that creates, uses or releases a context. -/
inductive NativeCall where
  | hash (data : Sexp) (algorithm : String)
  | hmac (data key : Sexp) (algorithm : String)
  | hashStreamNew (algorithm : String)
  | hmacStreamNew (key : Sexp) (algorithm : String)
  | streamUpdate (ptr : Nat) (data : Sexp)
  | streamFinish (ptr : Nat)
  | aesCbc (data key iv : Sexp) (encrypt : Bool)
  | pkeyParse (data : Sexp) (privateKey : Bool)
  | pkeyGenerate (type : String) (bits : Nat)
  | pkeyImport (type : String) (privateKey : Bool) (data : Sexp)
  | pkeyPublic (ptr : Nat)

namespace NativeCall

/-- A result that is no object. -/
def statusOf (p : Entry O NativeResult) : Entry O (ZucStatus × Option Nat) := do
  let r ← p
  return (r.status, none)

/-- What the call does: its status, and the object it returns. -/
def run : NativeCall → Entry O (ZucStatus × Option Nat)
  | hash data algorithm => statusOf (zucryptHash data algorithm)
  | hmac data key algorithm => statusOf (zucryptHmac data key algorithm)
  | hashStreamNew algorithm => zucryptHashStreamNew algorithm
  | hmacStreamNew key algorithm => zucryptHmacStreamNew key algorithm
  | streamUpdate ptr data => do
    let st ← zucryptStreamUpdate ptr data
    return (st, none)
  | streamFinish ptr => statusOf (zucryptStreamFinish ptr)
  | aesCbc data key iv encrypt => statusOf (zucryptAesCbc data key iv encrypt)
  | pkeyParse data privateKey => pkeyConstructor (zucPkeyParse data.RAW data.XLENGTH privateKey true)
  | pkeyGenerate type bits => pkeyConstructor (zucPkeyGenerate (zucAlgByName (some type)) bits true)
  | pkeyImport type privateKey data =>
    pkeyConstructor (zucPkeyImport (zucAlgByName (some type)) privateKey data.RAW data.XLENGTH true)
  | pkeyPublic ptr => pkeyPublicOf ptr

/-- The stream a call works on. -/
def stream : NativeCall → Option Nat
  | streamUpdate ptr _ => some ptr
  | streamFinish ptr => some ptr
  | _ => none

/-- The stream whose context a call is to release. -/
def releases : NativeCall → Option Nat
  | streamFinish ptr => some ptr
  | _ => none

end NativeCall

/-! ### Finalizers -/

/-- The object a call has returned, if it was not left. -/
def returned (r : Option (ZucStatus × Option Nat)) : Option Nat := r.bind Prod.snd

/-- The finalizers of these pointers run. -/
def finalizeAll : List Nat → Entry O Unit
  | [] => pure ()
  | i :: is => do
    finalizePtr i
    finalizeAll is

/-- The pointers made in a call and not returned by it: R reaches them no more. -/
def garbage (H H' : RHeap O) (object : Option Nat) : List Nat :=
  (List.range H'.pointers.length).filter fun i => H.pointers.length ≤ i ∧ object ≠ some i

/-- A call that is left somewhere or not, and then a collection. -/
def NativeCall.collected (c : NativeCall) (H : RHeap O) :
    Adapter O (Option (ZucStatus × Option Nat) × RHeap O) := do
  let r ← c.run H
  let r' ← finalizeAll (garbage H r.2 (returned r.1)) r.2
  return (r.1, r'.2)

/-! ### One stream -/

/-- What may happen to a stream's pointer. -/
inductive StreamAct where
  | update (data : Sexp)
  | finish
  | finalize

/-- What it does: a status, of a call that was not left. -/
def StreamAct.run (ptr : Nat) : StreamAct → Entry O (Option ZucStatus)
  | update data => do
    let st ← zucryptStreamUpdate ptr data
    return some st
  | finish => do
    let r ← zucryptStreamFinish ptr
    return some r.status
  | finalize => do
    finalizePtr ptr
    return none

/-- One after the other, each left at a point of its own or not at all. -/
def streamActs (ptr : Nat) :
    List (StreamAct × Option Nat) → RHeap O → Adapter O (List (Option ZucStatus) × RHeap O)
  | [], H => pure ([], H)
  | a :: acts, H => do
    let r ← a.1.run ptr { H with jump := a.2 }
    let rs ← streamActs ptr acts r.2
    return (r.1.join :: rs.1, rs.2)

end Zucrypt
