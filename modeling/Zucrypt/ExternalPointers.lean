import Zucrypt.Session
import Zucrypt.RValues

/-! # Entry points that may be left

An entry point of `zucrypt_crypt.c` runs on R's heap, of which the external pointers matter here,
and calls the library.  At an allocation of R's, or where it asks for interrupts, it may be left:
then nothing that comes after is done.

`Entry` is such a function.  Where it is left is in `RHeap.jump`: after that many of these points
have been passed, or never.  A statement for every `jump` is one for every place where `longjmp` may
leave the function, be it for want of memory or for an interrupt.

A pointer is a place on the heap with an address, which may be empty, a finalizer and a tag.
Contexts are freed through pointers only, by `release_ptr` in the call or by the finalizer after it,
and both leave the address empty. -/
namespace Zucrypt
open Effects ByteMemory

variable {O : Objects} {α β : Type}

/-! ### External pointers -/

/-- What an external pointer's finalizer frees. -/
inductive ContextKind where
  | hash
  | hmac
  | aes
  | pkey
  deriving DecidableEq, Repr

def LiveHandle.kind : LiveHandle O → ContextKind
  | .hash _ => .hash
  | .hmac _ => .hmac
  | .aes _ => .aes
  | .pkey _ => .pkey

/-- The tag of a stream's pointer, `c(kind, alg)`. -/
structure StreamTag where
  isHmac : Bool
  alg : ZucAlg
  deriving DecidableEq, Repr

structure ExternalPtr (O : Objects) where
  /-- `R_ExternalPtrAddr` -/
  addr : Option (LiveHandle O) := none
  /-- the finalizer that is registered for it -/
  finalizer : Option ContextKind := none
  tag : Option StreamTag := none

/-- R's heap: its external pointers, in the order they were made. -/
structure RHeap (O : Objects) where
  pointers : List (ExternalPtr O)
  jump : Option Nat

namespace RHeap

def pointer (H : RHeap O) (i : Nat) : ExternalPtr O := H.pointers.getD i {}

def setPointer (H : RHeap O) (i : Nat) (p : ExternalPtr O) : RHeap O :=
  { H with pointers := H.pointers.set i p }

end RHeap

/-- A function that may be left: then it has no value. -/
def Entry (O : Objects) (α : Type) : Type 1 := RHeap O → Adapter O (Option α × RHeap O)

namespace Entry

/-- The value of an expression. -/
def value (a : α) : Entry O α := fun H => pure (some a, H)

/-- One statement after another, unless the function has been left. -/
def seq (p : Entry O α) (f : α → Entry O β) : Entry O β := fun H => do
  let r ← p H
  match r.1 with
  | none => return (none, r.2)
  | some a => f a r.2

instance : Monad (Entry O) where
  pure := value
  bind := seq

/-- A call of the library. -/
def native (p : Adapter O α) : Entry O α := fun H => do
  let a ← p
  return (some a, H)

/-- Look at R's heap. -/
def look (f : RHeap O → α) : Entry O α := fun H => pure (some (f H), H)

/-- Change R's heap. -/
def change (f : RHeap O → RHeap O) : Entry O Unit := fun H => pure (some (), f H)

/-- `Rf_error`. -/
def leave : Entry O α := fun H => pure (none, H)

/-- A point at which the function may be left. -/
def jumpPoint : Entry O Unit := fun H =>
  match H.jump with
  | none => pure (some (), H)
  | some 0 => pure (none, H)
  | some (n + 1) => pure (some (), { H with jump := some n })

/-- So many allocations of R's. -/
def allocations : Nat → Entry O Unit
  | 0 => pure ()
  | n + 1 => do
    jumpPoint
    allocations n

/-- `R_CheckUserInterrupt`. -/
def checkUserInterrupt : Entry O Unit := jumpPoint

/-- `Rf_allocVector(RAWSXP, n)`. -/
def allocVector (n : Nat) : Entry O Nat := do
  jumpPoint
  native (allocRaw n)

/-- `R_MakeExternalPtr(NULL, tag, R_NilValue)`. -/
def makeExternalPtr (tag : Option StreamTag) : Entry O Nat := do
  jumpPoint
  let i ← look (·.pointers.length)
  change fun H => { H with pointers := H.pointers ++ [{ tag }] }
  return i

/-- `R_RegisterCFinalizerEx`. -/
def registerFinalizer (i : Nat) (kind : ContextKind) : Entry O Unit := do
  jumpPoint
  change fun H => H.setPointer i { H.pointer i with finalizer := some kind }

/-- `R_ExternalPtrAddr`. -/
def address (i : Nat) : Entry O (Option (LiveHandle O)) := look fun H => (H.pointer i).addr

/-- `R_SetExternalPtrAddr`, and what a call has changed of what the address points to. -/
def setAddress (i : Nat) (addr : Option (LiveHandle O)) : Entry O Unit :=
  change fun H => H.setPointer i { H.pointer i with addr }

/-- `result`: six allocations for a list, its names and the status. -/
def result (st : ZucStatus) (value : Sexp) : Entry O NativeResult := do
  allocations 6
  return nativeResult st value

/-- `result`, of an external pointer. -/
def resultPtr (st : ZucStatus) (ptr : Nat) : Entry O (ZucStatus × Option Nat) := do
  allocations 6
  return (st, if st = .ok then some ptr else none)

end Entry

/-! ### Context ownership -/

/-- `zuc_hash_free`, `zuc_hmac_free`, `zuc_aes_free`, `zuc_pkey_free`. -/
def LiveHandle.free : LiveHandle O → Adapter O Unit
  | .hash h => zucHashFree (some h)
  | .hmac h => zucHmacFree (some h)
  | .aes a => zucAesFree (some a)
  | .pkey k => zucPkeyFree (some k)

open Entry

/-- `hash_finalizer`, `hmac_finalizer`, `aes_finalizer`, `pkey_finalizer`. -/
def finalizePtr (ptr : Nat) : Entry O Unit := do
  match ← address ptr with
  | none => return ()
  | some c =>
    native c.free
    setAddress ptr none

/-- `release_ptr`. -/
def releasePtr (ptr : Nat) : Entry O Unit := do
  match ← address ptr with
  | none => return ()
  | some c =>
    setAddress ptr none
    native c.free

/-- An empty pointer with its finalizer, as every entry point makes it first. -/
def ownerPtr (kind : ContextKind) (tag : Option StreamTag) : Entry O Nat := do
  let ptr ← makeExternalPtr tag
  registerFinalizer ptr kind
  return ptr

/-! ### Running them -/

section
variable {σ : Type} {h : Handler (Call O) σ} {H H' : RHeap O} {w w' : World} {s s' : σ}

/-- A step that calls nothing, and then the rest. -/
theorem Entry.bind_some {p : Entry O α} {f : α → Entry O β} {a : α} (hp : p H = pure (some a, H')) :
    (p >>= f) H = f a H' := by
  show Entry.seq p f H = _
  unfold Entry.seq
  rw [hp]
  rfl

theorem Entry.exec_bind {p : Entry O α} {f : α → Entry O β} {a : α}
    (hp : (p H).exec h w s = ⟨(some a, H'), w', s'⟩) :
    ((p >>= f) H).exec h w s = (f a H').exec h w' s' := by
  show (Entry.seq p f H).exec h w s = _
  unfold Entry.seq
  rw [Proc.exec_bind, hp]

theorem Entry.exec_pure (a : α) : ((pure a : Entry O α) H).exec h w s = ⟨(some a, H), w, s⟩ := (rfl)

theorem Entry.exec_native (p : Adapter O α) :
    (native p H).exec h w s =
      ⟨(some (p.exec h w s).value, H), (p.exec h w s).world, (p.exec h w s).env⟩ := by
  unfold native
  rw [Proc.exec_bind, Proc.exec_pure]

end

end Zucrypt
