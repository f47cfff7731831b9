import Zucrypt.KeySlots
import Zucrypt.Backend

/-! # Backends with the vendored key store

An `Engine` is all of a backend but its key store: what it makes of key material, how it answers the
other calls, given the key they name, and where memory comes from.  It has a state of its own, of
which nothing is said; ending an operation, destroying a key and giving memory back do not touch it.
`slotBackend` puts the vendored key store beside it.  Every key has one identifier, that of its
slot, and shutting the backend down leaves no key.

A call is given the key that its identifier stands for at the time, or none, and so the engine
cannot tell two keys apart that had one identifier after each other.  That is the behaviour stale
handles are about; and that it makes no difference to callers who keep to their own keys is
`KeyService`. -/
namespace Zucrypt
open Effects ByteMemory KeySlots

/-- A status other than success. -/
abbrev PsaFailure : Type := { status : PsaStatus // status ≠ .success }

/-- What came of making a key. -/
structure KeyMade (M ρ : Type) where
  key : Except PsaFailure M
  allocFailed : Bool
  rest : ρ

variable {O : Objects} {M ρ α : Type}

/-- The key a call names. -/
def PsaCall.key : PsaCall O α → Option KeyId
  | .macSignSetup _ id _ => some id
  | .macCompute id .. => some id
  | .getKeyAttributes id => some id
  | .exportKey id _ => some id
  | .exportPublicKey id _ => some id
  | .cipherEncryptSetup _ id _ => some id
  | .cipherDecryptSetup _ id _ => some id
  | .aeadEncryptSetup _ id _ => some id
  | .aeadDecryptSetup _ id _ => some id
  | .signHash id .. => some id
  | .verifyHash id .. => some id
  | .asymmetricEncrypt id .. => some id
  | .asymmetricDecrypt id .. => some id
  | .rawKeyAgreement _ id .. => some id
  | .pkCopyPublicFromPsa id _ => some id
  | _ => none

/-- A backend without its key store. -/
structure Engine (O : Objects) (M ρ : Type) where
  start : ρ → PsaStatus × ρ
  stop : ρ → ρ
  importKey : PsaKeyAttributes → List Byte → ρ → KeyMade M ρ
  generateKey : PsaKeyAttributes → ρ → KeyMade M ρ
  importPk : O.Pk → PsaKeyAttributes → ρ → KeyMade M ρ
  hashAbort : O.Hash → O.Hash
  macAbort : O.Mac → O.Mac
  /-- every other call, with the key it names, if there is one -/
  serve : {α : Type} → PsaCall O α → Option M → ρ → Reply α × ρ
  record : Record → ρ → Option Nat × ρ
  block : Nat → ρ → Option Nat × ρ
  vector : Nat → ρ → Nat × ρ

/-- A backend's state: its keys, and the rest. -/
structure SlotState (M ρ : Type) where
  slots : Store M
  rest : ρ

namespace SlotState

/-- The key that was made goes to the first free slot. -/
def accept (s : SlotState M ρ) (made : KeyMade M ρ) : Reply (PsaStatus × KeyId) × SlotState M ρ :=
  match made.key with
  | .error status => (⟨(status.1, 0), made.allocFailed⟩, { s with rest := made.rest })
  | .ok m =>
    match s.slots.insert m with
    | some (id, slots) => (⟨(.success, id), made.allocFailed⟩, ⟨slots, made.rest⟩)
    | none => (⟨(.errorInsufficientMemory, 0), made.allocFailed⟩, { s with rest := made.rest })

/-- The key a call names. -/
def named (s : SlotState M ρ) (c : PsaCall O α) : Option M := c.key.bind s.slots.find

end SlotState

namespace Engine

/-- One call of the backend. -/
def psa (E : Engine O M ρ) : {α : Type} → PsaCall O α → SlotState M ρ → Reply α × SlotState M ρ
  | _, .cryptoInit, s => (⟨(E.start s.rest).1, false⟩, { s with rest := (E.start s.rest).2 })
  | _, .cryptoFree, s => (⟨(), false⟩, ⟨.empty, E.stop s.rest⟩)
  | _, .importKey attr data, s => s.accept (E.importKey attr data s.rest)
  | _, .generateKey attr, s => s.accept (E.generateKey attr s.rest)
  | _, .pkImportIntoPsa pk attr, s => s.accept (E.importPk pk attr s.rest)
  | _, .destroyKey id, s => (⟨(), false⟩, { s with slots := s.slots.remove id })
  | _, .hashAbort op, s => (⟨E.hashAbort op, false⟩, s)
  | _, .macAbort op, s => (⟨E.macAbort op, false⟩, s)
  | _, c, s => ((E.serve c (s.named c) s.rest).1, { s with rest := (E.serve c (s.named c) s.rest).2 })

end Engine

/-- The engine with the vendored key store. -/
def slotBackend (E : Engine O M ρ) : Handler (Call O) (SlotState M ρ)
  | _, .psa c, s => E.psa c s
  | _, .calloc what, s => ((E.record what s.rest).1, { s with rest := (E.record what s.rest).2 })
  | _, .malloc n, s => ((E.block n s.rest).1, { s with rest := (E.block n s.rest).2 })
  | _, .freeRecord .., s => ((), s)
  | _, .freeBytes _, s => ((), s)
  | _, .dropLocal _, s => ((), s)
  | _, .allocRaw n, s => ((E.vector n s.rest).1, { s with rest := (E.vector n s.rest).2 })

end Zucrypt
