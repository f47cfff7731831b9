import Mathlib.Algebra.Ring.Nat
import Zucrypt.Effects
import Zucrypt.ByteMemory
import Zucrypt.Status

/-! # The backend as the adapter sees it

Everything the adapter does beyond its own memory it does by calling out: to the
PSA interface of the vendored backend, to the backend's key-file layer, and to
the C library's allocator.  `PsaCall` lists the backend functions the adapter
calls, each with the arguments it passes by value, and `PsaCall.Answer` says
what each gives back: its status, the new state of the operation object passed
by reference, and what it left in the caller's buffers.

Arguments and local variables are passed by value; what a pointer argument
points to is either in `World.mem` (byte buffers) or passed in and handed back
(handles, operation objects, `size_t` cells).

The operation objects are opaque to the adapter, which only initialises them and
passes them on, so their types are parameters (`Objects`).

`World` is what the adapter's functions share with their caller: the caller's
memory and the three static variables of the adapter.  An `Adapter` procedure is
one C function, over any backend. -/
namespace Zucrypt
open Effects ByteMemory

/-- The null pointer; every other address is a number above it. -/
def NULL : Nat := 0

/-- One more than the largest `size_t` and `uintptr_t`. -/
def sizeMax1 : Nat := 2 ^ 64

/-- Subtraction of `size_t` values, which wraps. -/
def sizeSub (a b : Nat) : Nat := (a + (sizeMax1 - b % sizeMax1)) % sizeMax1

/-- Addition of `size_t` or `uintptr_t` values, which wraps. -/
def sizeAdd (a b : Nat) : Nat := (a + b) % sizeMax1

theorem sizeSub_of_le {a b : Nat} (h : b ≤ a) : sizeSub a b = (a - b) % sizeMax1 := by
  unfold sizeSub sizeMax1
  omega

theorem sizeSub_le {a b : Nat} (h : b ≤ a) : sizeSub a b ≤ a - b :=
  sizeSub_of_le h ▸ Nat.mod_le _ _

theorem sizeAdd_lt (a b : Nat) : sizeAdd a b < sizeMax1 := Nat.mod_lt _ (by decide)

/-- A `size_t *` argument: `none` for `NULL`, otherwise what it points to. -/
abbrev SizeCell : Type := Option Nat

/-- `*cell = n`, where the pointer is not `NULL`. -/
def SizeCell.store (cell : SizeCell) (n : Nat) : SizeCell := cell.map (fun _ => n)

@[simp] theorem SizeCell.store_eq_none {cell : SizeCell} {n : Nat} :
    cell.store n = none ↔ cell = none := Option.map_eq_none_iff

/-- `psa_key_id_t`. -/
abbrev KeyId : Type := Nat

/-- `psa_ecc_family_t`. -/
inductive PsaEccFamily where
  | secpR1
  | montgomery
  | other (value : Nat)
  deriving DecidableEq, Repr

/-- `psa_key_type_t`, of which `none` is 0. -/
inductive PsaKeyType where
  | none
  | hmac
  | aes
  | rsaKeyPair
  | rsaPublicKey
  | eccKeyPair (family : PsaEccFamily)
  | eccPublicKey (family : PsaEccFamily)
  | other (value : Nat)
  deriving DecidableEq, Repr

/-- One flag of `psa_key_usage_t`. -/
inductive PsaKeyUsage where
  | exportable
  | encrypt
  | decrypt
  | signMessage
  | signHash
  | verifyHash
  | derive
  deriving DecidableEq, Repr

/-- `psa_key_attributes_t`: what the adapter sets or reads of it. -/
structure PsaKeyAttributes where
  type : PsaKeyType := .none
  bits : Nat := 0
  alg : PsaAlg := .none
  usage : List PsaKeyUsage := []
  deriving DecidableEq, Repr

/-- What a call left in a buffer of the caller, from its start, and what the
length cell that goes with it, 0 before the call, holds afterwards. -/
structure Output where
  bytes : List Byte
  len : Nat
  deriving DecidableEq, Repr

/-- The bytes the call says it produced. -/
def Output.reported (o : Output) : List Byte := o.bytes.take o.len

/-- The backend's operation objects and its key-file context, with the values
their initialisers give. -/
structure Objects where
  Hash : Type
  Mac : Type
  Cipher : Type
  Aead : Type
  Kdf : Type
  Pk : Type
  hashInit : Hash
  macInit : Mac
  cipherInit : Cipher
  aeadInit : Aead
  kdfInit : Kdf
  pkInit : Pk

/-- The step of `psa_key_derivation_input_*` the adapter names. -/
inductive PsaKdfStep where
  | cost
  | salt
  | password
  deriving DecidableEq, Repr

variable {O : Objects}

/-- The backend functions the adapter calls, and what each gives back. -/
inductive PsaCall (O : Objects) : Type → Type where
  | cryptoInit : PsaCall O PsaStatus
  | cryptoFree : PsaCall O Unit
  | hashSetup (op : O.Hash) (alg : PsaAlg) : PsaCall O (PsaStatus × O.Hash)
  | hashUpdate (op : O.Hash) (input : List Byte) : PsaCall O (PsaStatus × O.Hash)
  | hashFinish (op : O.Hash) (hashSize : Nat) : PsaCall O (PsaStatus × O.Hash × Output)
  | hashAbort (op : O.Hash) : PsaCall O (O.Hash)
  | hashCompute (alg : PsaAlg) (input : List Byte) (hashSize : Nat) : PsaCall O (PsaStatus × Output)
  | macSignSetup (op : O.Mac) (key : KeyId) (alg : PsaAlg) : PsaCall O (PsaStatus × O.Mac)
  | macUpdate (op : O.Mac) (input : List Byte) : PsaCall O (PsaStatus × O.Mac)
  | macSignFinish (op : O.Mac) (macSize : Nat) : PsaCall O (PsaStatus × O.Mac × Output)
  | macAbort (op : O.Mac) : PsaCall O (O.Mac)
  | macCompute (key : KeyId) (alg : PsaAlg) (input : List Byte) (macSize : Nat) : PsaCall O (PsaStatus × Output)
  | importKey (attr : PsaKeyAttributes) (data : List Byte) : PsaCall O (PsaStatus × KeyId)
  | destroyKey (key : KeyId) : PsaCall O Unit
  | getKeyAttributes (key : KeyId) : PsaCall O (PsaStatus × PsaKeyAttributes)
  | exportKey (key : KeyId) (dataSize : Nat) : PsaCall O (PsaStatus × Output)
  | exportPublicKey (key : KeyId) (dataSize : Nat) : PsaCall O (PsaStatus × Output)
  | generateKey (attr : PsaKeyAttributes) : PsaCall O (PsaStatus × KeyId)
  | cipherEncryptSetup (op : O.Cipher) (key : KeyId) (alg : PsaAlg) : PsaCall O (PsaStatus × O.Cipher)
  | cipherDecryptSetup (op : O.Cipher) (key : KeyId) (alg : PsaAlg) : PsaCall O (PsaStatus × O.Cipher)
  | cipherSetIv (op : O.Cipher) (iv : List Byte) : PsaCall O (PsaStatus × O.Cipher)
  | cipherUpdate (op : O.Cipher) (input : List Byte) (outputSize : Nat) : PsaCall O (PsaStatus × O.Cipher × Output)
  | cipherFinish (op : O.Cipher) (outputSize : Nat) : PsaCall O (PsaStatus × O.Cipher × Output)
  | cipherAbort (op : O.Cipher) : PsaCall O (O.Cipher)
  | aeadEncryptSetup (op : O.Aead) (key : KeyId) (alg : PsaAlg) : PsaCall O (PsaStatus × O.Aead)
  | aeadDecryptSetup (op : O.Aead) (key : KeyId) (alg : PsaAlg) : PsaCall O (PsaStatus × O.Aead)
  | aeadSetNonce (op : O.Aead) (nonce : List Byte) : PsaCall O (PsaStatus × O.Aead)
  | aeadUpdateAd (op : O.Aead) (input : List Byte) : PsaCall O (PsaStatus × O.Aead)
  | aeadUpdate (op : O.Aead) (input : List Byte) (outputSize : Nat) : PsaCall O (PsaStatus × O.Aead × Output)
  | aeadFinish (op : O.Aead) (ciphertextSize tagSize : Nat) : PsaCall O (PsaStatus × O.Aead × Output × Output)
  | aeadVerify (op : O.Aead) (plaintextSize : Nat) (tag : List Byte) : PsaCall O (PsaStatus × O.Aead × Output)
  | aeadAbort (op : O.Aead) : PsaCall O (O.Aead)
  | kdfSetup (op : O.Kdf) (alg : PsaAlg) : PsaCall O (PsaStatus × O.Kdf)
  | kdfInputInteger (op : O.Kdf) (step : PsaKdfStep) (value : Nat) : PsaCall O (PsaStatus × O.Kdf)
  | kdfInputBytes (op : O.Kdf) (step : PsaKdfStep) (data : List Byte) : PsaCall O (PsaStatus × O.Kdf)
  | kdfOutputBytes (op : O.Kdf) (outputLength : Nat) : PsaCall O (PsaStatus × O.Kdf × List Byte)
  | kdfAbort (op : O.Kdf) : PsaCall O (O.Kdf)
  | signHash (key : KeyId) (alg : PsaAlg) (hash : List Byte) (signatureSize : Nat) : PsaCall O (PsaStatus × Output)
  | verifyHash (key : KeyId) (alg : PsaAlg) (hash signature : List Byte) : PsaCall O PsaStatus
  | asymmetricEncrypt (key : KeyId) (alg : PsaAlg) (input : List Byte) (outputSize : Nat) : PsaCall O (PsaStatus × Output)
  | asymmetricDecrypt (key : KeyId) (alg : PsaAlg) (input : List Byte) (outputSize : Nat) : PsaCall O (PsaStatus × Output)
  | rawKeyAgreement (alg : PsaAlg) (key : KeyId) (peer : List Byte) (outputSize : Nat) : PsaCall O (PsaStatus × Output)
  | pkParseKey (pk : O.Pk) (input : List Byte) : PsaCall O (PsaStatus × O.Pk)
  | pkParsePublicKey (pk : O.Pk) (input : List Byte) : PsaCall O (PsaStatus × O.Pk)
  | pkGetPsaAttributes (pk : O.Pk) (usage : PsaKeyUsage) : PsaCall O (PsaStatus × PsaKeyAttributes)
  | pkGetBitlen (pk : O.Pk) : PsaCall O Nat
  | pkWritePubkeyPsa (pk : O.Pk) (size : Nat) : PsaCall O (PsaStatus × Output)
  | pkImportIntoPsa (pk : O.Pk) (attr : PsaKeyAttributes) : PsaCall O (PsaStatus × KeyId)
  | pkCopyPublicFromPsa (key : KeyId) (pk : O.Pk) : PsaCall O (PsaStatus × O.Pk)
  | pkWritePubkeyDer (pk : O.Pk) (size : Nat) : PsaCall O (Except PsaStatus (List Byte))
  | pkFree (pk : O.Pk) : PsaCall O Unit
  | pemWriteBuffer (header footer : String) (der : List Byte) (size : Nat) : PsaCall O (PsaStatus × Output)

/-- A structure the adapter allocates with `calloc(1, sizeof *p)`. -/
inductive Record where
  | zucHash
  | zucHmac
  | zucAes
  | zucPkey
  deriving DecidableEq, Repr

/-- A block from `malloc`: a cell is `none` until something is stored there, and
`overrun` records an access outside the block. -/
structure HeapBuf where
  ptr : Nat
  cells : List (Option Byte)
  overrun : Bool := false
  deriving DecidableEq, Repr

namespace HeapBuf

/-- A block of `n` bytes, as `malloc` returns it. -/
def fresh (p : Nat) (n : Nat) : HeapBuf := { ptr := p, cells := List.replicate n none }

/-- The number of bytes allocated. -/
def size (b : HeapBuf) : Nat := b.cells.length

/-- Store `bs` at offset `off`. -/
def store (b : HeapBuf) (off : Nat) (bs : List Byte) : HeapBuf :=
  { b with
    cells := b.cells.take off ++ (bs.map some).take (b.cells.length - off) ++
      b.cells.drop (off + bs.length)
    overrun := b.overrun || decide (b.cells.length < off + bs.length) }

/-- The first `n` bytes; an unset cell reads as 0. -/
def bytes (b : HeapBuf) (n : Nat) : List Byte := (b.cells.take n).map (fun c => c.getD 0)

end HeapBuf

/-- A backend function's answer, and whether an allocation of nonzero size
failed inside it (`zuc_int_calloc` is the backend's allocator). -/
structure Reply (α : Type) where
  answer : α
  allocFailed : Bool

/-- What the adapter, and the R entry points above it, call out to; `none` is a
`NULL` from the allocator.  `dropLocal` is not a call: it marks where a local array
that held a secret goes out of scope, and what is in it then. -/
inductive Call (O : Objects) : Type → Type 1 where
  | psa {α : Type} (c : PsaCall O α) : Call O (Reply α)
  | calloc (what : Record) : Call O (Option Nat)
  | malloc (n : Nat) : Call O (Option Nat)
  | freeRecord (what : Record) (p : Nat) : Call O Unit
  | freeBytes (b : HeapBuf) : Call O Unit
  | dropLocal (bs : List Byte) : Call O Unit
  /-- `Rf_allocVector(RAWSXP, n)`, answered by where the vector's bytes are -/
  | allocRaw (n : Nat) : Call O Nat

/-- The caller's memory, and the adapter's static variables. -/
structure World where
  mem : Memory
  /-- `zuc_refcount` -/
  refcount : UInt32
  /-- `zuc_live` -/
  live : Int
  /-- `alloc_failed` -/
  allocFailed : Bool

/-- A function of the adapter. -/
abbrev Adapter (O : Objects) : Type → Type 1 := Proc (Call O) World

namespace World

/-- An allocation failure inside the backend sets `alloc_failed`. -/
def noteAlloc (w : World) (failed : Bool) : World :=
  { w with allocFailed := w.allocFailed || failed }

/-- Store `bs` at `p` in the caller's memory. -/
def store (w : World) (p : Nat) (bs : List Byte) : World := { w with mem := write w.mem p bs }

@[simp] theorem noteAlloc_mem (w : World) (b : Bool) : (w.noteAlloc b).mem = w.mem := rfl

@[simp] theorem noteAlloc_refcount (w : World) (b : Bool) :
    (w.noteAlloc b).refcount = w.refcount := rfl

@[simp] theorem noteAlloc_live (w : World) (b : Bool) : (w.noteAlloc b).live = w.live := rfl

@[simp] theorem noteAlloc_false (w : World) : w.noteAlloc false = w := by
  simp [noteAlloc]

@[simp] theorem noteAlloc_noteAlloc (w : World) (a b : Bool) :
    (w.noteAlloc a).noteAlloc b = w.noteAlloc (a || b) := by
  simp [noteAlloc, Bool.or_assoc]

@[simp] theorem store_mem (w : World) (p : Nat) (bs : List Byte) :
    (w.store p bs).mem = write w.mem p bs := rfl

@[simp] theorem store_refcount (w : World) (p : Nat) (bs : List Byte) :
    (w.store p bs).refcount = w.refcount := rfl

@[simp] theorem store_live (w : World) (p : Nat) (bs : List Byte) :
    (w.store p bs).live = w.live := rfl

@[simp] theorem store_allocFailed (w : World) (p : Nat) (bs : List Byte) :
    (w.store p bs).allocFailed = w.allocFailed := rfl

end World

/-! ### The steps adapter functions are made of -/

/-- Call a backend function. -/
def psa {α : Type} (c : PsaCall O α) : Adapter O α := do
  let r ← Proc.perform (.psa c)
  Proc.update (·.noteAlloc r.allocFailed)
  return r.answer

/-- `calloc(1, sizeof *p)`. -/
def callocRecord (what : Record) : Adapter O (Option Nat) := Proc.perform (.calloc what)

/-- `free` of a structure. -/
def freeRecord (what : Record) (p : Nat) : Adapter O Unit := Proc.perform (.freeRecord what p)

/-- `malloc(n)`. -/
def mallocBytes (n : Nat) : Adapter O (Option HeapBuf) := do
  let p ← Proc.perform (.malloc n)
  return p.map (fun p => .fresh p n)

/-- `free` of a byte buffer. -/
def freeBytes (b : HeapBuf) : Adapter O Unit := Proc.perform (.freeBytes b)

/-- The end of a local array's scope. -/
def dropLocal (bs : List Byte) : Adapter O Unit := Proc.perform (.dropLocal bs)

/-- A new raw vector of `n` bytes. -/
def allocRaw (n : Nat) : Adapter O Nat := Proc.perform (.allocRaw n)

/-- The `n` bytes the caller has at `p`. -/
def readMem (p : Nat) (n : Nat) : Adapter O (List Byte) := do
  let w ← Proc.read
  return read w.mem p n

/-- `memcpy(p, bs, ...)` into the caller's memory. -/
def writeMem (p : Nat) (bs : List Byte) : Adapter O Unit := Proc.update (·.store p bs)

/-- What a backend function left in the caller's buffer of `size` bytes at `p`;
it never writes past the size it was given. -/
def writeOutput (p : Nat) (size : Nat) (o : Output) : Adapter O Unit :=
  writeMem p (o.bytes.take size)

/-! ### Running against one backend -/

section
variable {σ α : Type} (h : Handler (Call O) σ) (w : World) (s : σ)

/-- What the backend answers to `c`. -/
def answer (c : PsaCall O α) (s : σ) : α := (h _ (.psa c) s).1.answer

/-- Whether an allocation failed while it did. -/
def allocFails (c : PsaCall O α) (s : σ) : Bool := (h _ (.psa c) s).1.allocFailed

/-- The backend's state after `c`. -/
def next (c : PsaCall O α) (s : σ) : σ := (h _ (.psa c) s).2

@[simp] theorem exec_psa (c : PsaCall O α) :
    (psa c).exec h w s = ⟨answer h c s, w.noteAlloc (allocFails h c s), next h c s⟩ := (rfl)

@[simp] theorem exec_readMem (p n : Nat) :
    (readMem p n : Adapter O _).exec h w s = ⟨read w.mem p n, w, s⟩ := (rfl)

@[simp] theorem exec_writeMem (p : Nat) (bs : List Byte) :
    (writeMem p bs : Adapter O _).exec h w s = ⟨(), w.store p bs, s⟩ := (rfl)

@[simp] theorem exec_writeOutput (p n : Nat) (o : Output) :
    (writeOutput p n o : Adapter O _).exec h w s = ⟨(), w.store p (o.bytes.take n), s⟩ := (rfl)

@[simp] theorem exec_callocRecord (what : Record) :
    (callocRecord what).exec h w s = ⟨(h _ (.calloc what) s).1, w, (h _ (.calloc what) s).2⟩ := (rfl)

@[simp] theorem exec_mallocBytes (n : Nat) :
    (mallocBytes n).exec h w s =
      ⟨(h _ (.malloc n) s).1.map (fun p => HeapBuf.fresh p n), w, (h _ (.malloc n) s).2⟩ := (rfl)

@[simp] theorem exec_freeRecord (what : Record) (p : Nat) :
    (freeRecord what p).exec h w s = ⟨(), w, (h _ (.freeRecord what p) s).2⟩ := (rfl)

@[simp] theorem exec_freeBytes (b : HeapBuf) :
    (freeBytes b).exec h w s = ⟨(), w, (h _ (.freeBytes b) s).2⟩ := (rfl)

@[simp] theorem exec_allocRaw (n : Nat) :
    (allocRaw n).exec h w s = ⟨(h _ (.allocRaw n) s).1, w, (h _ (.allocRaw n) s).2⟩ := (rfl)

@[simp] theorem exec_dropLocal (bs : List Byte) :
    (dropLocal bs).exec h w s = ⟨(), w, (h _ (.dropLocal bs) s).2⟩ := (rfl)

end

/-! ### Running against any backend -/

section
variable {α : Type} {ok : Event (Call O) → Prop} {w : World}

theorem ensures_psa {c : PsaCall O α} {Q : List (Event (Call O)) → α → World → Prop} :
    Ensures ok (psa c) w Q ↔
      ∀ r, ok ⟨.psa c, r⟩ → Q [⟨.psa c, r⟩] r.answer (w.noteAlloc r.allocFailed) := by
  simp only [psa, Ensures.bind_iff, Ensures.update_iff, Ensures.pure_iff, List.append_nil,
    Ensures.perform_iff]

theorem ensures_readMem {p n : Nat} {Q : List (Event (Call O)) → List Byte → World → Prop} :
    Ensures ok (readMem p n) w Q ↔ Q [] (read w.mem p n) w := by
  simp only [readMem, Ensures.bind_iff, Ensures.read_iff, Ensures.pure_iff, List.append_nil]

theorem ensures_writeMem {p : Nat} {bs : List Byte}
    {Q : List (Event (Call O)) → Unit → World → Prop} :
    Ensures ok (writeMem p bs) w Q ↔ Q [] () (w.store p bs) :=
  Ensures.update_iff

theorem ensures_writeOutput {p n : Nat} {o : Output}
    {Q : List (Event (Call O)) → Unit → World → Prop} :
    Ensures ok (writeOutput p n o) w Q ↔ Q [] () (w.store p (o.bytes.take n)) :=
  Ensures.update_iff

end

end Zucrypt
