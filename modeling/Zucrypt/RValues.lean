import Zucrypt.Lifetime
import Zucrypt.ReferenceBackend

/-! # R objects and conditions

As much of R as the entry points and the functions over them look at.  A raw vector
is a reference to bytes in the memory it shares with native code; its attributes
are R objects again.  An error is a condition with a class, a message and the two
fields `zucrypt_abort` gives it (`R/conditions.R`).

R's allocator answers with fresh memory (`VectorLaws`). -/
namespace Zucrypt
open Effects ByteMemory

/-- An R object. -/
inductive Sexp where
  | null
  | raw (ptr len : Nat) (attrs : List (String × Sexp))
  | list (items : List Sexp)
  | other (className : String)

namespace Sexp

/-- `is.raw`. -/
def isRaw : Sexp → Bool
  | .raw .. => true
  | _ => false

/-- `class(x)[1]`, of objects without a class attribute. -/
def className : Sexp → String
  | .null => "NULL"
  | .raw .. => "raw"
  | .list _ => "list"
  | .other c => c

/-- `RAW`, of a raw vector. -/
def RAW : Sexp → Nat
  | .raw ptr _ _ => ptr
  | _ => NULL

/-- `XLENGTH`, and `length()` of raw vectors. -/
def XLENGTH : Sexp → Nat
  | .raw _ len _ => len
  | _ => 0

/-- The bytes of a raw vector; none for `NULL`. -/
def bytes (m : Memory) (x : Sexp) : List Byte := read m x.RAW x.XLENGTH

def attributes : Sexp → List (String × Sexp)
  | .raw _ _ attrs => attrs
  | _ => []

/-- `attr(x, which)`: the attribute of that name, or else the only one whose name
begins with it. -/
def attr (x : Sexp) (which : String) : Sexp :=
  match x.attributes.lookup which with
  | some v => v
  | none =>
    match x.attributes.filter (fun a => a.1.startsWith which) with
    | [a] => a.2
    | _ => .null

/-- `attr(x, which) <- v`, of a raw vector and `v` other than `NULL`. -/
def setAttr (x : Sexp) (which : String) (v : Sexp) : Sexp :=
  match x with
  | .raw ptr len attrs => .raw ptr len (attrs.filter (fun a => a.1 != which) ++ [(which, v)])
  | _ => x

/-- `x[[i]]`, counted from 0. -/
def item (x : Sexp) (i : Nat) : Sexp :=
  match x with
  | .list items => items.getD i .null
  | _ => .null

end Sexp

/-! ### Conditions -/

/-- A condition `zucrypt_abort` raises, by the first of its classes. -/
structure Condition where
  cls : String
  message : String
  algorithm : Option String
  nativeStatus : Option ZucStatus
  deriving DecidableEq, Repr

/-- `zucrypt_abort`. -/
def zucryptAbort (cls message : String) (algorithm : Option String)
    (nativeStatus : Option ZucStatus) : Condition :=
  ⟨cls, message, algorithm, nativeStatus⟩

/-- The enumerator's name, from `zucrypt_status_codes`. -/
def statusName : ZucStatus → String
  | .ok => "ZUC_OK"
  | .errInvalidArgument => "ZUC_ERR_INVALID_ARGUMENT"
  | .errUnsupported => "ZUC_ERR_UNSUPPORTED"
  | .errBadLength => "ZUC_ERR_BAD_LENGTH"
  | .errOverlap => "ZUC_ERR_OVERLAP"
  | .errMemory => "ZUC_ERR_MEMORY"
  | .errBackend => "ZUC_ERR_BACKEND"
  | .errAbi => "ZUC_ERR_ABI"
  | .errInternal => "ZUC_ERR_INTERNAL"
  | .errNotReady => "ZUC_ERR_NOT_READY"
  | .errEntropy => "ZUC_ERR_ENTROPY"
  | .errAuth => "ZUC_ERR_AUTH"

/-- `zuc_status_class`. -/
def zucStatusClass : ZucStatus → Option String
  | .ok => none
  | .errInvalidArgument => some "zucrypt_invalid_argument"
  | .errUnsupported => some "zucrypt_unsupported_algorithm"
  | .errBadLength => some "zucrypt_bad_length"
  | .errOverlap => some "zucrypt_invalid_argument"
  | .errMemory => some "zucrypt_memory_error"
  | .errBackend => some "zucrypt_backend_error"
  | .errAbi => some "zucrypt_abi_mismatch"
  | .errInternal => some "zucrypt_internal_error"
  | .errNotReady => some "zucrypt_internal_error"
  | .errEntropy => some "zucrypt_entropy_error"
  | .errAuth => some "zucrypt_auth_error"

/-- `abort_native`. -/
def abortNative (status : ZucStatus) (algorithm : Option String) : Condition :=
  match zucStatusClass status with
  | none =>
    -- a success that reached here
    zucryptAbort "zucrypt_internal_error" "The native layer returned an unmapped status (0)."
      algorithm (some status)
  | some cls =>
    zucryptAbort cls ("The cryptographic backend reported " ++ statusName status ++ ".") algorithm
      (some status)

/-- `check_raw`, where a connection is not accepted. -/
def checkRaw (x : Sexp) (arg : String) (algorithm : Option String) : Except Condition Unit :=
  if x.isRaw = false then
    .error (zucryptAbort "zucrypt_invalid_argument"
      ("`" ++ arg ++ "` must be a raw vector, not " ++ x.className ++ ". " ++
        "Use charToRaw() to convert a string deliberately; " ++
        "this package never guesses an encoding, and never " ++
        "treats a string as a file name.") algorithm none)
  else
    .ok ()

theorem checkRaw_ok {x : Sexp} (hx : x.isRaw = true) (arg : String) (algorithm : Option String) :
    checkRaw x arg algorithm = .ok () := by
  rw [checkRaw, if_neg (by simp [hx])]

/-- What a native entry point returns: `list(status =, value =)`. -/
structure NativeResult where
  status : ZucStatus
  value : Sexp

/-- `result`, whose value is `NULL` after a failure. -/
def nativeResult (status : ZucStatus) (value : Sexp) : NativeResult :=
  ⟨status, if status = .ok then value else .null⟩

/-! ### R's memory -/

variable {O : Objects} {σ : Type}

/-- Where it has room, R's allocator gives new vectors memory that no live vector
has a part of. -/
structure VectorLaws (h : Handler (Call O) σ) where
  /-- there is a live vector of that address and length -/
  live : σ → Nat → Nat → Prop
  /-- there is room for so many bytes more -/
  room : σ → Nat → Prop
  alloc : ∀ s n k, room s (n + k) → ValidBuffer (h _ (.allocRaw n) s).1 n ∧
    (∀ p m, live s p m → Apart (h _ (.allocRaw n) s).1 n p m) ∧
    live (h _ (.allocRaw n) s).2 (h _ (.allocRaw n) s).1 n ∧
    (∀ p m, live s p m → live (h _ (.allocRaw n) s).2 p m) ∧
    room (h _ (.allocRaw n) s).2 k

/-- A raw vector R knows of. -/
def VectorLaws.Holds {h : Handler (Call O) σ} (V : VectorLaws h) (s : σ) (x : Sexp) : Prop :=
  x.isRaw = true ∧ ValidBuffer x.RAW x.XLENGTH ∧ V.live s x.RAW x.XLENGTH

/-- The reference backend hands out one vector after another. -/
def referenceVectorLaws (P : Primitives) : VectorLaws (referenceBackend P) where
  live s p n := p + n ≤ s.nextPtr
  room s n := 0 < s.nextPtr ∧ s.nextPtr + n < sizeMax1
  alloc s n k hroom := by
    obtain ⟨hpos, hmax⟩ := hroom
    refine ⟨⟨?_, ?_⟩, fun p m hlive => Or.inr (Or.inl hlive), Nat.le_refl _, fun p m hlive => ?_, ?_⟩
    · exact Nat.ne_of_gt hpos
    · exact Nat.lt_of_le_of_lt (Nat.add_le_add_left (Nat.le_add_right n k) _) hmax
    · exact Nat.le_trans hlive (Nat.le_add_right _ _)
    · exact ⟨Nat.add_pos_left hpos n, by rwa [← Nat.add_assoc] at hmax⟩

end Zucrypt
