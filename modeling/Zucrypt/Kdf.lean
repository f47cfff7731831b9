import Zucrypt.Lifetime

/-! # Key derivation

`zuc_kdf.c`: PBKDF2 with HMAC, as one sequence of steps of the backend's key-derivation operation,
each only if those before it succeeded.

The checks come first (`pbkdf2Args`), the steps are carried on by their status (`kdfStep`), and the
operation is aborted at the end on every path.  On a failure the output is wiped (`settlePbkdf2`).

The backend is given a real pointer for an empty password or salt; by value it is the empty byte
string either way. -/
namespace Zucrypt
open Effects ByteMemory

variable {O : Objects}

/-- The algorithm, `none` if it is not a digest of this build. -/
def pbkdf2Hash (hash : ZucAlg) : PsaAlg :=
  if zucIntDigestAvailable hash then zucIntPsaHash hash else .none

/-- The verdict of the checks, given whether the library is ready. -/
def pbkdf2Args (ready : Bool) (hash : ZucAlg)
    (password passwordLen salt saltLen : Nat) (iterations : UInt32) (out outLen : Nat) : ZucStatus :=
  if ready = false then .errNotReady
  else if out = NULL ∨ (password = NULL ∧ passwordLen ≠ 0) ∨ (salt = NULL ∧ saltLen ≠ 0) ∨
      iterations = 0 then .errInvalidArgument
  else if outLen = 0 then .errBadLength
  else if pbkdf2Hash hash = .none then .errUnsupported
  else .ok

/-- One input step, if those before it succeeded. -/
def kdfStep (call : O.Kdf → PsaCall O (PsaStatus × O.Kdf)) (r : PsaStatus × O.Kdf) :
    Adapter O (PsaStatus × O.Kdf) :=
  if r.1 = .success then psa (call r.2) else pure r

/-- The derived bytes, if the steps before succeeded. -/
def kdfOutput (out outLen : Nat) (r : PsaStatus × O.Kdf) : Adapter O (PsaStatus × O.Kdf) := do
  if r.1 = .success then
    let r ← psa (.kdfOutputBytes r.2 outLen)
    writeMem out (r.2.2.take outLen)
    return (r.1, r.2.1)
  else
    return r

/-- The steps of the derivation, and the abort after them. -/
def pbkdf2Run (halg : PsaAlg) (password passwordLen salt saltLen : Nat) (iterations : UInt32)
    (out outLen : Nat) : Adapter O PsaStatus := do
  let r ← psa (.kdfSetup O.kdfInit (.pbkdf2Hmac halg))
  let r ← kdfStep (.kdfInputInteger · .cost iterations.toNat) r
  let saltBytes ← readMem salt saltLen
  let r ← kdfStep (.kdfInputBytes · .salt saltBytes) r
  let passwordBytes ← readMem password passwordLen
  let r ← kdfStep (.kdfInputBytes · .password passwordBytes) r
  let r ← kdfOutput out outLen r
  let _ ← psa (.kdfAbort r.2)
  return r.1

/-- What `zuc_pbkdf2_hmac` does with their result. -/
def settlePbkdf2 (out outLen : Nat) (ps : PsaStatus) : Adapter O ZucStatus := do
  if ps ≠ .success then
    zucSecureZero out outLen
    return zucIntFromPsa ps
  else
    return .ok

/-- `zuc_pbkdf2_hmac`. -/
def zucPbkdf2Hmac (hash : ZucAlg) (password passwordLen salt saltLen : Nat) (iterations : UInt32)
    (out outLen : Nat) : Adapter O ZucStatus := do
  let ready ← zucIntReady
  let st := pbkdf2Args ready hash password passwordLen salt saltLen iterations out outLen
  if st ≠ .ok then
    return st
  else
    let ps ← pbkdf2Run (pbkdf2Hash hash) password passwordLen salt saltLen iterations out outLen
    settlePbkdf2 out outLen ps

theorem zucPbkdf2Hmac_apply (hash : ZucAlg) (password passwordLen salt saltLen : Nat)
    (iterations : UInt32) (out outLen : Nat) (w : World) :
    (zucPbkdf2Hmac hash password passwordLen salt saltLen iterations out outLen : Adapter O _) w =
      let st := pbkdf2Args (decide (0 < w.refcount)) hash password passwordLen salt saltLen
        iterations out outLen
      if st ≠ .ok then .done (st, w)
      else (pbkdf2Run (pbkdf2Hash hash) password passwordLen salt saltLen iterations out outLen >>=
        settlePbkdf2 out outLen) w :=
  Proc.ite_apply _ _ _ w

/-- Arguments that pass have somewhere to write to. -/
theorem pbkdf2Args_out {ready : Bool} {hash : ZucAlg} {password passwordLen salt saltLen : Nat}
    {iterations : UInt32} {out outLen : Nat}
    (hok : pbkdf2Args ready hash password passwordLen salt saltLen iterations out outLen = .ok) :
    out ≠ NULL := by
  rintro rfl
  unfold pbkdf2Args at hok
  rw [if_pos (Or.inl rfl)] at hok
  split at hok <;> simp at hok

end Zucrypt
