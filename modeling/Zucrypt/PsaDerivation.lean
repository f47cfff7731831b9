import Zucrypt.HashLaws
import Zucrypt.Machine
import Zucrypt.PasswordDerivation
import Zucrypt.PsaOneShot

/-! # The vendored key derivation

The `psa_key_derivation_*` functions of the vendored `psa_crypto.c`, of PBKDF2 with HMAC, which is
the only derivation of this build.  An operation takes its inputs in one order and then gives out
bytes, block by block; what it has left of a block it keeps for the next call.

A failed input or output aborts the operation; `psa_key_derivation_output_bytes` leaves it its
algorithm, so that it can be told from a blank one.

The first link of a block is made with the multipart MAC of `PsaMultipart`, and each after it by the
driver's one-shot MAC.  The driver is any, and so is the pattern of failures in it. -/
namespace Zucrypt
open Effects ByteMemory KeyedHash PasswordDerivation

/-- `PSA_HMAC_MAX_HASH_BLOCK_SIZE`. -/
def PSA_HMAC_MAX_HASH_BLOCK_SIZE : Nat := 128

/-- `PSA_MAC_MAX_SIZE`, and `PSA_HASH_MAX_SIZE`. -/
def PSA_MAC_MAX_SIZE : Nat := 64

/-- `PSA_VENDOR_PBKDF2_MAX_ITERATIONS`. -/
def PSA_VENDOR_PBKDF2_MAX_ITERATIONS : Nat := 0xffffffff

/-- An array once bytes have been stored from its start. -/
def overwrite (array bs : List Byte) : List Byte := bs.take array.length ++ array.drop bs.length

/-- `psa_pbkdf2_key_derivation_state_t`. -/
inductive PsaPbkdf2State where
  | init
  | inputCostSet
  | saltSet
  | passwordSet
  | output
  deriving DecidableEq, Repr

/-- `psa_pbkdf2_key_derivation_t`. -/
structure PsaPbkdf2 where
  state : PsaPbkdf2State := .init
  inputCost : Nat := 0
  salt : List Byte := []
  password : List Byte := List.replicate PSA_HMAC_MAX_HASH_BLOCK_SIZE 0
  passwordLength : Nat := 0
  outputBlock : List Byte := List.replicate PSA_MAC_MAX_SIZE 0
  bytesUsed : Nat := 0
  blockNumber : UInt32 := 0

/-- `psa_key_derivation_operation_t`; its default is the blank operation. -/
structure PsaKdfOperation where
  alg : PsaAlg := .none
  capacity : Nat := 0
  ctx : PsaPbkdf2 := {}

section
variable {δ HC MC : Type} (D : OneShotDriver δ HC MC)

/-! ### Setting up -/

/-- `psa_hash_try_support`. -/
def psaHashTrySupport (alg : PsaAlg) (s : δ) : PsaStatus × δ :=
  let r := psaHashSetup D.toDriver ⟨0, D.hashCtx⟩ alg s
  let a := psaHashAbort D.toDriver r.1.2 r.2
  (r.1.1, a.2)

/-- `psa_key_derivation_abort`: whatever the operation was, it is blank then. -/
def psaKdfAbort (_op : PsaKdfOperation) : PsaKdfOperation := {}

/-- `psa_key_derivation_setup`, with `psa_key_derivation_setup_kdf` and
`psa_key_derivation_set_maximum_capacity`. -/
def psaKdfSetup (op : PsaKdfOperation) (alg : PsaAlg) (s : δ) : (PsaStatus × PsaKdfOperation) × δ :=
  if op.alg ≠ .none then
    ((.errorBadState, op), s)
  else
    match alg with
    | .pbkdf2Hmac halg =>
      if psaHashLength halg = 0 then
        ((.errorNotSupported, { op with ctx := {} }), s)
      else
        let r := psaHashTrySupport D halg s
        if r.1 ≠ .success then
          ((r.1, { op with ctx := {} }), r.2)
        else
          ((.success, ⟨alg, 4294967295 * psaHashLength halg, {}⟩), r.2)
    | _ => ((.errorInvalidArgument, op), s)

/-! ### Inputs -/

/-- `psa_pbkdf2_set_input_cost`. -/
def psaPbkdf2SetInputCost (ctx : PsaPbkdf2) (step : PsaKdfStep) (data : Nat) : PsaStatus × PsaPbkdf2 :=
  if step ≠ .cost then
    (.errorInvalidArgument, ctx)
  else if ctx.state ≠ .init then
    (.errorBadState, ctx)
  else if PSA_VENDOR_PBKDF2_MAX_ITERATIONS < data then
    (.errorNotSupported, ctx)
  else if data = 0 then
    (.errorInvalidArgument, ctx)
  else
    (.success, { ctx with inputCost := data, state := .inputCostSet })

/-- `psa_key_derivation_input_integer`. -/
def psaKdfInputInteger (op : PsaKdfOperation) (step : PsaKdfStep) (value : Nat) :
    PsaStatus × PsaKdfOperation :=
  match op.alg with
  | .pbkdf2Hmac _ =>
    let r := psaPbkdf2SetInputCost op.ctx step value
    if r.1 ≠ .success then (r.1, psaKdfAbort op) else (.success, { op with ctx := r.2 })
  | .none => (.errorBadState, psaKdfAbort op)
  | _ => (.errorInvalidArgument, psaKdfAbort op)

/-- `psa_pbkdf2_set_salt`: a salt may be given in pieces. -/
def psaPbkdf2SetSalt (ctx : PsaPbkdf2) (data : List Byte) (s : δ) : (PsaStatus × PsaPbkdf2) × δ :=
  if ctx.state ≠ .inputCostSet ∧ ctx.state ≠ .saltSet then
    ((.errorBadState, ctx), s)
  else if data.length = 0 then
    ((.success, { ctx with state := .saltSet }), s)
  else
    let c := D.alloc s
    if c.1 then
      ((.errorInsufficientMemory, { ctx with state := .saltSet }), c.2)
    else
      ((.success, { ctx with state := .saltSet, salt := ctx.salt ++ data }), c.2)

/-- `psa_pbkdf2_hmac_set_password`: the key of the HMAC is a whole block, or the hash of what
is longer. -/
def psaPbkdf2HmacSetPassword (halg : PsaAlg) (ctx : PsaPbkdf2) (input : List Byte) (s : δ) :
    (PsaStatus × PsaPbkdf2) × δ :=
  if psaHashBlockLength halg < input.length then
    let r := psaHashCompute D halg input PSA_HMAC_MAX_HASH_BLOCK_SIZE s
    ((r.1.1, { ctx with password := overwrite ctx.password r.1.2.bytes, passwordLength := r.1.2.len }),
      r.2)
  else
    ((.success, { ctx with password := overwrite ctx.password input,
                           passwordLength := psaHashBlockLength halg }), s)

/-- `psa_pbkdf2_set_password`. -/
def psaPbkdf2SetPassword (halg : PsaAlg) (ctx : PsaPbkdf2) (data : List Byte) (s : δ) :
    (PsaStatus × PsaPbkdf2) × δ :=
  if ctx.state ≠ .saltSet then
    ((.errorBadState, ctx), s)
  else
    let r := psaPbkdf2HmacSetPassword D halg ctx data s
    ((r.1.1, { r.1.2 with state := .passwordSet }), r.2)

/-- `psa_pbkdf2_input`. -/
def psaPbkdf2Input (halg : PsaAlg) (ctx : PsaPbkdf2) (step : PsaKdfStep) (data : List Byte) (s : δ) :
    (PsaStatus × PsaPbkdf2) × δ :=
  match step with
  | .salt => psaPbkdf2SetSalt D ctx data s
  | .password => psaPbkdf2SetPassword D halg ctx data s
  | .cost => ((.errorInvalidArgument, ctx), s)

/-- `psa_key_derivation_input_internal`. -/
def psaKdfInputInternal (op : PsaKdfOperation) (step : PsaKdfStep) (data : List Byte) (s : δ) :
    (PsaStatus × PsaKdfOperation) × δ :=
  match op.alg with
  | .pbkdf2Hmac halg =>
    let r := psaPbkdf2Input D halg op.ctx step data s
    if r.1.1 ≠ .success then
      ((r.1.1, psaKdfAbort op), r.2)
    else
      ((.success, { op with ctx := r.1.2 }), r.2)
  | _ => ((.errorBadState, psaKdfAbort op), s)

/-- `psa_key_derivation_input_bytes`: the operation is left alone when the copy cannot be made. -/
def psaKdfInputBytes (op : PsaKdfOperation) (step : PsaKdfStep) (data : List Byte) (s : δ) :
    (PsaStatus × PsaKdfOperation) × δ :=
  let c := localAlloc D.toDriver data.length s
  if c.1 ≠ .success then
    ((c.1, op), c.2)
  else
    psaKdfInputInternal D op step data c.2

/-! ### Outputs -/

/-- The loop of `psa_key_derivation_pbkdf2_generate_block`, with so many rounds left. -/
def pbkdf2Rounds (attr : PsaKeyAttributes) (key : List Byte) (prfAlg : PsaAlg) (prfLength : Nat) :
    Nat → List Byte → List Byte → δ → (PsaStatus × List Byte) × δ
  | 0, _, acc, s => ((.success, acc), s)
  | n + 1, u, acc, s =>
    let r := D.macCompute attr key prfAlg u prfLength s
    if r.1.1 ≠ .success then
      ((r.1.1, acc), r.2)
    else
      let u := overwrite u r.1.2.bytes
      pbkdf2Rounds attr key prfAlg prfLength n u (overwrite acc (xorBytes (acc.take prfLength) u)) r.2

/-- `psa_key_derivation_pbkdf2_generate_block`: the status, and the output block. -/
def pbkdf2GenerateBlock (ctx : PsaPbkdf2) (halg : PsaAlg) (prfLength : Nat) (s : δ) :
    (PsaStatus × List Byte) × δ :=
  let attr : PsaKeyAttributes :=
    { type := .hmac, bits := 8 * ctx.passwordLength, usage := [.signMessage] }
  let key := ctx.password.take ctx.passwordLength
  let r := D.macSignSetup attr key (.hmac halg) s
  if r.1.1 ≠ .success then
    ((r.1.1, ctx.outputBlock), r.2)
  else
    let op : PsaMacOperation MC := ⟨PSA_CRYPTO_MBED_TLS_DRIVER_ID, prfLength, true, r.1.2⟩
    let u := psaMacUpdate D.toDriver op ctx.salt r.2
    if u.1.1 ≠ .success then
      ((u.1.1, ctx.outputBlock), u.2)
    else
      let v := psaMacUpdate D.toDriver u.1.2 (int32 ctx.blockNumber.toNat) u.2
      if v.1.1 ≠ .success then
        ((v.1.1, ctx.outputBlock), v.2)
      else
        let f := psaMacSignFinish D.toDriver v.1.2 PSA_MAC_MAX_SIZE v.2
        if f.1.1 ≠ .success then
          ((f.1.1, ctx.outputBlock), f.2)
        else if f.1.2.2.len ≠ prfLength then
          ((.other (-151), ctx.outputBlock), f.2)
        else
          let first := f.1.2.2.bytes.take prfLength
          pbkdf2Rounds D attr key (.hmac halg) prfLength (ctx.inputCost - 1) first
            (overwrite ctx.outputBlock first) f.2

/-- The loop of `psa_key_derivation_pbkdf2_read`; a digest is not empty. -/
def pbkdf2ReadLoop (halg : PsaAlg) (prfLength : { n : Nat // 0 < n }) (outputLength : Nat)
    (ctx : PsaPbkdf2) (out : List Byte) (s : δ) : (PsaStatus × PsaPbkdf2 × List Byte) × δ :=
  let n := min (prfLength.1 - ctx.bytesUsed) outputLength
  let out := out ++ (ctx.outputBlock.drop ctx.bytesUsed).take n
  if outputLength - n = 0 then
    ((.success, { ctx with bytesUsed := ctx.bytesUsed + n }, out), s)
  else
    let blockNumber := ctx.blockNumber + 1
    let g := pbkdf2GenerateBlock D { ctx with blockNumber } halg prfLength.1 s
    if g.1.1 ≠ .success then
      ((g.1.1, { ctx with blockNumber, outputBlock := g.1.2, bytesUsed := 0 }, out), g.2)
    else
      pbkdf2ReadLoop halg prfLength (outputLength - n)
        { ctx with blockNumber, outputBlock := g.1.2, bytesUsed := 0 } out g.2
termination_by 2 * outputLength + (if prfLength.1 ≤ ctx.bytesUsed then 1 else 0)
decreasing_by
  rw [if_neg (Nat.not_le.mpr prfLength.2)]
  by_cases hused : prfLength.1 ≤ ctx.bytesUsed
  · rw [if_pos hused]
    omega
  · rw [if_neg hused]
    omega

/-- `psa_key_derivation_pbkdf2_read`. -/
def psaPbkdf2Read (halg : PsaAlg) (ctx : PsaPbkdf2) (outputLength : Nat) (s : δ) :
    (PsaStatus × PsaPbkdf2 × List Byte) × δ :=
  if hlength : 0 < psaHashLength halg then
    match ctx.state with
    | .passwordSet =>
      if outputLength = 0 then
        ((.success, { ctx with bytesUsed := psaHashLength halg, state := .output }, []), s)
      else
        pbkdf2ReadLoop D halg ⟨_, hlength⟩ outputLength
          { ctx with bytesUsed := psaHashLength halg, state := .output } [] s
    | .output =>
      if outputLength = 0 then ((.success, ctx, []), s)
      else pbkdf2ReadLoop D halg ⟨_, hlength⟩ outputLength ctx [] s
    | _ => ((.errorBadState, ctx, []), s)
  else
    -- there is no such operation: the setup has refused it
    ((.errorInvalidArgument, ctx, []), s)

/-- The exit of `psa_key_derivation_output_bytes` after a failure, which leaves the operation its
algorithm only; `copied` says whether there is a copy of the output buffer. -/
def psaKdfOutputFailed (op : PsaKdfOperation) (st : PsaStatus) (outputLength : Nat) (copied : Bool)
    (s : δ) : (PsaStatus × PsaKdfOperation × List Byte) × δ :=
  ((st, { alg := op.alg }, if copied then List.replicate outputLength 0x21 else []), s)

/-- `psa_key_derivation_output_bytes`. -/
def psaKdfOutputBytes (op : PsaKdfOperation) (outputLength : Nat) (s : δ) :
    (PsaStatus × PsaKdfOperation × List Byte) × δ :=
  if op.alg = .none then
    ((.errorBadState, op, []), s)
  else if outputLength = 0 ∧ op.capacity = 0 then
    ((.other (-143), op, []), s)
  else
    let c := localAlloc D.toDriver outputLength s
    if c.1 ≠ .success then
      psaKdfOutputFailed op c.1 outputLength false c.2
    else if op.capacity < outputLength then
      psaKdfOutputFailed op (.other (-143)) outputLength true c.2
    else
      match op.alg with
      | .pbkdf2Hmac halg =>
        let r := psaPbkdf2Read D halg op.ctx outputLength c.2
        if r.1.1 ≠ .success then
          psaKdfOutputFailed op r.1.1 outputLength true r.2
        else
          ((.success, { op with capacity := op.capacity - outputLength, ctx := r.1.2.1 }, r.1.2.2), r.2)
      | _ =>
        ((.errorBadState, { op with capacity := op.capacity - outputLength },
          List.replicate outputLength 0), c.2)

end

end Zucrypt
