import Zucrypt.KeyLists
import Zucrypt.EcCurves

/-! # EC keys in R

`crypt_ec_key` of `R/ec.R` and what it is made of, and what a backend takes for an EC key: it
knows a point by its uncompressed form and a scalar by its bytes, both in the width of the curve.

An integer that is given as a vector may be wider than the curve, by zeros, or narrower;
`fixed_width` brings it to the width, or raises (`tooWide`).  Where a private integer is given, the
key is made of it alone, and its point is then compared with the one that was given
(`notPublicPoint`).

`EcTheory` is the assumption on the backend, with the curve's parameters as data, and `ecKeyOutcome`
and `MakesKey` say what comes of integers by them. -/
namespace Zucrypt
open Effects ByteMemory

variable {O : Objects}

/-! ### The functions -/

/-- `curve_type`, of a string or of anything that is not one. -/
def curveType (curve : Option String) : Except Condition String :=
  match curve with
  | some "P-256" => .ok "p256"
  | some "P-384" => .ok "p384"
  | some "P-521" => .ok "p521"
  | _ =>
    .error (zucryptAbort "zucrypt_invalid_argument"
      "`curve` must be \"P-256\", \"P-384\" or \"P-521\"." none none)

/-- `zucrypt_pkey_import`; `type` is a name R has checked. -/
def zucryptPkeyImport (type : String) (privateKey : Bool) (data : Sexp) :
    Adapter O (ZucStatus × Option ZucPkey) :=
  zucPkeyImport (zucAlgByName (some type)) privateKey data.RAW data.XLENGTH true

/-- The condition `import_key` makes of a status. -/
def importCondition (type : String) (status : ZucStatus) : Condition :=
  match status with
  | .errInvalidArgument =>
    zucryptAbort "zucrypt_invalid_argument"
      ("The " ++ type ++ " key material is not valid: a point not on the curve, a scalar out of " ++
        "range, or the wrong length.") (some type) none
  | status => abortNative status (some type)

/-- `import_key`. -/
def importKey (type : String) (privateKey : Bool) (data : Sexp) : RFun O KeyObject := do
  let res ← RFun.native (zucryptPkeyImport type privateKey data)
  if res.1 ≠ .ok then
    RFun.raise (importCondition type res.1)
  else
    RFun.check (newKey res.2)

/-- The condition of `fixed_width`. -/
def tooWide (n : Nat) (arg type : String) : Condition :=
  zucryptAbort "zucrypt_invalid_argument"
    ("`" ++ arg ++ "` is longer than the curve's " ++ toString n ++ " bytes.") (some type) none

/-- The bytes of `fixed_width`. -/
def padTo (n : Nat) (arg type : String) (bytes : List Byte) : Except Condition (List Byte) :=
  let x := R.stripZeros bytes
  if n < x.length then .error (tooWide n arg type) else .ok (List.replicate (n - x.length) 0 ++ x)

/-- `fixed_width`. -/
def fixedWidth (x : Sexp) (n : Nat) (arg type : String) : RFun O (List Byte) := do
  RFun.check (checkRaw x arg (some type))
  let bytes ← vectorBytes x
  RFun.check (padTo n arg type bytes)

/-- The condition of `crypt_ec_key` where the halves are not of one key. -/
def notPublicPoint (type : String) : Condition :=
  zucryptAbort "zucrypt_invalid_argument" "`x` and `y` are not the public point of `d`." (some type)
    none

/-- `crypt_ec_key`. -/
def cryptEcKey (curve : Option String) (x y d : Sexp) : RFun O KeyObject := do
  let type ← RFun.check (curveType curve)
  let n := (curveBytes (zucAlgByName (some type))).getD 0
  let x ← fixedWidth x n "x" type
  let y ← fixedWidth y n "y" type
  let point := 0x04 :: (x ++ y)
  let pub ← RFun.native (newRaw point) >>= importKey type false
  if d.isNull then
    return pub
  else
    let d ← fixedWidth d n "d" type
    let key ← RFun.native (newRaw d) >>= importKey type true
    let got ← exportKey key true >>= vectorBytes
    if got ≠ point then
      RFun.raise (notPublicPoint type)
    else
      return key

/-! ### Curves and keys -/

/-- The curves `crypt_ec_key` offers. -/
inductive NistCurve where
  | p256
  | p384
  | p521
  deriving DecidableEq, Repr

namespace NistCurve

/-- What the curve is called by `curve_type`. -/
def type : NistCurve → String
  | .p256 => "p256"
  | .p384 => "p384"
  | .p521 => "p521"

/-- What a caller calls it. -/
def name : NistCurve → String
  | .p256 => "P-256"
  | .p384 => "P-384"
  | .p521 => "P-521"

def alg : NistCurve → ZucAlg
  | .p256 => .ecP256
  | .p384 => .ecP384
  | .p521 => .ecP521

def bits : NistCurve → Nat
  | .p256 => 256
  | .p384 => 384
  | .p521 => 521

def bytes : NistCurve → Nat
  | .p256 => 32
  | .p384 => 48
  | .p521 => 66

def params : NistCurve → Ec.Curve
  | .p256 => Ec.p256
  | .p384 => Ec.p384
  | .p521 => Ec.p521

variable (c : NistCurve)

@[simp] theorem curveType_name : curveType (some c.name) = .ok c.type := by cases c <;> rfl

@[simp] theorem zucAlgByName_type : zucAlgByName (some c.type) = c.alg := by cases c <;> decide

@[simp] theorem curveBytes_alg : curveBytes c.alg = some c.bytes := by cases c <;> rfl

@[simp] theorem curveNames_alg : curveNames c.alg = c.name := by cases c <;> rfl

@[simp] theorem ecPairType_alg : ecPairType c.alg = (.eccKeyPair .secpR1, c.bits) := by
  cases c <;> rfl

theorem alg_ne_rsa : c.alg ≠ .rsa := by cases c <;> decide

theorem alg_ne_x25519 : c.alg ≠ .x25519 := by cases c <;> decide

theorem alg_available : zucAlgAvailable c.alg = true := by cases c <;> decide

theorem bytes_eq : psaBitsToBytes c.bits = c.bytes := by cases c <;> decide

theorem bytes_pos : 1 ≤ c.bytes := by cases c <;> decide

theorem bytes_le : c.bytes ≤ 66 := by cases c <;> decide

theorem prime_lt : c.params.p < 256 ^ c.bytes := by cases c <;> decide +kernel

theorem order_lt : c.params.n < 256 ^ c.bytes := by cases c <;> decide +kernel

/-- A point, uncompressed. -/
def point (x y : Nat) : List Byte := 0x04 :: (Der.fixed c.bytes x ++ Der.fixed c.bytes y)

end NistCurve

/-- A public EC key, as the backend keeps it. -/
def ecPublicRef (c : NistCurve) (x y : Nat) : RefKey := ⟨.eccPublicKey .secpR1, c.bits, c.point x y⟩

/-- A private EC key, as the backend keeps it. -/
def ecPrivateRef (c : NistCurve) (d : Nat) : RefKey :=
  ⟨.eccKeyPair .secpR1, c.bits, Der.fixed c.bytes d⟩

/-- The backend's import takes exactly the points on the curve and the scalars in range, in
fixed width; the public half of a scalar is its point. -/
structure EcTheory (T : KeyTheory O) (publicPoint : NistCurve → Nat → Nat × Nat) : Prop where
  public_iff : ∀ {data key}, T.read (.eccPublicKey .secpR1) data = some key ↔
    ∃ c x y, c.params.Contains x y ∧ data = c.point x y ∧ key = ecPublicRef c x y
  private_iff : ∀ {data key}, T.read (.eccKeyPair .secpR1) data = some key ↔
    ∃ c d, c.params.InRange d ∧ data = Der.fixed c.bytes d ∧ key = ecPrivateRef c d
  publicHalf : ∀ {c d}, c.params.InRange d →
    T.publicHalf (ecPrivateRef c d) = ecPublicRef c (publicPoint c d).1 (publicPoint c d).2

/-! ### What is to come of coordinates -/

/-- The key `crypt_ec_key` makes of integers, or the condition it raises. -/
def ecKeyOutcome (publicPoint : NistCurve → Nat → Nat × Nat) (c : NistCurve) (x y : Nat)
    (d : Option Nat) : Except Condition RefKey :=
  if 256 ^ c.bytes ≤ x then .error (tooWide c.bytes "x" c.type)
  else if 256 ^ c.bytes ≤ y then .error (tooWide c.bytes "y" c.type)
  else if ¬ c.params.Contains x y then .error (importCondition c.type .errInvalidArgument)
  else
    match d with
    | none => .ok (ecPublicRef c x y)
    | some d =>
      if 256 ^ c.bytes ≤ d then .error (tooWide c.bytes "d" c.type)
      else if ¬ c.params.InRange d then .error (importCondition c.type .errInvalidArgument)
      else if publicPoint c d ≠ (x, y) then .error (notPublicPoint c.type)
      else .ok (ecPrivateRef c d)

/-- Integers that make a key. -/
def MakesKey (publicPoint : NistCurve → Nat → Nat × Nat) (c : NistCurve) (x y : Nat)
    (d : Option Nat) : Prop :=
  c.params.Contains x y ∧ ∀ s ∈ d, c.params.InRange s ∧ publicPoint c s = (x, y)

end Zucrypt
