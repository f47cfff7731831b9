import Zucrypt.KeyVectors

/-! # `as.list`, of keys

`as.list.crypt_key` and `as.list.crypt_pubkey` of `R/pkey.R`, and `ec_as_list` of
`R/ec.R`.  A raw vector in a list is the list of its bytes. -/
namespace Zucrypt
open Effects ByteMemory

variable {O : Objects}

/-- A member of `data`. -/
inductive Member where
  | text (s : String)
  | bytes (bs : List Byte)
  deriving DecidableEq, Repr

/-- What `as.list` returns of a key. -/
structure KeyList where
  type : String
  size : Nat
  pubkey : Option KeyObject
  data : List (String × Member)
  deriving DecidableEq, Repr

/-- `key_type_name`. -/
def keyTypeName : ZucAlg → String
  | .rsa => "rsa"
  | .ecP256 => "ecdsa"
  | .ecP384 => "ecdsa"
  | .ecP521 => "ecdsa"
  | .x25519 => "x25519"
  | _ => "NA"

/-- `curve_names`. -/
def curveNames : ZucAlg → String
  | .ecP256 => "P-256"
  | .ecP384 => "P-384"
  | .ecP521 => "P-521"
  | _ => "NA"

/-- The bytes of a vector. -/
def vectorBytes (x : Sexp) : RFun O (List Byte) := do
  let w ← RFun.native Proc.read
  return x.bytes w.mem

/-- `names(v) <- names`, of a list of raw vectors. -/
def setNames (names : List String) (v : List (List Byte)) :
    Except Condition (List (String × Member)) :=
  if v.length < names.length then
    .error (rError "'names' attribute must be the same length as the vector")
  else
    .ok (names.zip (v.map .bytes))

/-- `v[names]`. -/
def pick (v : List (String × Member)) (names : List String) : List (String × Member) :=
  names.filterMap fun name => (v.lookup name).map (name, ·)

/-- `der_integers`, as an R function. -/
def derIntegersOf (der : List Byte) : Except Condition (List (List Byte)) :=
  match R.derIntegers der with
  | none => .error (rError "der[[pos]] == as.raw(2) is not TRUE")
  | some v => .ok v

/-- `ec_as_list`. -/
def ecAsList (x : KeyObject) (info : PkeyInfo) : RFun O KeyList := do
  let point ← exportKey x true >>= vectorBytes
  let n := (curveBytes info.type).getD 0
  let data : List (String × Member) :=
    if info.type = .x25519 then [("x", .bytes point)]
    else [("curve", .text (curveNames info.type)), ("x", .bytes (R.elements point 2 n)),
      ("y", .bytes (R.elements point (2 + n) n))]
  if x.inherits "crypt_key" then
    let secret ← exportKey x false >>= vectorBytes
    let pubkey ← publicOf x
    return ⟨keyTypeName info.type, info.bits, some pubkey,
      data ++ [(if info.type = .x25519 then "d" else "secret", .bytes secret)]⟩
  else
    return ⟨keyTypeName info.type, info.bits, none, data⟩

/-- `as.list.crypt_key`. -/
def asListCryptKey (x : KeyObject) : RFun O KeyList := do
  let info ← RFun.check (pkeyInfo x.handle)
  if info.type ≠ .rsa then
    ecAsList x info
  else
    let der ← writeKey x .pkcs1Der false >>= vectorBytes
    let v ← RFun.check (derIntegersOf der)
    let v ← RFun.check (setNames ["version", "n", "e", "d", "p", "q", "dp", "dq", "qi"] v)
    let pubkey ← publicOf x
    return ⟨keyTypeName info.type, info.bits, some pubkey,
      pick v ["e", "n", "p", "q", "d", "dp", "dq", "qi"]⟩

/-- `as.list.crypt_pubkey`. -/
def asListCryptPubkey (x : KeyObject) : RFun O KeyList := do
  let info ← RFun.check (pkeyInfo x.handle)
  if info.type ≠ .rsa then
    ecAsList x info
  else
    let der ← writeKey x .pkcs1Der false >>= vectorBytes
    let v ← RFun.check (derIntegersOf der)
    let v ← RFun.check (setNames ["n", "e"] v)
    return ⟨keyTypeName info.type, info.bits, none, pick v ["e", "n"]⟩

/-- `as.list`, by the first class of the object. -/
def asList (x : KeyObject) : RFun O KeyList :=
  if x.inherits "crypt_key" then asListCryptKey x else asListCryptPubkey x

/-- The arguments a caller makes of the members of a list: vectors of these bytes, and
`NULL` for what there is no member of. -/
def ArgumentsOf (l : KeyList) (m : Memory) (arg : String → Sexp) : Prop :=
  ∀ name, match l.data.lookup name with
    | some (.bytes bs) => (arg name).isRaw = true ∧ (arg name).bytes m = bs
    | _ => arg name = .null

theorem ArgumentsOf.raw {l : KeyList} {m : Memory} {arg : String → Sexp} (h : ArgumentsOf l m arg)
    {name : String} {bs : List Byte} (hname : l.data.lookup name = some (.bytes bs)) :
    (arg name).isRaw = true ∧ (arg name).bytes m = bs := by
  have hname' := h name
  rwa [hname] at hname'

theorem ArgumentsOf.null {l : KeyList} {m : Memory} {arg : String → Sexp} (h : ArgumentsOf l m arg)
    {name : String} (hname : l.data.lookup name = none) : arg name = .null := by
  have hname' := h name
  rwa [hname] at hname'

end Zucrypt
