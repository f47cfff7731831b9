import Mathlib.Data.Nat.Size

/-! # Elliptic curves

Curves `y² = x³ - 3x + b` modulo a prime, on numbers: which pairs are points, which numbers
are scalars, and the multiples of the base point.  `double` and `add` are the formulas of
affine coordinates; a multiple is computed by doubling and adding. -/
namespace Ec

/-- A curve: its prime and coefficient, its base point, and the order of that. -/
structure Curve where
  p : Nat
  b : Nat
  gx : Nat
  gy : Nat
  n : Nat

namespace Curve

variable (c : Curve)

/-- The pair is a point on the curve, other than the one at infinity. -/
def Contains (x y : Nat) : Prop :=
  x < c.p ∧ y < c.p ∧ y * y % c.p = (x * x * x + (c.p - 3) * x + c.b) % c.p

instance (x y : Nat) : Decidable (c.Contains x y) := inferInstanceAs (Decidable (_ ∧ _ ∧ _))

/-- The number is a private scalar. -/
def InRange (d : Nat) : Prop := 1 ≤ d ∧ d < c.n

instance (d : Nat) : Decidable (c.InRange d) := inferInstanceAs (Decidable (_ ∧ _))

/-! ### Multiples of the base point -/

/-- `a` to the power `e`, by squaring. -/
def power (a : Nat) : Nat → Nat → Nat
  | 0, _ => 1 % c.p
  | fuel + 1, e =>
    let h := power a fuel (e / 2)
    if e % 2 = 0 then h * h % c.p else h * h * a % c.p

/-- The inverse, modulo a prime. -/
def inverse (a : Nat) : Nat := c.power a c.p.size (c.p - 2)

/-- The third point on the line through a point, of this slope, mirrored. -/
def chord (slope x₁ y₁ x₂ : Nat) : Nat × Nat :=
  let x := (slope * slope + 2 * c.p - x₁ - x₂) % c.p
  (x, (slope * (x₁ + c.p - x) + c.p - y₁) % c.p)

/-- The sum of a point with itself. -/
def double : Option (Nat × Nat) → Option (Nat × Nat)
  | none => none
  | some (x, y) =>
    if y = 0 then none
    else some (c.chord ((3 * x * x + (c.p - 3)) % c.p * c.inverse (2 * y % c.p) % c.p) x y x)

/-- The sum of two points. -/
def add : Option (Nat × Nat) → Option (Nat × Nat) → Option (Nat × Nat)
  | none, b => b
  | a, none => a
  | some (x₁, y₁), some (x₂, y₂) =>
    if x₁ = x₂ then
      if y₁ = y₂ then c.double (some (x₁, y₁)) else none
    else
      some (c.chord ((y₂ + c.p - y₁) * c.inverse ((x₂ + c.p - x₁) % c.p) % c.p) x₁ y₁ x₂)

/-- `d` times the base point. -/
def multiple : Nat → Nat → Option (Nat × Nat)
  | 0, _ => none
  | fuel + 1, d =>
    let twice := c.double (multiple fuel (d / 2))
    if d % 2 = 0 then twice else c.add twice (some (c.gx, c.gy))

/-- The public point of a scalar. -/
def publicPoint (d : Nat) : Nat × Nat := (c.multiple c.n.size d).getD (c.gx, c.gy)

end Curve

/-! ### The NIST curves -/

/-- `secp256r1`. -/
def p256 : Curve where
  p := 0xffffffff00000001000000000000000000000000ffffffffffffffffffffffff
  b := 0x5ac635d8aa3a93e7b3ebbd55769886bc651d06b0cc53b0f63bce3c3e27d2604b
  gx := 0x6b17d1f2e12c4247f8bce6e563a440f277037d812deb33a0f4a13945d898c296
  gy := 0x4fe342e2fe1a7f9b8ee7eb4a7c0f9e162bce33576b315ececbb6406837bf51f5
  n := 0xffffffff00000000ffffffffffffffffbce6faada7179e84f3b9cac2fc632551

/-- `secp384r1`. -/
def p384 : Curve where
  p := 0xfffffffffffffffffffffffffffffffffffffffffffffffffffffffffffffffeffffffff0000000000000000ffffffff
  b := 0xb3312fa7e23ee7e4988e056be3f82d19181d9c6efe8141120314088f5013875ac656398d8a2ed19d2a85c8edd3ec2aef
  gx := 0xaa87ca22be8b05378eb1c71ef320ad746e1d3b628ba79b9859f741e082542a385502f25dbf55296c3a545e3872760ab7
  gy := 0x3617de4a96262c6f5d9e98bf9292dc29f8f41dbd289a147ce9da3113b5f0b8c00a60b1ce1d7e819d7a431d7c90ea0e5f
  n := 0xffffffffffffffffffffffffffffffffffffffffffffffffc7634d81f4372ddf581a0db248b0a77aecec196accc52973

/-- `secp521r1`. -/
def p521 : Curve where
  p := 0x1ffffffffffffffffffffffffffffffffffffffffffffffffffffffffffffffffffffffffffffffffffffffffffffffffffffffffffffffffffffffffffffffffff
  b := 0x51953eb9618e1c9a1f929a21a0b68540eea2da725b99b315f3b8b489918ef109e156193951ec7e937b1652c0bd3bb1bf073573df883d2c34f1ef451fd46b503f00
  gx := 0xc6858e06b70404e9cd9e3ecb662395b4429c648139053fb521f828af606b4d3dbaa14b5e77efe75928fe1dc127a2ffa8de3348b3c1856a429bf97e7e31c2e5bd66
  gy := 0x11839296a789a3bc0045c8a5fb42c7d1bd998f54449579b446817afbd17273e662c97ee72995ef42640c550b9013fad0761353c7086a272c24088be94769fd16650
  n := 0x1fffffffffffffffffffffffffffffffffffffffffffffffffffffffffffffffffa51868783bf2f966b7fcc0148f709a5d03bb5c9b8899c47aebb6fb71e91386409


end Ec
