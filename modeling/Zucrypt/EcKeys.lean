import Zucrypt.ReferenceCurves

/-! # Coordinates and EC keys

What `crypt_ec_key` and `as.list` make of each other.

`ecKey_of_coordinates` is first of all about `crypt_ec_key`: whatever zeros its vectors begin with,
what it does is told by the integers they stand for.  It succeeds exactly if these are a point on
the curve, each in the width of the field, and, where `d` is given, a scalar in range whose point
that is; and the key and its public half then carry those integers whole, in fixed width.  Secondly
it is about the way back: `as.list` of any EC key that was made, public or private, gives
coordinates of which `crypt_ec_key` makes the same key.

What the backend's import takes is assumed (`EcTheory`): exactly the points on the curve and the
scalars in range.  The arithmetic of the curves is the backend's, and enters as the function
`publicPoint`, of which only this is used.  The parameters of the curves are those of `EcCurves`, so
that being on one is a congruence that can be checked, as at the base point below. -/
namespace Zucrypt
open Effects ByteMemory

variable {O : Objects}

section
variable {T : KeyTheory O} {publicPoint : NistCurve → Nat → Nat × Nat} {L : StoreLaw O StoredKey}

/-- The integers in a key, whole and in the width of the curve: those of its point, or its
scalar. -/
def RefKey.Carries (c : NistCurve) (key : RefKey) (x y : Nat) (d : Option Nat) : Prop :=
  match d with
  | none => ∃ a b, key.material = 0x04 :: (a ++ b) ∧ a.length = c.bytes ∧ Der.value a = x ∧
      b.length = c.bytes ∧ Der.value b = y
  | some d => key.material.length = c.bytes ∧ Der.value key.material = d

/-- A public key carries the coordinates of its point. -/
theorem carries_public {c : NistCurve} {x y : Nat} (hon : c.params.Contains x y) :
    (ecPublicRef c x y).Carries c x y none := by
  obtain ⟨hX, hY⟩ := Contains.lt hon
  exact ⟨_, _, rfl, Der.length_fixed hX, Der.value_fixed _ _, Der.length_fixed hY, Der.value_fixed _ _⟩

/-- A key that was made has the integers it was made of. -/
theorem EcIntegers.of_outcome {c : NistCurve} {x y : Nat} {d : Option Nat} {key : RefKey}
    (h : ecKeyOutcome publicPoint c x y d = .ok key) : EcIntegers publicPoint c key x y d := by
  unfold ecKeyOutcome at h
  split at h
  · cases h
  split at h
  · cases h
  split at h
  · cases h
  rename_i hon
  cases d with
  | none =>
    obtain rfl := Except.ok.inj h
    exact .ofPoint (not_not.mp hon)
  | some s =>
    simp only at h
    split at h
    · cases h
    split at h
    · cases h
    rename_i hin
    split at h
    · cases h
    rename_i hsame
    obtain rfl := Except.ok.inj h
    obtain ⟨rfl, rfl⟩ := Prod.mk.inj (not_not.mp hsame).symm
    exact .ofScalar (not_not.mp hin)

/-- Neither the key nor its public half has lost anything. -/
theorem EcIntegers.carries (hT : EcTheory T publicPoint) {c : NistCurve} {key : RefKey} {x y : Nat}
    {d : Option Nat} (h : EcIntegers publicPoint c key x y d) :
    key.Carries c x y d ∧ (T.publicHalf key).Carries c x y none := by
  cases h with
  | ofPoint hon =>
    rw [T.publicHalf_public rfl]
    exact ⟨carries_public hon, carries_public hon⟩
  | ofScalar hin =>
    rw [hT.publicHalf hin]
    exact ⟨⟨Der.length_fixed (InRange.lt hin), Der.value_fixed _ _⟩,
      carries_public (hT.contains_publicPoint hin)⟩

/-- **EC keys from coordinates.**  Whatever zeros its vectors begin with, what
`crypt_ec_key` makes is told by the integers they stand for: it succeeds exactly if these are
a point on the curve and, with `d`, a scalar in range whose point that is.  The key and its
public half then have these integers whole.  `as.list` of an EC key, public or private, gives
coordinates of which `crypt_ec_key` makes the same key. -/
theorem ecKey_of_coordinates (hL : L.Implies T.law) (hT : EcTheory T publicPoint) :
    (∀ (c : NistCurve) (live : List (Nat × Nat)) (w : World) (S : KeyStore StoredKey) (st : RState)
      (x y d : Sexp) (X Y : Nat) (D : Option Nat), 0 < w.refcount → RawNumber live w.mem x X →
      RawNumber live w.mem y Y → RawScalar live w.mem d D →
      RMeets L live w S (cryptEcKey (some c.name) x y d st) fun r _ _ _ =>
        GivesKey T c (ecKeyOutcome publicPoint c X Y D) r ∧
          ((∃ object, r.1 = .ok object) ↔ MakesKey publicPoint c X Y D)) ∧
    (∀ (c : NistCurve) (X Y : Nat) (D : Option Nat) (key : RefKey),
      ecKeyOutcome publicPoint c X Y D = .ok key →
        key.Carries c X Y D ∧ (T.publicHalf key).Carries c X Y none) ∧
    (∀ handle, Made L handle → isNistCurve handle.type = true →
      ∃ key, Loads T handle key ∧ ∀ live w S st, 0 < w.refcount →
        RMeets L live w S (asList (objectOf handle) st) fun r _ _ _ => ListsEcKey L T key r) := by
  refine ⟨?_, ?_, ?_⟩
  · intro c live w S st x y d X Y D hready hx hy hd
    refine (rmeets_cryptEcKey hL hT hready hx hy hd).mono fun r w' S' live' hr => ⟨hr, ?_⟩
    rw [← makesKey_iff]
    -- the outcome is a key or a condition, and so is what R gets
    cases houtcome : ecKeyOutcome publicPoint c X Y D with
    | ok key =>
      rw [houtcome] at hr
      obtain ⟨object, handle, hok, -⟩ := hr
      exact iff_of_true ⟨object, hok⟩ ⟨key, rfl⟩
    | error cond =>
      rw [houtcome] at hr
      refine iff_of_false ?_ (by simp)
      rintro ⟨object, hok⟩
      rcases hr with hr | ⟨-, hr⟩
      · exact absurd (hok.symm.trans hr) (by simp)
      · exact absurd (hok.symm.trans hr) (by simp)
  · intro c X Y D key hkey
    exact (EcIntegers.of_outcome hkey).carries hT
  · intro handle hmade hcurve
    obtain ⟨key, h⟩ := hmade.holds hL
    obtain ⟨c, x, y, d, halg, hkey⟩ := h.ecIntegers hT hcurve
    exact ⟨key, h.toLoads, fun live w S st hready => rmeets_asList_ec hL hT h halg hkey hready⟩

end

/-! ### The base point -/

/-- A backend that keeps EC keys. -/
def curveLaw : StoreLaw keyObjects StoredKey := keyLaw curveTheory .refused []

/-- The law of the reference curves says what keys are. -/
theorem curveLaw_theory : curveLaw.Implies curveTheory.law :=
  (StoreLaw.and_left _ _).trans (StoreLaw.and_left _ _)

/-- Where the vectors of a caller are. -/
def callerVectors : List (Nat × Nat) := [(0x1000, 40), (0x2000, 32), (0x3000, 3)]

/-- The coordinates of the base point, the first with eight zeros before it, and the scalar 1
with two. -/
def callerMemory : Memory :=
  write (write (write (fun _ => 0) 0x1000 (Der.fixed 40 Ec.p256.gx)) 0x2000 (Der.fixed 32 Ec.p256.gy))
    0x3000 [0, 0, 1]

/-- A vector of the caller's stands for the number that was written there. -/
theorem rawNumber_caller {p n v : Nat} (hmem : (p, n) ∈ callerVectors)
    (hread : read callerMemory p n = Der.fixed n v) :
    RawNumber callerVectors callerMemory (.raw p n []) v := by
  refine ⟨rfl, _, ⟨rfl, ?_, hmem, hread⟩, Der.value_fixed n v⟩
  simp only [callerVectors, List.mem_cons, List.not_mem_nil, or_false, Prod.mk.injEq] at hmem
  rcases hmem with ⟨rfl, rfl⟩ | ⟨rfl, rfl⟩ | ⟨rfl, rfl⟩ <;>
    exact ⟨by decide, by decide⟩

theorem base_x_lt : Ec.p256.gx < 256 ^ 40 := by decide +kernel

theorem base_y_lt : Ec.p256.gy < 256 ^ 32 := by decide +kernel

/-- The first coordinate, in 40 bytes. -/
theorem rawNumber_x : RawNumber callerVectors callerMemory (.raw 0x1000 40 []) Ec.p256.gx := by
  refine rawNumber_caller (by decide) ?_
  unfold callerMemory
  rw [read_write_apart, read_write_apart, read_write_exact _ _ (Der.length_fixed base_x_lt)]
  · exact .inr (.inl (by decide))
  · exact .inr (.inl (by decide))

/-- The second, in 32. -/
theorem rawNumber_y : RawNumber callerVectors callerMemory (.raw 0x2000 32 []) Ec.p256.gy := by
  refine rawNumber_caller (by decide) ?_
  unfold callerMemory
  rw [read_write_apart, read_write_exact _ _ (Der.length_fixed base_y_lt)]
  exact .inr (.inl (by decide))

/-- The scalar, in 3. -/
theorem rawNumber_d : RawNumber callerVectors callerMemory (.raw 0x3000 3 []) 1 := by
  refine rawNumber_caller (by decide) ?_
  unfold callerMemory
  exact read_write_exact _ _ rfl

/-- The scalar 1 and the base point make a key, whatever zeros are before them; with the
coordinates exchanged they make none. -/
theorem ecKey_of_coordinates_base :
    (RMeets curveLaw callerVectors { readyWorld with mem := callerMemory } KeyState.initial.store
      (cryptEcKey (some "P-256") (.raw 0x1000 40 []) (.raw 0x2000 32 []) (.raw 0x3000 3 []) noConnections)
      fun r _ _ _ => AcceptsObject curveTheory (ecPrivateRef .p256 1) r) ∧
    RMeets curveLaw callerVectors { readyWorld with mem := callerMemory } KeyState.initial.store
      (cryptEcKey (some "P-256") (.raw 0x2000 32 []) (.raw 0x1000 40 []) .null noConnections)
      fun r _ _ _ => ¬ ∃ object, r.1 = .ok object := by
  have hkeys := ecKey_of_coordinates curveLaw_theory curveTheory_ec
  have hpoint : basePoint .p256 1 = (Ec.p256.gx, Ec.p256.gy) := by decide +kernel
  have hkey : EcIntegers basePoint .p256 (ecPrivateRef .p256 1) Ec.p256.gx Ec.p256.gy (some 1) := by
    have hscalar : EcIntegers basePoint .p256 (ecPrivateRef .p256 1) _ _ (some 1) :=
      .ofScalar (by decide +kernel)
    rwa [hpoint] at hscalar
  have houtcome : ecKeyOutcome basePoint .p256 Ec.p256.gx Ec.p256.gy (some 1) =
      .ok (ecPrivateRef .p256 1) := hkey.outcome curveTheory_ec
  have hready : 0 < readyWorld.refcount := by decide
  constructor
  · have hmade := hkeys.1 .p256 callerVectors { readyWorld with mem := callerMemory }
      KeyState.initial.store noConnections (.raw 0x1000 40 []) (.raw 0x2000 32 []) (.raw 0x3000 3 [])
      Ec.p256.gx Ec.p256.gy (some 1) hready rawNumber_x rawNumber_y rawNumber_d
    refine hmade.mono fun r w' S' live' hr => ?_
    rw [houtcome] at hr
    exact hr.1
  · have hmade := hkeys.1 .p256 callerVectors { readyWorld with mem := callerMemory }
      KeyState.initial.store noConnections (.raw 0x2000 32 []) (.raw 0x1000 40 []) .null
      Ec.p256.gy Ec.p256.gx none hready rawNumber_y rawNumber_x rfl
    refine hmade.mono fun r w' S' live' hr => ?_
    rintro hok
    have hon := (hr.2.mp hok).1
    exact absurd hon (by decide +kernel)

end Zucrypt
