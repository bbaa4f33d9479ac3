import Keyring.Curve.Modular

/-!
Points of an elliptic curve y² = x³ + a x + b over a prime field, and their sums. Sums are computed on
triples (x, y, z) that stand for the point (x / z², y / z³), or for the point at infinity when z is
zero, so that a multiple of a point takes one division only.
-/
set_option autoImplicit false

namespace Keyring

structure Curve where
  modulus : Nat
  a : Nat
  b : Nat

namespace Curve

structure Point where
  x : Nat
  y : Nat
  deriving DecidableEq, Repr

structure Triple where
  x : Int
  y : Int
  z : Int
  deriving DecidableEq, Repr

def Point.toTriple (p : Point) : Triple := ⟨p.x, p.y, 1⟩

def Triple.infinity : Triple := ⟨1, 1, 0⟩

/-- The point on the same vertical line, which sums up to the point at infinity with this one. -/
def Point.opposite (C : Curve) (p : Point) : Point := ⟨p.x, (C.modulus - p.y) % C.modulus⟩

def Contains (C : Curve) (p : Point) : Prop :=
  p.x < C.modulus ∧ p.y < C.modulus ∧
    p.y * p.y % C.modulus = (p.x * p.x * p.x + C.a * p.x + C.b) % C.modulus

instance (C : Curve) (p : Point) : Decidable (C.Contains p) := inferInstanceAs (Decidable (_ ∧ _))

/-- The point a triple stands for; nothing for the point at infinity. -/
def point? (C : Curve) (t : Triple) : Option Point :=
  if t.z % C.modulus = 0 then none
  else
    (Modular.inverse? C.modulus (t.z % C.modulus).toNat).map fun i =>
      ⟨(t.x * (i * i) % C.modulus).toNat, (t.y * (i * i * i) % C.modulus).toNat⟩

def double (C : Curve) (t : Triple) : Triple :=
  let p : Int := C.modulus
  let yy := t.y * t.y % p
  let s := 4 * t.x * yy % p
  let zz := t.z * t.z % p
  let m := (3 * t.x * t.x + C.a * (zz * zz % p)) % p
  let x := (m * m - 2 * s) % p
  ⟨x, (m * (s - x) - 8 * (yy * yy)) % p, 2 * t.y * t.z % p⟩

def add (C : Curve) (t u : Triple) : Triple :=
  let p : Int := C.modulus
  if t.z = 0 then u
  else if u.z = 0 then t
  else
    let tz := t.z * t.z % p
    let uz := u.z * u.z % p
    let x₁ := t.x * uz % p
    let x₂ := u.x * tz % p
    let y₁ := t.y * (u.z * uz % p) % p
    let y₂ := u.y * (t.z * tz % p) % p
    if x₁ = x₂ then (if y₁ = y₂ then C.double t else .infinity)
    else
      let h := (x₂ - x₁) % p
      let r := (y₂ - y₁) % p
      let hh := h * h % p
      let v := x₁ * hh % p
      let hhh := h * hh % p
      let x := (r * r - hhh - 2 * v) % p
      ⟨x, (r * (v - x) - y₁ * hhh) % p, h * (t.z * u.z % p) % p⟩

def multiple (C : Curve) (n : Nat) (t : Triple) : Triple :=
  if n = 0 then .infinity
  else
    let even := multiple C (n / 2) (C.double t)
    if n % 2 = 0 then even else C.add even t
termination_by n
decreasing_by omega

theorem point?_lt (C : Curve) (t : Triple) (p : Point) (hC : 0 < C.modulus) (h : C.point? t = some p) :
    p.x < C.modulus ∧ p.y < C.modulus := by
  have below (n : Int) : (n % C.modulus).toNat < C.modulus := by
    have h1 := Int.emod_nonneg n (b := C.modulus) (by omega)
    have h2 := Int.emod_lt_of_pos n (b := C.modulus) (by omega)
    omega
  unfold point? at h
  split at h
  · cases h
  · obtain ⟨i, _, rfl⟩ := Option.map_eq_some_iff.1 h
    exact ⟨below _, below _⟩

end Curve
end Keyring
