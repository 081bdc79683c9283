/-!
Points of a curve `y² = x³ + b` over any field, in Jacobian coordinates: `(X : Y : Z)` stands for
the affine point `(X / Z², Y / Z³)`, and a zero `Z` for the point at infinity. The addition law does
not mention `b`, so one definition serves every such curve and its twists.
-/
namespace EpochSeal.Curve

/-- The arithmetic that the formulas need of a field. -/
class FieldOps (F : Type) extends Add F, Sub F, Neg F, Mul F, Zero F, One F where
  /-- The multiplicative inverse; zero has zero. -/
  inverse : F → F

export FieldOps (inverse)

/-- A power, by squaring from the exponent's highest bit down. -/
@[specialize] def power {M : Type} [Mul M] (one base : M) (exponent : Nat) : M :=
  (List.range (exponent.log2 + 1)).foldr
    (fun i acc => if exponent.testBit i then acc * acc * base else acc * acc) one

/-- An affine point of a curve. -/
inductive Affine (F : Type) where
  | infinity
  | point (x y : F)
  deriving DecidableEq

/-- A point in Jacobian coordinates. -/
structure Jacobian (F : Type) where
  x : F
  y : F
  z : F

namespace Jacobian
variable {F : Type} [FieldOps F] [DecidableEq F]

def infinity : Jacobian F := ⟨1, 1, 0⟩

def isInfinity (p : Jacobian F) : Bool := p.z = 0

@[specialize] def ofAffine : Affine F → Jacobian F
  | .infinity => infinity
  | .point x y => ⟨x, y, 1⟩

@[specialize] def toAffine (p : Jacobian F) : Affine F :=
  if p.z = 0 then .infinity
  else
    let inv := inverse p.z
    let inv2 := inv * inv
    .point (p.x * inv2) (p.y * (inv2 * inv))

@[specialize] def negate (p : Jacobian F) : Jacobian F := { p with y := -p.y }

@[specialize] def double (p : Jacobian F) : Jacobian F :=
  let a := p.x * p.x
  let b := p.y * p.y
  let c := b * b
  let d := (p.x + b) * (p.x + b) - a - c
  let d := d + d
  let e := a + a + a
  let x := e * e - (d + d)
  let c2 := c + c
  let c4 := c2 + c2
  let yz := p.y * p.z
  ⟨x, e * (d - x) - (c4 + c4), yz + yz⟩

@[specialize] def add (p q : Jacobian F) : Jacobian F :=
  if p.z = 0 then q
  else if q.z = 0 then p
  else
    let pz2 := p.z * p.z
    let qz2 := q.z * q.z
    let u1 := p.x * qz2
    let u2 := q.x * pz2
    let s1 := p.y * (qz2 * q.z)
    let s2 := q.y * (pz2 * p.z)
    if u1 = u2 then
      if s1 = s2 then double p else infinity
    else
      let h := u2 - u1
      let r := s2 - s1
      let h2 := h * h
      let h3 := h2 * h
      let v := u1 * h2
      let x := r * r - h3 - (v + v)
      ⟨x, r * (v - x) - s1 * h3, p.z * q.z * h⟩

/-- A multiple of a point, by doubling from the scalar's highest bit down. -/
@[specialize] def multiply (scalar : Nat) (p : Jacobian F) : Jacobian F :=
  (List.range (scalar.log2 + 1)).foldr
    (fun i acc => if scalar.testBit i then add (double acc) p else double acc) infinity

end Jacobian

/-- Whether an affine point satisfies `y² = x³ + b`. -/
@[specialize] def Affine.onCurve {F : Type} [FieldOps F] [DecidableEq F] (b : F) : Affine F → Bool
  | .infinity => true
  | .point x y => decide (y * y = x * x * x + b)

end EpochSeal.Curve
