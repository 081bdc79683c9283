import EpochSeal.Curve.Jacobian

/-!
The fields of the pairing-friendly curve BLS12-381: the prime field, its quadratic extension by a
root `u` of -1, and the extension of degree twelve by a sixth root `w` of `1 + u`.
-/
namespace EpochSeal.Bls
open Curve

-- zero and one of a field are its literals, whatever else is imported
attribute [local instance (2000)] Zero.ofOfNat0 One.ofOfNat1

def modulus : Nat :=
  0x1a0111ea397fe69a4b1ba7b6434bacd764774b84f38512bf6730d2a0f6b0f6241eabfffeb153ffffb9feffffffffaaab

def order : Nat := 0x73eda753299d7d483339d80809a1d80553bda402fffe5bfeffffffff00000001

/-- The absolute value of the curve parameter, which is negative. -/
def parameter : Nat := 0xd201000000010000

instance : NeZero modulus := ⟨by decide⟩

abbrev Fp := Fin modulus

namespace Fp

def ofNat (n : Nat) : Fp := Fin.ofNat modulus n

def sqrt? (a : Fp) : Option Fp :=
  let root := power 1 a ((modulus + 1) / 4)
  if root * root = a then some root else none

/-- Whether `a` is the larger of `a` and `-a`, taken as numbers. -/
def isLarger (a : Fp) : Bool := 2 * a.val > modulus

end Fp

instance : FieldOps Fp where
  inverse a := power 1 a (modulus - 2)

/-- An element `re + im * u` of the quadratic extension. -/
structure Fp2 where
  re : Fp
  im : Fp
  deriving DecidableEq

namespace Fp2

instance : Zero Fp2 := ⟨⟨0, 0⟩⟩
instance : One Fp2 := ⟨⟨1, 0⟩⟩
instance : Add Fp2 := ⟨fun a b => ⟨a.re + b.re, a.im + b.im⟩⟩
instance : Sub Fp2 := ⟨fun a b => ⟨a.re - b.re, a.im - b.im⟩⟩
instance : Neg Fp2 := ⟨fun a => ⟨-a.re, -a.im⟩⟩

/-- The product, with one reduction for each coordinate. -/
instance : Mul Fp2 where
  mul a b :=
    ⟨Fp.ofNat (a.re.val * b.re.val + (modulus - a.im.val) * b.im.val),
     Fp.ofNat (a.re.val * b.im.val + a.im.val * b.re.val)⟩

def conjugate (a : Fp2) : Fp2 := ⟨a.re, -a.im⟩

def scale (k : Fp) (a : Fp2) : Fp2 := ⟨k * a.re, k * a.im⟩

def norm (a : Fp2) : Fp := a.re * a.re + a.im * a.im

instance : FieldOps Fp2 where
  inverse a := scale (inverse a.norm) a.conjugate

/-- A root of `a`, if it has one, by way of a root of its norm. -/
def sqrt? (a : Fp2) : Option Fp2 :=
  let candidate : Option Fp2 :=
    if a.im = 0 then
      match Fp.sqrt? a.re with
      | some r => some ⟨r, 0⟩
      | none => (Fp.sqrt? (-a.re)).map fun r => ⟨0, r⟩
    else do
      let n ← Fp.sqrt? a.norm
      let half := Fp.ofNat ((modulus + 1) / 2)
      let re ← (Fp.sqrt? ((a.re + n) * half)).or (Fp.sqrt? ((a.re - n) * half))
      return ⟨re, a.im * inverse (re + re)⟩
  candidate.filter fun r => decide (r * r = a)

/-- Whether `a` comes after `-a` when imaginary parts are compared first. -/
def isLarger (a : Fp2) : Bool := if a.im = 0 then a.re.isLarger else a.im.isLarger

/-- The element `1 + u` that the next extension takes a sixth root of. -/
def xi : Fp2 := ⟨1, 1⟩

def mulXi (a : Fp2) : Fp2 := ⟨a.re - a.im, a.re + a.im⟩

end Fp2

/-- An element of the extension of degree three by a cube root `v` of `1 + u`. -/
structure Fp6 where
  c0 : Fp2
  c1 : Fp2
  c2 : Fp2
  deriving DecidableEq

namespace Fp6

instance : Zero Fp6 := ⟨⟨0, 0, 0⟩⟩
instance : One Fp6 := ⟨⟨1, 0, 0⟩⟩
instance : Add Fp6 := ⟨fun a b => ⟨a.c0 + b.c0, a.c1 + b.c1, a.c2 + b.c2⟩⟩
instance : Sub Fp6 := ⟨fun a b => ⟨a.c0 - b.c0, a.c1 - b.c1, a.c2 - b.c2⟩⟩
instance : Neg Fp6 := ⟨fun a => ⟨-a.c0, -a.c1, -a.c2⟩⟩

instance : Mul Fp6 where
  mul a b :=
    let t0 := a.c0 * b.c0
    let t1 := a.c1 * b.c1
    let t2 := a.c2 * b.c2
    ⟨t0 + ((a.c1 + a.c2) * (b.c1 + b.c2) - t1 - t2).mulXi,
     (a.c0 + a.c1) * (b.c0 + b.c1) - t0 - t1 + t2.mulXi,
     (a.c0 + a.c2) * (b.c0 + b.c2) - t0 - t2 + t1⟩

def mulV (a : Fp6) : Fp6 := ⟨a.c2.mulXi, a.c0, a.c1⟩

def scale (k : Fp2) (a : Fp6) : Fp6 := ⟨k * a.c0, k * a.c1, k * a.c2⟩

def inv (a : Fp6) : Fp6 :=
  let t0 := a.c0 * a.c0 - (a.c1 * a.c2).mulXi
  let t1 := (a.c2 * a.c2).mulXi - a.c0 * a.c1
  let t2 := a.c1 * a.c1 - a.c0 * a.c2
  scale (inverse (a.c0 * t0 + (a.c2 * t1 + a.c1 * t2).mulXi)) ⟨t0, t1, t2⟩

end Fp6

/-- An element of the extension of degree twelve by a square root `w` of `v`. -/
structure Fp12 where
  c0 : Fp6
  c1 : Fp6
  deriving DecidableEq

namespace Fp12

instance : One Fp12 := ⟨⟨1, 0⟩⟩

instance : Mul Fp12 where
  mul a b :=
    let t0 := a.c0 * b.c0
    let t1 := a.c1 * b.c1
    ⟨t0 + t1.mulV, (a.c0 + a.c1) * (b.c0 + b.c1) - t0 - t1⟩

/-- The image under the automorphism of order two, which fixes the extension of degree six. -/
def conjugate (a : Fp12) : Fp12 := ⟨a.c0, -a.c1⟩

def inv (a : Fp12) : Fp12 :=
  let d := (a.c0 * a.c0 - (a.c1 * a.c1).mulV).inv
  ⟨a.c0 * d, -(a.c1 * d)⟩

/-- Raising to the characteristic acts on `w` as multiplication by this element. -/
def frobeniusFactor : Fp2 := power 1 Fp2.xi ((modulus - 1) / 6)

/-- The characteristic-th power. -/
def frobenius (a : Fp12) : Fp12 :=
  let g := frobeniusFactor
  let g2 := g * g
  let g3 := g2 * g
  let g4 := g2 * g2
  ⟨⟨a.c0.c0.conjugate, g2 * a.c0.c1.conjugate, g4 * a.c0.c2.conjugate⟩,
   ⟨g * a.c1.c0.conjugate, g3 * a.c1.c1.conjugate, g4 * g * a.c1.c2.conjugate⟩⟩

end Fp12

end EpochSeal.Bls
