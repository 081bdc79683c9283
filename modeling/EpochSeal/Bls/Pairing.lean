import EpochSeal.Bls.Field

/-!
The reduced ate pairing of BLS12-381, as a test whether a product of pairings is one. The second
arguments are points of the sextic twist `y² = x³ + 4(1 + u)`; the line through two of them, taken
at a point of the first curve, has three coordinates that are not zero.
-/
namespace EpochSeal.Bls
open Curve

/-- The value at `(px, py)` of the line of the given slope through `(qx, qy)` on the twist. -/
def lineAt (px py : Fp) (qx qy slope : Fp2) : Fp12 :=
  ⟨⟨slope * qx - qy, Fp2.scale (-px) slope, 0⟩, ⟨0, ⟨py, 0⟩, 0⟩⟩

/-- The point where the line of the given slope through two points meets the curve, negated. -/
def chord (x1 y1 x2 slope : Fp2) : Fp2 × Fp2 :=
  let x := slope * slope - x1 - x2
  (x, slope * (x1 - x) - y1)

/-- One doubling step: the line of the tangent at `q`, and twice `q`. -/
def tangentStep (px py : Fp) (q : Fp2 × Fp2) : Fp12 × (Fp2 × Fp2) :=
  let xx := q.1 * q.1
  let slope := (xx + xx + xx) * inverse (q.2 + q.2)
  (lineAt px py q.1 q.2 slope, chord q.1 q.2 q.1 slope)

/-- One addition step: the line through `q` and `base`, and their sum. -/
def chordStep (px py : Fp) (base q : Fp2 × Fp2) : Fp12 × (Fp2 × Fp2) :=
  let slope := (q.2 - base.2) * inverse (q.1 - base.1)
  (lineAt px py base.1 base.2 slope, chord q.1 q.2 base.1 slope)

/-- The product of lines that computes the parameter's multiple of a point of the twist. -/
def millerLoop (p : Affine Fp) (q : Affine Fp2) : Fp12 :=
  match p, q with
  | .point px py, .point qx qy =>
    let base := (qx, qy)
    let step (i : Nat) (acc : Fp12 × (Fp2 × Fp2)) : Fp12 × (Fp2 × Fp2) :=
      let (line, q) := tangentStep px py acc.2
      let f := acc.1 * acc.1 * line
      if parameter.testBit i then
        let (line, q) := chordStep px py base q
        (f * line, q)
      else (f, q)
    ((List.range parameter.log2).foldr step (1, base)).1.conjugate
  | _, _ => 1

/-- The power by the negative curve parameter, of an element whose inverse is its conjugate. -/
def powParameter (a : Fp12) : Fp12 := (power 1 a parameter).conjugate

/-- The power by three times the order of the multiplicative group over `order`. -/
def finalExponentiation (f : Fp12) : Fp12 :=
  let f := f.conjugate * f.inv
  let f := f.frobenius.frobenius * f
  let a := powParameter f * f.conjugate
  let a := powParameter a * a.conjugate
  let a := powParameter a * a.frobenius
  let a := powParameter (powParameter a) * a.frobenius.frobenius * a.conjugate
  a * (f * f * f)

/-- Whether the product of the pairings of the given pairs is one. -/
def pairingProductIsOne (pairs : List (Affine Fp × Affine Fp2)) : Bool :=
  finalExponentiation (pairs.foldl (fun acc (p, q) => acc * millerLoop p q) 1) = 1

end EpochSeal.Bls
