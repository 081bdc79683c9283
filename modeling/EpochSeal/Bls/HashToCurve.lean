import EpochSeal.Bls.Field
import EpochSeal.Hash.Sha256

/-!
Hashing a message to the second group: two field elements are expanded from it, each is mapped to a
curve that is isogenous to the twist, the sum is carried over by the isogeny of degree three, and
the cofactor is cleared.
-/
namespace EpochSeal.Bls
open Curve

/-- Coefficients of the curve `y² = x³ + ax + b` that the simplified map reaches. -/
def isogenousA : Fp2 := ⟨0, 240⟩
def isogenousB : Fp2 := ⟨1012, 1012⟩

/-- The non-square that the simplified map is built on. -/
def mapZ : Fp2 := ⟨-2, -1⟩

/-- Whether an element is odd: its first coordinate that is not zero is. -/
def Fp2.isOdd (a : Fp2) : Bool :=
  if a.re = 0 then a.im.val % 2 = 1 else a.re.val % 2 = 1

/-- The simplified map from a field element to a point of the isogenous curve. -/
def simplifiedMap (u : Fp2) : Fp2 × Fp2 :=
  let zu2 := mapZ * (u * u)
  let denominator := zu2 * zu2 + zu2
  let x1 :=
    if denominator = 0 then isogenousB * inverse (mapZ * isogenousA)
    else -isogenousB * inverse isogenousA * (1 + inverse denominator)
  let curve (x : Fp2) : Fp2 := x * x * x + isogenousA * x + isogenousB
  let (x, y) :=
    match Fp2.sqrt? (curve x1) with
    | some y => (x1, y)
    | none =>
      let x2 := zu2 * x1
      (x2, (Fp2.sqrt? (curve x2)).getD 0)
  (x, if u.isOdd = y.isOdd then y else -y)

/-- The value at `x` of a polynomial given by its coefficients, constant first. -/
def evaluate (coefficients : List Fp2) (x : Fp2) : Fp2 :=
  coefficients.foldr (fun c acc => acc * x + c) 0

def xNumerator : List Fp2 :=
  [⟨0x5c759507e8e333ebb5b7a9a47d7ed8532c52d39fd3a042a88b58423c50ae15d5c2638e343d9c71c6238aaaaaaaa97d6,
    0x5c759507e8e333ebb5b7a9a47d7ed8532c52d39fd3a042a88b58423c50ae15d5c2638e343d9c71c6238aaaaaaaa97d6⟩,
   ⟨0,
    0x11560bf17baa99bc32126fced787c88f984f87adf7ae0c7f9a208c6b4f20a4181472aaa9cb8d555526a9ffffffffc71a⟩,
   ⟨0x11560bf17baa99bc32126fced787c88f984f87adf7ae0c7f9a208c6b4f20a4181472aaa9cb8d555526a9ffffffffc71e,
    0x8ab05f8bdd54cde190937e76bc3e447cc27c3d6fbd7063fcd104635a790520c0a395554e5c6aaaa9354ffffffffe38d⟩,
   ⟨0x171d6541fa38ccfaed6dea691f5fb614cb14b4e7f4e810aa22d6108f142b85757098e38d0f671c7188e2aaaaaaaa5ed1,
    0⟩]

def xDenominator : List Fp2 :=
  [⟨0,
    0x1a0111ea397fe69a4b1ba7b6434bacd764774b84f38512bf6730d2a0f6b0f6241eabfffeb153ffffb9feffffffffaa63⟩,
   ⟨0xc,
    0x1a0111ea397fe69a4b1ba7b6434bacd764774b84f38512bf6730d2a0f6b0f6241eabfffeb153ffffb9feffffffffaa9f⟩,
   1]

def yNumerator : List Fp2 :=
  [⟨0x1530477c7ab4113b59a4c18b076d11930f7da5d4a07f649bf54439d87d27e500fc8c25ebf8c92f6812cfc71c71c6d706,
    0x1530477c7ab4113b59a4c18b076d11930f7da5d4a07f649bf54439d87d27e500fc8c25ebf8c92f6812cfc71c71c6d706⟩,
   ⟨0,
    0x5c759507e8e333ebb5b7a9a47d7ed8532c52d39fd3a042a88b58423c50ae15d5c2638e343d9c71c6238aaaaaaaa97be⟩,
   ⟨0x11560bf17baa99bc32126fced787c88f984f87adf7ae0c7f9a208c6b4f20a4181472aaa9cb8d555526a9ffffffffc71c,
    0x8ab05f8bdd54cde190937e76bc3e447cc27c3d6fbd7063fcd104635a790520c0a395554e5c6aaaa9354ffffffffe38f⟩,
   ⟨0x124c9ad43b6cf79bfbf7043de3811ad0761b0f37a1e26286b0e977c69aa274524e79097a56dc4bd9e1b371c71c718b10,
    0⟩]

def yDenominator : List Fp2 :=
  [⟨0x1a0111ea397fe69a4b1ba7b6434bacd764774b84f38512bf6730d2a0f6b0f6241eabfffeb153ffffb9feffffffffa8fb,
    0x1a0111ea397fe69a4b1ba7b6434bacd764774b84f38512bf6730d2a0f6b0f6241eabfffeb153ffffb9feffffffffa8fb⟩,
   ⟨0,
    0x1a0111ea397fe69a4b1ba7b6434bacd764774b84f38512bf6730d2a0f6b0f6241eabfffeb153ffffb9feffffffffa9d3⟩,
   ⟨0x12,
    0x1a0111ea397fe69a4b1ba7b6434bacd764774b84f38512bf6730d2a0f6b0f6241eabfffeb153ffffb9feffffffffaa99⟩,
   1]

/-- The isogeny from the isogenous curve to the twist, in Jacobian coordinates. -/
def isogeny (p : Fp2 × Fp2) : Jacobian Fp2 :=
  let xn := evaluate xNumerator p.1
  let xd := evaluate xDenominator p.1
  let yn := evaluate yNumerator p.1
  let yd := evaluate yDenominator p.1
  let z := xd * yd
  ⟨xn * xd * yd * yd, p.2 * yn * xd * xd * xd * yd * yd, z⟩

/-- A multiple of the cofactor of the second group. -/
def effectiveCofactor : Nat :=
  0xbc69f08f2ee75b3584c6a0ea91b352888e2a8e9145ad7689986ff031508ffe1329c2f178731db956d82bf015d1212b02ec0ec69d7477c1ae954cbc06689f6a359894c0adebbf6b4e8020005aaa95551

/-- The field element that 128 bytes stand for, 64 for each coordinate. -/
def fieldElement (bytes : Bytes) : Fp2 :=
  ⟨Fp.ofNat (Bytes.ofBigEndian (bytes.take 64)), Fp.ofNat (Bytes.ofBigEndian (bytes.drop 64))⟩

/-- The point of the second group that a message hashes to under a domain tag. -/
def hashToCurve (message tag : Bytes) : Jacobian Fp2 :=
  let uniform := Sha256.expandMessage message tag 256
  let p := isogeny (simplifiedMap (fieldElement (uniform.take 128)))
  let q := isogeny (simplifiedMap (fieldElement (uniform.drop 128)))
  Jacobian.multiply effectiveCofactor (Jacobian.add p q)

end EpochSeal.Bls
