import EpochSeal.Curve.Jacobian
import EpochSeal.Hash.Sha256

/-!
Recoverable signatures over secp256k1: a signature is two scalars below the group order, the second
in the lower half, and a recovery id that tells which point the first scalar came from.
-/
namespace EpochSeal.Secp256k1
open Curve

-- zero and one of a field are its literals, whatever else is imported
attribute [local instance (2000)] Zero.ofOfNat0 One.ofOfNat1

def modulus : Nat := 0xfffffffffffffffffffffffffffffffffffffffffffffffffffffffefffffc2f

def order : Nat := 0xfffffffffffffffffffffffffffffffebaaedce6af48a03bbfd25e8cd0364141

instance : NeZero modulus := ⟨by decide⟩
instance : NeZero order := ⟨by decide⟩

abbrev Fp := Fin modulus
abbrev Scalar := Fin order

instance : FieldOps Fp where
  inverse a := power 1 a (modulus - 2)

def Scalar.inverse (a : Scalar) : Scalar := power 1 a (order - 2)

def sqrt? (a : Fp) : Option Fp :=
  let root := power 1 a ((modulus + 1) / 4)
  if root * root = a then some root else none

def generator : Jacobian Fp :=
  ⟨0x79be667ef9dcbbac55a06295ce870b07029bfcdb2dce28d959f2815b16f81798,
   0x483ada7726a3c4655da4fbfc0e1108a8fd17b448a68554199c47d08ffb10d4b8, 1⟩

/-- A signature with its recovery id: bit 0 is the parity of the point's second coordinate, bit 1
whether its first coordinate was reduced by the group order. -/
structure Signature where
  r : Scalar
  s : Scalar
  recovery : Nat

/-- The secret key that bytes stand for: 24 to 32 of them, not zero and below the order. -/
def secretKey? (bytes : Bytes) : Option Scalar :=
  let n := Bytes.ofBigEndian bytes
  if 24 ≤ bytes.length ∧ bytes.length ≤ 32 ∧ n ≠ 0 then
    if h : n < order then some ⟨n, h⟩ else none
  else none

/-- The 64 bytes of the coordinates of a point; infinity has none. -/
def pointBytes : Affine Fp → Option Bytes
  | .infinity => none
  | .point x y => some (Bytes.bigEndian 32 x.val ++ Bytes.bigEndian 32 y.val)

def publicPoint (secret : Scalar) : Affine Fp := (Jacobian.multiply secret.val generator).toAffine

/-- The state of the deterministic generator of nonces after mixing `data` into it. -/
def mixNonce (state : Bytes × Bytes) (data : Bytes) : Bytes × Bytes :=
  let key := Sha256.hmac state.1 (state.2 ++ data)
  (key, Sha256.hmac key state.2)

/-- The first generated nonce that is not zero and below the order. -/
def nonceFrom (state : Bytes × Bytes) : Nat → Option Scalar
  | 0 => none
  | attempts + 1 =>
    let value := Sha256.hmac state.1 state.2
    let n := Bytes.ofBigEndian value
    if h : n < order then
      if n = 0 then nonceFrom (mixNonce (state.1, value) [0]) attempts else some ⟨n, h⟩
    else nonceFrom (mixNonce (state.1, value) [0]) attempts

/-- The nonce that a secret key and a digest determine. -/
def nonce (secret : Scalar) (digest : Scalar) : Option Scalar :=
  let seed := Bytes.bigEndian 32 secret.val ++ Bytes.bigEndian 32 digest.val
  let start := (List.replicate 32 0, List.replicate 32 1)
  nonceFrom (mixNonce (mixNonce start (0 :: seed)) (1 :: seed)) 64

def isHigh (s : Scalar) : Bool := 2 * s.val > order

def sign (secret : Scalar) (digest : Bytes) : Option Signature := do
  let z : Scalar := Fin.ofNat order (Bytes.ofBigEndian digest)
  let k ← nonce secret z
  match (Jacobian.multiply k.val generator).toAffine with
  | .infinity => none
  | .point x y =>
    let r : Scalar := Fin.ofNat order x.val
    let s := Scalar.inverse k * (z + r * secret)
    if r = 0 ∨ s = 0 then none
    let parity := y.val % 2
    let reduced := if x.val < order then 0 else 2
    if isHigh s then some ⟨r, -s, 1 - parity + reduced⟩ else some ⟨r, s, parity + reduced⟩

/-- The point whose first coordinate is `x` and whose second has the given parity. -/
def liftX (x : Nat) (parity : Nat) : Option (Jacobian Fp) :=
  if h : x < modulus then do
    let x : Fp := ⟨x, h⟩
    let y ← sqrt? (x * x * x + 7)
    return ⟨x, if y.val % 2 = parity then y else -y, 1⟩
  else none

/-- The scalars of a signature, from 64 bytes; neither may be zero or reach the order. -/
def readScalars? (bytes : Bytes) : Option (Scalar × Scalar) :=
  let r := Bytes.ofBigEndian (bytes.take 32)
  let s := Bytes.ofBigEndian (bytes.drop 32)
  if r = 0 ∨ s = 0 then none
  else if h : r < order ∧ s < order then some (⟨r, h.1⟩, ⟨s, h.2⟩)
  else none

/-- The public key that made a signature of a digest, if there is one. -/
def recover (signature : Signature) (digest : Bytes) : Option (Affine Fp) := do
  if isHigh signature.s then none
  let z : Scalar := Fin.ofNat order (Bytes.ofBigEndian digest)
  let x := signature.r.val + (if signature.recovery ≥ 2 then order else 0)
  let point ← liftX x (signature.recovery % 2)
  let inverse := Scalar.inverse signature.r
  let key := Jacobian.add
    (Jacobian.multiply (-(inverse * z)).val generator)
    (Jacobian.multiply (inverse * signature.s).val point)
  if key.isInfinity then none
  return key.toAffine

end EpochSeal.Secp256k1
