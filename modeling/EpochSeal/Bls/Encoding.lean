import EpochSeal.Bls.Field
import EpochSeal.Bytes

/-!
The byte forms of points of the two groups. The top three bits of the first byte say whether the
form is compressed, whether the point is infinity and, in a compressed form, which of the two roots
the second coordinate is.
-/
namespace EpochSeal.Bls
open Curve

/-- Why bytes are no point, or a point is no key or signature. -/
inductive PointError where
  | badEncoding
  | notOnCurve
  | notInGroup
  | keyIsInfinity
  deriving DecidableEq, Repr

def PointError.name : PointError → String
  | .badEncoding => "BLST_BAD_ENCODING"
  | .notOnCurve => "BLST_POINT_NOT_ON_CURVE"
  | .notInGroup => "BLST_POINT_NOT_IN_GROUP"
  | .keyIsInfinity => "BLST_PK_IS_INFINITY"

/-- A coordinate field with its byte form and square roots. -/
class Coordinate (F : Type) extends FieldOps F where
  /-- How many bytes a coordinate takes. -/
  width : Nat
  toBytes : F → Bytes
  /-- Refuses a number that is not below the modulus. -/
  ofBytes? : Bytes → Option F
  sqrt? : F → Option F
  isLarger : F → Bool

def Fp.ofBytes? (bytes : Bytes) : Option Fp :=
  let n := Bytes.ofBigEndian bytes
  if h : n < modulus then some ⟨n, h⟩ else none

instance : Coordinate Fp where
  width := 48
  toBytes a := Bytes.bigEndian 48 a.val
  ofBytes? := Fp.ofBytes?
  sqrt? := Fp.sqrt?
  isLarger := Fp.isLarger

/-- The imaginary part comes first. -/
instance : Coordinate Fp2 where
  width := 96
  toBytes a := Bytes.bigEndian 48 a.im.val ++ Bytes.bigEndian 48 a.re.val
  ofBytes? bytes := do
    let im ← Fp.ofBytes? (bytes.take 48)
    let re ← Fp.ofBytes? (bytes.drop 48)
    return ⟨re, im⟩
  sqrt? := Fp2.sqrt?
  isLarger := Fp2.isLarger

/-- The constants of the two curve equations. -/
def g1Constant : Fp := 4
def g2Constant : Fp2 := ⟨4, 4⟩

variable {F : Type} [Coordinate F] [DecidableEq F]

/-- Sets the given top bits of the first byte. -/
def withFlags (flags : UInt8) : Bytes → Bytes
  | [] => []
  | b :: rest => (b ||| flags) :: rest

/-- Clears the three top bits of the first byte. -/
def withoutFlags : Bytes → Bytes
  | [] => []
  | b :: rest => (b &&& 0x1f) :: rest

def compress (p : Affine F) : Bytes :=
  match p with
  | .infinity => withFlags 0xc0 (List.replicate (Coordinate.width F) 0)
  | .point x y => withFlags (if Coordinate.isLarger y then 0xa0 else 0x80) (Coordinate.toBytes x)

/-- The form of infinity: nothing is set but the flags for it. -/
def isInfinityForm (flags : UInt8) (bytes : Bytes) : Bool :=
  match bytes with
  | [] => false
  | b :: rest => b = flags && rest.all (· = 0)

/-- Reads a compressed form. The point is on the curve but perhaps not in the group. -/
def decompress (b : F) (bytes : Bytes) : Except PointError (Affine F) :=
  match bytes with
  | [] => .error .badEncoding
  | flags :: _ =>
    if flags &&& 0x40 ≠ 0 then
      if isInfinityForm 0xc0 bytes then .ok .infinity else .error .badEncoding
    else
      match (Coordinate.ofBytes? (withoutFlags bytes) : Option F) with
      | none => .error .badEncoding
      | some x =>
        match Coordinate.sqrt? (x * x * x + b) with
        | none => .error .notOnCurve
        | some y =>
          if x = 0 then .error .notInGroup
          else .ok (.point x (if Coordinate.isLarger y = (flags &&& 0x20 ≠ 0) then y else -y))

/-- Reads a form that gives both coordinates. -/
def readUncompressed (b : F) (bytes : Bytes) : Except PointError (Affine F) :=
  match bytes with
  | [] => .error .badEncoding
  | flags :: _ =>
    if flags &&& 0xe0 = 0 then
      match (Coordinate.ofBytes? (bytes.take (Coordinate.width F)) : Option F),
          (Coordinate.ofBytes? (bytes.drop (Coordinate.width F)) : Option F) with
      | some x, some y =>
        if Affine.onCurve b (.point x y) then
          if x = 0 then .error .notInGroup else .ok (.point x y)
        else .error .notOnCurve
      | _, _ => .error .badEncoding
    else if isInfinityForm 0x40 bytes then .ok .infinity
    else .error .badEncoding

/-- Reads either form; the length and the top bit decide which it is. -/
def readPoint (b : F) (bytes : Bytes) : Except PointError (Affine F) :=
  let compressed : Bool := match bytes with
    | [] => false
    | flags :: _ => flags &&& 0x80 ≠ 0
  if bytes.length = Coordinate.width F && compressed then decompress b bytes
  else if bytes.length = 2 * Coordinate.width F && !compressed then readUncompressed b bytes
  else .error .badEncoding

/-- Whether a point of the curve lies in the group of prime order. -/
def inGroup (p : Affine F) : Bool := (Jacobian.multiply order (Jacobian.ofAffine p)).isInfinity

end EpochSeal.Bls
