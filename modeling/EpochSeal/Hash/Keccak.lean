import EpochSeal.Bytes

/-!
Keccak-256 with the padding of plain Keccak (one bit, zeros, one bit): a sponge of 136
bytes over the permutation of twenty-five 64-bit lanes. `Keccak.digest` gives 32 bytes.
-/
namespace EpochSeal.Keccak

/-- The five lanes of one row index, by column. -/
structure Plane where
  x0 : UInt64
  x1 : UInt64
  x2 : UInt64
  x3 : UInt64
  x4 : UInt64

/-- The permutation's state, by row. -/
structure Lanes where
  y0 : Plane
  y1 : Plane
  y2 : Plane
  y3 : Plane
  y4 : Plane

def rate : Nat := 136

def roundConstants : List UInt64 :=
  [0x0000000000000001, 0x0000000000008082, 0x800000000000808A, 0x8000000080008000,
   0x000000000000808B, 0x0000000080000001, 0x8000000080008081, 0x8000000000008009,
   0x000000000000008A, 0x0000000000000088, 0x0000000080008009, 0x000000008000000A,
   0x000000008000808B, 0x800000000000008B, 0x8000000000008089, 0x8000000000008003,
   0x8000000000008002, 0x8000000000000080, 0x000000000000800A, 0x800000008000000A,
   0x8000000080008081, 0x8000000000008080, 0x0000000080000001, 0x8000000080008008]

/-- A lane rotated by an amount between 1 and 63. -/
def rotateLeft (lane amount : UInt64) : UInt64 := (lane <<< amount) ||| (lane >>> (64 - amount))

namespace Plane

def zero : Plane := ⟨0, 0, 0, 0, 0⟩

def xor (p q : Plane) : Plane :=
  ⟨p.x0 ^^^ q.x0, p.x1 ^^^ q.x1, p.x2 ^^^ q.x2, p.x3 ^^^ q.x3, p.x4 ^^^ q.x4⟩

/-- For each column, the column before it and the one after it rotated by one. -/
def neighbours (p : Plane) : Plane :=
  ⟨p.x4 ^^^ rotateLeft p.x1 1, p.x0 ^^^ rotateLeft p.x2 1, p.x1 ^^^ rotateLeft p.x3 1,
   p.x2 ^^^ rotateLeft p.x4 1, p.x3 ^^^ rotateLeft p.x0 1⟩

/-- Mixes each lane with the two that follow it. -/
def chi (p : Plane) : Plane :=
  ⟨p.x0 ^^^ (~~~ p.x1 &&& p.x2), p.x1 ^^^ (~~~ p.x2 &&& p.x3), p.x2 ^^^ (~~~ p.x3 &&& p.x4),
   p.x3 ^^^ (~~~ p.x4 &&& p.x0), p.x4 ^^^ (~~~ p.x0 &&& p.x1)⟩

end Plane

namespace Lanes

def zero : Lanes := ⟨.zero, .zero, .zero, .zero, .zero⟩

def xor (s t : Lanes) : Lanes :=
  ⟨s.y0.xor t.y0, s.y1.xor t.y1, s.y2.xor t.y2, s.y3.xor t.y3, s.y4.xor t.y4⟩

/-- Adds to each lane the parities of two neighbouring columns. -/
def theta (s : Lanes) : Lanes :=
  let parity := (((s.y0.xor s.y1).xor s.y2).xor s.y3).xor s.y4
  let change := parity.neighbours
  s.xor ⟨change, change, change, change, change⟩

/-- Rotates every lane and moves the lane of `(x, y)` to `(y, 2x + 3y)`. -/
def rhoPi (s : Lanes) : Lanes :=
  ⟨⟨s.y0.x0, rotateLeft s.y1.x1 44, rotateLeft s.y2.x2 43, rotateLeft s.y3.x3 21,
    rotateLeft s.y4.x4 14⟩,
   ⟨rotateLeft s.y0.x3 28, rotateLeft s.y1.x4 20, rotateLeft s.y2.x0 3, rotateLeft s.y3.x1 45,
    rotateLeft s.y4.x2 61⟩,
   ⟨rotateLeft s.y0.x1 1, rotateLeft s.y1.x2 6, rotateLeft s.y2.x3 25, rotateLeft s.y3.x4 8,
    rotateLeft s.y4.x0 18⟩,
   ⟨rotateLeft s.y0.x4 27, rotateLeft s.y1.x0 36, rotateLeft s.y2.x1 10, rotateLeft s.y3.x2 15,
    rotateLeft s.y4.x3 56⟩,
   ⟨rotateLeft s.y0.x2 62, rotateLeft s.y1.x3 55, rotateLeft s.y2.x4 39, rotateLeft s.y3.x0 41,
    rotateLeft s.y4.x1 2⟩⟩

def chi (s : Lanes) : Lanes := ⟨s.y0.chi, s.y1.chi, s.y2.chi, s.y3.chi, s.y4.chi⟩

/-- One round, which ends by adding the round's constant to the first lane. -/
def round (s : Lanes) (constant : UInt64) : Lanes :=
  let s := s.theta.rhoPi.chi
  { s with y0 := { s.y0 with x0 := s.y0.x0 ^^^ constant } }

def permute (s : Lanes) : Lanes := roundConstants.foldl round s

/-- The state that holds the seventeen words of a block, and zeros in the other lanes. -/
def ofBlock : List UInt64 → Lanes
  | [a0, a1, a2, a3, a4, b0, b1, b2, b3, b4, c0, c1, c2, c3, c4, d0, d1] =>
    ⟨⟨a0, a1, a2, a3, a4⟩, ⟨b0, b1, b2, b3, b4⟩, ⟨c0, c1, c2, c3, c4⟩, ⟨d0, d1, 0, 0, 0⟩, .zero⟩
  | _ => zero

/-- Absorbs as many blocks from the front of the words. -/
def absorb (s : Lanes) (words : List UInt64) : (blocks : Nat) → Lanes
  | 0 => s
  | blocks + 1 => absorb (s.xor (ofBlock (words.take 17))).permute (words.drop 17) blocks

/-- The first four lanes as bytes. -/
def squeeze (s : Lanes) : Bytes :=
  Bytes.littleEndian 8 s.y0.x0.toNat ++ Bytes.littleEndian 8 s.y0.x1.toNat ++
    Bytes.littleEndian 8 s.y0.x2.toNat ++ Bytes.littleEndian 8 s.y0.x3.toNat

@[simp] theorem length_squeeze (s : Lanes) : s.squeeze.length = 32 := by simp [squeeze]

end Lanes

/-- The message followed by padding up to a whole number of blocks. -/
def pad (message : Bytes) : Bytes :=
  let gap := rate - message.length % rate
  if gap = 1 then message ++ [0x81]
  else message ++ 0x01 :: List.replicate (gap - 2) 0 ++ [0x80]

def words : Bytes → List UInt64
  | b0 :: b1 :: b2 :: b3 :: b4 :: b5 :: b6 :: b7 :: rest =>
    [b0, b1, b2, b3, b4, b5, b6, b7].foldr (fun b word => (word <<< 8) ||| b.toUInt64) 0 :: words rest
  | _ => []

def digest (message : Bytes) : Bytes :=
  let padded := pad message
  (Lanes.zero.absorb (words padded) (padded.length / rate)).squeeze

@[simp] theorem length_digest (message : Bytes) : (digest message).length = 32 := by
  simp [digest]

end EpochSeal.Keccak
