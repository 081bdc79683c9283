import EpochSeal.Bytes

/-!
SHA-256 and what is built on it: HMAC, the extract-and-expand key derivation and the message
expansion of hash-to-curve suites.
-/
namespace EpochSeal.Sha256

/-- The chaining value of the compression function. -/
structure State where
  a : UInt32
  b : UInt32
  c : UInt32
  d : UInt32
  e : UInt32
  f : UInt32
  g : UInt32
  h : UInt32

def initial : State :=
  ⟨0x6a09e667, 0xbb67ae85, 0x3c6ef372, 0xa54ff53a, 0x510e527f, 0x9b05688c, 0x1f83d9ab, 0x5be0cd19⟩

def roundConstants : List UInt32 :=
  [0x428a2f98, 0x71374491, 0xb5c0fbcf, 0xe9b5dba5, 0x3956c25b, 0x59f111f1, 0x923f82a4, 0xab1c5ed5,
   0xd807aa98, 0x12835b01, 0x243185be, 0x550c7dc3, 0x72be5d74, 0x80deb1fe, 0x9bdc06a7, 0xc19bf174,
   0xe49b69c1, 0xefbe4786, 0x0fc19dc6, 0x240ca1cc, 0x2de92c6f, 0x4a7484aa, 0x5cb0a9dc, 0x76f988da,
   0x983e5152, 0xa831c66d, 0xb00327c8, 0xbf597fc7, 0xc6e00bf3, 0xd5a79147, 0x06ca6351, 0x14292967,
   0x27b70a85, 0x2e1b2138, 0x4d2c6dfc, 0x53380d13, 0x650a7354, 0x766a0abb, 0x81c2c92e, 0x92722c85,
   0xa2bfe8a1, 0xa81a664b, 0xc24b8b70, 0xc76c51a3, 0xd192e819, 0xd6990624, 0xf40e3585, 0x106aa070,
   0x19a4c116, 0x1e376c08, 0x2748774c, 0x34b0bcb5, 0x391c0cb3, 0x4ed8aa4a, 0x5b9cca4f, 0x682e6ff3,
   0x748f82ee, 0x78a5636f, 0x84c87814, 0x8cc70208, 0x90befffa, 0xa4506ceb, 0xbef9a3f7, 0xc67178f2]

def rotateRight (word amount : UInt32) : UInt32 := (word >>> amount) ||| (word <<< (32 - amount))

/-- The next word of the schedule, from those sixteen, fifteen, seven and two places before it. -/
def extend (w16 w15 w7 w2 : UInt32) : UInt32 :=
  let small0 := rotateRight w15 7 ^^^ rotateRight w15 18 ^^^ (w15 >>> 3)
  let small1 := rotateRight w2 17 ^^^ rotateRight w2 19 ^^^ (w2 >>> 10)
  w16 + small0 + w7 + small1

namespace State

/-- One round; `input` is the sum of the schedule's word and the round's constant. -/
def step (s : State) (input : UInt32) : State :=
  let big1 := rotateRight s.e 6 ^^^ rotateRight s.e 11 ^^^ rotateRight s.e 25
  let choice := (s.e &&& s.f) ^^^ (~~~ s.e &&& s.g)
  let first := s.h + big1 + choice + input
  let big0 := rotateRight s.a 2 ^^^ rotateRight s.a 13 ^^^ rotateRight s.a 22
  let majority := (s.a &&& s.b) ^^^ (s.a &&& s.c) ^^^ (s.b &&& s.c)
  ⟨first + big0 + majority, s.a, s.b, s.c, s.d + first, s.e, s.f, s.g⟩

/-- One round for each constant, over a window of sixteen words of the schedule. -/
def rounds (s : State) (window : List UInt32) : (constants : List UInt32) → State
  | [] => s
  | k :: constants =>
    match window with
    | [w0, w1, w2, w3, w4, w5, w6, w7, w8, w9, w10, w11, w12, w13, w14, w15] =>
      rounds (s.step (k + w0))
        [w1, w2, w3, w4, w5, w6, w7, w8, w9, w10, w11, w12, w13, w14, w15, extend w0 w1 w9 w14]
        constants
    | _ => s

def add (s t : State) : State :=
  ⟨s.a + t.a, s.b + t.b, s.c + t.c, s.d + t.d, s.e + t.e, s.f + t.f, s.g + t.g, s.h + t.h⟩

def compress (s : State) (block : List UInt32) : State := s.add (s.rounds block roundConstants)

/-- Compresses as many blocks from the front of the words. -/
def absorb (s : State) (words : List UInt32) : (blocks : Nat) → State
  | 0 => s
  | blocks + 1 => absorb (s.compress (words.take 16)) (words.drop 16) blocks

def toBytes (s : State) : Bytes :=
  [s.a, s.b, s.c, s.d, s.e, s.f, s.g, s.h].flatMap fun w => Bytes.bigEndian 4 w.toNat

end State

/-- The message, a one bit, zeros and the length in bits, up to a whole number of blocks. -/
def pad (message : Bytes) : Bytes :=
  let zeros := (119 - message.length % 64) % 64
  message ++ 0x80 :: List.replicate zeros 0 ++ Bytes.bigEndian 8 (8 * message.length)

def words : Bytes → List UInt32
  | b0 :: b1 :: b2 :: b3 :: rest =>
    [b0, b1, b2, b3].foldl (fun word b => (word <<< 8) ||| b.toUInt32) 0 :: words rest
  | _ => []

def digest (message : Bytes) : Bytes :=
  let padded := pad message
  (initial.absorb (words padded) (padded.length / 64)).toBytes

def hmac (key message : Bytes) : Bytes :=
  let key := if key.length > 64 then digest key else key
  let key := key ++ List.replicate (64 - key.length) 0
  digest (key.map (· ^^^ 0x5c) ++ digest (key.map (· ^^^ 0x36) ++ message))

/-- Blocks `index`, `index + 1`, … of the key derivation's output, `count` of them. -/
def expandKeyBlocks (secret info previous : Bytes) (index : Nat) : Nat → Bytes
  | 0 => []
  | count + 1 =>
    let block := hmac secret (previous ++ info ++ [UInt8.ofNat index])
    block ++ expandKeyBlocks secret info block (index + 1) count

/-- The first `length` bytes that the key derivation expands `secret` into. -/
def expandKey (secret info : Bytes) (length : Nat) : Bytes :=
  (expandKeyBlocks secret info [] 1 ((length + 31) / 32)).take length

/-- Blocks `index`, `index + 1`, … of an expanded message, `count` of them. -/
def expandMessageBlocks (seed tag previous : Bytes) (index : Nat) : Nat → Bytes
  | 0 => []
  | count + 1 =>
    let block := digest (List.zipWith (· ^^^ ·) seed previous ++ [UInt8.ofNat index] ++ tag)
    block ++ expandMessageBlocks seed tag block (index + 1) count

/-- Expands a message under a domain tag of at most 255 bytes into `length` uniform bytes. -/
def expandMessage (message tag : Bytes) (length : Nat) : Bytes :=
  let tag := tag ++ [UInt8.ofNat tag.length]
  let seed := digest (List.replicate 64 0 ++ message ++ Bytes.bigEndian 2 length ++ [0] ++ tag)
  (expandMessageBlocks seed tag (List.replicate 32 0) 1 ((length + 31) / 32)).take length

end EpochSeal.Sha256
