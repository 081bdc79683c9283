import EpochSeal.Hex

/-!
Words of 256 bits: balances, transaction values and the words of contract calls. Their text is `0x`
and the fewest hexadecimal digits; reading also skips blanks.
-/
namespace EpochSeal

/-- An unsigned number of 256 bits. -/
abbrev Word := BitVec 256

/-- Why a text is no word. -/
inductive WordError where
  | length (found : Nat)
  | badDigit (byte : UInt8) (index : Nat)
  deriving DecidableEq, Repr

def WordError.message : WordError → String
  | .length found =>
    s!"invalid length {found}, expected a (both 0x-prefixed or not) hex string or byte array " ++
      "containing between (0; 32] bytes"
  | .badDigit byte index => s!"invalid hex character: {Bytes.toLatin1 [byte]}, at {index}"

namespace Word

def max : Word := BitVec.allOnes 256

/-- The difference, or zero if it would be negative. -/
def saturatingSub (a b : Word) : Word := if b ≤ a then a - b else 0

def toBytes (w : Word) : Bytes := Bytes.bigEndian 32 w.toNat

/-- The word with the given bytes, most significant first; longer strings lose their front. -/
def ofBytes (bytes : Bytes) : Word := BitVec.ofNat 256 (Bytes.ofBigEndian bytes)

def toUInt64? (w : Word) : Option UInt64 :=
  if w.toNat < 2 ^ 64 then some (UInt64.ofNat w.toNat) else none

def ofUInt64 (n : UInt64) : Word := BitVec.ofNat 256 n.toNat

/-- The fewest hexadecimal digits of a word, at least one. -/
def digits (w : Word) : Bytes :=
  match (Hex.encode (toBytes w)).dropWhile (· = 48) with
  | [] => [48]
  | significant => significant

def text (w : Word) : Bytes := 48 :: 120 :: digits w

def isBlank (code : UInt8) : Bool := code = 32 ∨ code = 9 ∨ code = 10 ∨ code = 13

/-- Reads digits into bytes. `buffer` holds the digits read so far, the last one in its low half,
and `half` says whether the next digit completes a byte. -/
def readDigits (index : Nat) (half : Bool) (buffer : UInt8) : Bytes → Except WordError Bytes
  | [] => .ok []
  | code :: rest =>
    match Hex.value? code with
    | some digit =>
      let buffer := buffer <<< 4 ||| digit
      if half then
        match readDigits (index + 1) false buffer rest with
        | .ok bytes => .ok (buffer :: bytes)
        | .error e => .error e
      else readDigits (index + 1) true buffer rest
    | none =>
      if isBlank code then readDigits (index + 1) half ((buffer <<< 4) >>> 4) rest
      else .error (.badDigit code index)

/-- Reads 1 to 64 characters after an optional `0x`. With an odd number of them the first digit
stands for a byte of its own. -/
def parse (text : Bytes) : Except WordError Word :=
  let read (start : Nat) (body : Bytes) : Except WordError Word :=
    if 0 < body.length ∧ body.length ≤ 64 then
      match readDigits start (body.length % 2 = 1) 0 body with
      | .ok bytes => .ok (ofBytes bytes)
      | .error e => .error e
    else .error (.length body.length)
  match text with
  | 48 :: 120 :: body => read 2 body
  | body => read 0 body

end Word

end EpochSeal
