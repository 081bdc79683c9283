import EpochSeal.Bitmap
import EpochSeal.Identifier
import EpochSeal.Word

/-!
The binary form of records: numbers little-endian at full width, a 64-bit count before every list,
one byte before an optional value, fields one after the other. Addresses, digests and words travel
as counted text. A value's form says where it ends, so readers leave the bytes behind it alone.
-/
namespace EpochSeal

/-- Why bytes are no record. -/
inductive WireError where
  | endOfInput
  | invalidUtf8
  | optionTag (found : Nat)
  | booleanByte (found : Nat)
  | variantIndex (found count : Nat)
  | identifier (cause : IdentifierError)
  | word (cause : WordError)
  deriving DecidableEq, Repr

def WireError.message : WireError → String
  | .endOfInput => "<eof>"
  | .invalidUtf8 => "<utf8>"
  | .optionTag found => s!"tag for enum is not valid, found {found}"
  | .booleanByte found => s!"invalid u8 while decoding bool, expected 0 or 1, found {found}"
  | .variantIndex found count =>
    s!"invalid value: integer \x60{found}\x60, expected variant index 0 <= i < {count}"
  | .identifier cause => cause.message
  | .word cause => cause.message

/-- Reads a value off the front of a byte string. -/
abbrev Reader := StateT Bytes (Except WireError)

/-- A type with a binary form. -/
class Wire (α : Type) where
  encode : α → Bytes
  decode : Reader α

namespace Wire

def take (count : Nat) : Reader Bytes := fun input =>
  let front := input.take count
  if front.length = count then .ok (front, input.drop count) else .error .endOfInput

def takeFixed (n : Nat) : Reader (FixedBytes n) := fun input =>
  if h : (input.take n).length = n then .ok (⟨input.take n, h⟩, input.drop n)
  else .error .endOfInput

def number (width : Nat) : Reader Nat := do
  return Bytes.ofLittleEndian (← take width)

def repeated {α : Type} (item : Reader α) : (count : Nat) → Reader (List α)
  | 0 => pure []
  | count + 1 => do
    let first ← item
    let rest ← repeated item count
    return first :: rest

/-- Turns the outcome of reading a text into the outcome of reading a record. -/
def lift {α ε : Type} (wrap : ε → WireError) : Except ε α → Reader α
  | .ok a => pure a
  | .error e => throw (wrap e)

/-- Whether `code` continues a character. -/
def isContinuation (code : UInt8) : Bool := 0x80 ≤ code && code ≤ 0xbf

/-- Whether bytes are the UTF-8 form of a text: shortest forms only, and no surrogates. -/
def isUtf8 : Bytes → Bool
  | [] => true
  | a :: rest =>
    if a < 0x80 then isUtf8 rest
    else if a < 0xc2 then false
    else if a < 0xe0 then
      match rest with
      | b :: rest => isContinuation b && isUtf8 rest
      | _ => false
    else if a < 0xf0 then
      match rest with
      | b :: c :: rest =>
        isContinuation b && isContinuation c && (a ≠ 0xe0 || 0xa0 ≤ b) && (a ≠ 0xed || b ≤ 0x9f) &&
          isUtf8 rest
      | _ => false
    else if a < 0xf5 then
      match rest with
      | b :: c :: d :: rest =>
        isContinuation b && isContinuation c && isContinuation d && (a ≠ 0xf0 || 0x90 ≤ b) &&
          (a ≠ 0xf4 || b ≤ 0x8f) && isUtf8 rest
      | _ => false
    else false

/-- A counted text, as its UTF-8 bytes. -/
def readText : Reader Bytes := do
  let bytes ← take (← number 8)
  if isUtf8 bytes then return bytes else throw .invalidUtf8

/-- A text of the given bytes with its count. -/
def writeText (text : Bytes) : Bytes := Bytes.littleEndian 8 text.length ++ text

instance : Wire UInt8 where
  encode b := [b]
  decode := do return UInt8.ofNat (← number 1)

instance : Wire UInt64 where
  encode n := Bytes.littleEndian 8 n.toNat
  decode := do return UInt64.ofNat (← number 8)

instance : Wire Bool where
  encode b := [if b then 1 else 0]
  decode := do
    match ← number 1 with
    | 0 => return false
    | 1 => return true
    | found => throw (.booleanByte found)

instance {α : Type} [Wire α] : Wire (Option α) where
  encode
    | none => [0]
    | some a => 1 :: encode a
  decode := do
    match ← number 1 with
    | 0 => return none
    | 1 => return some (← decode)
    | found => throw (.optionTag found)

instance {α : Type} [Wire α] : Wire (List α) where
  encode items := Bytes.littleEndian 8 items.length ++ items.flatMap encode
  decode := do repeated decode (← number 8)

instance {α β : Type} [Wire α] [Wire β] : Wire (α × β) where
  encode pair := encode pair.1 ++ encode pair.2
  decode := do
    let first ← decode
    let second ← decode
    return (first, second)

instance {n : Nat} : Wire (FixedBytes n) where
  encode b := b.bytes
  decode := takeFixed n

instance : Wire Bitmap where
  encode b := encode b.bytes
  decode := do return ⟨← decode⟩

instance : Wire Address where
  encode a := writeText a.text
  decode := do lift .identifier (Address.parse (← readText))

instance : Wire Digest where
  encode d := writeText d.text
  decode := do lift .identifier (Digest.parse (← readText))

instance : Wire Word where
  encode w := writeText w.text
  decode := do lift .word (Word.parse (← readText))

/-- Reads a value off the front of a byte string; what follows it is ignored. -/
def read {α : Type} [Wire α] (bytes : Bytes) : Except WireError α :=
  match (decode : Reader α) bytes with
  | .ok (a, _) => .ok a
  | .error e => .error e

end Wire

end EpochSeal
