import EpochSeal.Word

/-!
Arguments of contract calls. Each argument has one word of 32 bytes in the head, the value itself or
the offset of a tail; tails follow in the order of the arguments. Reading walks over heads and tails
once and compares every offset with the place reached, so that it accepts what writing produces and
nothing else.
-/
namespace EpochSeal.Abi

/-- The shape of an argument: a word below `2 ^ bits`, a byte string, or a list of rows whose
columns are words below the given powers of two. -/
inductive Shape where
  | word (bits : Nat)
  | bytes
  | rows (columns : List Nat)
  deriving DecidableEq

inductive Value where
  | word (w : Word)
  | bytes (b : Bytes)
  | rows (table : List (List Word))
  deriving DecidableEq

def writeNat (n : Nat) : Bytes := Bytes.bigEndian 32 n

/-- How many zero bytes complete the last word of a byte string. -/
def padding (length : Nat) : Nat := (32 - length % 32) % 32

/-- What stands behind the heads for a value. -/
def Value.tail : Value → Bytes
  | .word _ => []
  | .bytes b => writeNat b.length ++ b ++ List.replicate (padding b.length) 0
  | .rows table => writeNat table.length ++ table.flatMap fun row => row.flatMap Word.toBytes

/-- The heads of values whose first tail stands at `offset`. -/
def heads (offset : Nat) : List Value → Bytes
  | [] => []
  | .word w :: rest => w.toBytes ++ heads offset rest
  | value :: rest => writeNat offset ++ heads (offset + value.tail.length) rest

def encode (values : List Value) : Bytes :=
  heads (32 * values.length) values ++ values.flatMap Value.tail

def readWord (input : Bytes) : Option (Word × Bytes) :=
  let front := input.take 32
  if front.length = 32 then some (Word.ofBytes front, input.drop 32) else none

def readWords : (count : Nat) → Bytes → Option (List Word × Bytes)
  | 0, input => some ([], input)
  | count + 1, input => do
    let (first, input) ← readWord input
    let (rest, input) ← readWords count input
    return (first :: rest, input)

/-- Whether each word is below the power of two given for it. -/
def fits (columns : List Nat) (row : List Word) : Bool :=
  columns.length = row.length && (columns.zip row).all fun (bits, w) => decide (w.toNat < 2 ^ bits)

def readRows (columns : List Nat) : (count : Nat) → Bytes → Option (List (List Word) × Bytes)
  | 0, input => some ([], input)
  | count + 1, input => do
    let (row, input) ← readWords columns.length input
    if !fits columns row then none
    let (rest, input) ← readRows columns count input
    return (row :: rest, input)

/-- The value whose head is given, with its tail, if it has one, at `offset` and next in `input`. -/
def readValue (offset : Nat) (head : Word) (input : Bytes) : Shape → Option (Value × Bytes)
  | .word bits => if head.toNat < 2 ^ bits then some (.word head, input) else none
  | .bytes => do
    if head.toNat ≠ offset then none
    let (count, input) ← readWord input
    let length := count.toNat
    if input.length < length + padding length then none
    let zeros := (input.drop length).take (padding length)
    if zeros.all (· = 0) then
      return (.bytes (input.take length), input.drop (length + padding length))
    else none
  | .rows columns => do
    if head.toNat ≠ offset then none
    let (count, input) ← readWord input
    if input.length < count.toNat * (32 * columns.length) then none
    let (rows, input) ← readRows columns count.toNat input
    return (.rows rows, input)

def readValues (offset : Nat) (input : Bytes) : List (Shape × Word) → Option (List Value × Bytes)
  | [] => some ([], input)
  | (shape, head) :: rest => do
    let (value, input) ← readValue offset head input shape
    let (values, input) ← readValues (offset + value.tail.length) input rest
    return (value :: values, input)

/-- The values of the given shapes that bytes are the encoding of. -/
def decode (shapes : List Shape) (input : Bytes) : Option (List Value) := do
  let (words, input) ← readWords shapes.length input
  let (values, input) ← readValues (32 * shapes.length) input (shapes.zip words)
  if input.isEmpty then return values else none

end EpochSeal.Abi
