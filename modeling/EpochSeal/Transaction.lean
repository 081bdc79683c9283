import EpochSeal.Wire

/-!
Transactions, and the digest that names them. A state transaction, which the protocol makes itself,
mixes the block's number into its digest, so that one payload is named anew at every height.
-/
namespace EpochSeal

/-- Who makes a transaction: a user, or the protocol. -/
inductive TransactionKind where
  | legacy
  | state
  deriving DecidableEq, Repr

instance : Wire TransactionKind where
  encode
    | .legacy => Bytes.littleEndian 4 0
    | .state => Bytes.littleEndian 4 1
  decode := do
    match ← Wire.number 4 with
    | 0 => return .legacy
    | 1 => return .state
    | found => throw (.variantIndex found 2)

/-- A transaction. The field `digest` is what its maker declared it to be. -/
structure Transaction where
  nonce : UInt64
  sender : Address
  recipient : Option Address
  value : Word
  gas : UInt64
  gasPrice : Word
  input : Bytes
  kind : TransactionKind
  digest : Digest
  deriving DecidableEq

namespace Transaction

/-- Every field but the digest, in order. -/
def encodeBody (t : Transaction) : Bytes :=
  Wire.encode t.nonce ++ Wire.encode t.sender ++ Wire.encode t.recipient ++ Wire.encode t.value ++
    Wire.encode t.gas ++ Wire.encode t.gasPrice ++ Wire.encode t.input ++ Wire.encode t.kind

def digestInput (t : Transaction) (height : UInt64) : Bytes :=
  match t.kind with
  | .state => t.encodeBody ++ Bytes.bigEndian 8 height.toNat
  | .legacy => t.encodeBody

/-- The digest that the transaction ought to declare at a height. -/
def computeDigest (t : Transaction) (height : UInt64) : Digest :=
  Digest.ofMessage (t.digestInput height)

theorem computeDigest_eq (t : Transaction) (height : UInt64) :
    t.computeDigest height = Digest.ofMessage (t.digestInput height) := rfl

def withDigest (t : Transaction) (height : UInt64) : Transaction :=
  { t with digest := t.computeDigest height }

def isState (t : Transaction) : Bool := t.kind = .state

end Transaction

instance : Wire Transaction where
  encode t := t.encodeBody ++ Wire.encode t.digest
  decode := do
    let nonce ← Wire.decode
    let sender ← Wire.decode
    let recipient ← Wire.decode
    let value ← Wire.decode
    let gas ← Wire.decode
    let gasPrice ← Wire.decode
    let input ← Wire.decode
    let kind ← Wire.decode
    let digest ← Wire.decode
    return { nonce, sender, recipient, value, gas, gasPrice, input, kind, digest }

end EpochSeal
