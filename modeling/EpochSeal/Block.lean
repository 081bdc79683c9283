import EpochSeal.Header
import EpochSeal.Transaction

/-!
Blocks, what executing them leaves behind, and the root that binds a header to its transactions.
-/
namespace EpochSeal

/-- An event that a contract emitted. -/
structure Log where
  address : Address
  topics : List Digest
  data : Bytes
  deriving DecidableEq

/-- The outcome of a transaction. -/
structure Receipt where
  transaction : Digest
  success : Bool
  gasUsed : UInt64
  logs : List Log
  deriving DecidableEq

structure Block where
  header : Header
  transactions : List Transaction
  deriving DecidableEq

/-- A block with the receipts of its transactions. -/
structure ExecutedBlock where
  block : Block
  receipts : List Receipt
  deriving DecidableEq

instance : Wire Block where
  encode b := Wire.encode b.header ++ Wire.encode b.transactions
  decode := do
    let header ← Wire.decode
    let transactions ← Wire.decode
    return { header, transactions }

namespace Block

/-- The digest of the declared digests of a list of transactions, one after the other. -/
def transactionRoot (transactions : List Transaction) : Digest :=
  Digest.ofMessage (transactions.flatMap (·.digest.bytes))

/-- The form in which a proposal travels. -/
def encode (b : Block) : Bytes := Wire.encode b

def decode (bytes : Bytes) : Except WireError Block := Wire.read bytes

end Block

end EpochSeal
