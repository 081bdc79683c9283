import EpochSeal.StakeTable

/-!
The one record that the ledger keeps: a snapshot of all stakes. It is stored as bytes, which need
not be a record at all. A transaction sees its own writes, and the store sees them once it commits.

The database under the store is taken not to fail. To begin a transaction, to write and to commit are
steps without an error, and the errors of the database and of its files have no case here: what can go
wrong is reading the record back.
-/
namespace EpochSeal

/-- The stakes after a block. -/
structure Snapshot where
  /-- The last block whose events are in. -/
  block : UInt64
  epoch : UInt64
  /-- The last block that had such events. -/
  updatedAt : UInt64
  stakes : StakeTable
  deriving DecidableEq

instance : Wire Snapshot where
  encode s :=
    Wire.encode s.block ++ Wire.encode s.epoch ++ Wire.encode s.updatedAt ++ Wire.encode s.stakes
  decode := do
    let block ← Wire.decode
    let epoch ← Wire.decode
    let updatedAt ← Wire.decode
    let stakes ← Wire.decode
    return { block, epoch, updatedAt, stakes }

/-- Why the record cannot be read. -/
inductive StoreError where
  | codec (cause : WireError)
  deriving DecidableEq, Repr

namespace StoreError

def message : StoreError → String
  | .codec cause => "failed to (de)serialize record: " ++ cause.message

def code : StoreError → String
  | .codec _ => "Codec"

instance : Failure StoreError where
  name e := "Store." ++ e.code
  message := message

end StoreError

/-- What the store holds for the snapshot, or what a transaction sees of it. -/
structure Store where
  record : Option Bytes
  deriving DecidableEq

namespace Store

def empty : Store := ⟨none⟩

def snapshot (s : Store) : Except StoreError (Option Snapshot) :=
  match s.record with
  | none => .ok none
  | some bytes =>
    match (Wire.read bytes : Except WireError Snapshot) with
    | .ok snapshot => .ok (some snapshot)
    | .error e => .error (.codec e)

/-- What is seen after a snapshot is written. -/
def put (snapshot : Snapshot) : Store := ⟨some (Wire.encode snapshot)⟩

end Store

/-- Steps that read and write the snapshot within one transaction. The writes of a step that fails
remain in the transaction; whoever opened it decides what becomes of them. -/
abbrev Transactional (ε : Type) := ExceptT ε (StateM Store)

namespace Transactional

/-- Runs steps in a transaction of their own, which commits only if they succeed. -/
def runOwn {ε α : Type} (steps : Transactional ε α) (store : Store) : Except ε α × Store :=
  match steps.run store with
  | (.ok a, written) => (.ok a, written)
  | (.error e, _) => (.error e, store)

end Transactional

end EpochSeal
