import EpochSeal.Simulation.World

/-!
A block builder in memory. A plain one puts the transactions it is given into a block; one that
tampers changes them or the header on the way, as a dishonest proposer would.
-/
namespace EpochSeal.Simulation

/-- A change of a list of transactions. Indices count from zero; one that is out of range changes
nothing. -/
inductive TransactionEdit where
  | remove (index : Nat)
  | swap (first second : Nat)
  /-- Puts a copy of a transaction in front of another. -/
  | copy (source target : Nat)
  | insert (index : Nat) (transaction : Transaction)
  | push (transaction : Transaction)
  | truncate (size : Nat)
  | value (index : Nat) (value : Word)
  | gas (index : Nat) (gas : UInt64)
  | recipient (index : Nat) (recipient : Option Address)
  | input (index : Nat) (input : Bytes)
  | digest (index : Nat) (digest : Digest)
  | kind (index : Nat) (kind : TransactionKind)

namespace TransactionEdit

def apply (transactions : List Transaction) : TransactionEdit → List Transaction
  | .remove index => transactions.eraseIdx index
  | .swap first second =>
    match transactions[first]?, transactions[second]? with
    | some a, some b => (transactions.set first b).set second a
    | _, _ => transactions
  | .copy source target =>
    match transactions[source]? with
    | some t => transactions.insertIdx target t
    | none => transactions
  | .insert index t => transactions.insertIdx index t
  | .push t => transactions ++ [t]
  | .truncate size => transactions.take size
  | .value index new => transactions.modify index fun t => { t with value := new }
  | .gas index new => transactions.modify index fun t => { t with gas := new }
  | .recipient index new => transactions.modify index fun t => { t with recipient := new }
  | .input index new => transactions.modify index fun t => { t with input := new }
  | .digest index new => transactions.modify index fun t => { t with digest := new }
  | .kind index new => transactions.modify index fun t => { t with kind := new }

def applyAll (edits : List TransactionEdit) (transactions : List Transaction) : List Transaction :=
  edits.foldl apply transactions

end TransactionEdit

/-- How a builder tampers with the block it was told to build. -/
structure Tampering where
  edits : List TransactionEdit
  extension : Extension → Extension
  header : Header → Header
  /-- Changes the header once its digest is taken. -/
  sealedHeader : Header → Header

def Tampering.none : Tampering := ⟨[], id, id, id⟩

/-- Changes what the extra data of a header holds, if it can be read. -/
def mapExtension (f : Extension → Extension) (h : Header) : Header :=
  match Extension.decode h.extraData with
  | .ok e => { h with extraData := (f e).encode }
  | .error _ => h

/-- A builder of the block after `parent`. -/
structure Builder where
  parent : Header
  transactions : List Transaction
  /-- What users have sent and no block has taken in. -/
  pending : List Transaction
  tampering : Tampering
  faults : List Fault

namespace Builder

/-- A builder that does what it is told. -/
def plain (parent : Header) (pending : List Transaction) : Builder :=
  { parent, transactions := [], pending, tampering := Tampering.none, faults := [] }

def withFaults (faults : List Fault) (b : Builder) : Builder := { b with faults }

/-- The header of the next block with the given transactions, before anything else is put in. -/
def draft (b : Builder) (transactions : List Transaction) : Header :=
  { emptyHeader with
    parentDigest := b.parent.digest
    number := b.parent.number + 1
    timestamp := b.parent.timestamp + 1
    gasLimit := b.parent.gasLimit
    mixDigest := Digest.zero
    transactionRoot := Block.transactionRoot transactions }

def finish (b : Builder) (mutate : Header → Header) : ExecutedBlock :=
  let transactions := TransactionEdit.applyAll b.tampering.edits b.transactions
  let header := b.tampering.header (mapExtension b.tampering.extension (mutate (b.draft transactions)))
  ⟨⟨b.tampering.sealedHeader header.withDigest, transactions⟩, []⟩

instance : BlockBuilder Builder where
  reset b := (Fault.guard b.faults .builderReset (.ok ()), { b with transactions := [] })
  write t b :=
    match Fault.guard b.faults .builderWrite (.ok ()) with
    | .ok () => (.ok (), { b with transactions := b.transactions ++ [t] })
    | .error e => (.error e, b)
  fill b := { b with transactions := b.transactions ++ b.pending, pending := [] }
  build mutate b := (Fault.guard b.faults .builderBuild (.ok (b.finish mutate)), b)

end Builder

end EpochSeal.Simulation
