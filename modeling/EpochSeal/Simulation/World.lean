import EpochSeal.Chain

/-!
A chain in memory, to try rounds out on. It stores what is committed, executes a block by looking up
receipts that were written down for its height, and fails where it is told to.
-/
namespace EpochSeal.Simulation

/-- Something that a node asks of others and that can be made to fail. -/
inductive Fault where
  | receipts
  | systemState
  | balance
  | processBlock
  | commitBlock
  | validatorsAt
  | builderReset
  | builderWrite
  | builderBuild
  | epoch
  | nextCommittedIndex
  | exponent
  | blsKey
  deriving DecidableEq, Repr

namespace Fault

def name : Fault → String
  | .receipts => "receipts"
  | .systemState => "system_state"
  | .balance => "balance"
  | .processBlock => "process_block"
  | .commitBlock => "commit_block"
  | .validatorsAt => "validators_at"
  | .builderReset => "builder_reset"
  | .builderWrite => "builder_write"
  | .builderBuild => "builder_build"
  | .epoch => "epoch"
  | .nextCommittedIndex => "next_committed_index"
  | .exponent => "exponent"
  | .blsKey => "bls_key"

def all : List Fault :=
  [.receipts, .systemState, .balance, .processBlock, .commitBlock, .validatorsAt, .builderReset,
   .builderWrite, .builderBuild, .epoch, .nextCommittedIndex, .exponent, .blsKey]

def ofName? (name : String) : Option Fault := all.find? fun f => f.name = name

def message (f : Fault) : String := "mock failure: " ++ f.name

/-- The answer, unless the question is among the faults. -/
def guard {α : Type} (faults : List Fault) (f : Fault) (answer : Except String α) : Except String α :=
  if f ∈ faults then .error f.message else answer

/-- The answer of a system contract, unless the question is among the faults. -/
def guardCall {α : Type} (faults : List Fault) (f : Fault) (answer : Except SystemStateError α) :
    Except SystemStateError α :=
  if f ∈ faults then .error (.call f.name f.message) else answer

end Fault

/-- What the simulated chain and its contracts hold. Of two entries with one key the first counts. -/
structure World where
  headers : List (UInt64 × Header)
  receipts : List (Digest × List Receipt)
  /-- The receipts that executing the block at a height leaves. -/
  scripts : List (UInt64 × List Receipt)
  /-- Validator sets under the heights after which they took effect. -/
  sets : List (UInt64 × ValidatorSet)
  balances : List (Address × Word)
  epoch : UInt64
  exponent : Exponent
  nextCommittedIndex : UInt64
  blsKeys : List (Address × PublicKey)
  faults : List Fault
  /-- How many blocks were committed. -/
  committed : Nat

def emptyHeader : Header :=
  { parentDigest := Digest.zero
    miner := Address.zero
    stateRoot := Digest.zero
    transactionRoot := Digest.zero
    receiptRoot := Digest.zero
    difficulty := 1
    number := 0
    gasLimit := 30000000
    gasUsed := 0
    timestamp := 1700000000
    extraData := List.replicate Extension.vanityLength 0
    mixDigest := Header.consensusMix
    nonce := FixedBytes.zero 8
    digest := Digest.zero }

/-- The extension of a first block, which the given set seals and is to seal. -/
def genesisExtension (validators : ValidatorSet) : Extension :=
  { Extension.none with
    checkpoint := some {
      round := 0
      epoch := 0
      currentSet := validators.digest
      nextSet := validators.digest
      eventRoot := Digest.zero } }

/-- The header of a first block, before its digest is taken. -/
def genesisHeader (validators : ValidatorSet) : Header :=
  { emptyHeader with
    transactionRoot := Block.transactionRoot []
    extraData := (genesisExtension validators).encode }

namespace World

/-- The world of a chain with one block. -/
def ofGenesis (header : Header) (validators : ValidatorSet) : World :=
  { headers := [(header.number, header)]
    receipts := []
    scripts := []
    sets := [(0, validators)]
    balances := []
    epoch := 0
    exponent := ⟨1, 1⟩
    nextCommittedIndex := 1
    blsKeys := []
    faults := []
    committed := 0 }

/-- The greatest key of an association list that is at most a bound. -/
def greatestKey? {α : Type} (bound : UInt64) (entries : List (UInt64 × α)) : Option UInt64 :=
  ((entries.map (·.1)).filter (· ≤ bound)).max?

def head (w : World) : Header :=
  match (w.headers.map (·.1)).max? with
  | some number => (w.headers.lookup number).getD emptyHeader
  | none => emptyHeader

/-- The set in effect after a block: the last that took effect up to it. -/
def validatorsAt (w : World) (number : UInt64) : Except String ValidatorSet :=
  match (greatestKey? number w.sets).bind fun key => w.sets.lookup key with
  | some validators => .ok validators
  | none => .error s!"no validators for block {number}"

/-- The system contracts, which are the same after every block. -/
def systemState (w : World) : SystemState :=
  { epoch := Fault.guardCall w.faults .epoch (.ok w.epoch)
    nextCommittedIndex := Fault.guardCall w.faults .nextCommittedIndex (.ok w.nextCommittedIndex)
    exponent := Fault.guardCall w.faults .exponent (.ok w.exponent)
    blsKey := fun address =>
      Fault.guardCall w.faults .blsKey <|
        match w.blsKeys.lookup address with
        | some key => .ok key
        | none => .error (.call "getValidator" "execution reverted")
    status := fun address =>
      .ok (if (w.blsKeys.lookup address).isSome then .active else .none) }

/-- What a node sees of the world. -/
def chain (w : World) : Chain :=
  { head := w.head
    header? := fun number => w.headers.lookup number
    receipts := fun digest =>
      Fault.guard w.faults .receipts (.ok ((w.receipts.lookup digest).getD []))
    systemState := fun _ => Fault.guard w.faults .systemState (.ok w.systemState)
    balance := fun _ address =>
      Fault.guard w.faults .balance (.ok ((w.balances.lookup address).getD 0))
    execute := fun _ block =>
      Fault.guard w.faults .processBlock (.ok ⟨block, (w.scripts.lookup block.header.number).getD []⟩)
    commit := fun _ => Fault.guard w.faults .commitBlock (.ok ())
    validatorsAt := fun number => Fault.guard w.faults .validatorsAt (w.validatorsAt number) }

def store (w : World) (header : Header) (receipts : List Receipt) : World :=
  { w with
    headers := (header.number, header) :: w.headers
    receipts := (header.digest, receipts) :: w.receipts }

def commit (w : World) (b : ExecutedBlock) : World :=
  { w.store b.block.header b.receipts with committed := w.committed + 1 }

end World

end EpochSeal.Simulation
