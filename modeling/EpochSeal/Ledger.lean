import EpochSeal.Chain
import EpochSeal.Config
import EpochSeal.SetDelta
import EpochSeal.Store

/-!
The ledger of stakes follows the chain: it reads the events of the staking contract block by block,
keeps the power of every validator in the snapshot, and says at the end of an epoch how the set of
validators changes.
-/
namespace EpochSeal

/-- Why the ledger could not follow the chain or compute a change. -/
inductive LedgerError where
  | store (cause : StoreError)
  | missingSnapshot (epoch : UInt64)
  | missingHeader (number : UInt64)
  | backend (cause : String)
  | systemState (block : UInt64) (cause : SystemStateError)
  | blsKey (address : Address) (cause : LedgerError)
  | event (cause : PayloadError)
  | validatorSet (cause : ValidatorSetError)
  deriving DecidableEq

namespace LedgerError

def message : LedgerError → String
  | .store cause => cause.message
  | .missingSnapshot epoch =>
    s!"failed to get full validators set. Epoch: {epoch}. Snapshot is not initialized"
  | .missingHeader number => s!"header {number} not found"
  | .backend cause => "backend: " ++ cause
  | .systemState block cause => s!"system state at block {block}: " ++ cause.message
  | .blsKey address cause =>
    s!"could not retrieve validator data. Address: {address}. Error: " ++ cause.message
  | .event cause => "failed to parse BalanceChanged event: " ++ cause.message
  | .validatorSet cause => cause.message

def code : LedgerError → String
  | .store cause => "Store." ++ cause.code
  | .missingSnapshot _ => "MissingSnapshot"
  | .missingHeader _ => "MissingHeader"
  | .backend _ => "Backend"
  | .systemState _ cause => "SystemState." ++ cause.code
  | .blsKey _ cause => "BlsKey." ++ cause.code
  | .event cause => "Event." ++ cause.code
  | .validatorSet cause => "ValidatorSet." ++ cause.code

instance : Failure LedgerError where
  name e := "Ledger." ++ e.code
  message := message

end LedgerError

/-- The contract whose events count, and how many validators may be active. -/
structure Ledger where
  stakingContract : Address
  maxSetSize : Nat

namespace Ledger

def ofConfig (c : Config) : Ledger := ⟨c.stakingContract, c.maxSetSize.toNat⟩

/-- The events that the ledger wants to be told of: contracts with their topics. -/
def logFilters (l : Ledger) : List (Address × List Digest) :=
  [(l.stakingContract, [BalanceChanged.topic])]

def genesisSnapshot (genesis : ValidatorSet) : Snapshot :=
  { block := 0
    epoch := 0
    updatedAt := 0
    stakes := StakeTable.ofList (genesis.members.map fun v => (v.address, v)) }

def snapshot? (store : Store) : Except LedgerError (Option Snapshot) := store.snapshot.mapError .store

/-- The snapshot in a transaction, which is seeded with the genesis set if there is none. -/
def load (chain : Chain) : Transactional LedgerError Snapshot := do
  match snapshot? (← get) with
  | .error e => throw e
  | .ok (some snapshot) => return snapshot
  | .ok none =>
    match chain.validatorsAt 0 with
    | .error e => throw (.backend e)
    | .ok genesis =>
      let snapshot := genesisSnapshot genesis
      set (Store.put snapshot)
      return snapshot

/-- The changes of stake that a log announces: one or none. -/
def logEvents (l : Ledger) (log : Log) : Except LedgerError (List BalanceChanged) :=
  if log.address = l.stakingContract then
    match BalanceChanged.ofLog log with
    | .ok event => .ok event.toList
    | .error e => .error (.event e)
  else .ok []

/-- The changes of stake in successful receipts, in order. -/
def receiptEvents (l : Ledger) (receipts : List Receipt) : Except LedgerError (List BalanceChanged) :=
  List.flatten <$> ((receipts.filter (·.success)).flatMap (·.logs)).mapM l.logEvents

/-- The changes of stake in `count` stored blocks from height `first` on. -/
def storedEvents (l : Ledger) (chain : Chain) (first : UInt64) :
    (count : Nat) → Except LedgerError (List BalanceChanged)
  | 0 => .ok []
  | count + 1 => do
    let some header := chain.header? first | throw (.missingHeader first)
    let receipts ← (chain.receipts header.digest).mapError .backend
    let events ← l.receiptEvents receipts
    let later ← storedEvents l chain (first + 1) count
    return events ++ later

/-- The changes of stake in the stored blocks from height `first` on and below height `stop`. -/
def eventsBetween (l : Ledger) (chain : Chain) (first stop : UInt64) :
    Except LedgerError (List BalanceChanged) :=
  l.storedEvents chain first (stop.toNat - first.toNat)

/-- The key of a validator as it is registered at the head of the chain. -/
def blsKeyFor (chain : Chain) (address : Address) : Except LedgerError PublicKey := do
  let state ← (chain.systemState chain.head).mapError .backend
  (state.blsKey address).mapError (.systemState chain.head.number)

def exponentAt (chain : Chain) (header : Header) : Except LedgerError Exponent := do
  let state ← (chain.systemState header).mapError .backend
  state.exponent.mapError (.systemState header.number)

def epochAt (chain : Chain) (header : Header) : Except LedgerError UInt64 := do
  let state ← (chain.systemState header).mapError .backend
  state.epoch.mapError (.systemState header.number)

/-- Looks up the key that a validator has none of, and leaves it without one if there is none. -/
def completeKey (chain : Chain) (address : Address) (v : Validator) : Validator :=
  let key := match v.blsKey with
    | some key => some key
    | none => (blsKeyFor chain address).toOption
  { v with blsKey := key, active := 0 < v.power }

/-- The snapshot after changes of stake, with the exponent that holds at a header. -/
def applyEvents (chain : Chain) (snapshot : Snapshot) (events : List BalanceChanged)
    (header : Header) : Except LedgerError Snapshot :=
  if events.isEmpty then .ok snapshot
  else do
    let exponent ← exponentAt chain header
    let stakes := events.foldl (fun t e => t.setStake e.account e.balance exponent) snapshot.stakes
    return { snapshot with
      stakes := stakes.mapValidators (completeKey chain)
      updatedAt := header.number }

/-- Brings the snapshot up to the head of the chain. -/
def catchUp (l : Ledger) (chain : Chain) : Transactional LedgerError Unit := do
  let head := chain.head
  let snapshot ← load chain
  if snapshot.block < head.number then
    let events ← l.eventsBetween chain (snapshot.block + 1) (head.number + 1)
    let snapshot ← applyEvents chain snapshot events head
    let epoch ← epochAt chain head
    set (Store.put { snapshot with epoch, block := head.number })

/-- Takes in a finalized block, after the blocks between it and the snapshot. A block that the
snapshot covers already changes nothing. -/
def onFinalized (l : Ledger) (chain : Chain) (block : ExecutedBlock) (epoch : UInt64) :
    Transactional LedgerError Unit := do
  let header := block.block.header
  let snapshot ← load chain
  if snapshot.block < header.number then
    let missed ← l.eventsBetween chain (snapshot.block + 1) header.number
    let events ← l.receiptEvents block.receipts
    let snapshot ← applyEvents chain snapshot (missed ++ events) header
    set (Store.put { snapshot with epoch, block := header.number })

/-- The indices of members whose address is not among the given ones. -/
def removedBits (members : List Validator) (kept : List Address) : Bitmap :=
  members.zipIdx.foldl (fun bits (v, i) => if v.address ∈ kept then bits else bits.insert i) .empty

/-- Sorts the next members into added and updated ones; a member that is added needs a key. -/
def sortMembers (chain : Chain) (previous : ValidatorSet) :
    List Validator → Except LedgerError (List Validator × List Validator)
  | [] => .ok ([], [])
  | v :: rest =>
    match previous.find? v.address with
    | some old => do
      let (added, updated) ← sortMembers chain previous rest
      return (added, if old.power = v.power then updated else v :: updated)
    | none => do
      let key ← match v.blsKey with
        | some key => .ok key
        | none => (blsKeyFor chain v.address).mapError (.blsKey v.address)
      let (added, updated) ← sortMembers chain previous rest
      return ({ v with blsKey := some key } :: added, updated)

def computeDelta (l : Ledger) (chain : Chain) (store : Store) (epoch : UInt64)
    (previous : ValidatorSet) : Except LedgerError SetDelta := do
  match ← snapshot? store with
  | none => throw (.missingSnapshot epoch)
  | some snapshot =>
    let next := snapshot.stakes.strongest l.maxSetSize
    let (added, updated) ← sortMembers chain previous next.members
    return { added, updated, removed := removedBits previous.members next.addresses }

end Ledger

end EpochSeal
