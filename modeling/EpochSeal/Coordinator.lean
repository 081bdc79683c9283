import EpochSeal.Ledger
import EpochSeal.Round.Basic
import EpochSeal.Uptime

/-!
The coordinator of a node prepares the round on top of a parent block and hands finalized blocks to
the ledger. It remembers the active set of the last parent that was asked for, until an epoch ends.
-/
namespace EpochSeal

/-- Why it cannot be said what the reward wallet lacks. -/
inductive RewardWalletError where
  | balance (cause : String)
  deriving DecidableEq, Repr

namespace RewardWalletError

def message : RewardWalletError → String
  | .balance cause => "cannot get account balance: " ++ cause

def code : RewardWalletError → String
  | .balance _ => "CannotGetAccountBalance"

instance : Failure RewardWalletError where
  name e := "RewardWallet." ++ e.code
  message := message

end RewardWalletError

/-- Why a round could not be prepared or a block not be taken in. -/
inductive CoordinatorError where
  | config (cause : ConfigError)
  | extension (cause : ExtensionError)
  | missingCheckpoint (block : UInt64)
  | missingHeader (number : UInt64)
  | backend (context cause : String)
  | ledger (cause : LedgerError)
  | rewardWallet (cause : RewardWalletError)
  | validatorSet (cause : ValidatorSetError)
  deriving DecidableEq

namespace CoordinatorError

def message : CoordinatorError → String
  | .config cause => cause.message
  | .extension cause => cause.message
  | .missingCheckpoint block => s!"checkpoint data for block {block} is missing"
  | .missingHeader number => s!"header of block {number} not found"
  | .backend context cause => s!"{context}: {cause}"
  | .ledger cause => cause.message
  | .rewardWallet cause => cause.message
  | .validatorSet cause => cause.message

def code : CoordinatorError → String
  | .config cause => "Config." ++ cause.code
  | .extension cause => "Extra." ++ cause.code
  | .missingCheckpoint _ => "MissingCheckpoint"
  | .missingHeader _ => "MissingHeader"
  | .backend .. => "Backend"
  | .ledger cause => "Ledger." ++ cause.code
  | .rewardWallet cause => "RewardWallet." ++ cause.code
  | .validatorSet cause => "ValidatorSet." ++ cause.code

def ofUptime : UptimeError → CoordinatorError
  | .missingHeader number => .missingHeader number
  | .extension cause => .extension cause
  | .validatorSet cause => .validatorSet cause

instance : Failure CoordinatorError where
  name e := "Runtime." ++ e.code
  message := message

end CoordinatorError

def RewardWallet.shortfall (chain : Chain) (target : Word) (header : Header) :
    Except RewardWalletError Word := do
  let balance ← (chain.balance header Contract.rewardWallet).mapError .balance
  return target.saturatingSub balance

/-- What the node learns from its other parts before a round. -/
structure RoundContext where
  eventRoot : Digest
  commitment : Option SignedCommitment

namespace RoundInputs

/-- The inputs of a round with nothing to do. -/
def plain (config : Config) (parent : Header) (validators : ValidatorSet) (epoch : UInt64)
    (context : RoundContext) : RoundInputs :=
  { config
    parent
    validators
    epoch
    epochCommit := none
    rewards := none
    fundAmount := 0
    powerSync := none
    delta := none
    commitment := context.commitment
    eventRoot := context.eventRoot }

def epochRange (r : RoundInputs) : EpochRange :=
  { start := epochStart r.config.epochSize r.height
    finish := r.height
    root := Digest.zero }

/-- Adds what a block needs that ends an epoch. -/
def endingEpoch (r : RoundInputs) (l : Ledger) (chain : Chain) (store : Store) :
    Except CoordinatorError RoundInputs := do
  let epochSize := r.config.epochSize
  let uptime ← (Uptime.ofEpoch chain epochSize r.parent r.validators).mapError
    CoordinatorError.ofUptime
  let fundAmount ← (RewardWallet.shortfall chain r.config.rewardWalletTarget r.parent).mapError
    .rewardWallet
  let delta ← (l.computeDelta chain store r.epoch r.validators).mapError .ledger
  return { r with
    epochCommit := some { id := r.epoch, range := r.epochRange, epochSize, uptime }
    rewards := some { epochId := r.epoch, uptime, epochSize }
    fundAmount
    delta := some delta }

/-- Adds what a block needs that starts an epoch: the powers that its parent changed. -/
def startingEpoch (r : RoundInputs) (chain : Chain) (parentDelta : Option SetDelta) :
    Except CoordinatorError RoundInputs :=
  match parentDelta with
  | none => .ok r
  | some delta => do
    let previous ← (chain.validatorsAt (r.parent.number - 1)).mapError
      (.backend "failed to get previous validators")
    return { r with powerSync := ← (PowerSync.ofDelta delta previous).mapError .validatorSet }

end RoundInputs

/-- The state of a node between rounds. -/
structure Coordinator where
  config : Config
  ledger : Ledger
  /-- The height of a parent and the active set on top of it. -/
  cached : Option (UInt64 × ValidatorSet)

/-- Steps of a coordinator. What a step has remembered remains if a later one fails. -/
abbrev Coordinating := ExceptT CoordinatorError (StateM Coordinator)

namespace Coordinator

def make (config : Config) (ledger : Ledger) : Except CoordinatorError Coordinator := do
  config.validate.mapError .config
  return { config, ledger, cached := none }

/-- The set that seals the block after `parent`. -/
def activeSet (chain : Chain) (parent : Header) : Coordinating ValidatorSet := do
  match (← get).cached with
  | some (number, active) => if number = parent.number then return active
  | none => pure ()
  match chain.validatorsAt parent.number with
  | .error cause => throw (.backend "failed to get validators" cause)
  | .ok active =>
    modify fun c => { c with cached := some (parent.number, active) }
    return active

/-- The epoch of the block after `parent`, and the change of the set that the parent announces. -/
def readParent (config : Config) (parent : Header) :
    Except CoordinatorError (UInt64 × Option SetDelta) := do
  let extension ← (Extension.decode parent.extraData).mapError .extension
  let some checkpoint := extension.checkpoint | throw (.missingCheckpoint parent.number)
  return (config.epochAt checkpoint.epoch (parent.number + 1), extension.delta)

/-- Completes the inputs of a round by the place of its block in the epoch. -/
def completeInputs (l : Ledger) (chain : Chain) (store : Store) (parentDelta : Option SetDelta)
    (inputs : RoundInputs) : Except CoordinatorError RoundInputs :=
  if inputs.endsEpoch then inputs.endingEpoch l chain store
  else if inputs.startsEpoch && 1 < inputs.height then inputs.startingEpoch chain parentDelta
  else .ok inputs

/-- Prepares the round on top of a parent. A node that proposes passes its builder. -/
def createRound {β : Type} (chain : Chain) (store : Store) (parent : Header) (builder : Option β)
    (context : RoundContext) : Coordinating (Round β) := do
  let c ← get
  let (epoch, parentDelta) ← ExceptT.mk (pure (readParent c.config parent))
  let active ← activeSet chain parent
  let inputs := RoundInputs.plain c.config parent active epoch context
  let inputs ← ExceptT.mk (pure (completeInputs c.ledger chain store parentDelta inputs))
  return Round.ofInputs inputs builder

/-- The coordinator after a block at a height: the end of an epoch may change the active set. -/
def afterBlock (c : Coordinator) (height : UInt64) : Coordinator :=
  if c.config.endsEpoch height then { c with cached := none } else c

/-- Hands a committed block to the ledger. If that fails, nothing changes. -/
def onInserted (c : Coordinator) (chain : Chain) (store : Store) (block : ExecutedBlock) :
    Except CoordinatorError (Coordinator × Store) := do
  let header := block.block.header
  let extension ← (Extension.decode header.extraData).mapError .extension
  let some checkpoint := extension.checkpoint | throw (.missingCheckpoint header.number)
  match Transactional.runOwn (c.ledger.onFinalized chain block checkpoint.epoch) store with
  | (.error cause, _) => throw (.ledger cause)
  | (.ok _, written) => return (c.afterBlock header.number, written)

end Coordinator

end EpochSeal
