import EpochSeal.Round.Basic
import EpochSeal.Round.HeaderRules
import EpochSeal.Round.StateRules

/-!
Validating a proposal that was received: its header, the seal of its parent, its state transactions,
the change of the set and the checkpoint, in this order; then it is executed.
-/
namespace EpochSeal

namespace RoundInputs

/-- The set after a received block: the block must announce the change that this node computed, or
none if it does not end an epoch. -/
def checkDelta (r : RoundInputs) (announced : Option SetDelta) : Except RoundError ValidatorSet :=
  match r.endsEpoch, announced, r.delta with
  | true, none, _ => .error .deltaMissing
  | true, some _, none => .error (.missingInput "validator set delta")
  | true, some delta, some expected =>
    if delta.same expected then (r.validators.apply delta).mapError .validatorSet
    else .error .deltaMismatch
  | false, some _, _ => .error .deltaNotExpected
  | false, none, _ => .ok r.validators

/-- Checks the seal of the parent, which the set after the parent's own parent gave. -/
def checkParentSeal (r : RoundInputs) (chain : Chain) (number : UInt64)
    (extension parentExtension : Extension) : Except RoundError Unit := do
  if 1 < number then
    let sealers ← (chain.validatorsAt (r.parent.number - 1)).mapError
      (.backend "failed to get parent validators")
    (extension.validateParentSeal number r.parent parentExtension sealers r.config.chainId
      checkpointDomain).mapError .extension

/-- Checks a received block against everything that this node knows. `now` is the local time. -/
def checkBlock (r : RoundInputs) (chain : Chain) (now : UInt64) (block : Block) :
    Except RoundError Unit := do
  let header := block.header
  (header.checkAgainst r.parent r.config.blockTimeDrift now).mapError
    (.header r.parent.number header.number)
  let extension ← (Extension.decode header.extraData).mapError .extension
  let parentExtension ← (Extension.decode r.parent.extraData).mapError .extension
  let some checkpoint := extension.checkpoint | throw (.missingCheckpoint header.number)
  let some parentCheckpoint := parentExtension.checkpoint
    | throw (.missingParentCheckpoint r.parent.number)
  r.checkParentSeal chain header.number extension parentExtension
  r.checkTransactions chain block.transactions
  let next ← r.checkDelta extension.delta
  (checkpoint.validate parentCheckpoint r.validators next r.eventRoot r.startsEpoch).mapError
    .checkpoint

def accept (r : RoundInputs) (chain : Chain) (now : UInt64) (proposal : Bytes) :
    Except RoundError ExecutedBlock := do
  let block ← (Block.decode proposal).mapError .decode
  r.checkBlock chain now block
  (chain.execute r.parent block).mapError (.backend "failed to process block")

end RoundInputs

namespace Round

variable {β : Type}

/-- Validates a received proposal, which becomes the target of the round. -/
def validate (r : Round β) (chain : Chain) (now : UInt64) (proposal : Bytes) :
    Except RoundError (Round β) := do
  r.checkPhase "validate" [.waiting]
  let target ← r.inputs.accept chain now proposal
  return { r with target := some target, phase := .validated }

end Round

end EpochSeal
