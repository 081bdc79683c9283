import EpochSeal.Chain
import EpochSeal.Config
import EpochSeal.Round.Error
import EpochSeal.SetDelta

/-!
The inputs of a round and the state transactions that they determine. In order, a block that ends an
epoch commits it, tops up the reward wallet if it lacks something, pays the rewards and pays the DAO
incentive; a block that starts an epoch without ending one announces the powers that changed. A
pending bridge commitment comes last.
-/
namespace EpochSeal

/-- What a node knows before a round starts. -/
structure RoundInputs where
  config : Config
  parent : Header
  /-- The set that seals the block of the round. -/
  validators : ValidatorSet
  epoch : UInt64
  epochCommit : Option EpochCommit
  rewards : Option RewardDistribution
  fundAmount : Word
  /-- The powers to announce, if the last epoch changed the set. -/
  powerSync : Option PowerSync
  delta : Option SetDelta
  commitment : Option SignedCommitment
  eventRoot : Digest

namespace RoundInputs

def height (r : RoundInputs) : UInt64 := r.parent.number + 1

def endsEpoch (r : RoundInputs) : Bool := r.config.endsEpoch r.height

def startsEpoch (r : RoundInputs) : Bool := r.config.startsEpoch r.height

def endsSprint (r : RoundInputs) : Bool := r.config.endsSprint r.height

/-- Whether the reward wallet has to be topped up before rewards are paid. -/
def fundRequired (r : RoundInputs) : Bool := r.fundAmount ≠ 0

def commitEpochTransaction (r : RoundInputs) : Except RoundError Transaction :=
  match r.epochCommit with
  | some call => .ok (Transaction.ofCall r.height (.commitEpoch call) 0)
  | none => .error (.missingInput "commit epoch")

def fundTransaction (r : RoundInputs) : Transaction :=
  Transaction.ofCall r.height .fundRewardWallet r.fundAmount

def rewardsTransaction (r : RoundInputs) : Except RoundError Transaction :=
  match r.rewards with
  | some call => .ok (Transaction.ofCall r.height (.distributeRewards call) 0)
  | none => .error (.missingInput "distribute rewards")

def incentiveTransaction (r : RoundInputs) : Transaction :=
  Transaction.ofCall r.height .distributeDaoIncentive 0

def syncTransaction? (r : RoundInputs) : Option Transaction :=
  r.powerSync.map fun call => Transaction.ofCall r.height (.syncPowers call) 0

def commitmentTransaction? (r : RoundInputs) : Option Transaction := do
  let receiver ← r.config.bridgeReceiver?
  let commitment ← r.commitment
  return Transaction.ofSystem r.height receiver commitment.encode 0

def callTransactions (r : RoundInputs) : Except RoundError (List Transaction) :=
  if r.endsEpoch then do
    let commit ← r.commitEpochTransaction
    let rewards ← r.rewardsTransaction
    let funds := if r.fundRequired then [r.fundTransaction] else []
    return commit :: funds ++ [rewards, r.incentiveTransaction]
  else if r.startsEpoch then .ok r.syncTransaction?.toList
  else .ok []

def stateTransactions (r : RoundInputs) : Except RoundError (List Transaction) := do
  return (← r.callTransactions) ++ r.commitmentTransaction?.toList

end RoundInputs

end EpochSeal
