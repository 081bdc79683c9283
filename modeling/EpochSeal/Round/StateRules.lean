import EpochSeal.Round.Inputs
import EpochSeal.Seal

/-!
The rules that the state transactions of a block must keep: each is the one that this node would
have made, each kind stands at most once, in its place and in the block it belongs into, and none
that the block needs is missing. Bridge commitments are checked on their own.
-/
namespace EpochSeal.RoundInputs

/-- Checks that a transaction, whatever digest it declares, is the expected one. -/
def compare (r : RoundInputs) (kind : StateCallKind) (actual expected : Transaction) :
    Except RoundError Unit :=
  let digest := actual.computeDigest r.height
  if digest = expected.digest then .ok ()
  else .error (.callMismatch kind expected.digest digest)

def checkFirst (kind : StateCallKind) (seen : List StateCallKind) : Except RoundError Unit :=
  if kind ∈ seen then .error (.callRepeated kind) else .ok ()

/-- Checks that a kind of call, which belongs to the end of an epoch, may stand here. -/
def checkEnding (r : RoundInputs) (kind : StateCallKind) (seen : List StateCallKind) :
    Except RoundError Unit :=
  if r.endsEpoch then checkFirst kind seen else .error (.callNotExpected kind)

def checkIndex (index : Nat) : Except RoundError Unit :=
  if index = 0 then .ok () else .error (.callIndex 0 index)

/-- Checks that the reward wallet was topped up if it has to be. -/
def checkFunded (r : RoundInputs) (seen : List StateCallKind) : Except RoundError Unit :=
  if r.fundRequired && !decide (StateCallKind.fundRewardWallet ∈ seen) then .error .fundRequired
  else .ok ()

/-- Checks the transaction at an index, which makes a call of the given kind, after the kinds that
were seen before it. -/
def checkCall (r : RoundInputs) (index : Nat) (seen : List StateCallKind) (t : Transaction) :
    StateCallKind → Except RoundError Unit
  | .commitEpoch => do
    r.checkEnding .commitEpoch seen
    checkIndex index
    r.compare .commitEpoch t (← r.commitEpochTransaction)
  | .fundRewardWallet => do
    r.checkEnding .fundRewardWallet seen
    r.compare .fundRewardWallet t r.fundTransaction
  | .distributeRewards => do
    r.checkEnding .distributeRewards seen
    r.checkFunded seen
    r.compare .distributeRewards t (← r.rewardsTransaction)
  | .distributeDaoIncentive => do
    r.checkEnding .distributeDaoIncentive seen
    r.checkFunded seen
    r.compare .distributeDaoIncentive t r.incentiveTransaction
  | .syncPowers =>
    match r.syncTransaction? with
    | some expected => do
      if !r.startsEpoch then throw (.callNotExpected .syncPowers)
      checkFirst .syncPowers seen
      checkIndex index
      r.compare .syncPowers t expected
    | none => .error (.callNotExpected .syncPowers)

/-- Checks a commitment: it continues the committed range, and a quorum of the set signed it. -/
def checkCommitment (r : RoundInputs) (chain : Chain) (t : Transaction) : Except RoundError Unit := do
  let commitment ← (SignedCommitment.decode t.input).mapError (.commitmentDecode t.digest)
  let state ← (chain.systemState r.parent).mapError (.backend "failed to read system state")
  let expected ← state.nextCommittedIndex.mapError .systemState
  if commitment.message.startId ≠ expected then
    throw (.commitmentStart expected commitment.message.startId)
  let bundle : Seal := ⟨commitment.signature, commitment.signers⟩
  (bundle.verify commitment.message.digest r.validators bridgeDomain).mapError
    (.commitmentSeal t.digest)

def isCommitment (r : RoundInputs) (t : Transaction) : Bool :=
  match r.config.bridgeReceiver? with
  | some receiver => t.recipient = some receiver
  | none => false

def checkTransaction (r : RoundInputs) (chain : Chain) (index : Nat) (seen : List StateCallKind)
    (t : Transaction) : Except RoundError (List StateCallKind) := do
  if !t.isState then return seen
  if r.isCommitment t then
    r.checkCommitment chain t
    return seen
  let call ← (StateCall.decode t.input).mapError (.unknownCall t.digest)
  r.checkCall index seen t call.kind
  return call.kind :: seen

/-- Checks the transactions from an index on; gives the kinds seen in all of them. -/
def checkFrom (r : RoundInputs) (chain : Chain) (index : Nat) (seen : List StateCallKind) :
    List Transaction → Except RoundError (List StateCallKind)
  | [] => .ok seen
  | t :: rest => do
    let seen ← r.checkTransaction chain index seen t
    checkFrom r chain (index + 1) seen rest

/-- The kinds of call that the block needs, in the order in which they are missed. -/
def neededKinds (r : RoundInputs) : List StateCallKind :=
  (if r.endsEpoch then
    .commitEpoch :: (if r.fundRequired then [.fundRewardWallet] else []) ++
      [.distributeRewards, .distributeDaoIncentive]
  else []) ++
  (if r.startsEpoch && r.powerSync.isSome then [.syncPowers] else [])

/-- Checks the state transactions of a block with the given transactions. -/
def checkTransactions (r : RoundInputs) (chain : Chain) (transactions : List Transaction) :
    Except RoundError Unit := do
  let seen ← r.checkFrom chain 0 [] transactions
  match r.neededKinds.find? fun kind => decide (kind ∉ seen) with
  | some kind => throw (.callMissing kind)
  | none => return ()

end EpochSeal.RoundInputs
