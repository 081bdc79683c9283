import EpochSeal.SystemCall

/-!
State transactions: the five calls that the protocol itself puts into blocks, told apart by their
selectors, and the envelope that carries them.
-/
namespace EpochSeal

/-- Which call a state transaction makes. -/
inductive StateCallKind where
  | commitEpoch
  | fundRewardWallet
  | distributeRewards
  | distributeDaoIncentive
  | syncPowers
  deriving DecidableEq, Repr

namespace StateCallKind

def name : StateCallKind → String
  | .commitEpoch => "commit epoch"
  | .fundRewardWallet => "fund reward wallet"
  | .distributeRewards => "distribute rewards"
  | .distributeDaoIncentive => "distribute DAO incentive"
  | .syncPowers => "sync validators data"

end StateCallKind

/-- The call that a state transaction makes. -/
inductive StateCall where
  | commitEpoch (call : EpochCommit)
  | fundRewardWallet
  | distributeRewards (call : RewardDistribution)
  | distributeDaoIncentive
  | syncPowers (call : PowerSync)
  deriving DecidableEq

/-- Why the input of a state transaction is none of the calls. -/
inductive StateCallError where
  | tooShort (size : Nat)
  | unknown (selector : Bytes)
  | malformed (cause : PayloadError)
  deriving DecidableEq, Repr

namespace StateCallError

def message : StateCallError → String
  | .tooShort size => s!"state transaction input too short for a selector ({size} bytes)"
  | .unknown selector => s!"unknown state transaction (selector 0x{Hex.text selector})"
  | .malformed cause => "malformed state transaction: " ++ cause.message

def code : StateCallError → String
  | .tooShort _ => "TooShort"
  | .unknown _ => "Unknown"
  | .malformed cause => "Malformed." ++ cause.code

instance : Failure StateCallError where
  name e := "StateTx." ++ e.code
  message := message

end StateCallError

namespace StateCall

def kind : StateCall → StateCallKind
  | .commitEpoch _ => .commitEpoch
  | .fundRewardWallet => .fundRewardWallet
  | .distributeRewards _ => .distributeRewards
  | .distributeDaoIncentive => .distributeDaoIncentive
  | .syncPowers _ => .syncPowers

def name (c : StateCall) : String := c.kind.name

def target : StateCall → Address
  | .commitEpoch _ | .distributeDaoIncentive | .syncPowers _ => Contract.registry
  | .fundRewardWallet => Contract.rewardWallet
  | .distributeRewards _ => Contract.staking

def encode : StateCall → Bytes
  | .commitEpoch call => call.encode
  | .fundRewardWallet => PlainCall.fundRewardWallet.encode
  | .distributeRewards call => call.encode
  | .distributeDaoIncentive => PlainCall.distributeDaoIncentive.encode
  | .syncPowers call => call.encode

/-- The call with the given selector, whose payload is read from the whole input. -/
def decodeFor (selector input : Bytes) : Except StateCallError StateCall :=
  if selector = EpochCommit.selector then
    ((EpochCommit.decode input).map commitEpoch).mapError .malformed
  else if selector = PlainCall.fundRewardWallet.selector then
    ((PlainCall.fundRewardWallet.decode input).map fun _ => fundRewardWallet).mapError .malformed
  else if selector = RewardDistribution.selector then
    ((RewardDistribution.decode input).map distributeRewards).mapError .malformed
  else if selector = PlainCall.distributeDaoIncentive.selector then
    ((PlainCall.distributeDaoIncentive.decode input).map fun _ => distributeDaoIncentive).mapError
      .malformed
  else if selector = PowerSync.selector then
    ((PowerSync.decode input).map syncPowers).mapError .malformed
  else .error (.unknown selector)

def decode (input : Bytes) : Except StateCallError StateCall :=
  if input.length < 4 then .error (.tooShort input.length) else decodeFor (input.take 4) input

end StateCall

namespace Transaction

def stateGas : UInt64 := 1000000

/-- The state transaction that sends an input and a value to a contract at a height. -/
def ofSystem (height : UInt64) (target : Address) (input : Bytes) (value : Word) : Transaction :=
  withDigest
    { nonce := 0
      sender := Contract.systemCaller
      recipient := some target
      value
      gas := stateGas
      gasPrice := 0
      input
      kind := .state
      digest := Digest.zero }
    height

def ofCall (height : UInt64) (call : StateCall) (value : Word) : Transaction :=
  ofSystem height call.target call.encode value

end Transaction

end EpochSeal
