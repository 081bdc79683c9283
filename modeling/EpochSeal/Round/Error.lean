import EpochSeal.Extension
import EpochSeal.StateCall
import EpochSeal.SystemState

/-!
What can go wrong in a round, one cause for each rule, and the four classes that operators read it
by.
-/
namespace EpochSeal

/-- Where a round is in its life. -/
inductive Phase where
  | waiting
  /-- The block was built on this node. -/
  | proposed
  /-- The block was received and holds. -/
  | validated
  | committed
  deriving DecidableEq, Repr

def Phase.name : Phase → String
  | .waiting => "Init"
  | .proposed => "Proposed"
  | .validated => "Validated"
  | .committed => "Committed"

/-- How a refusal should be read. -/
inductive ErrorClass where
  /-- The proposal is malformed or inconsistent. -/
  | structural
  /-- The proposal differs from what this node computed. -/
  | determinism
  /-- This node's ledger or one of its collaborators failed. -/
  | ledger
  /-- A signature, a signer or a quorum is wrong. -/
  | crypto
  deriving DecidableEq, Repr

def ErrorClass.name : ErrorClass → String
  | .structural => "structural"
  | .determinism => "determinism"
  | .ledger => "ledger"
  | .crypto => "crypto"

/-- Why a header does not follow its parent, one cause for each field. -/
inductive HeaderError where
  | extraTooShort (size : Nat)
  | parentDigest (parent header : Digest)
  | number
  | fromTheFuture (timestamp drift : UInt64)
  | nonce
  | gasLimit (used limit : UInt64)
  | olderThanParent
  | mixDigest
  | difficulty
  | digest
  deriving DecidableEq

namespace HeaderError

def message : HeaderError → String
  | .extraTooShort size => s!"extra-data shorter than 32 bytes ({size})"
  | .parentDigest parent header =>
    s!"incorrect header parent hash (parent={parent}, header parent={header})"
  | .number => "invalid number"
  | .fromTheFuture timestamp drift =>
    s!"block from the future. block timestamp: {timestamp}, configured block time drift {drift} " ++
      "seconds"
  | .nonce => "invalid nonce"
  | .gasLimit used limit => s!"invalid gas limit: have {used}, max {limit}"
  | .olderThanParent => "timestamp older than parent"
  | .mixDigest => "mix digest is not correct"
  | .difficulty => "difficulty should be greater than zero"
  | .digest => "invalid header hash"

def code : HeaderError → String
  | .extraTooShort _ => "ExtraTooShort"
  | .parentDigest .. => "ParentHash"
  | .number => "Number"
  | .fromTheFuture .. => "FromTheFuture"
  | .nonce => "Nonce"
  | .gasLimit .. => "GasLimit"
  | .olderThanParent => "TimestampOlderThanParent"
  | .mixDigest => "MixDigest"
  | .difficulty => "Difficulty"
  | .digest => "HeaderHash"

instance : Failure HeaderError where
  name e := "Header." ++ e.code
  message := message

end HeaderError

/-- Why a step of a round was refused. -/
inductive RoundError where
  | phase (operation : String) (phase : Phase)
  | decode (cause : WireError)
  | header (parent number : UInt64) (cause : HeaderError)
  | extension (cause : ExtensionError)
  | missingCheckpoint (block : UInt64)
  | missingParentCheckpoint (block : UInt64)
  | unknownCall (transaction : Digest) (cause : StateCallError)
  | commitmentDecode (transaction : Digest) (cause : PayloadError)
  | missingInput (name : String)
  | noBuilder
  | validatorSet (cause : ValidatorSetError)
  | callMissing (kind : StateCallKind)
  | callNotExpected (kind : StateCallKind)
  | callRepeated (kind : StateCallKind)
  | fundRequired
  | callIndex (expected actual : Nat)
  | callMismatch (kind : StateCallKind) (expected actual : Digest)
  | deltaMismatch
  | deltaNotExpected
  | deltaMissing
  | checkpoint (cause : CheckpointError)
  | commitmentStart (expected actual : UInt64)
  | proposalMismatch
  | unknownValidator (address : Address)
  | invalidSignature (cause : CryptoError)
  | incorrectCommit (signer : Address)
  | recoverSigner (cause : CryptoError)
  | signerMismatch (signer : Address)
  | signerNotInSet (signer : Address)
  | unknownSealer (signer : Address)
  | aggregate (cause : CryptoError)
  | commitmentSeal (transaction : Digest) (cause : SealError)
  | backend (context cause : String)
  | systemState (cause : SystemStateError)
  deriving DecidableEq

/-- The kind of block that a call belongs into. -/
def StateCallKind.place : StateCallKind → String
  | .syncPowers => "epoch starting block"
  | _ => "epoch ending block"

def StateCallKind.code : StateCallKind → String
  | .commitEpoch => "CommitEpochTx"
  | .fundRewardWallet => "FundRewardWalletTx"
  | .distributeRewards => "DistributeRewardsTx"
  | .distributeDaoIncentive => "DistributeDaoIncentiveTx"
  | .syncPowers => "SyncValidatorsDataTx"

namespace RoundError

def message : RoundError → String
  | .phase operation found => s!"{operation} is not allowed in round phase {found.name}"
  | .decode cause => "failed to validate, cannot decode block data. Error: " ++ cause.message
  | .header parent number cause =>
    s!"failed to validate header (parent header# {parent}, current header#{number}): " ++
      cause.message
  | .extension cause => cause.message
  | .missingCheckpoint block => s!"checkpoint data for block {block} is missing"
  | .missingParentCheckpoint block => s!"checkpoint data for parent block {block} is missing"
  | .unknownCall transaction cause =>
    s!"unknown state transaction: tx = {transaction}, err = " ++ cause.message
  | .commitmentDecode transaction cause =>
    s!"failed to decode bridge commitment state tx ({transaction}): " ++ cause.message
  | .missingInput name => name ++ " input is not available for this round"
  | .noBuilder => "block builder is not available, only the proposer builds blocks"
  | .validatorSet cause => cause.message
  | .callMissing kind => s!"{kind.name} transaction is not found in the {kind.place}"
  | .callNotExpected kind => s!"didn't expect {kind.name} transaction in a non {kind.place}"
  | .callRepeated kind => s!"only one {kind.name} transaction is allowed in an {kind.place}"
  | .fundRequired =>
    "the reward wallet fund transaction must be executed before distributing rewards"
  | .callIndex expected actual =>
    s!"invalid transaction index. Expected {expected}, but got {actual}"
  | .callMismatch kind expected actual =>
    s!"invalid {kind.name} transaction. Expected '{expected}', but got '{actual}' {kind.name} " ++
      "transaction hash"
  | .deltaMismatch => "validator set delta mismatch"
  | .deltaNotExpected => "trying to update validator set in a non epoch ending block"
  | .deltaMissing => "validator set delta is nil in epoch ending block"
  | .checkpoint cause => cause.message
  | .commitmentStart expected actual =>
    s!"invalid bridge commitment start id. Expected {expected}, but got {actual}"
  | .proposalMismatch =>
    "failed to insert proposal, because the validated proposal is either nil or it does not " ++
      "match the received one"
  | .unknownValidator address => s!"unable to resolve validator {address}"
  | .invalidSignature cause => "failed to unmarshall signature: " ++ cause.message
  | .incorrectCommit signer => s!"incorrect commit signature from {signer}"
  | .recoverSigner cause => "failed to recover address from signature: " ++ cause.message
  | .signerMismatch signer => s!"signer address {signer} doesn't match From field"
  | .signerNotInSet signer => s!"signer address {signer} is not included in validator set"
  | .unknownSealer signer => s!"invalid node id = {signer}"
  | .aggregate cause => "could not aggregate seals: " ++ cause.message
  | .commitmentSeal transaction cause =>
    s!"invalid bridge commitment state tx ({transaction}): " ++ cause.message
  | .backend context cause => s!"{context}: {cause}"
  | .systemState cause => "system state: " ++ cause.message

def code : RoundError → String
  | .phase .. => "InvalidPhase"
  | .decode _ => "Decode"
  | .header _ _ cause => "Header." ++ cause.code
  | .extension cause => "Extra." ++ cause.code
  | .missingCheckpoint _ => "MissingCheckpoint"
  | .missingParentCheckpoint _ => "MissingParentCheckpoint"
  | .unknownCall _ cause => "UnknownStateTx." ++ cause.code
  | .commitmentDecode _ cause => "BridgeCommitmentDecode." ++ cause.code
  | .missingInput _ => "MissingRoundInput"
  | .noBuilder => "NoBlockBuilder"
  | .validatorSet cause => "ValidatorSet." ++ cause.code
  | .callMissing kind => kind.code ++ "DoesNotExist"
  | .callNotExpected kind => kind.code ++ "NotExpected"
  | .callRepeated kind => kind.code ++ "SingleExpected"
  | .fundRequired => "FundRewardWalletTxRequired"
  | .callIndex .. => "InvalidTxIndex"
  | .callMismatch .. => "TxHashMismatch"
  | .deltaMismatch => "ValidatorSetDeltaMismatch"
  | .deltaNotExpected => "ValidatorsUpdateInNonEpochEnding"
  | .deltaMissing => "ValidatorDeltaNilInEpochEndingBlock"
  | .checkpoint cause => "Checkpoint." ++ cause.code
  | .commitmentStart .. => "CommitmentStartId"
  | .proposalMismatch => "ProposalDontMatch"
  | .unknownValidator _ => "UnknownValidator"
  | .invalidSignature cause => "InvalidSignature." ++ cause.code
  | .incorrectCommit _ => "IncorrectCommitSignature"
  | .recoverSigner cause => "RecoverSigner." ++ cause.code
  | .signerMismatch _ => "SignerMismatch"
  | .signerNotInSet _ => "SignerNotInValidatorSet"
  | .unknownSealer _ => "InvalidNodeId"
  | .aggregate cause => "Aggregate." ++ cause.code
  | .commitmentSeal _ cause => "BridgeCommitment." ++ cause.code
  | .backend .. => "Backend"
  | .systemState cause => "SystemState." ++ cause.code

/-- The class of a cause. Of the extension's errors, a wrong parent seal is one of signatures. -/
def kind : RoundError → ErrorClass
  | .phase .. | .decode _ | .header .. | .missingCheckpoint _ | .missingParentCheckpoint _
  | .unknownCall .. | .commitmentDecode .. | .missingInput _ | .noBuilder | .validatorSet _ =>
    .structural
  | .extension (.parentSeal ..) => .crypto
  | .extension _ => .structural
  | .callMissing _ | .callNotExpected _ | .callRepeated _ | .fundRequired | .callIndex ..
  | .callMismatch .. | .deltaMismatch | .deltaNotExpected | .deltaMissing | .checkpoint _
  | .commitmentStart .. | .proposalMismatch => .determinism
  | .unknownValidator _ | .invalidSignature _ | .incorrectCommit _ | .recoverSigner _
  | .signerMismatch _ | .signerNotInSet _ | .unknownSealer _ | .aggregate _
  | .commitmentSeal .. => .crypto
  | .backend .. | .systemState _ => .ledger

instance : Failure RoundError where
  name e := "Fsm." ++ e.code
  message := message
  group? e := some e.kind.name

end RoundError

end EpochSeal
