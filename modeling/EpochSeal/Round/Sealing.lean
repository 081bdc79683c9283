import EpochSeal.Round.Basic

/-!
The end of a round: validators sign the proposal, their messages and seals are checked, and the
target is committed under the aggregate of the seals.
-/
namespace EpochSeal

/-- A validator's signature of a proposal. -/
structure CommittedSeal where
  signer : Address
  signature : Bytes
  deriving DecidableEq

/-- A message from another node, with the account signature of its payload. -/
structure ConsensusMessage where
  sender : Address
  payload : Bytes
  signature : Bytes
  deriving DecidableEq

namespace Round

variable {β : Type}

def validateCommit (r : Round β) (signer : Address) (signature : Bytes) (proposal : Digest) :
    Except RoundError Unit := do
  let some validator := r.inputs.validators.find? signer | throw (.unknownValidator signer)
  let some key := validator.blsKey | throw (.validatorSet (.missingBlsKey signer))
  let signature ← (SealSignature.ofBytes signature).mapError .invalidSignature
  (signature.verify key proposal.bytes checkpointDomain.bytes).mapError
    fun _ => .incorrectCommit signer

/-- Checks that a message comes from the member of the set that it names. -/
def validateSender (r : Round β) (message : ConsensusMessage) : Except RoundError Unit := do
  let signer ← (AccountKey.recoverAddress message.signature message.payload).mapError .recoverSigner
  if signer ≠ message.sender then throw (.signerMismatch signer)
  if !r.inputs.validators.contains message.sender then throw (.signerNotInSet message.sender)

/-- The place of a seal's signer in a set, and the signature. -/
def readSeal (validators : ValidatorSet) (s : CommittedSeal) :
    Except RoundError (Nat × SealSignature) := do
  let some index := validators.indexOf? s.signer | throw (.unknownSealer s.signer)
  let signature ← (SealSignature.ofBytes s.signature).mapError .invalidSignature
  return (index, signature)

/-- One seal out of the seals of the members of a set. -/
def aggregateSeals (validators : ValidatorSet) (seals : List CommittedSeal) :
    Except RoundError Seal := do
  let read ← seals.mapM (readSeal validators)
  let sum ← (SealSignature.aggregate (read.map (·.2))).mapError .aggregate
  return ⟨sum.bytes, read.foldl (fun bits s => bits.insert s.1) .empty⟩

/-- The block with a seal of its own in its extension. The declared digest stays as it is, because
it does not cover the seal. -/
def withSeal (b : ExecutedBlock) (committed : Seal) : Except RoundError ExecutedBlock := do
  let header := b.block.header
  let extension ← (Extension.decode header.extraData).mapError .extension
  let extraData := { extension with committedSeal := some committed }.encode
  return { b with block := { b.block with header := { header with extraData } } }

/-- The block that a proposal and its seals commit: the target, sealed. -/
def sealedTarget (r : Round β) (proposal : Bytes) (seals : List CommittedSeal) :
    Except RoundError ExecutedBlock := do
  let proposed ← (Block.decode proposal).mapError .decode
  let some target := r.target | throw .proposalMismatch
  if target.block.header.digest ≠ proposed.header.digest then throw .proposalMismatch
  let committed ← aggregateSeals r.inputs.validators seals
  withSeal target committed

/-- Commits the target, which the proposal must name, under the given seals. -/
def insert (r : Round β) (chain : Chain) (proposal : Bytes) (seals : List CommittedSeal) :
    Except RoundError (ExecutedBlock × Round β) := do
  r.checkPhase "insert" [.proposed, .validated]
  let sealedBlock ← r.sealedTarget proposal seals
  (chain.commit sealedBlock).mapError (.backend "failed to commit block")
  return (sealedBlock, { r with phase := .committed })

end Round

end EpochSeal
