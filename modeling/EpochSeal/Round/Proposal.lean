import EpochSeal.Round.Basic

/-!
Building the block of a round. The extension is made first, so that a round that lacks an input
never touches the builder.
-/
namespace EpochSeal

/-- Steps of a builder. What a step has changed remains if a later one fails. -/
abbrev Building (β : Type) := ExceptT RoundError (StateM β)

namespace Building

variable {β : Type} [BlockBuilder β]

/-- Takes a step of the builder and says what was attempted if it fails. -/
def attempt {α : Type} (context : String) (step : β → Except String α × β) : Building β α :=
  ExceptT.mk fun b =>
    match step b with
    | (.ok a, b) => (.ok a, b)
    | (.error cause, b) => (.error (.backend context cause), b)

/-- The block of state transactions, then whatever users have sent, under an extension. -/
def assemble (transactions : List Transaction) (extraData : Bytes) : Building β ExecutedBlock := do
  attempt "failed to reset block builder" BlockBuilder.reset
  transactions.forM fun t =>
    attempt "failed to apply state transaction" (BlockBuilder.write t)
  modify BlockBuilder.fill
  attempt "failed to build block" <|
    BlockBuilder.build fun h => { h with extraData, mixDigest := Header.consensusMix }

end Building

namespace RoundInputs

/-- The change of the set that the block announces and the set after it. Only the last block of an
epoch changes the set. -/
def nextSet (r : RoundInputs) : Except RoundError (Option SetDelta × ValidatorSet) :=
  if r.endsEpoch then
    match r.delta with
    | none => .error (.missingInput "validator set delta")
    | some delta =>
      match r.validators.apply delta with
      | .ok next => .ok (some delta, next)
      | .error cause => .error (.validatorSet cause)
  else .ok (none, r.validators)

/-- The extension of the block that is proposed in the given round of the height. -/
def extension (r : RoundInputs) (round : UInt64) (parentSeal : Option Seal) :
    Except RoundError Extension := do
  let (delta, next) ← r.nextSet
  return {
    parentSeal
    committedSeal := none
    delta
    checkpoint := some {
      round
      epoch := r.epoch
      currentSet := r.validators.digest
      nextSet := next.digest
      eventRoot := r.eventRoot } }

/-- What the builder is given: the state transactions and the extension, written out. -/
def proposalParts (r : RoundInputs) (round : UInt64) : Except RoundError (List Transaction × Bytes) := do
  let parentExtension ← (Extension.decode r.parent.extraData).mapError .extension
  let transactions ← r.stateTransactions
  let extension ← r.extension round parentExtension.committedSeal
  return (transactions, extension.encode)

end RoundInputs

namespace Round

variable {β : Type} [BlockBuilder β]

/-- Builds the block of the round and gives the form in which it travels. -/
def buildProposal (r : Round β) (round : UInt64) : Except RoundError Bytes × Round β :=
  let parts : Except RoundError ((List Transaction × Bytes) × β) := do
    r.checkPhase "build proposal" [.waiting]
    let parts ← r.inputs.proposalParts round
    let some builder := r.builder | throw .noBuilder
    return (parts, builder)
  match parts with
  | .error e => (.error e, r)
  | .ok ((transactions, extraData), builder) =>
    match (Building.assemble transactions extraData).run builder with
    | (.error e, builder) => (.error e, { r with builder := some builder })
    | (.ok built, builder) =>
      (.ok built.block.encode,
        { r with builder := some builder, target := some built, phase := .proposed })

end Round

end EpochSeal
