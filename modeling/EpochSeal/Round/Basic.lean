import EpochSeal.Round.Inputs

/-!
One round of consensus: a node builds the block on top of a parent or receives it, and then commits
it under the seals of the others. A step that is refused leaves the round as it was, except that a
block builder keeps what it was told.

```text
waiting ──build──▶ proposed ──insert──▶ committed
   └───validate──▶ validated ─insert──▶ committed
```
-/
namespace EpochSeal

/-- A round, on a node that has a builder of type `β` if it proposes. -/
structure Round (β : Type) where
  inputs : RoundInputs
  builder : Option β
  /-- The block that was built or validated. -/
  target : Option ExecutedBlock
  phase : Phase

namespace Round

variable {β : Type}

def ofInputs (inputs : RoundInputs) (builder : Option β) : Round β :=
  { inputs, builder, target := none, phase := .waiting }

/-- The round in which nothing has happened, if the configuration has periods at all. -/
def start? (inputs : RoundInputs) (builder : Option β) : Option (Round β) :=
  if inputs.config.hasPeriods then some (ofInputs inputs builder) else none

/-- Refuses an operation outside of the phases that it belongs to. -/
def checkPhase (r : Round β) (operation : String) (allowed : List Phase) : Except RoundError Unit :=
  if r.phase ∈ allowed then .ok () else .error (.phase operation r.phase)

/-- What committed seals sign: the digest of the checkpoint in the target. -/
def proposalDigest (r : Round β) : Except RoundError Digest := do
  let some target := r.target | throw (.missingInput "proposal")
  let header := target.block.header
  let extension ← (Extension.decode header.extraData).mapError .extension
  let some checkpoint := extension.checkpoint | throw (.missingCheckpoint header.number)
  return checkpoint.digest r.inputs.config.chainId header.number header.digest

end Round

end EpochSeal
