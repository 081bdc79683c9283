import EpochSeal.Validator

/-!
Checkpoints: what validators agree on beside the block itself. The digest of a checkpoint, together
with the block it stands in, is what they sign.
-/
namespace EpochSeal

/-- The epoch of a block and the validator sets that seal it and the next one. -/
structure Checkpoint where
  round : UInt64
  epoch : UInt64
  currentSet : Digest
  nextSet : Digest
  eventRoot : Digest
  deriving DecidableEq

instance : Wire Checkpoint where
  encode c :=
    Wire.encode c.round ++ Wire.encode c.epoch ++ Wire.encode c.currentSet ++
      Wire.encode c.nextSet ++ Wire.encode c.eventRoot
  decode := do
    let round ← Wire.decode
    let epoch ← Wire.decode
    let currentSet ← Wire.decode
    let nextSet ← Wire.decode
    let eventRoot ← Wire.decode
    return { round, epoch, currentSet, nextSet, eventRoot }

/-- Why a checkpoint does not follow from its parent and the sets at hand. -/
inductive CheckpointError where
  | currentSet (expected actual : Digest)
  | nextSet (expected actual : Digest)
  | parentContinuity
  | epoch (expected actual : UInt64)
  | eventRoot (expected actual : Digest)
  deriving DecidableEq

namespace CheckpointError

def message : CheckpointError → String
  | .currentSet expected actual =>
    s!"current validators hash mismatch (expected {expected}, got {actual})"
  | .nextSet expected actual =>
    s!"next validators hash mismatch (expected {expected}, got {actual})"
  | .parentContinuity =>
    "current validators hash does not continue parent next validators hash"
  | .epoch expected actual => s!"invalid epoch number {actual}, expected {expected}"
  | .eventRoot expected actual => s!"event root mismatch (expected {expected}, got {actual})"

def code : CheckpointError → String
  | .currentSet .. => "CurrentValidatorsHash"
  | .nextSet .. => "NextValidatorsHash"
  | .parentContinuity => "ParentContinuity"
  | .epoch .. => "EpochNumber"
  | .eventRoot .. => "EventRoot"

instance : Failure CheckpointError where
  name e := "Checkpoint." ++ e.code
  message := message

end CheckpointError

namespace Checkpoint

/-- The epoch after the parent's if the block opens one, else the parent's. -/
def epochAfter (parentEpoch : UInt64) (startsEpoch : Bool) : UInt64 :=
  if startsEpoch then parentEpoch + 1 else parentEpoch

/-- What the digest is taken of: eight words of 32 bytes. -/
def digestInput (c : Checkpoint) (chainId number : UInt64) (block : Digest) : Bytes :=
  let word (n : UInt64) : Bytes := Bytes.bigEndian 32 n.toNat
  word chainId ++ word number ++ block.bytes ++ word c.round ++ word c.epoch ++
    c.eventRoot.bytes ++ c.currentSet.bytes ++ c.nextSet.bytes

/-- What validators sign when they seal a block. -/
def digest (c : Checkpoint) (chainId number : UInt64) (block : Digest) : Digest :=
  Digest.ofMessage (c.digestInput chainId number block)

/-- Checks a checkpoint against its parent, the two sets and the root of events. -/
def validate (c parent : Checkpoint) (current next : ValidatorSet) (eventRoot : Digest)
    (startsEpoch : Bool) : Except CheckpointError Unit :=
  let epoch := epochAfter parent.epoch startsEpoch
  if c.currentSet ≠ current.digest then .error (.currentSet current.digest c.currentSet)
  else if c.nextSet ≠ next.digest then .error (.nextSet next.digest c.nextSet)
  else if parent.nextSet ≠ c.currentSet then .error .parentContinuity
  else if c.epoch ≠ epoch then .error (.epoch epoch c.epoch)
  else if c.eventRoot ≠ eventRoot then .error (.eventRoot eventRoot c.eventRoot)
  else .ok ()

end Checkpoint

end EpochSeal
