import EpochSeal.Checkpoint
import EpochSeal.Seal
import EpochSeal.SetDelta

/-!
The extension of a block header: 32 bytes that stand for nothing, then a record of the parent's
seal, the block's own seal, the change of the validator set and the checkpoint, all of them
optional. The block's own seal is no part of what the header's digest covers.
-/
namespace EpochSeal

/-- What a header carries beyond its fields. -/
structure Extension where
  parentSeal : Option Seal
  committedSeal : Option Seal
  delta : Option SetDelta
  checkpoint : Option Checkpoint
  deriving DecidableEq

instance : Wire Extension where
  encode e :=
    Wire.encode e.parentSeal ++ Wire.encode e.committedSeal ++ Wire.encode e.delta ++
      Wire.encode e.checkpoint
  decode := do
    let parentSeal ← Wire.decode
    let committedSeal ← Wire.decode
    let delta ← Wire.decode
    let checkpoint ← Wire.decode
    return { parentSeal, committedSeal, delta, checkpoint }

/-- Why an extension cannot be read or its parent seal does not hold. -/
inductive ExtensionError where
  | tooShort (size : Nat)
  | decode (cause : WireError)
  | missingParentSeal (block : UInt64)
  | missingCheckpoint (block : UInt64)
  | parentSeal (block : UInt64) (digest : Digest) (cause : SealError)
  deriving DecidableEq

namespace ExtensionError

def message : ExtensionError → String
  | .tooShort size => s!"extra-data shorter than 32 bytes ({size})"
  | .decode cause => "failed to decode extra: " ++ cause.message
  | .missingParentSeal block =>
    s!"failed to verify signatures for parent of block {block} because signatures are not present"
  | .missingCheckpoint block => s!"checkpoint data for block {block} is missing"
  | .parentSeal block digest cause =>
    s!"failed to verify signatures for parent of block {block} (proposal hash: {digest}): " ++
      cause.message

def code : ExtensionError → String
  | .tooShort _ => "TooShort"
  | .decode _ => "Decode"
  | .missingParentSeal _ => "MissingParentSeal"
  | .missingCheckpoint _ => "MissingCheckpoint"
  | .parentSeal _ _ cause => "ParentSeal." ++ cause.code

instance : Failure ExtensionError where
  name e := "Extra." ++ e.code
  message := message

end ExtensionError

namespace Extension

def none : Extension := ⟨Option.none, Option.none, Option.none, Option.none⟩

/-- How many bytes come before the record. -/
def vanityLength : Nat := 32

def encode (e : Extension) : Bytes := List.replicate vanityLength 0 ++ Wire.encode e

def decode (extraData : Bytes) : Except ExtensionError Extension :=
  if extraData.length < vanityLength then .error (.tooShort extraData.length)
  else
    match (Wire.read (extraData.drop vanityLength) : Except WireError Extension) with
    | .ok e => .ok e
    | .error e => .error (.decode e)

/-- The bytes that the header's digest covers: those of the extension without the block's own seal.
Bytes that hold no such seal, or no extension at all, are covered as they are. -/
def stripSeal (extraData : Bytes) : Bytes :=
  match decode extraData with
  | .ok e =>
    match e.committedSeal with
    | some _ => { e with committedSeal := Option.none }.encode
    | Option.none => extraData
  | .error _ => extraData

end Extension

end EpochSeal
