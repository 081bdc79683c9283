import EpochSeal.Extension
import EpochSeal.Height

/-!
Block headers and their digest, which covers every field but the digest itself and, in the
extension, the block's own seal.
-/
namespace EpochSeal

/-- The header of a block. The field `digest` is what its maker declared it to be. -/
structure Header where
  parentDigest : Digest
  miner : Address
  stateRoot : Digest
  transactionRoot : Digest
  receiptRoot : Digest
  difficulty : UInt64
  number : UInt64
  gasLimit : UInt64
  gasUsed : UInt64
  timestamp : UInt64
  extraData : Bytes
  mixDigest : Digest
  nonce : FixedBytes 8
  digest : Digest
  deriving DecidableEq

namespace Header

/-- The mix digest of every block that consensus makes. -/
def consensusMix : Digest := Digest.ofMessage (Bytes.ofAscii "lumen consensus mix digest")

/-- The fields that come before the extension, in order. -/
def encodeFront (h : Header) : Bytes :=
  Wire.encode h.parentDigest ++ Wire.encode h.miner ++ Wire.encode h.stateRoot ++
    Wire.encode h.transactionRoot ++ Wire.encode h.receiptRoot ++ Wire.encode h.difficulty ++
    Wire.encode h.number ++ Wire.encode h.gasLimit ++ Wire.encode h.gasUsed ++
    Wire.encode h.timestamp

def digestInput (h : Header) : Bytes :=
  h.encodeFront ++ Wire.encode (Extension.stripSeal h.extraData) ++ Wire.encode h.mixDigest ++
    Wire.encode h.nonce

/-- The digest that the header ought to declare. -/
def computeDigest (h : Header) : Digest := Digest.ofMessage h.digestInput

theorem computeDigest_eq (h : Header) : h.computeDigest = Digest.ofMessage h.digestInput := rfl

def withDigest (h : Header) : Header := { h with digest := h.computeDigest }

end Header

instance : Wire Header where
  encode h :=
    h.encodeFront ++ Wire.encode h.extraData ++ Wire.encode h.mixDigest ++
      Wire.encode h.nonce ++ Wire.encode h.digest
  decode := do
    let parentDigest ← Wire.decode
    let miner ← Wire.decode
    let stateRoot ← Wire.decode
    let transactionRoot ← Wire.decode
    let receiptRoot ← Wire.decode
    let difficulty ← Wire.decode
    let number ← Wire.decode
    let gasLimit ← Wire.decode
    let gasUsed ← Wire.decode
    let timestamp ← Wire.decode
    let extraData ← Wire.decode
    let mixDigest ← Wire.decode
    let nonce ← Wire.decode
    let digest ← Wire.decode
    return { parentDigest, miner, stateRoot, transactionRoot, receiptRoot, difficulty, number,
             gasLimit, gasUsed, timestamp, extraData, mixDigest, nonce, digest }

namespace Extension

/-- Checks the seal that a block carries of its parent, over the parent's checkpoint. The first
block needs none, because nobody seals the block before it. -/
def validateParentSeal (e : Extension) (number : UInt64) (parent : Header)
    (parentExtension : Extension) (parentSet : ValidatorSet) (chainId : UInt64) (domain : Digest) :
    Except ExtensionError Unit :=
  if number ≤ 1 then .ok ()
  else
    match e.parentSeal, parentExtension.checkpoint with
    | Option.none, _ => .error (.missingParentSeal number)
    | some _, Option.none => .error (.missingCheckpoint parent.number)
    | some parentSeal, some checkpoint =>
      let digest := checkpoint.digest chainId parent.number parent.digest
      match parentSeal.verify digest parentSet domain with
      | .ok _ => .ok ()
      | .error cause => .error (.parentSeal number digest cause)

end Extension

end EpochSeal
