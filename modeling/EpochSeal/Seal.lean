import EpochSeal.Validator

/-!
The seal of a block: one aggregate signature and the bitmap of the set members that gave it.
-/
namespace EpochSeal

/-- Aggregated signatures and the members they come from. -/
structure Seal where
  signature : Bytes
  signers : Bitmap
  deriving DecidableEq

instance : Wire Seal where
  encode s := Wire.encode s.signature ++ Wire.encode s.signers
  decode := do
    let signature ← Wire.decode
    let signers ← Wire.decode
    return { signature, signers }

/-- Why a seal does not verify. -/
inductive SealError where
  | signers (cause : ValidatorSetError)
  | quorumNotReached (signed required : Nat)
  | signature (cause : CryptoError)
  deriving DecidableEq

namespace SealError

def message : SealError → String
  | .signers cause => "failed to resolve signers: " ++ cause.message
  | .quorumNotReached signed required =>
    s!"quorum not reached: signed power {signed}, required {required}"
  | .signature cause => "could not verify aggregated signature: " ++ cause.message

def code : SealError → String
  | .signers cause => "Signers." ++ cause.code
  | .quorumNotReached .. => "QuorumNotReached"
  | .signature cause => "Signature." ++ cause.code

instance : Failure SealError where
  name e := "Seal." ++ e.code
  message := message

end SealError

namespace Seal

/-- Checks that the signers have a quorum of the set and that all of them signed the digest, with a way of
reading signatures and of checking one against the keys of all signers. -/
def verifyWith (read : Bytes → Except CryptoError SealSignature)
    (check : SealSignature → List PublicKey → Bytes → Bytes → Except CryptoError Unit) (s : Seal)
    (digest : Digest) (validators : ValidatorSet) (domain : Digest) : Except SealError Unit := do
  let signers ← (validators.select s.signers).mapError .signers
  if !validators.hasQuorum signers.addresses then
    throw (.quorumNotReached signers.totalPower validators.quorum)
  let signature ← (read s.signature).mapError .signature
  let keys ← signers.blsKeys.mapError .signers
  (check signature keys digest.bytes domain.bytes).mapError .signature

/-- Seals hold aggregates of BLS signatures. -/
def verify : Seal → Digest → ValidatorSet → Digest → Except SealError Unit :=
  verifyWith SealSignature.ofBytes SealSignature.verifyAggregate

end Seal

end EpochSeal
