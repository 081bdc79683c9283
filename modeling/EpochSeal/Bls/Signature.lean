import EpochSeal.Bls.Encoding
import EpochSeal.Bls.HashToCurve
import EpochSeal.Bls.Pairing

/-!
Signatures with keys in the first group and signatures in the second: key derivation, signing,
verification of one signature or of an aggregate over one message, and aggregation.
-/
namespace EpochSeal.Bls
open Curve

def generator : Affine Fp :=
  .point
    0x17f1d3a73197d7942695638c4fa9ac0fc3688c4f9774b905a14e3a3f171bac586c55e83ff97a1aeffb3af00adb22c6bb
    0x08b3f481e3aaa0f1a09e30ed741d8ae4fcf5e095d5d00af600db18cb2c04b3edd03cc744a2888ae40caa232946c5e7e1

def readKey (bytes : Bytes) : Except PointError (Affine Fp) := readPoint g1Constant bytes

def readSignature (bytes : Bytes) : Except PointError (Affine Fp2) := readPoint g2Constant bytes

/-- Reads a key and checks that it lies in the group and is not infinity. -/
def validateKey (bytes : Bytes) : Except PointError (Affine Fp) := do
  let key ← readKey bytes
  if key = .infinity then throw .keyIsInfinity
  if !inGroup key then throw .notInGroup
  return key

/-- Candidate secret keys, from salts hashed over and over, until one is not zero. -/
def deriveSecretFrom (material salt : Bytes) : Nat → Nat
  | 0 => 0
  | attempts + 1 =>
    let salt := Sha256.digest salt
    let expanded := Sha256.expandKey (Sha256.hmac salt (material ++ [0])) [0, 48] 48
    let secret := Bytes.ofBigEndian expanded % order
    if secret = 0 then deriveSecretFrom material salt attempts else secret

def deriveSecret (material : Bytes) : Except PointError Nat :=
  if material.length < 32 then .error .badEncoding
  else .ok (deriveSecretFrom material (Bytes.ofAscii "BLS-SIG-KEYGEN-SALT-") 256)

def publicKey (secret : Nat) : Bytes :=
  compress (Jacobian.multiply secret (Jacobian.ofAffine generator)).toAffine

/-- The compressed signature of a message under a domain tag. -/
def sign (secret : Nat) (message domain : Bytes) : Bytes :=
  compress (Jacobian.multiply secret (hashToCurve message domain)).toAffine

/-- Whether the pairings of key and message and of generator and signature agree. -/
def pairingsAgree (key : Affine Fp) (signature : Affine Fp2) (message domain : Bytes) : Bool :=
  pairingProductIsOne
    [(key, (hashToCurve message domain).toAffine),
     ((Jacobian.ofAffine generator).negate.toAffine, signature)]

/-- Checks groups and key before the pairings. -/
def verify (key : Affine Fp) (signature : Affine Fp2) (message domain : Bytes) : Bool :=
  decide (key ≠ .infinity) && inGroup key && inGroup signature &&
    pairingsAgree key signature message domain

/-- Checks the signature's group and the sum of the keys, but no single key. -/
def verifyAggregate (keys : List (Affine Fp)) (signature : Affine Fp2) (message domain : Bytes) :
    Bool :=
  let sum := (keys.foldl (fun acc key => Jacobian.add acc (Jacobian.ofAffine key))
    Jacobian.infinity).toAffine
  decide (sum ≠ .infinity) && inGroup signature && pairingsAgree sum signature message domain

/-- The sum of signatures, each of which has to lie in the group. -/
def aggregate (signatures : List (Affine Fp2)) : Except PointError (Affine Fp2) :=
  if signatures.all inGroup then
    .ok (signatures.foldl (fun acc s => Jacobian.add acc (Jacobian.ofAffine s))
      Jacobian.infinity).toAffine
  else .error .notInGroup

end EpochSeal.Bls
