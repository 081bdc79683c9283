import EpochSeal.Bls.Signature
import EpochSeal.Failure
import EpochSeal.Identifier
import EpochSeal.Secp256k1
import EpochSeal.Wire

/-!
The keys and signatures of validators. Seals are BLS signatures under a domain tag, which add up to
one aggregate over a common message; messages between nodes carry a recoverable account signature.
-/
namespace EpochSeal

/-- Why a key or signature is refused. -/
inductive CryptoError where
  | keyLength (expected found : Nat)
  | point (cause : Bls.PointError)
  | emptyAggregate
  | verifyFailed
  | recoveryId (found : UInt8)
  | account
  deriving DecidableEq, Repr

namespace CryptoError

def message : CryptoError → String
  | .keyLength expected found => s!"invalid key length: expected {expected}, found {found}"
  | .point cause => "blst error: " ++ cause.name
  | .emptyAggregate => "nothing to aggregate"
  | .verifyFailed => "signature verification failed"
  | .recoveryId found => s!"invalid recovery id: {found}"
  | .account => "ecdsa error: signature error"

def code : CryptoError → String
  | .keyLength .. => "InvalidKeyLength"
  | .point _ => "Blst"
  | .emptyAggregate => "EmptyAggregate"
  | .verifyFailed => "VerifyFailed"
  | .recoveryId _ => "InvalidRecoveryId"
  | .account => "Ecdsa"

instance : Failure CryptoError where
  name e := "Crypto." ++ e.code
  message := message

end CryptoError

def CryptoError.ofPoint {α : Type} : Except Bls.PointError α → Except CryptoError α
  | .ok a => .ok a
  | .error e => .error (.point e)

/-- A validator's public key. The bytes are checked where the key is made by `ofBytes` or used. -/
structure PublicKey where
  bytes : Bytes
  deriving DecidableEq

/-- A signature of one validator or the sum of several. -/
structure SealSignature where
  bytes : Bytes
  deriving DecidableEq

instance : Wire PublicKey where
  encode key := Wire.encode key.bytes
  decode := do return ⟨← Wire.decode⟩

namespace PublicKey

/-- A compressed point of the group other than infinity. -/
def ofBytes (bytes : Bytes) : Except CryptoError PublicKey :=
  if bytes.length = 48 then
    match Bls.validateKey bytes with
    | .ok _ => .ok ⟨bytes⟩
    | .error e => .error (.point e)
  else .error (.keyLength 48 bytes.length)

end PublicKey

namespace SealSignature

/-- A compressed point of the curve; whether it lies in the group is checked where it is used. -/
def ofBytes (bytes : Bytes) : Except CryptoError SealSignature :=
  if bytes.length = 96 then
    match Bls.readSignature bytes with
    | .ok _ => .ok ⟨bytes⟩
    | .error e => .error (.point e)
  else .error (.keyLength 96 bytes.length)

/-- Checks one validator's signature of a message under a domain tag. -/
def verify (signature : SealSignature) (key : PublicKey) (message domain : Bytes) :
    Except CryptoError Unit := do
  let point ← CryptoError.ofPoint (Bls.readSignature signature.bytes)
  let key ← CryptoError.ofPoint (Bls.readKey key.bytes)
  if Bls.verify key point message domain then pure () else throw .verifyFailed

/-- Checks the sum of signatures that the holders of all keys made of one message. -/
def verifyAggregate (signature : SealSignature) (keys : List PublicKey) (message domain : Bytes) :
    Except CryptoError Unit := do
  if keys.isEmpty then throw .emptyAggregate
  let point ← CryptoError.ofPoint (Bls.readSignature signature.bytes)
  let keys ← keys.mapM fun key => CryptoError.ofPoint (Bls.readKey key.bytes)
  if Bls.verifyAggregate keys point message domain then pure () else throw .verifyFailed

def aggregate (signatures : List SealSignature) : Except CryptoError SealSignature := do
  if signatures.isEmpty then throw .emptyAggregate
  let points ← signatures.mapM fun s => CryptoError.ofPoint (Bls.readSignature s.bytes)
  let sum ← CryptoError.ofPoint (Bls.aggregate points)
  return ⟨Bls.compress sum⟩

end SealSignature

/-- The secret key that a validator seals with. -/
structure SealKey where
  scalar : Nat

namespace SealKey

/-- The key derived from at least 32 bytes of material. -/
def ofSeed (seed : Bytes) : Except CryptoError SealKey :=
  (CryptoError.ofPoint (Bls.deriveSecret seed)).map SealKey.mk

def publicKey (key : SealKey) : PublicKey := ⟨Bls.publicKey key.scalar⟩

def sign (key : SealKey) (message domain : Bytes) : SealSignature :=
  ⟨Bls.sign key.scalar message domain⟩

end SealKey

/-- The secret key of an account. -/
structure AccountKey where
  scalar : Secp256k1.Scalar

namespace AccountKey

def ofBytes (bytes : Bytes) : Except CryptoError AccountKey :=
  match Secp256k1.secretKey? bytes with
  | some scalar => .ok ⟨scalar⟩
  | none => .error .account

def addressOf (point : Curve.Affine Secp256k1.Fp) : Option Address :=
  (Secp256k1.pointBytes point).map fun bytes => Address.ofRight (Keccak.digest bytes)

def address (key : AccountKey) : Address :=
  (addressOf (Secp256k1.publicPoint key.scalar)).getD Address.zero

/-- Signs the Keccak digest of a payload: two scalars of 32 bytes and the recovery id. -/
def sign (key : AccountKey) (payload : Bytes) : Except CryptoError Bytes :=
  match Secp256k1.sign key.scalar (Keccak.digest payload) with
  | some s =>
    .ok (Bytes.bigEndian 32 s.r.val ++ Bytes.bigEndian 32 s.s.val ++ [UInt8.ofNat s.recovery])
  | none => .error .account

def recoverAddress (signature payload : Bytes) : Except CryptoError Address :=
  if signature.length ≠ 65 then .error (.keyLength 65 signature.length)
  else
    match Secp256k1.readScalars? (signature.take 64) with
    | none => .error .account
    | some (r, s) =>
      let recovery := signature.getLastD 0
      if recovery > 3 then .error (.recoveryId recovery)
      else
        let key := Secp256k1.recover ⟨r, s, recovery.toNat⟩ (Keccak.digest payload)
        match key.bind addressOf with
        | some address => .ok address
        | none => .error .account

end AccountKey

def checkpointDomain : Digest := Digest.ofMessage (Bytes.ofAscii "DOMAIN_CHECKPOINT_MANAGER")

def bridgeDomain : Digest := Digest.ofMessage (Bytes.ofAscii "DOMAIN_STATE_RECEIVER")

end EpochSeal
