import EpochSeal.Signing
import EpochSeal.Sorting

/-!
Validators, ordered sets of them, and the stake that makes a quorum. Bitmaps index into the order of
a set; its digest is taken over a copy sorted by address and so does not depend on the order.
-/
namespace EpochSeal

/-- What the stake contract says of one validator. -/
structure Validator where
  address : Address
  blsKey : Option PublicKey
  power : UInt64
  active : Bool
  deriving DecidableEq

/-- A validator is active exactly if it has power. -/
def Validator.ofStake (address : Address) (blsKey : Option PublicKey) (power : UInt64) : Validator :=
  ⟨address, blsKey, power, 0 < power⟩

instance : Wire Validator where
  encode v :=
    Wire.encode v.address ++ Wire.encode v.blsKey ++ Wire.encode v.power ++ Wire.encode v.active
  decode := do
    let address ← Wire.decode
    let blsKey ← Wire.decode
    let power ← Wire.decode
    let active ← Wire.decode
    return { address, blsKey, power, active }

/-- Why a change of a set or a choice from it is refused. -/
inductive ValidatorSetError where
  | alreadyPresent (address : Address)
  | updatedNotFound (address : Address)
  | removedOutOfRange (index size : Nat)
  | bitmapOutOfRange (index size : Nat)
  | missingBlsKey (address : Address)
  deriving DecidableEq

namespace ValidatorSetError

def message : ValidatorSetError → String
  | .alreadyPresent address =>
    s!"validator {address} is already present in the validators snapshot"
  | .updatedNotFound address =>
    s!"incorrect delta provided: validator {address} is marked as updated but not found in the " ++
      "validators"
  | .removedOutOfRange index size => s!"removed index {index} out of range for {size} validators"
  | .bitmapOutOfRange index size =>
    s!"bitmap selects index {index} but only {size} validators exist"
  | .missingBlsKey address => s!"validator {address} has no bls key"

def code : ValidatorSetError → String
  | .alreadyPresent _ => "AlreadyPresent"
  | .updatedNotFound _ => "UpdatedNotFound"
  | .removedOutOfRange .. => "RemovedOutOfRange"
  | .bitmapOutOfRange .. => "BitmapOutOfRange"
  | .missingBlsKey _ => "MissingBlsKey"

instance : Failure ValidatorSetError where
  name e := "ValidatorSet." ++ e.code
  message := message

end ValidatorSetError

/-- Validators in a significant order. -/
structure ValidatorSet where
  members : List Validator
  deriving DecidableEq

namespace ValidatorSet

attribute [local instance (2000)] Zero.ofOfNat0

def size (s : ValidatorSet) : Nat := s.members.length

def addresses (s : ValidatorSet) : List Address := s.members.map (·.address)

def find? (s : ValidatorSet) (address : Address) : Option Validator :=
  s.members.find? fun v => v.address = address

def indexOf? (s : ValidatorSet) (address : Address) : Option Nat :=
  s.members.findIdx? fun v => v.address = address

def contains (s : ValidatorSet) (address : Address) : Bool :=
  s.members.any fun v => v.address = address

def totalPower (s : ValidatorSet) : Nat := (s.members.map (·.power.toNat)).sum

def sorted (s : ValidatorSet) : List Validator :=
  sortBy (fun a b => a.address.le b.address) s.members

def digestInput (s : ValidatorSet) : Bytes :=
  Wire.encode (s.sorted.map fun v => (v.address, v.blsKey, v.power))

def digest (s : ValidatorSet) : Digest := Digest.ofMessage s.digestInput

theorem digest_eq (s : ValidatorSet) : s.digest = Digest.ofMessage s.digestInput := rfl

/-- The members that a bitmap selects, in its order. -/
def select (s : ValidatorSet) (bitmap : Bitmap) : Except ValidatorSetError ValidatorSet :=
  ValidatorSet.mk <$> bitmap.indices.mapM fun i =>
    match s.members[i]? with
    | some v => .ok v
    | none => .error (.bitmapOutOfRange i s.size)

def blsKeys (s : ValidatorSet) : Except ValidatorSetError (List PublicKey) :=
  s.members.mapM fun v =>
    match v.blsKey with
    | some key => .ok key
    | none => .error (.missingBlsKey v.address)

/-- The least power above two thirds of a total. -/
def quorumOf (total : Nat) : Nat := total * 2 / 3 + 1

/-- The power that a decision of the set needs. -/
def quorum (s : ValidatorSet) : Nat := quorumOf s.totalPower

/-- The power behind a list of addresses: each counts once, and only if it is a member. -/
def powerOf (s : ValidatorSet) (signers : List Address) : Nat :=
  (signers.eraseDups.filterMap fun a => (s.find? a).map (·.power.toNat)).sum

def hasQuorum (s : ValidatorSet) (signers : List Address) : Bool := s.quorum ≤ s.powerOf signers

end ValidatorSet

/-- What the stake contract says about the standing of a validator. -/
inductive ValidatorStatus where
  | none
  | active
  | banned
  deriving DecidableEq, Repr

namespace ValidatorStatus

/-- Codes 1 and 2 both mean an active validator. -/
def ofCode (code : Nat) : ValidatorStatus :=
  if code = 1 ∨ code = 2 then .active else if code = 3 then .banned else .none

def name : ValidatorStatus → String
  | .none => "None"
  | .active => "Active"
  | .banned => "Banned"

end ValidatorStatus

end EpochSeal
