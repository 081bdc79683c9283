import EpochSeal.Chain
import EpochSeal.Config
import EpochSeal.SetDelta

/-!
What the blocks of an epoch say about the validators that sealed them, and what the next epoch has to
be told: how many blocks each member of the active set sealed, and the powers that have changed.
-/
namespace EpochSeal

/-- Why the blocks of an epoch could not be counted. -/
inductive UptimeError where
  | missingHeader (number : UInt64)
  | extension (cause : ExtensionError)
  | validatorSet (cause : ValidatorSetError)
  deriving DecidableEq

namespace Uptime

/-- The members of a set that sealed a block, as its extension says. -/
def sealersOf (validators : ValidatorSet) (header : Header) : Except UptimeError (List Address) := do
  let extension ← (Extension.decode header.extraData).mapError .extension
  match extension.committedSeal with
  | none => return []
  | some committed =>
    return (← (validators.select committed.signers).mapError .validatorSet).addresses

/-- The header at a height up to the parent's. The parent itself need not be stored. -/
def headerAt (chain : Chain) (parent : Header) (number : UInt64) : Except UptimeError Header :=
  if number = parent.number then .ok parent
  else
    match chain.header? number with
    | some header => .ok header
    | none => .error (.missingHeader number)

/-- Who sealed `count` blocks from height `first` on, once for every block. -/
def sealersFrom (chain : Chain) (parent : Header) (validators : ValidatorSet) (first : UInt64) :
    (count : Nat) → Except UptimeError (List Address)
  | 0 => .ok []
  | count + 1 => do
    let header ← headerAt chain parent first
    let sealers ← sealersOf validators header
    let later ← sealersFrom chain parent validators (first + 1) count
    return sealers ++ later

/-- The first height that counts for an epoch that ends with the block after `parent`. The block
before the first one, at height zero, is sealed by nobody. -/
def firstHeight (epochSize : UInt64) (parent : Header) : UInt64 :=
  max 1 (epochStart epochSize (parent.number + 1))

/-- How many times each member of the set stands in a list, in the order of the set, without those
that do not. -/
def tally (validators : ValidatorSet) (sealers : List Address) : List Uptime :=
  (validators.members.map fun v => ⟨v.address, UInt64.ofNat (sealers.count v.address)⟩).filter
    fun u => 0 < u.signed

/-- How many of the epoch's blocks up to `parent` each member of the set sealed. -/
def ofEpoch (chain : Chain) (epochSize : UInt64) (parent : Header) (validators : ValidatorSet) :
    Except UptimeError (List Uptime) :=
  let first := firstHeight epochSize parent
  tally validators <$>
    sealersFrom chain parent validators first (parent.number.toNat + 1 - first.toNat)

end Uptime

namespace PowerSync

/-- The members that a change removes from a set, with no power. -/
def removals (removed : Bitmap) (previous : ValidatorSet) :
    Except ValidatorSetError (List PowerUpdate) :=
  removed.indices.mapM fun i =>
    match previous.members[i]? with
    | some v => .ok ⟨v.address, 0⟩
    | none => .error (.removedOutOfRange i previous.size)

/-- The powers to announce after a change of the set: of the members added and updated, then zero
for those removed. An empty change needs no announcement. -/
def ofDelta (delta : SetDelta) (previous : ValidatorSet) :
    Except ValidatorSetError (Option PowerSync) :=
  if delta.isEmpty then .ok none
  else do
    let removals ← removals delta.removed previous
    let changes := (delta.added ++ delta.updated).map fun v => ⟨v.address, v.power⟩
    return some ⟨changes ++ removals⟩

end PowerSync

end EpochSeal
