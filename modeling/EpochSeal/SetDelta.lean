import EpochSeal.Validator

/-!
The change of a validator set between two epochs: members removed by their index in the old order,
then members added behind the others, then members whose power changes.
-/
namespace EpochSeal

/-- The change from one set to the next. -/
structure SetDelta where
  added : List Validator
  updated : List Validator
  removed : Bitmap
  deriving DecidableEq

instance : Wire SetDelta where
  encode d := Wire.encode d.added ++ Wire.encode d.updated ++ Wire.encode d.removed
  decode := do
    let added ← Wire.decode
    let updated ← Wire.decode
    let removed ← Wire.decode
    return { added, updated, removed }

namespace SetDelta

def none : SetDelta := ⟨[], [], .empty⟩

def isEmpty (d : SetDelta) : Bool := d.added.isEmpty && d.updated.isEmpty && d.removed.isEmpty

/-- Whether two deltas are the same, up to zero bytes at the end of the bitmaps. -/
def same (a b : SetDelta) : Bool :=
  a.added = b.added && a.updated = b.updated && a.removed.sameBits b.removed

end SetDelta

namespace ValidatorSet

/-- The members whose index a bitmap does not select. -/
def survivors (s : ValidatorSet) (removed : Bitmap) : List Validator :=
  (s.members.zipIdx.filter fun (_, i) => !removed.contains i).map (·.1)

/-- Puts new members behind the others, unless their address is taken. -/
def addAll (members added : List Validator) : Except ValidatorSetError (List Validator) :=
  added.foldlM (fun members v =>
    if members.any fun m => m.address = v.address then .error (.alreadyPresent v.address)
    else .ok (members ++ [v])) members

/-- Gives the first member with the address of `update` its power. -/
def updatePower (update : Validator) : List Validator → Option (List Validator)
  | [] => none
  | v :: rest =>
    if v.address = update.address then
      some ({ v with power := update.power, active := 0 < update.power } :: rest)
    else (updatePower update rest).map (v :: ·)

def updateAll (members updated : List Validator) : Except ValidatorSetError (List Validator) :=
  updated.foldlM (fun members v =>
    match updatePower v members with
    | some members => .ok members
    | none => .error (.updatedNotFound v.address)) members

/-- The set after a change. An empty change leaves the set as it is. -/
def apply (s : ValidatorSet) (delta : SetDelta) : Except ValidatorSetError ValidatorSet :=
  if delta.isEmpty then .ok s
  else
    match delta.removed.indices.find? fun i => s.size ≤ i with
    | some i => .error (.removedOutOfRange i s.size)
    | none => do
      let members ← addAll (s.survivors delta.removed) delta.added
      let members ← updateAll members delta.updated
      return ⟨members⟩

end ValidatorSet

end EpochSeal
