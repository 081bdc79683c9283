import EpochSeal.Validator
import EpochSeal.VotingPower

/-!
The stake of every validator that was ever seen, kept in the order of addresses, and the validators
of most power among them.
-/
namespace EpochSeal

namespace Address

theorem lt_trans {a b c : Address} (hab : a < b) (hbc : b < c) : a < c :=
  List.lt_trans (show a.bytes < b.bytes from hab) (show b.bytes < c.bytes from hbc)

theorem lt_of_not_lt_of_ne {a b : Address} (h : ¬ a < b) (hne : a ≠ b) : b < a := by
  rcases Std.lt_trichotomy a.bytes b.bytes with hlt | heq | hgt
  · exact absurd hlt h
  · exact absurd (by cases a; cases b; simp_all) hne
  · exact hgt

end Address

/-- Validators under the addresses that they are looked up by, in the order of the addresses. -/
structure StakeTable where
  entries : List (Address × Validator)
  sorted : entries.Pairwise fun a b => a.1 < b.1
  deriving DecidableEq

namespace StakeTable

def empty : StakeTable := ⟨[], .nil⟩

def find? (t : StakeTable) (address : Address) : Option Validator := t.entries.lookup address

/-- Puts a validator at its place in sorted entries, instead of the one that is there. -/
def insertEntry (address : Address) (v : Validator) :
    List (Address × Validator) → List (Address × Validator)
  | [] => [(address, v)]
  | entry :: rest =>
    if address < entry.1 then (address, v) :: entry :: rest
    else if address = entry.1 then (address, v) :: rest
    else entry :: insertEntry address v rest

theorem forall_mem_insertEntry {p : Address → Prop} {address : Address} {v : Validator}
    {entries : List (Address × Validator)} (h : ∀ e ∈ entries, p e.1) (hnew : p address) :
    ∀ e ∈ insertEntry address v entries, p e.1 := by
  induction entries with
  | nil => simpa [insertEntry] using hnew
  | cons entry rest ih =>
    have hrest : ∀ e ∈ rest, p e.1 := fun e he => h e (List.mem_cons_of_mem _ he)
    intro e he
    simp only [insertEntry] at he
    split at he
    · rcases List.mem_cons.1 he with rfl | he
      · exact hnew
      · exact h e he
    · split at he
      · rcases List.mem_cons.1 he with rfl | he
        · exact hnew
        · exact hrest e he
      · rcases List.mem_cons.1 he with rfl | he
        · exact h e List.mem_cons_self
        · exact ih hrest e he

theorem sorted_insertEntry {address : Address} {v : Validator} {entries : List (Address × Validator)}
    (h : entries.Pairwise fun a b => a.1 < b.1) :
    (insertEntry address v entries).Pairwise fun a b => a.1 < b.1 := by
  induction entries with
  | nil => simp [insertEntry]
  | cons entry rest ih =>
    obtain ⟨hhead, hrest⟩ := List.pairwise_cons.1 h
    simp only [insertEntry]
    split
    case isTrue hlt =>
      refine List.pairwise_cons.2 ⟨?_, h⟩
      intro e he
      rcases List.mem_cons.1 he with rfl | he
      · exact hlt
      · exact Address.lt_trans hlt (hhead e he)
    case isFalse hlt =>
      split
      case isTrue heq => exact List.pairwise_cons.2 ⟨fun e he => heq ▸ hhead e he, hrest⟩
      case isFalse hne =>
        have hgt := Address.lt_of_not_lt_of_ne hlt hne
        exact List.pairwise_cons.2 ⟨forall_mem_insertEntry hhead hgt, ih hrest⟩

/-- Stores a validator under an address, instead of the one that is there. -/
def insert (t : StakeTable) (address : Address) (v : Validator) : StakeTable :=
  ⟨insertEntry address v t.entries, sorted_insertEntry t.sorted⟩

/-- The table of a list of entries; the last entry for an address counts. -/
def ofList (entries : List (Address × Validator)) : StakeTable :=
  entries.foldl (fun t e => t.insert e.1 e.2) empty

/-- Changes every validator and keeps the addresses they are stored under. -/
def mapValidators (t : StakeTable) (f : Address → Validator → Validator) : StakeTable :=
  ⟨t.entries.map fun e => (e.1, f e.1 e.2), List.pairwise_map.2 t.sorted⟩

def validators (t : StakeTable) : List Validator := t.entries.map (·.2)

/-- Gives an address the power of a balance. An address that is new gets an entry without a key. -/
def setStake (t : StakeTable) (address : Address) (balance : Word) (exponent : Exponent) :
    StakeTable :=
  let power := VotingPower.ofBalance balance exponent
  let v := (t.find? address).getD (Validator.ofStake address none 0)
  t.insert address { v with power, active := 0 < power }

/-- Whether `a` comes before `b` by greater power, or by address if their powers are equal. -/
def ranksBefore (a b : Validator) : Bool :=
  b.power < a.power || (a.power = b.power && a.address.le b.address)

/-- The validators of positive power, at most `size` of them, by power and then by address. -/
def strongest (t : StakeTable) (size : Nat) : ValidatorSet :=
  ⟨(sortBy ranksBefore (t.validators.filter fun v => 0 < v.power)).take size⟩

end StakeTable

instance : Wire StakeTable where
  encode t := Wire.encode t.entries
  decode := do return StakeTable.ofList (← Wire.decode)

end EpochSeal
