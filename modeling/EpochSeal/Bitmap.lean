import EpochSeal.Bytes

/-!
Growable sets of small numbers, one bit each: number `i` is bit `i % 8` of byte `i / 8`. Zero bytes
at the end do not change the set, which is what `sameBits` compares.
-/
namespace EpochSeal

/-- A set of numbers as a string of bits. -/
structure Bitmap where
  bytes : Bytes
  deriving DecidableEq, Inhabited

namespace Bitmap

def empty : Bitmap := ⟨[]⟩

def bitLength (b : Bitmap) : Nat := 8 * b.bytes.length

def isEmpty (b : Bitmap) : Bool := b.bytes.all (· = 0)

def contains (b : Bitmap) (i : Nat) : Bool :=
  match b.bytes[i / 8]? with
  | some byte => byte.toNat.testBit (i % 8)
  | none => false

/-- Adds number `i`, after growing the bytes to hold it. -/
def insert (b : Bitmap) (i : Nat) : Bitmap :=
  let grown := b.bytes ++ List.replicate (i / 8 + 1 - b.bytes.length) 0
  ⟨grown.modify (i / 8) (· ||| 1 <<< UInt8.ofNat (i % 8))⟩

/-- The numbers of the bits that are set, ascending, where the first bit has number `start`. -/
def indicesFrom (start : Nat) : Bytes → List Nat
  | [] => []
  | byte :: rest =>
    ((List.range 8).filter byte.toNat.testBit).map (start + ·) ++ indicesFrom (start + 8) rest

/-- The numbers in the set, ascending. -/
def indices (b : Bitmap) : List Nat := indicesFrom 0 b.bytes

/-- The numbers in the set, in brackets. -/
def toString (b : Bitmap) : String := "[" ++ ", ".intercalate (b.indices.map (s!"{·}")) ++ "]"

instance : ToString Bitmap := ⟨toString⟩

/-- The bytes up to the last that is not zero. -/
def trimmed (b : Bitmap) : Bytes := (b.bytes.reverse.dropWhile (· = 0)).reverse

/-- Whether two bitmaps hold the same numbers. -/
def sameBits (a b : Bitmap) : Bool := a.trimmed = b.trimmed

theorem contains_cons_of_lt (byte : UInt8) (rest : Bytes) {i : Nat} (h : i < 8) :
    contains ⟨byte :: rest⟩ i = byte.toNat.testBit i := by
  simp [contains, Nat.div_eq_of_lt h, Nat.mod_eq_of_lt h]

theorem contains_cons_add (byte : UInt8) (rest : Bytes) (i : Nat) :
    contains ⟨byte :: rest⟩ (8 + i) = contains ⟨rest⟩ i := by
  have hdiv : (8 + i) / 8 = i / 8 + 1 := by omega
  have hmod : (8 + i) % 8 = i % 8 := by omega
  simp [contains, hdiv, hmod]

theorem indicesFrom_eq (start : Nat) (bytes : Bytes) :
    indicesFrom start bytes =
      ((List.range (8 * bytes.length)).filter (contains ⟨bytes⟩)).map (start + ·) := by
  induction bytes generalizing start with
  | nil => rfl
  | cons byte rest ih =>
    have hhead : (List.range 8).filter byte.toNat.testBit =
        (List.range 8).filter (contains ⟨byte :: rest⟩) :=
      List.filter_congr fun i hi => (contains_cons_of_lt byte rest (List.mem_range.1 hi)).symm
    have hrest : contains ⟨byte :: rest⟩ ∘ (8 + ·) = contains ⟨rest⟩ :=
      funext fun i => contains_cons_add byte rest i
    have hlength : 8 * (byte :: rest).length = 8 + 8 * rest.length := by
      rw [List.length_cons]
      omega
    rw [indicesFrom, ih, hhead, hlength, List.range_add, List.filter_append, List.map_append,
      List.filter_map, hrest, List.map_map]
    simp only [Function.comp_def, Nat.add_assoc]

theorem indices_eq_filter (b : Bitmap) :
    b.indices = (List.range b.bitLength).filter b.contains := by
  simp [indices, indicesFrom_eq, bitLength]

end Bitmap

end EpochSeal
