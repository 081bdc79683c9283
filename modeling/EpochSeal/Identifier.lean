import EpochSeal.Hash.Keccak
import EpochSeal.Hex

/-!
Account addresses of 20 bytes and Keccak digests of 32. Both are written as `0x` and lower-case
hexadecimal digits; reading takes either case and needs no `0x`.
-/
namespace EpochSeal

/-- An account or contract. -/
structure Address where
  bytes : Bytes
  length_eq : bytes.length = 20
  deriving DecidableEq

/-- A Keccak-256 digest, or any other word of 32 bytes that stands for one. -/
structure Digest where
  bytes : Bytes
  length_eq : bytes.length = 32
  deriving DecidableEq

/-- Why a text is no address or digest. -/
inductive IdentifierError where
  | hex (cause : Hex.Error)
  | addressLength (found : Nat)
  | digestLength (found : Nat)
  deriving DecidableEq, Repr

def IdentifierError.message : IdentifierError → String
  | .hex cause => cause.message
  | .addressLength found => s!"invalid address length: {found}"
  | .digestLength found => s!"invalid keccak-256 length: {found}"

namespace Hex

def marker : Bytes := [48, 120]

/-- The text less a leading `0x`. -/
def dropMarker : Bytes → Bytes
  | 48 :: 120 :: rest => rest
  | text => text

/-- Hexadecimal digits after `0x`. -/
def marked (bytes : Bytes) : Bytes := marker ++ encode bytes

def markedText (bytes : Bytes) : String := Bytes.toLatin1 (marked bytes)

@[simp] theorem dropMarker_marked (bytes : Bytes) : dropMarker (marked bytes) = encode bytes := rfl

end Hex

namespace Address

def zero : Address := ⟨List.replicate 20 0, rfl⟩

instance : Inhabited Address := ⟨zero⟩

/-- Addresses are ordered as byte strings. -/
instance : LT Address := ⟨fun a b => a.bytes < b.bytes⟩
instance (a b : Address) : Decidable (a < b) := inferInstanceAs (Decidable (a.bytes < b.bytes))

def le (a b : Address) : Bool := !decide (b < a)

/-- The last 20 bytes, after zeros if there are fewer. -/
def ofRight (bytes : Bytes) : Address :=
  ⟨(List.replicate 20 0 ++ bytes).drop bytes.length, by
    rw [List.length_drop, List.length_append, List.length_replicate]; omega⟩

def ofLow (v : UInt64) : Address := ofRight (Bytes.bigEndian 8 v.toNat)

def text (a : Address) : Bytes := Hex.marked a.bytes

def toString (a : Address) : String := Hex.markedText a.bytes

instance : ToString Address := ⟨toString⟩

def parse (text : Bytes) : Except IdentifierError Address :=
  match Hex.decode (Hex.dropMarker text) with
  | .error e => .error (.hex e)
  | .ok bytes =>
    if h : bytes.length = 20 then .ok ⟨bytes, h⟩ else .error (.addressLength bytes.length)

@[simp] theorem parse_text (a : Address) : parse a.text = .ok a := by
  simp [parse, text, a.length_eq]

end Address

namespace Digest

def zero : Digest := ⟨List.replicate 32 0, rfl⟩

instance : Inhabited Digest := ⟨zero⟩

def isZero (d : Digest) : Bool := d = zero

/-- The Keccak-256 digest of a message. -/
def ofMessage (message : Bytes) : Digest := ⟨Keccak.digest message, Keccak.length_digest message⟩

def text (d : Digest) : Bytes := Hex.marked d.bytes

def toString (d : Digest) : String := Hex.markedText d.bytes

instance : ToString Digest := ⟨toString⟩

def parse (text : Bytes) : Except IdentifierError Digest :=
  match Hex.decode (Hex.dropMarker text) with
  | .error e => .error (.hex e)
  | .ok bytes =>
    if h : bytes.length = 32 then .ok ⟨bytes, h⟩ else .error (.digestLength bytes.length)

@[simp] theorem parse_text (d : Digest) : parse d.text = .ok d := by
  simp [parse, text, d.length_eq]

end Digest

end EpochSeal
