import EpochSeal.Bytes

/-!
Hexadecimal text, as the ASCII codes of its characters. Writing uses lower case; reading takes
either case and names the first thing that is wrong.
-/
namespace EpochSeal.Hex

/-- Why a text is not hexadecimal. -/
inductive Error where
  | oddLength
  | badDigit (byte : UInt8) (index : Nat)
  deriving DecidableEq, Repr

/-- The ASCII code of a digit below sixteen. -/
def digit (n : UInt8) : UInt8 := if n < 10 then n + 48 else n + 87

def value? (code : UInt8) : Option UInt8 :=
  if 48 ≤ code ∧ code ≤ 57 then some (code - 48)
  else if 97 ≤ code ∧ code ≤ 102 then some (code - 87)
  else if 65 ≤ code ∧ code ≤ 70 then some (code - 55)
  else none

def encode : Bytes → Bytes
  | [] => []
  | b :: rest => digit (b >>> 4) :: digit (b &&& 15) :: encode rest

/-- Reads pairs of digits; `index` is the position of the first. -/
def decodePairs (index : Nat) : Bytes → Except Error Bytes
  | high :: low :: rest =>
    match value? high, value? low with
    | none, _ => .error (.badDigit high index)
    | some _, none => .error (.badDigit low (index + 1))
    | some h, some l =>
      match decodePairs (index + 2) rest with
      | .ok bytes => .ok ((h <<< 4 ||| l) :: bytes)
      | .error e => .error e
  | [_] => .error .oddLength
  | [] => .ok []

def decode (text : Bytes) : Except Error Bytes :=
  if text.length % 2 = 0 then decodePairs 0 text else .error .oddLength

def text (bytes : Bytes) : String := Bytes.toLatin1 (encode bytes)

/-- A quoted character with the given code point, written with an escape where it is a quote, a
backslash or not printable. -/
def quoted (code : UInt8) : String :=
  let body :=
    if code = 0 then "\\0"
    else if code = 9 then "\\t"
    else if code = 10 then "\\n"
    else if code = 13 then "\\r"
    else if code = 39 then "\\'"
    else if code = 92 then "\\\\"
    else if code < 32 ∨ (127 ≤ code ∧ code ≤ 160) ∨ code = 173 then
      "\\u\x7b" ++ String.ofList (Nat.toDigits 16 code.toNat) ++ "\x7d"
    else Bytes.toLatin1 [code]
  "'" ++ body ++ "'"

def Error.message : Error → String
  | .oddLength => "Odd number of digits"
  | .badDigit byte index => s!"Invalid character {quoted byte} at position {index}"

theorem length_encode (bytes : Bytes) : (encode bytes).length = 2 * bytes.length := by
  induction bytes with
  | nil => rfl
  | cons b rest ih =>
    simp only [encode, List.length_cons, ih]
    omega

theorem value?_digit (n : UInt8) (h : n < 16) : value? (digit n) = some n := by
  have all : ∀ n : Fin 256, UInt8.ofFin n < 16 → value? (digit (UInt8.ofFin n)) = some (UInt8.ofFin n) := by
    decide +kernel
  exact all n.toFin h

theorem nibbles (b : UInt8) :
    b >>> 4 < 16 ∧ b &&& 15 < 16 ∧ (b >>> 4) <<< 4 ||| (b &&& 15) = b := by
  have all : ∀ n : Fin 256, UInt8.ofFin n >>> 4 < 16 ∧ UInt8.ofFin n &&& 15 < 16 ∧
      (UInt8.ofFin n >>> 4) <<< 4 ||| (UInt8.ofFin n &&& 15) = UInt8.ofFin n := by
    decide +kernel
  exact all b.toFin

theorem decodePairs_encode (index : Nat) (bytes : Bytes) :
    decodePairs index (encode bytes) = .ok bytes := by
  induction bytes generalizing index with
  | nil => rfl
  | cons b rest ih =>
    obtain ⟨hhigh, hlow, hb⟩ := nibbles b
    simp only [encode, decodePairs, value?_digit _ hhigh, value?_digit _ hlow, ih, hb]

@[simp] theorem decode_encode (bytes : Bytes) : decode (encode bytes) = .ok bytes := by
  simp [decode, length_encode, decodePairs_encode]

end EpochSeal.Hex
