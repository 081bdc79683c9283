/-!
The words of a TOML document: blanks, keys, strings, numbers and moments in time. A reader takes the
characters of a word off the front of the text or fails.
-/
namespace EpochSeal.Toml

attribute [instance (2000), default_instance (20000)] instPowNat

/-- Reads something off the front of a text. -/
abbrev Reader := StateT (List Char) Option

namespace Reader

def next : Reader Char
  | [] => none
  | c :: rest => some (c, rest)

def satisfy (p : Char → Bool) : Reader Char := do
  let c ← next
  if p c then return c else failure

def char (c : Char) : Reader Unit := do
  let _ ← satisfy (· = c)

def word (w : String) : Reader Unit := w.toList.forM char

/-- The longest run of characters of a class. -/
def run (p : Char → Bool) : Reader (List Char) := fun text => some (text.takeWhile p, text.dropWhile p)

def peek : Reader (Option Char) := fun text => some (text.head?, text)

/-- Reads as often as it can, at most as often as the text has characters. -/
def many {α : Type} (r : Reader α) : Reader (List α) := fun text =>
  let rec loop : (fuel text : List Char) → List α × List Char
    | [], text => ([], text)
    | _ :: fuel, text =>
      match r text with
      | none => ([], text)
      | some (a, rest) =>
        let (items, rest) := loop fuel rest
        (a :: items, rest)
  some (loop text text)

/-- Items with commas between them. A comma that no item follows is left in the text. -/
def separated {α : Type} (item : Reader α) : Reader (List α) := do
  match ← optional item with
  | none => return []
  | some first =>
    let rest ← many do
      let ',' ← next | failure
      item
    return first :: rest

/-- Exactly `count` characters of a class. -/
def exactly (count : Nat) (p : Char → Bool) : Reader (List Char) :=
  (List.replicate count ()).mapM fun _ => satisfy p

end Reader
open Reader

def isBlank (c : Char) : Bool := c = ' ' || c = '\t'

def isPrintable (c : Char) : Bool := c = '\t' || (' ' ≤ c && c ≤ '~') || '\x80' ≤ c

def skipBlanks : Reader Unit := do let _ ← run isBlank

def newline : Reader Unit := do
  match ← next with
  | '\n' => pure ()
  | '\r' => char '\n'
  | _ => failure

def comment : Reader Unit := do
  char '#'
  let _ ← run isPrintable

def skipLines : Reader Unit := do
  let _ ← many do
    match ← peek with
    | some '#' => comment; newline
    | some ' ' | some '\t' => let _ ← next
    | _ => newline

def digitValue (c : Char) : Nat :=
  if c.isDigit then c.toNat - 48
  else if 'a' ≤ c && c ≤ 'f' then c.toNat - 87
  else if 'A' ≤ c && c ≤ 'F' then c.toNat - 55
  else 16

def isDigitOf (base : Nat) (c : Char) : Bool := digitValue c < base

def ofDigits (base : Nat) (digits : List Char) : Nat :=
  digits.foldl (fun acc c => base * acc + digitValue c) 0

/-- A character that `count` hexadecimal digits name. -/
def codePoint (count : Nat) : Reader Char := do
  let n := ofDigits 16 (← exactly count (isDigitOf 16))
  if n.isValidChar then return Char.ofNat n else failure

/-- What stands behind a backslash. -/
def escaped : Reader Char := do
  match ← next with
  | 'b' => return '\x08'
  | 't' => return '\t'
  | 'n' => return '\n'
  | 'f' => return '\x0c'
  | 'r' => return '\r'
  | '"' => return '"'
  | '\\' => return '\\'
  | 'u' => codePoint 4
  | 'U' => codePoint 8
  | _ => failure

def basicString : Reader (List Char) := do
  char '"'
  let body ← many do
    match ← satisfy isPrintable with
    | '"' => failure
    | '\\' => escaped
    | c => return c
  char '"'
  return body

def literalString : Reader (List Char) := do
  char '\''
  let body ← run fun c => isPrintable c && c ≠ '\''
  char '\''
  return body

/-- A line end, as the character that it stands for. -/
def lineEnd : Reader Char := do
  newline
  return '\n'

/-- A backslash at the end of a line and the blanks and line ends behind it. -/
def continuation : Reader Unit := do
  char '\\'
  skipBlanks
  newline
  let _ ← many do
    match ← peek with
    | some ' ' | some '\t' => let _ ← next
    | _ => newline

/-- Up to two quotes that are followed by something other than the end of the string. -/
def looseQuotes (quote : Char) : Reader (List Char) := fun text =>
  let quotes := text.takeWhile (· = quote)
  let count := quotes.length
  if count = 0 then none
  else if count < 3 then some (quotes, text.drop count)
  else none

/-- The three quotes that end a string, after up to two that belong to it. -/
def closingQuotes (quote : Char) : Reader (List Char) := fun text =>
  let count := min 5 (text.takeWhile (· = quote)).length
  if count < 3 then none else some (List.replicate (count - 3) quote, text.drop count)

def basicBlock : Reader (List Char) := do
  word "\"\"\""
  let _ ← optional newline
  let body ← many do
    match ← peek with
    | some '"' => looseQuotes '"'
    | some '\\' =>
      match ← optional continuation with
      | some _ => return []
      | none =>
        char '\\'
        return [← escaped]
    | some c => if isPrintable c then return [← next] else return [← lineEnd]
    | none => failure
  return body.flatten ++ (← closingQuotes '"')

def literalBlock : Reader (List Char) := do
  word "'''"
  let _ ← optional newline
  let body ← many do
    match ← peek with
    | some '\'' => looseQuotes '\''
    | some c => if isPrintable c then return [← next] else return [← lineEnd]
    | none => failure
  return body.flatten ++ (← closingQuotes '\'')

def text : Reader String := do
  return String.ofList (← basicBlock <|> literalBlock <|> basicString <|> literalString)

def isKeyChar (c : Char) : Bool := c.isAlphanum || c = '-' || c = '_'

/-- One part of a key: bare, or a string on one line. -/
def keyPart : Reader String := do
  match ← peek with
  | some '"' => return String.ofList (← basicString)
  | some '\'' => return String.ofList (← literalString)
  | _ =>
    let chars ← run isKeyChar
    if chars.isEmpty then failure
    return String.ofList chars

/-- How many arrays and tables a value may nest, and how many parts a key may have. -/
def nestingLimit : Nat := 79

def key : Reader (List String × String) := do
  let first ← keyPart
  skipBlanks
  let rest ← many do
    char '.'
    skipBlanks
    let part ← keyPart
    skipBlanks
    return part
  let parts := first :: rest
  if nestingLimit < parts.length then failure
  return (parts.dropLast, parts.getLastD first)

/-- Digits with single underscores between them. -/
def digits (base : Nat) : Reader (List Char) := do
  let first ← satisfy (isDigitOf base)
  let rest ← many do
    let _ ← optional (char '_')
    satisfy (isDigitOf base)
  return first :: rest

def sign : Reader Bool := do
  match ← optional (satisfy fun c => c = '+' || c = '-') with
  | some '-' => return true
  | _ => return false

def decimal : Reader Nat := do
  match ← peek with
  | some '0' =>
    char '0'
    match ← peek with
    | some c => if c.isDigit || c = '_' then failure else return 0
    | none => return 0
  | _ => return ofDigits 10 (← digits 10)

def integer : Reader Int := do
  let value : Int ← (do
      char '0'
      let base ← match ← next with
        | 'x' => pure 16
        | 'o' => pure 8
        | 'b' => pure 2
        | _ => failure
      return (ofDigits base (← digits base) : Nat)) <|> (do
      let negative ← sign
      let n ← decimal
      return if negative then -(n : Int) else n)
  if -(2 ^ 63 : Int) ≤ value ∧ value < 2 ^ 63 then return value else failure

/-- Whether `mantissa * 10 ^ exponent` is so large that it rounds to infinity. -/
def overflows (mantissa : Nat) (exponent : Int) : Bool :=
  let size : Int := (Nat.toDigits 10 mantissa).length + exponent
  if mantissa = 0 ∨ size < 300 then false
  else if 320 < size then true
  else
    let scaled := if exponent < 0 then mantissa / 10 ^ exponent.natAbs else mantissa * 10 ^ exponent.natAbs
    2 ^ 1024 - 2 ^ 970 ≤ scaled

/-- A number with a fraction or an exponent, or one that is none or infinite. -/
def fraction : Reader Unit := do
  let negative ← sign
  match ← peek with
  | some 'i' => word "inf"
  | some 'n' => word "nan"
  | _ =>
    let whole ← decimal
    let places ← optional do
      char '.'
      digits 10
    let exponent ← optional do
      let _ ← satisfy fun c => c = 'e' || c = 'E'
      let negative ← sign
      let n := ofDigits 10 (← digits 10)
      return if negative then -(n : Int) else (n : Int)
    if places.isNone && exponent.isNone then failure
    let places := places.getD []
    let mantissa := whole * 10 ^ places.length + ofDigits 10 places
    if !negative && overflows mantissa (exponent.getD 0 - places.length) then failure

/-- A number of exactly `count` digits between two bounds. -/
def bounded (count low high : Nat) : Reader Nat := do
  let n := ofDigits 10 (← exactly count Char.isDigit)
  if low ≤ n ∧ n ≤ high then return n else failure

def daysInMonth (year month : Nat) : Nat :=
  if month = 2 then
    if year % 4 = 0 ∧ (year % 100 ≠ 0 ∨ year % 400 = 0) then 29 else 28
  else if month = 4 ∨ month = 6 ∨ month = 9 ∨ month = 11 then 30
  else 31

def date : Reader Unit := do
  let year ← bounded 4 0 9999
  char '-'
  let month ← bounded 2 1 12
  char '-'
  let _ ← bounded 2 1 (daysInMonth year month)

def timeOfDay : Reader Unit := do
  let _ ← bounded 2 0 23
  char ':'
  let _ ← bounded 2 0 59
  char ':'
  let _ ← bounded 2 0 60
  let _ ← optional do
    char '.'
    let _ ← satisfy Char.isDigit
    let _ ← run Char.isDigit

def timeOffset : Reader Unit := do
  match ← next with
  | 'Z' | 'z' => pure ()
  | '+' | '-' =>
    let _ ← bounded 2 0 23
    char ':'
    let _ ← bounded 2 0 59
  | _ => failure

/-- A date, a time of day, or both, with an offset if there are both. -/
def moment : Reader Unit :=
  (do
    date
    let _ ← optional do
      let _ ← satisfy fun c => c = 'T' || c = 't' || c = ' '
      timeOfDay
      let _ ← optional timeOffset) <|>
  timeOfDay

end EpochSeal.Toml
