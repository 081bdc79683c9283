import EpochSeal.Toml.Item
import EpochSeal.Toml.Lexis

/-!
TOML documents: values, lines of keys and headers, and the table that they add up to.
-/
namespace EpochSeal.Toml
open Reader

/-- Something between blanks, comments and line ends. -/
def amidLines {α : Type} (r : Reader α) : Reader α := do
  skipLines
  let a ← r
  skipLines
  return a

def amidBlanks {α : Type} (r : Reader α) : Reader α := do
  skipBlanks
  let a ← r
  skipBlanks
  return a

/-- The items of an array, the last of which may have a comma too. Items are read once only: nested
arrays would otherwise be read twice on every level. -/
def arrayItems (value : Reader Item) : Reader (List Item) := do
  char '['
  let items ← separated (amidLines value)
  if !items.isEmpty then
    let _ ← optional (char ',')
  skipLines
  char ']'
  return items

def assignment (value : Reader Item) : Reader (List String × String × Item) := do
  let (path, last) ← key
  char '='
  skipBlanks
  return (path, last, ← value)

/-- The keys of a table that is written as a value. -/
def inlineEntries (value : Reader Item) : Reader Entries := do
  char '\x7b'
  let assignments ← separated (amidBlanks (assignment value))
  skipBlanks
  char '\x7d'
  assignments.foldlM (fun entries (path, last, item) => entries.insertDotted path last item) []

/-- A value that holds no others. -/
def scalar : Reader Item := do
  match ← peek with
  | some '"' | some '\'' => return .text (← text)
  | some 't' => word "true"; return .truth true
  | some 'f' => word "false"; return .truth false
  | _ =>
    (do moment; return .moment) <|> (do fraction; return .fraction) <|>
      (do return .integer (← integer))

/-- A value that nests at most `depth` arrays and tables. -/
def value : (depth : Nat) → Reader Item
  | 0 => scalar
  | depth + 1 => do
    match ← peek with
    | some '[' => return .array (← arrayItems (value depth))
    | some '\x7b' => return .inlineTable (← inlineEntries (value depth))
    | _ => scalar

/-- The document so far, and the header that keys now belong to. -/
structure Progress where
  root : Entries
  header : List String

/-- What may follow on a line: blanks and a comment. -/
def lineRest : Reader Unit := do
  skipBlanks
  let _ ← optional comment

def headerName : Reader (List String × String) := do
  skipBlanks
  key

/-- One line: a header, a key with its value, or nothing. -/
def line (progress : Progress) : Reader Progress := do
  skipBlanks
  match ← peek with
  | some '[' =>
    char '['
    match ← optional (char '[') with
    | some _ =>
      let (path, last) ← headerName
      word "]]"
      lineRest
      let root ← Entries.openElement path last progress.root
      return ⟨root, path ++ [last]⟩
    | none =>
      let (path, last) ← headerName
      char ']'
      lineRest
      let root ← Entries.openTable path last progress.root
      return ⟨root, path ++ [last]⟩
  | none | some '#' | some '\n' | some '\r' =>
    lineRest
    return progress
  | some _ =>
    let (path, last, item) ← assignment (value nestingLimit)
    lineRest
    let root ← Entries.change false
      (fun _ table => table.insertDotted path last item) progress.header .header progress.root
    return { progress with root }

/-- All lines of a text; `fuel` bounds their number. -/
def lines : (fuel : Nat) → Progress → Reader Progress
  | 0, _ => failure
  | fuel + 1, progress => do
    let progress ← line progress
    match ← peek with
    | none => return progress
    | some _ =>
      newline
      lines fuel progress

/-- The table that a document stands for. A byte order mark in front of it is skipped. -/
def parse (document : String) : Option Entries :=
  let chars := match document.toList with
    | '\ufeff' :: rest => rest
    | chars => chars
  match lines (chars.length + 1) ⟨[], []⟩ chars with
  | some (progress, []) => some progress.root
  | _ => none

end EpochSeal.Toml
