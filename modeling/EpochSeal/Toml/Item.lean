/-!
The items of a TOML document and the rules for putting keys into tables: a key is set once, a header
opens a table once, dotted keys extend only tables that dotted keys made.
-/
namespace EpochSeal.Toml

/-- How a table came to be. -/
inductive TableOrigin where
  /-- By its own header, or as the document or an element of a list of tables. -/
  | header
  /-- By standing in front of the last key of a header. -/
  | implied
  /-- By standing in front of the last part of a dotted key. -/
  | dotted
  deriving DecidableEq, Repr

/-- What a key can be set to. Numbers with a fraction and truth values are only recognized. -/
inductive Item where
  | text (value : String)
  | integer (value : Int)
  | fraction
  | truth (value : Bool)
  | moment
  | array (items : List Item)
  | inlineTable (entries : List (String × Item))
  | table (origin : TableOrigin) (entries : List (String × Item))
  | tables (rows : List (List (String × Item)))

/-- The keys of a table with their items, in the order in which they were set. -/
abbrev Entries := List (String × Item)

namespace Entries

def find? (key : String) (entries : Entries) : Option Item := entries.lookup key

/-- Sets a key, in place if it is there. -/
def set (key : String) (item : Item) : Entries → Entries
  | [] => [(key, item)]
  | (k, old) :: rest => if k = key then (k, item) :: rest else (k, old) :: set key item rest

/-- Changes the table that a path leads to, making the tables that are missing on the way. A dotted
path may not pass through a table that has a header of its own. The change is told how the table
came to be. -/
def change (viaDots : Bool) (f : TableOrigin → Entries → Option Entries) :
    (path : List String) → TableOrigin → Entries → Option Entries
  | [], origin, entries => f origin entries
  | key :: path, _, entries =>
    match entries.find? key with
    | none =>
      let origin := if viaDots then .dotted else .implied
      (change viaDots f path origin []).map fun inner => set key (.table origin inner) entries
    | some (.table origin inner) =>
      if viaDots && origin = .header then none
      else
        (change viaDots f path origin inner).map fun inner =>
          set key (.table origin inner) entries
    | some (.tables rows) =>
      match rows.getLast? with
      | none => none
      | some row =>
        (change viaDots f path .header row).map fun row =>
          set key (.tables (rows.dropLast ++ [row])) entries
    | some _ => none

/-- Sets a dotted key that is not set yet. -/
def insertDotted (path : List String) (key : String) (item : Item) (entries : Entries) :
    Option Entries :=
  change true
    (fun origin table =>
      if decide (origin = .dotted) = path.isEmpty then none
      else if (table.find? key).isSome then none
      else some (table ++ [(key, item)]))
    path .header entries

def openTable (path : List String) (key : String) (entries : Entries) : Option Entries :=
  change false
    (fun _ table =>
      match table.find? key with
      | none => some (set key (.table .header []) table)
      | some (.table .implied inner) => some (set key (.table .header inner) table)
      | some _ => none)
    path .header entries

/-- Adds a table to the list that a header names. -/
def openElement (path : List String) (key : String) (entries : Entries) : Option Entries :=
  change false
    (fun _ table =>
      match table.find? key with
      | none => some (set key (.tables [[]]) table)
      | some (.tables rows) => some (set key (.tables (rows ++ [[]])) table)
      | some _ => none)
    path .header entries

end Entries

end EpochSeal.Toml
