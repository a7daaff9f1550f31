-- SUMMARY: TOML tables under construction and the rules for extending them.
import Phrasebook.Toml.Value

/-!
# Building TOML tables

A table may come about in three ways: a header names it, a longer header implies it, or a dotted
key passes through it. A header may complete an implied table once. Dotted keys may pass through
implied tables and dotted ones, but put their value into a table that dotted keys made. Values,
inline tables among them, cannot be extended at all. A key that passes through an array of tables
means its last table.
-/
namespace Phrasebook.Toml

/-- How a table came about. -/
inductive Origin where
  | implied
  | header
  | dotted
deriving DecidableEq, Repr

/-- An entry of a table under construction. -/
inductive Node where
  | value (value : Value)
  | table (origin : Origin) (entries : List (String × Node))
  /-- An array of tables: the last one, and those before it as values, the latest first. -/
  | tables (earlier : List Value) (last : List (String × Node))

/-- The entries of a table under construction, in order. -/
abbrev Entries := List (String × Node)

namespace Entries

mutual
/-- The finished value of an entry. -/
def close : Node → Value
  | .value value => value
  | .table _ entries => .table (closeAll entries)
  | .tables earlier last => .array (.table (closeAll last) :: earlier).reverse
/-- The finished entries. -/
def closeAll : List (String × Node) → List (String × Value)
  | [] => []
  | (key, node) :: entries => (key, close node) :: closeAll entries
end

/-- Change the entry of a key, or give it an entry if it has none. -/
def alter (entries : Entries) (key : String) (change : Option Node → Option Node) :
    Option Entries :=
  match entries with
  | [] => (change none).map fun node => [(key, node)]
  | (other, node) :: entries =>
    if other = key then (change (some node)).map fun node => (key, node) :: entries
    else (alter entries key change).map fun entries => (other, node) :: entries

/-- Put a value under a dotted key. Tables on the way may be implied ones or the last of an array;
the table that gets the value is one that dotted keys made, or the one that `entries` belong to. -/
def put (value : Value) : List String → Entries → Option Entries
  | [], _ => none
  | [key], entries =>
    entries.alter key fun
      | none => some (.value value)
      | some _ => none
  | key :: path, entries =>
    entries.alter key fun
      | none => (put value path []).map (.table .dotted)
      | some (.table .dotted inner) => (put value path inner).map (.table .dotted)
      | some (.table .implied inner) =>
        if 1 < path.length then (put value path inner).map (.table .implied) else none
      | some (.tables earlier last) =>
        if 1 < path.length then (put value path last).map (.tables earlier) else none
      | some _ => none

/-- Change the table at a path; tables that are missing on the way are implied. -/
def within (change : Entries → Option Entries) : List String → Entries → Option Entries
  | [], entries => change entries
  | key :: path, entries =>
    entries.alter key fun
      | none => (within change path []).map (.table .implied)
      | some (.table origin inner) => (within change path inner).map (.table origin)
      | some (.tables earlier last) => (within change path last).map (.tables earlier)
      | some (.value _) => none

/-- Open the table that a header names. -/
def openTable (path : List String) (entries : Entries) : Option Entries :=
  match path.getLast? with
  | none => none
  | some key =>
    within (fun entries => entries.alter key fun
      | none => some (.table .header [])
      | some (.table .implied inner) => some (.table .header inner)
      | some _ => none) path.dropLast entries

/-- Append a table to the array that a double header names. -/
def appendTable (path : List String) (entries : Entries) : Option Entries :=
  match path.getLast? with
  | none => none
  | some key =>
    within (fun entries => entries.alter key fun
      | none => some (.tables [] [])
      | some (.tables earlier last) => some (.tables (.table (closeAll last) :: earlier) [])
      | some _ => none) path.dropLast entries

end Entries

end Phrasebook.Toml
