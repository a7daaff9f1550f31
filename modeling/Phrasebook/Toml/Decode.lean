-- SUMMARY: Decoding TOML values: scalars, lists, sections, and choices.
import Phrasebook.Toml.Value

/-!
# Decoding TOML

A decoder gives the value of a type or refuses; nothing is converted. A section is a table, in
which unknown keys are passed over if their numbers are in range, or the array of its values in
order, of which those at the end may be left out and those behind the end are not read. A date
has no keys of a section, so a section written as a date is empty. A choice is the string that
names it, or a table whose one key has that name and an empty value.
-/
namespace Phrasebook.Toml

/-- A decoder. -/
abbrev Decoder (α : Type) := Value → Option α

namespace Decode

def string : Decoder String
  | .string text => some text
  | _ => none

def bool : Decoder Bool
  | .boolean value => some value
  | _ => none

/-- A natural number up to a bound. -/
def nat (high : Nat) : Decoder Nat
  | .integer n => if 0 ≤ n ∧ n ≤ high then some n.toNat else none
  | _ => none

def list (item : Decoder α) : Decoder (List α)
  | .array items => items.mapM item
  | _ => none

/-- Entries found in a section. -/
abbrev Fields := List (String × Value)

/-- The entries of a table with these keys. -/
def known (keys : List String) (entries : List (String × Value)) : Option Fields :=
  if entries.all fun (key, value) => keys.contains key || value.isInRange then some entries
  else none

/-- The entries of a section with these keys. -/
def fields (keys : List String) : Decoder Fields
  | .table entries => known keys entries
  | .array items => some (keys.zip items)
  | .moment _ => some []
  | _ => none

/-- The value of a key, or a default if the section lacks the key. -/
def default (fields : Fields) (key : String) (value : α) (content : Decoder α) : Option α :=
  match fields.lookup key with
  | some found => content found
  | none => some value

/-- One of several named alternatives. -/
def choice (alternatives : List (String × α)) : Decoder α
  | .string name => alternatives.lookup name
  | .table [(name, .table [])] => alternatives.lookup name
  | .table [(name, .array [])] => alternatives.lookup name
  | _ => none

end Decode

end Phrasebook.Toml
