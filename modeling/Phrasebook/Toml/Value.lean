-- SUMMARY: TOML values.

/-!
# TOML values

The values of a TOML document. A table keeps its entries in the order of the document and has no
key twice. Floating point numbers and dates are kept as written. A number too large for any type
of numbers is `Value.outOfRange`, which no decoder accepts and which does no harm where nobody
reads it.
-/
namespace Phrasebook.Toml

inductive Value where
  | string (text : String)
  | integer (value : Int)
  | float (text : String)
  | boolean (value : Bool)
  | moment (text : String)
  | array (items : List Value)
  | table (entries : List (String × Value))
  /-- An integer that 128 bits cannot hold, or a number beyond the greatest floating point one. -/
  | outOfRange

namespace Value

mutual
/-- No number of the value is out of range. -/
def isInRange : Value → Bool
  | .array items => allInRange items
  | .table entries => entriesInRange entries
  | .outOfRange => false
  | _ => true
def allInRange : List Value → Bool
  | [] => true
  | item :: items => item.isInRange && allInRange items
def entriesInRange : List (String × Value) → Bool
  | [] => true
  | (_, value) :: entries => value.isInRange && entriesInRange entries
end

end Value

end Phrasebook.Toml
