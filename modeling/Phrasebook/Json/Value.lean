-- SUMMARY: JSON values, with a mark for parts that cannot be read, nesting limits, and sorted form.
import Phrasebook.Decimal.Binary64

/-!
# JSON values

Objects keep their members in the order of the text, repetitions included. A text may hold parts
that are well formed but denote nothing, such as a string with half of a surrogate pair; such a
part becomes `Value.garbled`, which no decoder accepts and which does no harm where nobody reads
it. `Value.limit` garbles what nests too deep.
-/
namespace Phrasebook.Json

/-- A number: an integer of 64 bits, or else a floating point number. -/
inductive Number where
  | int (value : Int)
  | real (negative : Bool) (magnitude : Decimal.Binary64)
deriving DecidableEq, Repr

inductive Value where
  | null
  | bool (value : Bool)
  | number (value : Number)
  | string (text : String)
  | array (items : List Value)
  | object (members : List (String × Value))
  /-- Something that cannot be read. -/
  | garbled

namespace Value

/-- A natural number as a value. -/
def ofNat (n : Nat) : Value := .number (.int n)

/-- A value that may be absent. -/
def ofOption (value : Option Value) : Value := value.getD .null

/-- The members of an object, of which the absent ones are left out. -/
def record (members : List (String × Option Value)) : Value :=
  .object (members.filterMap fun (name, value) => value.map fun value => (name, value))

/-! ## Parts that cannot be read -/

mutual
/-- No part of the value is garbled. -/
def isIntact : Value → Bool
  | .array items => allIntact items
  | .object members => membersIntact members
  | .garbled => false
  | _ => true
def allIntact : List Value → Bool
  | [] => true
  | item :: items => item.isIntact && allIntact items
def membersIntact : List (String × Value) → Bool
  | [] => true
  | (_, value) :: members => value.isIntact && membersIntact members
end

mutual
/-- Garble what nests deeper than `levels` arrays and objects. -/
def limit (levels : Nat) : Value → Value
  | .array items =>
    match levels with
    | 0 => .garbled
    | levels + 1 => .array (limitAll levels items)
  | .object members =>
    match levels with
    | 0 => .garbled
    | levels + 1 => .object (limitMembers levels members)
  | value => value
def limitAll (levels : Nat) : List Value → List Value
  | [] => []
  | item :: items => item.limit levels :: limitAll levels items
def limitMembers (levels : Nat) : List (String × Value) → List (String × Value)
  | [] => []
  | (name, value) :: members => (name, value.limit levels) :: limitMembers levels members
end

mutual
/-- How deep arrays and objects nest. -/
def depth : Value → Nat
  | .array items => depthAll items + 1
  | .object members => depthMembers members + 1
  | _ => 0
def depthAll : List Value → Nat
  | [] => 0
  | item :: items => max item.depth (depthAll items)
def depthMembers : List (String × Value) → Nat
  | [] => 0
  | (_, value) :: members => max value.depth (depthMembers members)
end

/-! ## Sorted form -/

/-- Put a member among sorted members, in place of one of the same name. -/
def insertMember (name : String) (value : Value) :
    List (String × Value) → List (String × Value)
  | [] => [(name, value)]
  | (other, kept) :: members =>
    if name < other then (name, value) :: (other, kept) :: members
    else if name = other then (name, value) :: members
    else (other, kept) :: insertMember name value members

mutual
/-- Sort the members of every object by name; of two members of one name the later counts. -/
def sorted : Value → Value
  | .array items => .array (sortedAll items)
  | .object members => .object (sortedMembers members [])
  | value => value
def sortedAll : List Value → List Value
  | [] => []
  | item :: items => item.sorted :: sortedAll items
def sortedMembers : List (String × Value) → List (String × Value) → List (String × Value)
  | [], done => done
  | (name, value) :: members, done => sortedMembers members (insertMember name value.sorted done)
end

end Value

end Phrasebook.Json
