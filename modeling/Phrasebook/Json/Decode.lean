-- SUMMARY: Decoding JSON values: scalars, lists, records, choices, and tagged unions.
import Phrasebook.Json.Value

/-!
# Decoding JSON

A decoder gives the value of a type or refuses. The rules for composite types are these.

* A *record* is an object, in which unknown members are passed over and a known one may not repeat,
  or the array of its fields in order, in which fields at the end may be left out.
* A *choice* is the string that names it, or an object whose one member has that name and is null.
* A *tagged* value is an object of a `kind` and a `value`, or the array of the two.
* A *merged* value is an object of a `kind` and the fields of a record, or the array that has the
  kind in front of the fields.

The kind of a tagged object is a choice; the kind of a merged value, and the one in front of an
array, is a string.

A merged value is set aside as a whole before its kind is known, and so is the `value` of a tagged
object that stands before the `kind`. All of what is set aside must be readable, even what nobody
asks for. Inside it an empty object will do for the null of a choice, and a number for a kind that
is no choice: its place among the kinds.
-/
namespace Phrasebook.Json

/-- A decoder. -/
abbrev Decoder (α : Type) := Value → Option α

namespace Decode

/-! ## Scalars and lists -/

def string : Decoder String
  | .string text => some text
  | _ => none

def bool : Decoder Bool
  | .bool value => some value
  | _ => none

/-- An integer between bounds. -/
def int (low high : Int) : Decoder Int
  | .number (.int n) => if low ≤ n ∧ n ≤ high then some n else none
  | _ => none

/-- A natural number up to a bound. -/
def nat (high : Nat) : Decoder Nat := fun value => (int 0 high value).map Int.toNat

/-- A natural number of 32 bits. -/
def uint32 : Decoder UInt32 := fun value => (nat 4294967295 value).map UInt32.ofNat

def list (item : Decoder α) : Decoder (List α)
  | .array items => items.mapM item
  | _ => none

/-- Something that may be null. -/
def option (content : Decoder α) : Decoder (Option α)
  | .null => some none
  | value => (content value).map some

/-- Nothing but null. -/
def null : Decoder Unit
  | .null => some ()
  | _ => none

/-! ## Records -/

/-- The fields found in a record. -/
abbrev Fields := List (String × Value)

/-- No name occurs twice. -/
def distinct (fields : Fields) : Bool := decide (fields.map Prod.fst).Nodup

/-- The fields of a record whose fields have these names. -/
def record (names : List String) : Decoder Fields
  | .object members =>
    let known := members.filter fun (name, _) => names.contains name
    if distinct known then some known else none
  | .array items => if items.length ≤ names.length then some (names.zip items) else none
  | _ => none

/-- A field that must be there. -/
def required (fields : Fields) (name : String) (content : Decoder α) : Option α :=
  (fields.lookup name).bind content

/-- A field that has a value even if it is not there. -/
def default (fields : Fields) (name : String) (value : α) (content : Decoder α) : Option α :=
  match fields.lookup name with
  | some found => content found
  | none => some value

/-- A field that may be null or not be there. -/
def optional (fields : Fields) (name : String) (content : Decoder α) : Option (Option α) :=
  default fields name none (option content)

/-! ## Choices and unions -/

/-- The name that a choice gives. `held` says whether the choice belongs to something set aside. -/
def chosenName (held : Bool) : Decoder String
  | .string name => some name
  | .object [(name, .null)] => some name
  | .object [(name, .object [])] => if held then some name else none
  | _ => none

/-- One of several named alternatives. -/
def choice (alternatives : List (String × α)) (value : Value) : Option α :=
  (chosenName false value).bind fun name => alternatives.lookup name

/-- The kind of a tagged object. -/
def chosenKind (held : Bool) (kinds : List String) (value : Value) : Option String :=
  (chosenName held value).filter kinds.contains

/-- The kind of a merged value, or of a tagged array. -/
def kind (held : Bool) (kinds : List String) : Decoder String
  | .string name => if kinds.contains name then some name else none
  | .number (.int n) => if held ∧ 0 ≤ n then kinds[n.toNat]? else none
  | _ => none

/-- A kind, its content if there is one, and whether the content was set aside. -/
structure Tagged where
  kind    : String
  content : Option Value
  held    : Bool

/-- The kind and content of a tagged value. -/
def tagged (held : Bool) (kinds : List String) (value : Value) : Option Tagged := do
  let fields ← record ["kind", "value"] value
  let content := fields.lookup "value"
  match value with
  | .array _ =>
    let name ← required fields "kind" (kind held kinds)
    content.map fun content => ⟨name, content, held⟩
  | _ =>
    let name ← required fields "kind" (chosenKind held kinds)
    if fields.head?.map Prod.fst = some "value" ∧ !held then
      if (content.getD .null).isIntact then some ⟨name, content, true⟩ else none
    else some ⟨name, content, held⟩

/-- The kind of a merged value, and the rest of the value, which is set aside. -/
def merged (held : Bool) (kinds : List String) (value : Value) : Option (String × Value) := do
  if !held ∧ !value.isIntact then none
  match value with
  | .object members =>
    match members.partition fun (name, _) => name == "kind" with
    | ([(_, found)], rest) => (kind held kinds found).map fun name => (name, .object rest)
    | _ => none
  | .array (found :: rest) => (kind held kinds found).map fun name => (name, .array rest)
  | _ => none

end Decode

/-! ## Making unions -/

namespace Encode

/-- The members of an object with its kind in front. -/
def withKind (kind : String) : Value → Value
  | .object members => .object (("kind", .string kind) :: members)
  | value => value

/-- A tagged value. -/
def tagged (kind : String) (content : Option Value) : Value :=
  .record [("kind", some (.string kind)), ("value", content)]

end Encode

end Phrasebook.Json
