-- SUMMARY: The JSON form of markup: encoding and decoding.
import Phrasebook.Json.Decode
import Phrasebook.Markup.Element

/-!
# Markup as JSON

A node is merged with its kind (`text`, `expression` or `element`), an element is a record, and an
attribute value is tagged. Empty lists, absent lines and lowered flags are left out in writing and
restored in reading.
-/
namespace Phrasebook.Markup

open Json Decode

/-! ## Encoding -/

/-- A line, left out when unknown. -/
def lineField (line : Line) : String × Option Value :=
  ("line", line.map fun line => .ofNat line.toNat)

/-- A list, left out when empty. -/
def listField (name : String) (items : List Value) : String × Option Value :=
  (name, if items.isEmpty then none else some (.array items))

def AttributeValue.toJson : AttributeValue → Value
  | .literal text => Encode.tagged "literal" (some (.string text))
  | .expression source => Encode.tagged "expression" (some (.string source))
  | .list items => Encode.tagged "list" (some (.array (items.map Value.string)))
  | .flag => Encode.tagged "flag" none

def Attribute.toJson (attr : Attribute) : Value :=
  .record [("name", some (.string attr.name)), ("value", some attr.value.toJson)]

def ExpressionSlot.toJson (slot : ExpressionSlot) : Value :=
  .record [("source", some (.string slot.source)), lineField slot.line]

/-- The record of an element whose children are encoded already. -/
def Tag.recordWith (tag : Tag) (children : List Value) : Value :=
  .record
    [("tag", some (.string tag.name)),
     listField "attributes" (tag.attributes.map Attribute.toJson),
     listField "children" children,
     lineField tag.line,
     ("preserve_whitespace", if tag.preserveWhitespace then some (.bool true) else none)]

mutual
def Node.toJson : Node → Value
  | .text value line =>
    Encode.withKind "text" (.record [("value", some (.string value)), lineField line])
  | .expression slot => Encode.withKind "expression" slot.toJson
  | .element tag children => Encode.withKind "element" (tag.recordWith (Node.toJsonAll children))
def Node.toJsonAll : List Node → List Value
  | [] => []
  | node :: nodes => node.toJson :: Node.toJsonAll nodes
end

def Element.toJson (element : Element) : Value :=
  element.tag.recordWith (Node.toJsonAll element.children)

def Document.toJson (document : Document) : Value :=
  .record [("nodes", some (.array (Node.toJsonAll document.nodes)))]

/-! ## Decoding -/

/-- `held` says whether the value belongs to something set aside. -/
def AttributeValue.ofJson? (held : Bool) (value : Value) : Option AttributeValue := do
  let found ← tagged held ["literal", "expression", "list", "flag"] value
  match found.kind with
  | "literal" => return .literal (← found.content.bind string)
  | "expression" => return .expression (← found.content.bind string)
  | "list" => return .list (← found.content.bind (Decode.list string))
  | _ =>
    null (found.content.getD .null)
    return .flag

def Attribute.ofJson? (held : Bool) (value : Value) : Option Attribute := do
  let fields ← record ["name", "value"] value
  return {
    name  := ← required fields "name" string
    value := ← required fields "value" (AttributeValue.ofJson? held) }

def ExpressionSlot.ofJson? (value : Value) : Option ExpressionSlot := do
  let fields ← record ["source", "line"] value
  return { source := ← required fields "source" string, line := ← optional fields "line" uint32 }

/-- An element whose children are decoded by `node`. -/
def Element.ofJsonWith? (held : Bool) (node : Decoder Node) (value : Value) : Option Element := do
  let fields ← record ["tag", "attributes", "children", "line", "preserve_whitespace"] value
  return {
    tag := {
      name               := ← required fields "tag" string
      attributes         := ← default fields "attributes" [] (list (Attribute.ofJson? held))
      line               := ← optional fields "line" uint32
      preserveWhitespace := ← default fields "preserve_whitespace" false bool }
    children := ← default fields "children" [] (list node) }

/-- Decode a node of at most `levels` nested elements. -/
def Node.decode (levels : Nat) (held : Bool) (value : Value) : Option Node :=
  match levels with
  | 0 => none
  | levels + 1 => do
    let (name, rest) ← merged held ["text", "element", "expression"] value
    match name with
    | "text" =>
      let fields ← record ["value", "line"] rest
      return .text (← required fields "value" string) (← optional fields "line" uint32)
    | "expression" => return .expression (← ExpressionSlot.ofJson? rest)
    | _ => return (← Element.ofJsonWith? true (Node.decode levels true) rest).toNode

def Node.ofJson? (value : Value) : Option Node := Node.decode (value.depth + 1) false value

def Element.ofJson? (value : Value) : Option Element :=
  Element.ofJsonWith? false (Node.decode (value.depth + 1) false) value

def Document.ofJson? (value : Value) : Option Document := do
  let fields ← record ["nodes"] value
  return { nodes := ← default fields "nodes" [] (list Node.ofJson?) }

end Phrasebook.Markup
