-- SUMMARY: Markup trees: elements with attributes, text, and expression slots.

/-!
# Markup

A document is a list of nodes: text, expressions whose value is supplied when a message is shown,
and elements. An element is an opening tag with nodes inside. `Element.stripped` keeps the tag
alone; a stripped element serves as the slot from which a template is filled.
-/
namespace Phrasebook.Markup

/-- A line number, where the source recorded one. -/
abbrev Line := Option UInt32

/-! ## Attributes -/

/-- The value of an attribute. -/
inductive AttributeValue where
  /-- A string literal. -/
  | literal (text : String)
  /-- An expression, kept as source text. -/
  | expression (source : String)
  /-- A list of string literals. -/
  | list (items : List String)
  /-- No value at all. -/
  | flag
deriving DecidableEq, Repr

structure Attribute where
  name  : String
  value : AttributeValue
deriving DecidableEq, Repr

/-- The text of a literal value. -/
def AttributeValue.literal? : AttributeValue → Option String
  | .literal text => some text
  | _ => none

/-! ## Nodes -/

/-- An opening tag: all of an element but what stands inside. -/
structure Tag where
  name               : String
  attributes         : List Attribute := []
  line               : Line := none
  /-- Blanks inside the element are kept as they are. -/
  preserveWhitespace : Bool := false
deriving DecidableEq, Repr

/-- An expression whose value is supplied when the message is shown. -/
structure ExpressionSlot where
  source : String
  line   : Line := none
deriving DecidableEq, Repr

inductive Node where
  | text (value : String) (line : Line)
  | expression (slot : ExpressionSlot)
  | element (tag : Tag) (children : List Node)

structure Element where
  tag      : Tag
  children : List Node := []

/-- The nodes of one source unit. -/
structure Document where
  nodes : List Node := []

/-- The line recorded for the node itself. -/
def Node.line : Node → Line
  | .text _ line     => line
  | .expression slot => slot.line
  | .element tag _   => tag.line

def Element.toNode (element : Element) : Node := .element element.tag element.children

/-! ## Tags -/

namespace Tag

/-- The first attribute of a name. -/
def attribute? (tag : Tag) (name : String) : Option Attribute :=
  tag.attributes.find? fun candidate => candidate.name == name

def hasAttribute (tag : Tag) (name : String) : Bool := (tag.attribute? name).isSome

/-- A tag without children, as an element. -/
def toElement (tag : Tag) : Element := { tag }

end Tag

/-! ## Elements -/

namespace Element

/-- An element without attributes, children or line. -/
def named (name : String) : Element := { tag := { name } }

/-- Append an attribute. -/
def withAttribute (element : Element) (name : String) (value : AttributeValue) : Element :=
  { element with tag.attributes := element.tag.attributes ++ [⟨name, value⟩] }

/-- Append a child. -/
def withChild (element : Element) (child : Node) : Element :=
  { element with children := element.children ++ [child] }

/-- Record a line. -/
def atLine (element : Element) (line : UInt32) : Element :=
  { element with tag.line := some line }

/-- The element without its children. -/
def stripped (element : Element) : Element := { element with children := [] }

/-- The element with other children. -/
def withChildren (element : Element) (children : List Node) : Element := { element with children }

end Element

/-! ## Forgetting the whitespace flags -/

mutual
/-- The node with every `preserveWhitespace` flag lowered. -/
def Node.withoutFlags : Node → Node
  | .text value line => .text value line
  | .expression slot => .expression slot
  | .element tag children =>
    .element { tag with preserveWhitespace := false } (Node.withoutFlagsAll children)
def Node.withoutFlagsAll : List Node → List Node
  | [] => []
  | node :: nodes => node.withoutFlags :: Node.withoutFlagsAll nodes
end

/-- The element with every `preserveWhitespace` flag lowered. -/
def Element.withoutFlags (element : Element) : Element where
  tag      := { element.tag with preserveWhitespace := false }
  children := Node.withoutFlagsAll element.children

end Phrasebook.Markup
