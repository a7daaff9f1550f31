-- SUMMARY: Reading a template text into its tree.
import Phrasebook.Template.Token
import Phrasebook.Template.Tree

/-!
# Reading templates

`parse` reads the tokens of a template into a tree. An opening begins a slot inside the slot under
way and a closing ends it; at the end only the root may be open. Faults are reported in the order
in which the tokens show them, so a fault of an early token wins over a malformed later one. The
size of the text is checked before all else.
-/
namespace Phrasebook.Template

/-- The greatest size of a template, in bytes. -/
def maxBytes : Nat := 64 * 1024

/-- The greatest nesting of elements below the root. -/
def maxDepth : Nat := 64

/-- A slot under way: its index, where its bracket stands, and its pieces so far, the last one
first. -/
structure Frame where
  index    : Nat
  position : Nat
  pieces   : List Piece := []

/-- The slot under way and the slots around it, the innermost first. -/
structure Builder where
  current : Frame := { index := rootIndex, position := 0 }
  outer   : List Frame := []

namespace Builder

/-- Put a piece into the slot under way. -/
def add (builder : Builder) (piece : Piece) : Builder :=
  { builder with current.pieces := piece :: builder.current.pieces }

/-- How many slots are open below the root. -/
def depth (builder : Builder) : Nat := builder.outer.length

/-- Begin a slot. -/
def opening (builder : Builder) (index position : Nat) : Except TemplateError Builder :=
  if index = rootIndex then .error (.malformed .reservedElementIndex position)
  else if builder.depth ≥ maxDepth then .error (.tooDeep maxDepth (builder.depth + 1) position)
  else .ok ⟨{ index, position }, builder.current :: builder.outer⟩

/-- End the slot under way. -/
def closing (builder : Builder) (position : Nat) : Except TemplateError Builder :=
  match builder.outer with
  | [] => .error (.malformed .unmatchedElements position)
  | parent :: outer =>
    let slot := Piece.slot builder.current.index builder.current.pieces.reverse
    .ok (Builder.add ⟨parent, outer⟩ slot)

/-- Read a token. -/
def step (builder : Builder) (placed : PlacedToken) : Except TemplateError Builder :=
  match placed.token with
  | .text run      => .ok (builder.add (.text run))
  | .opening index => builder.opening index placed.position
  | .closing       => builder.closing placed.position

/-- Read tokens in order. -/
def run (builder : Builder) : List PlacedToken → Except TemplateError Builder
  | [] => .ok builder
  | placed :: tokens =>
    match builder.step placed with
    | .ok next => next.run tokens
    | .error failure => .error failure

/-- The tree, once only the root is open. -/
def finish (builder : Builder) : Except TemplateError Tree :=
  match builder.outer with
  | [] => .ok ⟨builder.current.index, builder.current.pieces.reverse⟩
  | _ :: _ => .error (.malformed .unmatchedElements builder.current.position)

end Builder

/-- The tree of a sequence of tokens, or the first fault. -/
def Tokens.build (tokens : Tokens) : Except TemplateError Tree := do
  let builder ← ({} : Builder).run tokens.tokens
  match tokens.failure with
  | some failure => .error failure
  | none => builder.finish

/-- Read a template. -/
def parse (template : String) : Except TemplateError Tree :=
  if template.utf8ByteSize > maxBytes then .error (.tooLarge maxBytes template.utf8ByteSize)
  else (tokenize template).build

end Phrasebook.Template
