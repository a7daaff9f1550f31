-- SUMMARY: Making a template from a markup element: text, numbered elements, named expressions.
import Phrasebook.Markup.Element
import Phrasebook.Message.Identity
import Phrasebook.Template.Error
import Phrasebook.Template.Escape
import Phrasebook.Template.Placeholder

/-!
# Extraction

`extract` walks what stands inside an element, depth first, and writes a template:

* text is escaped, with adjacent texts taken together, and a literal reference `{name}` gets its
  brace escaped;
* the next element takes the next index and becomes `[<index>:<inner>]`;
* the next expression takes the next of the given names and becomes `{<name>}`.

With normalization, a blank is written as a space and only if the template does not already end in
one; an element that preserves whitespace keeps its text verbatim. Blanks at both ends of the
template are split off, since the rest is the id of the message.
-/
namespace Phrasebook

open Markup Template

/-! ## Options and result -/

structure ExtractionOptions where
  /-- Collapse blank runs and shrink the blank edges. -/
  normalize    : Bool := false
  /-- Elements of these names keep their blanks. -/
  preserveTags : List String := []
  /-- Accept more names than there are expressions. -/
  allowUnused  : Bool := false
deriving DecidableEq, Repr

/-- The element keeps its blanks. -/
def ExtractionOptions.preserves (options : ExtractionOptions) (tag : Tag) : Bool :=
  tag.preserveWhitespace || options.preserveTags.contains tag.name

/-- A message: its template and what fills the template again. -/
structure Extraction where
  /-- The template; also the id of the message. -/
  format      : String
  /-- Blanks split off in front. -/
  leading     : String
  /-- Blanks split off behind. -/
  trailing    : String
  /-- The stripped elements; element `k` of the template is the `k`-th of them. -/
  elements    : List Element
  /-- The expressions in the order of their names. -/
  expressions : List ExpressionSlot

/-! ## Names -/

/-- Check that names are well formed and do not repeat. `seen` are the names before. -/
def checkNamesFrom (seen : List String) : List String → Except TemplateError Unit
  | [] => .ok ()
  | name :: names =>
    if !isName name.toList then .error (.invalidPlaceholderName name)
    else if seen.contains name then .error (.duplicatePlaceholder name)
    else checkNamesFrom (name :: seen) names

/-- Check that names are well formed and do not repeat; the first offence counts. -/
def checkNames (names : List String) : Except TemplateError Unit := checkNamesFrom [] names

/-! ## Writing text -/

/-- Write literal text behind the reversed template `out`. -/
def writeText (collapse : Bool) (out : List Char) : List Char → List Char
  | [] => out
  | c :: cs =>
    if collapse && Text.isBlank c then
      writeText collapse (if out.head? = some ' ' then out else ' ' :: out) cs
    else if isReserved c || (c == '{' && (nameAt cs).isSome) then
      writeText collapse (c :: '\\' :: out) cs
    else writeText collapse (c :: out) cs

/-- Literal text as a template writes it. -/
def literalText (cs : List Char) : List Char := (writeText false [] cs).reverse

/-! ## The walk -/

/-- A template under way. All its lists are reversed. -/
structure Draft where
  /-- The template so far. -/
  out         : List Char := []
  /-- Text read but not yet written. -/
  pending     : List Char := []
  elements    : List Element := []
  expressions : List ExpressionSlot := []

namespace Draft

/-- Write the pending text. -/
def flush (draft : Draft) (collapse : Bool) : Draft :=
  { draft with out := writeText collapse draft.out draft.pending.reverse, pending := [] }

/-- Append characters to the template. -/
def write (draft : Draft) (cs : List Char) : Draft :=
  { draft with out := cs.reverse ++ draft.out }

/-- Give the next index to an element and open it. -/
def openElement (draft : Draft) (tag : Tag) : Draft :=
  let elements := tag.toElement :: draft.elements
  { draft with elements }.write ('[' :: (toString elements.length).toList ++ [':'])

/-- Close the innermost open element. -/
def closeElement (draft : Draft) : Draft := draft.write [']']

/-- Give the next name to an expression. -/
def addExpression (draft : Draft) (names : List String) (slot : ExpressionSlot) :
    Except TemplateError Draft :=
  let position := draft.expressions.length
  match names[position]? with
  | none => .error (.indexOutOfRange position names.length)
  | some name =>
    .ok ({ draft with expressions := slot :: draft.expressions }.write (reference name.toList))

mutual
/-- Append a node; `collapse` says whether blanks collapse here. -/
def addNode (options : ExtractionOptions) (names : List String) (collapse : Bool)
    (draft : Draft) : Node → Except TemplateError Draft
  | .text value _ => .ok { draft with pending := value.toList.reverse ++ draft.pending }
  | .expression slot => (draft.flush collapse).addExpression names slot
  | .element tag children => do
    let inner := collapse && !options.preserves tag
    let draft ← addNodes options names inner ((draft.flush collapse).openElement tag) children
    return (draft.flush inner).closeElement
def addNodes (options : ExtractionOptions) (names : List String) (collapse : Bool)
    (draft : Draft) : List Node → Except TemplateError Draft
  | [] => .ok draft
  | node :: nodes => do
    let draft ← addNode options names collapse draft node
    addNodes options names collapse draft nodes
end

end Draft

/-! ## Extraction -/

/-- Make the template of what stands inside `element`, with `names` for its expressions. -/
def extract (element : Element) (names : List String) (options : ExtractionOptions) :
    Except TemplateError Extraction := do
  checkNames names
  let collapse := options.normalize && !options.preserves element.tag
  let draft ← Draft.addNodes options names collapse {} element.children
  let draft := draft.flush collapse
  match names[draft.expressions.length]? with
  | some unused => if !options.allowUnused then throw (.unusedPlaceholder unused)
  | none => pure ()
  let split := MessageId.split (String.ofList draft.out.reverse)
  let message := if collapse then split.shrinkEdges else split
  return {
    format      := message.id
    leading     := message.leading
    trailing    := message.trailing
    elements    := draft.elements.reverse
    expressions := draft.expressions.reverse }

end Phrasebook
