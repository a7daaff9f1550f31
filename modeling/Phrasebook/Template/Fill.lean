-- SUMMARY: Filling a template: slots give the elements, a resolver gives the placeholders' values.
import Phrasebook.Markup.Element
import Phrasebook.Template.Parse

/-!
# Filling templates

`render` rebuilds an element from a template tree. Each slot index is replaced by the slot of that
number with the filled pieces inside, and in each text run references are replaced by values and
escapes are undone, in one pass, so that a value is never read again.
-/
namespace Phrasebook.Template

open Markup

/-- Gives placeholders their values. -/
abbrev Resolver := String → Option String

/-! ## Text runs -/

/-- Write the text run behind the reversed text `out`. The first `skip` characters belong to a
reference already replaced. -/
def fillOnto (resolve : Resolver) (out : List Char) (skip : Nat) :
    List Char → Except TemplateError (List Char)
  | [] => .ok out
  | c :: cs =>
    match skip with
    | skip + 1 => fillOnto resolve out skip cs
    | 0 =>
      if c = '\\' then
        match cs with
        | [] => .ok ('\\' :: out)
        | d :: cs => fillOnto resolve (d :: out) 0 cs
      else if c = '{' then
        match nameAt cs with
        | none => fillOnto resolve (c :: out) 0 cs
        | some name =>
          match resolve (String.ofList name) with
          | none => .error (.missingExpression (String.ofList name))
          | some value => fillOnto resolve (value.toList.reverse ++ out) (name.length + 1) cs
      else fillOnto resolve (c :: out) 0 cs

/-- Replace the references of a text run by their values and undo its escapes. A brace that opens
no reference is literal, and so is a backslash at the end. -/
def fillText (resolve : Resolver) (run : String) : Except TemplateError String := do
  let out ← fillOnto resolve [] 0 run.toList
  return String.ofList out.reverse

/-! ## Trees -/

mutual
/-- Fill a piece from the slots. -/
def Piece.fill (slots : List Element) (resolve : Resolver) : Piece → Except TemplateError Node
  | .text run => do
    let value ← fillText resolve run
    return .text value none
  | .slot index inner =>
    match slots[index]? with
    | none => .error (.indexOutOfRange index slots.length)
    | some element => do
      let children ← Piece.fillAll slots resolve inner
      return (element.withChildren children).toNode
def Piece.fillAll (slots : List Element) (resolve : Resolver) :
    List Piece → Except TemplateError (List Node)
  | [] => .ok []
  | piece :: pieces => do
    let node ← piece.fill slots resolve
    let nodes ← Piece.fillAll slots resolve pieces
    return node :: nodes
end

/-- Fill a tree from the slots. -/
def Tree.fill (tree : Tree) (slots : List Element) (resolve : Resolver) :
    Except TemplateError Element :=
  match slots[tree.index]? with
  | none => .error (.indexOutOfRange tree.index slots.length)
  | some element => do
    let children ← Piece.fillAll slots resolve tree.pieces
    return element.withChildren children

/-- Fill a tree whose indices all have a slot; the greatest index is checked first. -/
def render (tree : Tree) (slots : List Element) (resolve : Resolver) :
    Except TemplateError Element :=
  if slots.length ≤ tree.maxIndex then .error (.indexOutOfRange tree.maxIndex slots.length)
  else tree.fill slots resolve

/-- Read and fill a template. -/
def renderTemplate (template : String) (slots : List Element) (resolve : Resolver) :
    Except TemplateError Element := do
  let tree ← parse template
  render tree slots resolve

end Phrasebook.Template
