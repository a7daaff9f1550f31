-- SUMMARY: Parsed templates: the tree of slots and text runs, and what it refers to.
import Phrasebook.Template.Placeholder

/-!
# Template trees

A parsed template is a node with a slot index and pieces inside: text runs, still escaped, and
further slots. Index 0 belongs to the root. `Tree.maxIndex` is the greatest index in a tree,
`Tree.names` lists the distinct placeholders that its text refers to, and `Tree.print` writes a
tree back as a template.
-/
namespace Phrasebook.Template

/-- What stands inside a slot. -/
inductive Piece where
  /-- Literal text, still escaped, perhaps with references. -/
  | text (run : String)
  /-- The element of slot `index` around further pieces. -/
  | slot (index : Nat) (inner : List Piece)

/-- A slot and what stands inside it. -/
structure Tree where
  index  : Nat
  pieces : List Piece

/-- The index of the root of every message. -/
def rootIndex : Nat := 0

/-- A tree seen as a piece. -/
def Tree.toPiece (tree : Tree) : Piece := .slot tree.index tree.pieces

/-! ## Slots referred to -/

mutual
/-- The greatest slot index in a piece, or `least` if that is greater. -/
def Piece.maxIndex (least : Nat) : Piece → Nat
  | .text _ => least
  | .slot index inner => Piece.maxIndexAll (max least index) inner
def Piece.maxIndexAll (least : Nat) : List Piece → Nat
  | [] => least
  | piece :: pieces => Piece.maxIndexAll (piece.maxIndex least) pieces
end

/-- The greatest slot index in a tree. -/
def Tree.maxIndex (tree : Tree) : Nat := Piece.maxIndexAll tree.index tree.pieces

mutual
/-- The slot indices in a piece, in document order. -/
def Piece.indices : Piece → List Nat
  | .text _ => []
  | .slot index inner => index :: Piece.indicesAll inner
def Piece.indicesAll : List Piece → List Nat
  | [] => []
  | piece :: pieces => piece.indices ++ Piece.indicesAll pieces
end

/-- The slot indices in a tree, in document order. -/
def Tree.indices (tree : Tree) : List Nat := tree.index :: Piece.indicesAll tree.pieces

/-! ## Placeholders referred to -/

/-- Append the names that are not known yet. -/
def addNames (known : List String) : List String → List String
  | [] => known
  | name :: names => addNames (if known.contains name then known else known ++ [name]) names

mutual
/-- Append the placeholders of a piece that are not known yet. -/
def Piece.addNames (known : List String) : Piece → List String
  | .text run => Template.addNames known (referencesIn run.toList)
  | .slot _ inner => Piece.addNamesAll known inner
def Piece.addNamesAll (known : List String) : List Piece → List String
  | [] => known
  | piece :: pieces => Piece.addNamesAll (piece.addNames known) pieces
end

/-- The distinct placeholders that a tree refers to, in document order. -/
def Tree.names (tree : Tree) : List String := Piece.addNamesAll [] tree.pieces

/-! ## Printing -/

mutual
/-- A piece as a template writes it. -/
def Piece.print : Piece → String
  | .text run => run
  | .slot index inner => "[" ++ toString index ++ ":" ++ Piece.printAll inner ++ "]"
def Piece.printAll : List Piece → String
  | [] => ""
  | piece :: pieces => piece.print ++ Piece.printAll pieces
end

/-- The template text of a tree. -/
def Tree.print (tree : Tree) : String := Piece.printAll tree.pieces

mutual
/-- How deep slots nest in a piece. -/
def Piece.depth : Piece → Nat
  | .text _ => 0
  | .slot _ inner => Piece.depthAll inner + 1
def Piece.depthAll : List Piece → Nat
  | [] => 0
  | piece :: pieces => max piece.depth (Piece.depthAll pieces)
end

end Phrasebook.Template
