-- SUMMARY: The JSON form of template trees.
import Phrasebook.Json.Decode
import Phrasebook.Template.Tree
import Phrasebook.Text.Numeral

/-!
# Template trees as JSON

A tree is a record of its index and its children; a child is tagged as `text` or `node`. Indices
take 64 bits.
-/
namespace Phrasebook.Template

open Json Decode

/-- The record of a tree whose children are encoded already. -/
def treeRecord (index : Nat) (children : List Value) : Value :=
  .record [("index", some (.ofNat index)), ("children", some (.array children))]

mutual
def Piece.toJson : Piece → Value
  | .text run => Encode.tagged "text" (some (.string run))
  | .slot index inner => Encode.tagged "node" (some (treeRecord index (Piece.toJsonAll inner)))
def Piece.toJsonAll : List Piece → List Value
  | [] => []
  | piece :: pieces => piece.toJson :: Piece.toJsonAll pieces
end

def Tree.toJson (tree : Tree) : Value := treeRecord tree.index (Piece.toJsonAll tree.pieces)

/-- Decode a tree of at most `levels` nested trees. `held` says whether the value belongs to
something set aside. -/
def Tree.decode (levels : Nat) (held : Bool) (value : Value) : Option Tree :=
  match levels with
  | 0 => none
  | levels + 1 => do
    let fields ← record ["index", "children"] value
    return {
      index  := ← required fields "index" (nat Text.Numeral.nat64Max)
      pieces := ← required fields "children" (list (piece levels)) }
where
  /-- Decode what stands inside a tree. -/
  piece (levels : Nat) (value : Value) : Option Piece := do
    let found ← tagged held ["text", "node"] value
    match found.kind with
    | "text" => return .text (← found.content.bind string)
    | _ => return (← found.content.bind (Tree.decode levels found.held)).toPiece

def Tree.ofJson? (value : Value) : Option Tree := Tree.decode (value.depth + 1) false value

end Phrasebook.Template
