-- SUMMARY: Values only ever become text: what a filled template owes to its values and what it does not.
import Phrasebook.Proofs.Template.Filling

/-!
# Values in filled templates

A filled element has a skeleton, which is all of it but the wording of its texts, and its texts. The
skeleton is that of the template (`Tree.skeleton_filled`), and each text is that of one text run:
its literal characters and the values of its references, as they are (`Tree.texts_filled`). So a
value cannot open an element, end a text or refer to another value, whatever it holds
(`render_inert`).
-/
namespace Phrasebook

/-! ## Skeletons and texts -/

namespace Markup

mutual
/-- The node with its texts left blank. -/
def Node.skeleton : Node → Node
  | .text _ line => .text "" line
  | .expression slot => .expression slot
  | .element tag children => .element tag (Node.skeletonAll children)
def Node.skeletonAll : List Node → List Node
  | [] => []
  | node :: nodes => node.skeleton :: Node.skeletonAll nodes
end

mutual
/-- The texts of a node in document order. -/
def Node.texts : Node → List String
  | .text value _ => [value]
  | .expression _ => []
  | .element _ children => Node.textsAll children
def Node.textsAll : List Node → List String
  | [] => []
  | node :: nodes => node.texts ++ Node.textsAll nodes
end

/-- The element with its texts left blank. -/
def Element.skeleton (element : Element) : Element :=
  { element with children := Node.skeletonAll element.children }

/-- The texts of an element in document order. -/
def Element.texts (element : Element) : List String := Node.textsAll element.children

end Markup

namespace Template

open Markup

mutual
/-- A slot is filled to its element, and a text run to one text. -/
def Piece.skeleton (slots : List Element) : Piece → Node
  | .text _ => .text "" none
  | .slot index inner => .element (tagAt slots index) (Piece.skeletonAll slots inner)
def Piece.skeletonAll (slots : List Element) : List Piece → List Node
  | [] => []
  | piece :: pieces => piece.skeleton slots :: Piece.skeletonAll slots pieces
end

mutual
/-- The text runs of a piece in document order. -/
def Piece.runs : Piece → List String
  | .text run => [run]
  | .slot _ inner => Piece.runsAll inner
def Piece.runsAll : List Piece → List String
  | [] => []
  | piece :: pieces => piece.runs ++ Piece.runsAll pieces
end

/-- What a tree is filled to, but for the texts. -/
def Tree.skeleton (tree : Tree) (slots : List Element) : Element where
  tag      := tagAt slots tree.index
  children := Piece.skeletonAll slots tree.pieces

/-- The text runs of a tree in document order. -/
def Tree.runs (tree : Tree) : List String := Piece.runsAll tree.pieces

variable {slots : List Element} {value : String → String}

theorem Piece.skeletonAll_filledAll (ps : List Piece) :
    Node.skeletonAll (Piece.filledAll slots value ps) = Piece.skeletonAll slots ps := by
  induction ps using Piece.inductionAll with
  | nil => rfl
  | text run ps ih => exact congrArg (Node.text "" none :: ·) ih
  | slot index inner ps ihInner ih =>
    simp only [filledAll, filled, Node.skeletonAll, Node.skeleton, ihInner, ih, skeletonAll,
      skeleton]

theorem Piece.textsAll_filledAll (ps : List Piece) :
    Node.textsAll (Piece.filledAll slots value ps) =
      (Piece.runsAll ps).map fun run => join value (segments run) := by
  induction ps using Piece.inductionAll with
  | nil => rfl
  | text run ps ih => exact congrArg (join value (segments run) :: ·) ih
  | slot index inner ps ihInner ih =>
    simp only [filledAll, filled, Node.textsAll, Node.texts, ihInner, ih, runsAll, runs,
      List.map_append]

/-- The skeleton does not depend on the values. -/
theorem Tree.skeleton_filled (tree : Tree) :
    (tree.filled slots value).skeleton = tree.skeleton slots :=
  congrArg (Element.mk _) (Piece.skeletonAll_filledAll tree.pieces)

theorem Tree.texts_filled (tree : Tree) :
    (tree.filled slots value).texts = tree.runs.map fun run => join value (segments run) :=
  Piece.textsAll_filledAll tree.pieces

theorem Piece.mem_referencesAll_of_mem_runsAll {ps : List Piece} {run name : String}
    (hrun : run ∈ Piece.runsAll ps) (hname : name ∈ referencesIn run.toList) :
    name ∈ Piece.referencesAll ps := by
  induction ps using Piece.inductionAll with
  | nil => cases hrun
  | text other ps ih =>
    rcases List.mem_cons.1 hrun with rfl | hrun
    · exact List.mem_append_left _ hname
    · exact List.mem_append_right _ (ih hrun)
  | slot index inner ps ihInner ih =>
    rcases List.mem_append.1 hrun with hrun | hrun
    · exact List.mem_append_left _ (ihInner hrun)
    · exact List.mem_append_right _ (ih hrun)

/-- A run refers to placeholders of its tree. -/
theorem Tree.mem_names_of_mem_segments {tree : Tree} {run name : String} (hrun : run ∈ tree.runs)
    (hname : .reference name ∈ segments run) : name ∈ tree.names :=
  mem_names_iff.2 (Piece.mem_referencesAll_of_mem_runsAll hrun
    (reference_mem_segments_iff.1 hname))

/-! ## Two resolvers -/

/-- With all values at hand a tree fills to its skeleton, and its texts are those of its runs. -/
theorem render_of_values {tree : Tree} {resolve : Resolver} (hroom : tree.maxIndex < slots.length)
    (h : ∀ name ∈ tree.names, (resolve name).isSome) :
    ∃ element, render tree slots resolve = .ok element ∧ element.skeleton = tree.skeleton slots ∧
      element.texts = tree.runs.map fun run => join resolve.value (segments run) := by
  refine ⟨tree.filled slots resolve.value, ?_, tree.skeleton_filled, tree.texts_filled⟩
  rw [render_eq, if_neg (Nat.not_le.2 hroom)]
  exact resolve.providing_of_forall h

/-- Two resolvers that have all placeholders of a tree fill it to elements of one skeleton, that of
the tree with its slots filled in. Each text run is made of literal characters and references of the
tree, the same for both, and becomes these characters and the values as they are. If a slot is
missing, both fail in the same way. -/
theorem render_inert (tree : Tree) (slots : List Element) {first second : Resolver}
    (hfirst : ∀ name ∈ tree.names, (first name).isSome)
    (hsecond : ∀ name ∈ tree.names, (second name).isSome) :
    (tree.maxIndex < slots.length ∧ ∃ x y : Element,
        render tree slots first = .ok x ∧ render tree slots second = .ok y ∧
        x.skeleton = y.skeleton ∧ x.skeleton = tree.skeleton slots ∧
        x.texts = tree.runs.map (fun run => join first.value (segments run)) ∧
        y.texts = tree.runs.map (fun run => join second.value (segments run)) ∧
        ∀ run ∈ tree.runs, ∀ name, .reference name ∈ segments run →
          first name = some (first.value name) ∧ second name = some (second.value name)) ∨
      slots.length ≤ tree.maxIndex ∧
        render tree slots first = .error (.indexOutOfRange tree.maxIndex slots.length) ∧
        render tree slots second = .error (.indexOutOfRange tree.maxIndex slots.length) := by
  by_cases hroom : tree.maxIndex < slots.length
  · obtain ⟨x, hx, hxskeleton, hxtexts⟩ := render_of_values hroom hfirst
    obtain ⟨y, hy, hyskeleton, hytexts⟩ := render_of_values hroom hsecond
    refine .inl ⟨hroom, x, y, hx, hy, hxskeleton.trans hyskeleton.symm, hxskeleton, hxtexts,
      hytexts, ?_⟩
    intro run hrun name hname
    have hlisted := Tree.mem_names_of_mem_segments hrun hname
    exact ⟨first.eq_some_value (hfirst name hlisted), second.eq_some_value (hsecond name hlisted)⟩
  · have hshort := Nat.not_lt.1 hroom
    refine .inr ⟨hshort, ?_, ?_⟩
    · rw [render_eq, if_pos hshort]
    · rw [render_eq, if_pos hshort]

/-- A tree that refers to one placeholder in its root and in a slot, beside a lone brace. -/
def signed : Tree where
  index  := rootIndex
  pieces := [.text "By {who}: ", .slot 1 [.text r"\[{who} {"]]

theorem render_inert_signed :
    (∀ name ∈ signed.names, (some "[1:{who}]\\").isSome) ∧
      (∀ name ∈ signed.names, (some "").isSome) ∧
      ∃ x y : Element,
        render signed [.named "p", .named "b"] (fun _ => some "[1:{who}]\\") = .ok x ∧
        render signed [.named "p", .named "b"] (fun _ => some "") = .ok y ∧
        x.skeleton = y.skeleton ∧
        x.texts = ["By [1:{who}]\\: ", r"[[1:{who}]\ {"] ∧
        y.texts = ["By : ", r"[ {"] := by
  have hfirst : ∀ name ∈ signed.names, (some "[1:{who}]\\").isSome := fun _ _ => rfl
  have hsecond : ∀ name ∈ signed.names, (some "").isSome := fun _ _ => rfl
  have hroom : signed.maxIndex < [Element.named "p", Element.named "b"].length := by decide
  rcases render_inert signed [.named "p", .named "b"] hfirst hsecond with
    ⟨-, x, y, hx, hy, hskeleton, -, hxtexts, hytexts, -⟩ | ⟨hshort, -, -⟩
  · refine ⟨hfirst, hsecond, x, y, hx, hy, hskeleton, ?_, ?_⟩
    · exact hxtexts.trans (by decide +kernel)
    · exact hytexts.trans (by decide +kernel)
  · exact absurd hroom (Nat.not_lt.2 hshort)

end Template

end Phrasebook
