-- SUMMARY: What stands inside an element, as a message sees it: runs of text and numbered elements.
import Phrasebook.Proofs.Message.Writing
import Phrasebook.Proofs.Template.Grammar

/-!
# Content

A message does not see nodes. It sees runs, in which adjacent texts and expressions have grown
together, and elements between them; expressions and elements are numbered in document order.
`Content.ofNodes` is this view of a list of nodes, `Content.print` is its template and
`Content.nodes` what is shown for it. The template derives the pieces of the content in the grammar
(`Content.derives`); its brackets are the outline of the elements (`Content.brackets_pieces`) and
its references those to the expressions (`Content.references_pieces`).
-/
namespace Phrasebook

open Markup Template

/-! ## Descendants -/

namespace Markup

/-- What holds of no nodes and of a node of any kind in front of nodes holds of all nodes; for an
element it may be assumed of what stands inside. -/
@[elab_as_elim]
theorem Node.inductionAll {motive : List Node → Prop} (nil : motive [])
    (text : ∀ value line nodes, motive nodes → motive (.text value line :: nodes))
    (expression : ∀ slot nodes, motive nodes → motive (.expression slot :: nodes))
    (element : ∀ tag children nodes, motive children → motive nodes →
      motive (.element tag children :: nodes)) :
    ∀ nodes, motive nodes
  | [] => nil
  | .text value line :: nodes =>
    text value line nodes (inductionAll nil text expression element nodes)
  | .expression slot :: nodes =>
    expression slot nodes (inductionAll nil text expression element nodes)
  | .element tag children :: nodes =>
    element tag children nodes (inductionAll nil text expression element children)
      (inductionAll nil text expression element nodes)

mutual
/-- The element that a node is and the elements inside it, in document order. -/
def Node.elements : Node → List Element
  | .text .. => []
  | .expression _ => []
  | .element tag children => ⟨tag, children⟩ :: Node.elementsAll children
def Node.elementsAll : List Node → List Element
  | [] => []
  | node :: nodes => node.elements ++ Node.elementsAll nodes
end

mutual
/-- The expressions in a node, in document order. -/
def Node.slots : Node → List ExpressionSlot
  | .text .. => []
  | .expression slot => [slot]
  | .element _ children => Node.slotsAll children
def Node.slotsAll : List Node → List ExpressionSlot
  | [] => []
  | node :: nodes => node.slots ++ Node.slotsAll nodes
end

mutual
/-- How deep elements nest in a node. -/
def Node.depth : Node → Nat
  | .text .. => 0
  | .expression _ => 0
  | .element _ children => Node.depthAll children + 1
def Node.depthAll : List Node → Nat
  | [] => 0
  | node :: nodes => max node.depth (Node.depthAll nodes)
end

mutual
/-- The elements in a node as slots without text, numbered in document order behind `k`. -/
def Node.outline (k : Nat) : Node → List Piece
  | .text .. => []
  | .expression _ => []
  | .element _ children => [.slot (k + 1) (Node.outlineAll (k + 1) children)]
def Node.outlineAll (k : Nat) : List Node → List Piece
  | [] => []
  | node :: nodes => node.outline k ++ Node.outlineAll (k + node.elements.length) nodes
end

/-- Document order numbers the elements one after the other. -/
theorem Node.indicesAll_outlineAll (nodes : List Node) (k : Nat) :
    Piece.indicesAll (outlineAll k nodes) = List.range' (k + 1) (elementsAll nodes).length := by
  induction nodes using Node.inductionAll generalizing k with
  | nil => rfl
  | text value line nodes ih => exact ih k
  | expression slot nodes ih => exact ih k
  | element tag children nodes ihChildren ih =>
    have hrange (m n : Nat) : List.range' (k + 1) (m + 1 + n) =
        (k + 1) :: (List.range' (k + 1 + 1) m ++ List.range' (k + (m + 1) + 1) n) := by
      rw [← List.range'_append_1, List.range'_succ, Nat.add_right_comm k 1 (m + 1),
        List.cons_append]
    simp only [outlineAll, outline, elementsAll, elements, Piece.indicesAll_append,
      Piece.indicesAll, Piece.indices, ihChildren, ih, List.length_append, List.length_cons, hrange]
    simp

theorem Node.depthAll_outlineAll (nodes : List Node) (k : Nat) :
    Piece.depthAll (outlineAll k nodes) = depthAll nodes := by
  induction nodes using Node.inductionAll generalizing k with
  | nil => rfl
  | text value line nodes ih => simpa [outlineAll, outline, depthAll, depth] using ih _
  | expression slot nodes ih => simpa [outlineAll, outline, depthAll, depth] using ih _
  | element tag children nodes ihChildren ih =>
    simp [outlineAll, outline, depthAll, depth, Piece.depthAll, Piece.depth, ihChildren, ih]

end Markup

/-! ## Runs and content -/

/-- What stands between two elements. -/
structure Content.Run where
  /-- Texts, each in front of the expression of a number. -/
  parts : List (List Char × Nat) := []
  /-- The text behind the last expression. -/
  rest  : List Char := []

/-- What stands inside an element. -/
inductive Content where
  /-- A run and no element behind it. -/
  | last (run : Content.Run)
  /-- A run, the element of a number with what stands inside it, and what stands behind it. -/
  | element (before : Content.Run) (index : Nat) (tag : Tag) (inner after : Content)

namespace Content

def Run.addText (run : Run) (cs : List Char) : Run := { run with rest := run.rest ++ cs }

def Run.addExpression (run : Run) (position : Nat) : Run :=
  { parts := run.parts ++ [(run.rest, position)] }

mutual
/-- What stands inside a node, where `k` elements and `j` expressions come before. -/
def inside (k j : Nat) : Node → Content
  | .text .. => .last {}
  | .expression _ => .last {}
  | .element _ children => ofNodes (k + 1) j {} children
/-- The content that nodes make behind the run `before`. -/
def ofNodes (k j : Nat) (before : Run) : List Node → Content
  | [] => .last before
  | node :: nodes =>
    let after before := ofNodes (k + node.elements.length) (j + node.slots.length) before nodes
    let inner := inside k j node
    match node with
    | .text value _ => after (before.addText value.toList)
    | .expression _ => after (before.addExpression j)
    | .element tag _ => .element before (k + 1) tag inner (after {})
end

@[simp] theorem ofNodes_nil (k j : Nat) (before : Run) : ofNodes k j before [] = .last before := rfl

@[simp] theorem ofNodes_text (k j : Nat) (before : Run) (value : String) (line : Line)
    (nodes : List Node) :
    ofNodes k j before (.text value line :: nodes) =
      ofNodes k j (before.addText value.toList) nodes := rfl

@[simp] theorem ofNodes_expression (k j : Nat) (before : Run) (slot : ExpressionSlot)
    (nodes : List Node) :
    ofNodes k j before (.expression slot :: nodes) =
      ofNodes k (j + 1) (before.addExpression j) nodes := rfl

@[simp] theorem ofNodes_element (k j : Nat) (before : Run) (tag : Tag)
    (children nodes : List Node) :
    ofNodes k j before (.element tag children :: nodes) =
      .element before (k + 1) tag (ofNodes (k + 1) j {} children)
        (ofNodes (k + ((Node.elementsAll children).length + 1))
          (j + (Node.slotsAll children).length) {} nodes) := rfl

/-! ## Reading content -/

/-- The elements of the content as slots without text. -/
def outline : Content → List Piece
  | .last _ => []
  | .element _ index _ inner after => .slot index inner.outline :: after.outline

/-- The numbers of the expressions in the run. -/
def Run.positions (run : Run) : List Nat := run.parts.map (·.2)

/-- The numbers of the expressions in the content. -/
def positions : Content → List Nat
  | .last run => run.positions
  | .element before _ _ inner after => before.positions ++ (inner.positions ++ after.positions)

/-- The slot of every element's number is the element, stripped. -/
def Slotted (slots : List Element) : Content → Prop
  | .last _ => True
  | .element _ index tag inner after =>
    slots[index]? = some tag.toElement ∧ inner.Slotted slots ∧ after.Slotted slots

/-- What is shown for a run, where `values` are the values of the expressions. -/
def Run.show (values : List String) (run : Run) : List Char :=
  run.parts.flatMap (fun part => part.1 ++ (values[part.2]?.getD "").toList) ++ run.rest

/-- There is nothing in the run, not even an expression. -/
def Run.isEmpty (run : Run) : Bool := run.parts.isEmpty && run.rest.isEmpty

/-- A run is shown as one text, and not at all if it is empty. -/
def Run.nodes (values : List String) (run : Run) : List Node :=
  if run.isEmpty then [] else [.text (String.ofList (run.show values)) none]

/-- The nodes shown for the content. -/
def nodes (values : List String) : Content → List Node
  | .last run => run.nodes values
  | .element before _ tag inner after =>
    before.nodes values ++ .element tag (inner.nodes values) :: after.nodes values

/-- The template of a run, where `names` are the names of the expressions. -/
def Run.print (collapse : Bool) (names : List String) (run : Run) : List Char :=
  run.parts.flatMap (fun part =>
      written collapse false part.1 ++ reference (names[part.2]?.getD "").toList) ++
    written collapse false run.rest

/-- The template of the content. -/
def print (options : ExtractionOptions) (collapse : Bool) (names : List String) :
    Content → List Char
  | .last run => run.print collapse names
  | .element before index tag inner after =>
    before.print collapse names ++
      ('[' :: (toString index).toList ++ ':' ::
          inner.print options (collapse && !options.preserves tag) names ++
        ']' :: after.print options collapse names)

/-- The pieces of a run. -/
def Run.pieces (collapse : Bool) (names : List String) (run : Run) : List Piece :=
  if run.isEmpty then [] else [.text (String.ofList (run.print collapse names))]

/-- The pieces of the template. -/
def pieces (options : ExtractionOptions) (collapse : Bool) (names : List String) :
    Content → List Piece
  | .last run => run.pieces collapse names
  | .element before index tag inner after =>
    before.pieces collapse names ++
      .slot index (inner.pieces options (collapse && !options.preserves tag) names) ::
        after.pieces options collapse names

/-! ## The content of nodes -/

theorem outline_ofNodes (nodes : List Node) (k j : Nat) (before : Run) :
    (ofNodes k j before nodes).outline = Node.outlineAll k nodes := by
  induction nodes using Node.inductionAll generalizing k j before with
  | nil => rfl
  | text value line nodes ih => exact ih k j _
  | expression slot nodes ih => exact ih k (j + 1) _
  | element tag children nodes ihChildren ih =>
    simp [outline, Node.outlineAll, Node.outline, Node.elements, ihChildren, ih]

theorem positions_ofNodes (nodes : List Node) (k j : Nat) (before : Run) :
    (ofNodes k j before nodes).positions =
      before.positions ++ List.range' j (Node.slotsAll nodes).length := by
  induction nodes using Node.inductionAll generalizing k j before with
  | nil => simp [positions, Node.slotsAll]
  | text value line nodes ih =>
    simp [ih, Run.positions, Run.addText, Node.slotsAll, Node.slots]
  | expression slot nodes ih =>
    simp [ih, Run.positions, Run.addExpression, Node.slotsAll, Node.slots, List.range'_succ]
  | element tag children nodes ihChildren ih =>
    simp [positions, ihChildren, ih, Run.positions, Node.slotsAll, Node.slots,
      List.range'_append_1]

theorem slotted_ofNodes {nodes : List Node} {k : Nat} (j : Nat) (before : Run)
    (front back : List Element) (hfront : front.length = k + 1) :
    (ofNodes k j before nodes).Slotted
      (front ++ (Node.elementsAll nodes).map Element.stripped ++ back) := by
  induction nodes using Node.inductionAll generalizing k j before front back with
  | nil => exact trivial
  | text value line nodes ih => exact ih j _ front back hfront
  | expression slot nodes ih => exact ih (j + 1) _ front back hfront
  | element tag children nodes ihChildren ih =>
    have hinner := ihChildren (k := k + 1) j {} (front ++ [tag.toElement])
      ((Node.elementsAll nodes).map Element.stripped ++ back) (by simp [hfront])
    have hafter := ih (k := k + ((Node.elementsAll children).length + 1))
      (j + (Node.slotsAll children).length) {}
      (front ++ tag.toElement :: (Node.elementsAll children).map Element.stripped) back
      (by simp [hfront]; omega)
    have hstripped : (⟨tag, children⟩ : Element).stripped = tag.toElement := rfl
    simp only [ofNodes_element, Slotted, Node.elementsAll, Node.elements, List.map_append,
      List.map_cons, hstripped]
    refine ⟨by simp [← hfront], by simpa using hinner, by simpa using hafter⟩

/-! ## The template in the grammar -/

section Grammar

variable {options : ExtractionOptions} (collapse : Bool) {names : List String}

theorem Run.print_eq_nil (run : Run) (h : run.isEmpty = true) : run.print collapse names = [] := by
  obtain ⟨_ | ⟨part, parts⟩, _ | ⟨c, rest⟩⟩ := run <;> simp [isEmpty] at h
  rfl

theorem Run.print_ne_nil (run : Run) (h : run.isEmpty = false) :
    run.print collapse names ≠ [] := by
  obtain ⟨_ | ⟨part, parts⟩, _ | ⟨c, rest⟩⟩ := run
  · simp [isEmpty] at h
  · by_cases hc : (collapse && Text.isBlank c) = true
    · obtain ⟨rfl, hblank⟩ := Bool.and_eq_true_iff.1 hc
      simp [print, written_blank hblank]
    · simp only [print, written_cons (by simpa using hc)]
      split <;> simp
  · simp [print, reference]
  · simp [print, reference]

/-- Names, as far as there are names, hold characters of names only. -/
theorem isNameChar_of_mem_name (hnames : ∀ name ∈ names, isName name.toList = true) (j : Nat) :
    ∀ c ∈ (names[j]?.getD "").toList, isNameChar c = true := by
  cases hj : names[j]? with
  | none => simp
  | some name => exact isNameChar_of_isName (hnames name (List.mem_of_getElem? hj))

theorem Run.runText (hnames : ∀ name ∈ names, isName name.toList = true) (run : Run) :
    RunText (run.print collapse names) := by
  obtain ⟨parts, rest⟩ := run
  refine RunText.append ?_ (RunText.written _ _ _)
  induction parts with
  | nil => exact .nil
  | cons part parts ih =>
    have hreference := RunText.reference (isNameChar_of_mem_name hnames part.2)
    exact ((RunText.written _ _ _).append hreference).append ih

/-- A run in front of a bracket, or at the end, is derived as one text. -/
theorem Run.derives (hnames : ∀ name ∈ names, isName name.toList = true) (run : Run)
    {cs : List Char} {ps : List Piece} (hstops : Stops cs) (h : Derives cs ps) :
    Derives (run.print collapse names ++ cs) (run.pieces collapse names ++ ps) := by
  cases hempty : run.isEmpty with
  | true => simpa [pieces, hempty, run.print_eq_nil collapse hempty] using h
  | false =>
    have hne : run.print collapse names ≠ [] := run.print_ne_nil collapse hempty
    simpa [pieces, hempty] using .run (run.runText collapse hnames) hne hstops h

/-- The grammar derives the pieces of the content from its template. -/
theorem derives (hnames : ∀ name ∈ names, isName name.toList = true) (content : Content)
    (hindices : ∀ i ∈ Piece.indicesAll content.outline, i ≠ rootIndex ∧ i ≤ Text.Numeral.nat64Max) :
    Derives (content.print options collapse names) (content.pieces options collapse names) := by
  induction content generalizing collapse with
  | last run => simpa [print, pieces] using run.derives collapse hnames .nil .nil
  | element before index tag inner after ihInner ihAfter =>
    simp only [outline, Piece.indicesAll, Piece.indices, List.cons_append, List.forall_mem_cons,
      List.forall_mem_append] at hindices
    obtain ⟨⟨hroot, hindex⟩, hinner, hafter⟩ := hindices
    have hslot := Derives.slot (Text.Numeral.isNumeral_toDigits index)
      (by simpa using hroot) (by simpa using hindex)
      (ihInner (collapse && !options.preserves tag) hinner) (ihAfter collapse hafter)
    simpa [print, pieces] using before.derives collapse hnames (.opening _) hslot

/-! ## The slots and texts of the template -/

@[simp] theorem Run.indicesAll_pieces (run : Run) :
    Piece.indicesAll (run.pieces collapse names) = [] := by
  unfold pieces
  split <;> rfl

@[simp] theorem Run.depthAll_pieces (run : Run) :
    Piece.depthAll (run.pieces collapse names) = 0 := by
  unfold pieces
  split <;> rfl

theorem indicesAll_pieces (content : Content) :
    Piece.indicesAll (content.pieces options collapse names) =
      Piece.indicesAll content.outline := by
  induction content generalizing collapse with
  | last run => simp [pieces, outline, Piece.indicesAll]
  | element before index tag inner after ihInner ihAfter =>
    simp [pieces, outline, Piece.indicesAll_append, Piece.indicesAll, Piece.indices, ihInner,
      ihAfter]

theorem depthAll_pieces (content : Content) :
    Piece.depthAll (content.pieces options collapse names) = Piece.depthAll content.outline := by
  induction content generalizing collapse with
  | last run => simp [pieces, outline, Piece.depthAll]
  | element before index tag inner after ihInner ihAfter =>
    simp [pieces, outline, Piece.depthAll_append, Piece.depthAll, Piece.depth, ihInner, ihAfter]

@[simp] theorem Run.brackets_pieces (run : Run) :
    (Piece.tokensAll (run.pieces collapse names)).filter Token.isBracket = [] := by
  unfold pieces
  split <;> rfl

/-- The brackets of the template are those of the outline. -/
theorem brackets_pieces (content : Content) :
    (Piece.tokensAll (content.pieces options collapse names)).filter Token.isBracket =
      Piece.tokensAll content.outline := by
  induction content generalizing collapse with
  | last run => simp [pieces, outline, Piece.tokensAll]
  | element before index tag inner after ihInner ihAfter =>
    simp [pieces, outline, Piece.tokensAll_append, Piece.tokensAll, Piece.tokens, List.filter_cons,
      Token.isBracket, ihInner, ihAfter]

/-- A run refers to its expressions by their names. -/
theorem Run.referencesIn_print (hnames : ∀ name ∈ names, isName name.toList = true) (run : Run)
    (hpositions : ∀ j ∈ run.positions, j < names.length) :
    referencesIn (run.print collapse names) = run.positions.map fun j => names[j]?.getD "" := by
  obtain ⟨parts, rest⟩ := run
  simp only [print, positions]
  induction parts with
  | nil => simpa [referencesIn] using referencesIn_written .nil rest
  | cons part parts ih =>
    obtain ⟨hpart, hparts⟩ := List.forall_mem_cons.1 hpositions
    have hname : isName (names[part.2]?.getD "").toList = true := by
      simpa [hpart] using hnames _ (List.getElem_mem hpart)
    simp only [List.flatMap_cons, List.append_assoc, List.map_cons,
      referencesIn_written (Breaks.reference _ _), referencesIn_reference hname, ih hparts]
    simp

theorem Run.references_pieces (hnames : ∀ name ∈ names, isName name.toList = true) (run : Run)
    (hpositions : ∀ j ∈ run.positions, j < names.length) :
    (Piece.tokensAll (run.pieces collapse names)).flatMap Token.references =
      run.positions.map fun j => names[j]?.getD "" := by
  rw [← run.referencesIn_print collapse hnames hpositions]
  cases hempty : run.isEmpty with
  | true => simp [pieces, hempty, run.print_eq_nil collapse hempty, Piece.tokensAll, referencesIn]
  | false => simp [pieces, hempty, Piece.tokensAll, Piece.tokens, Token.references]

/-- The template refers to the expressions by their names, each where it stands. -/
theorem references_pieces (hnames : ∀ name ∈ names, isName name.toList = true) (content : Content)
    (hpositions : ∀ j ∈ content.positions, j < names.length) :
    (Piece.tokensAll (content.pieces options collapse names)).flatMap Token.references =
      content.positions.map fun j => names[j]?.getD "" := by
  induction content generalizing collapse with
  | last run => exact run.references_pieces collapse hnames hpositions
  | element before index tag inner after ihInner ihAfter =>
    simp only [positions, List.forall_mem_append] at hpositions
    obtain ⟨hbefore, hinner, hafter⟩ := hpositions
    simp [pieces, positions, Piece.tokensAll_append, Piece.tokensAll, Piece.tokens,
      before.references_pieces collapse hnames hbefore, ihInner _ hinner, ihAfter _ hafter,
      Token.references]

end Grammar

end Content

/-- What stands inside the element. -/
def Markup.Element.content (element : Element) : Content := .ofNodes 0 0 {} element.children

end Phrasebook
