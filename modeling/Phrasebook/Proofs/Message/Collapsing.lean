-- SUMMARY: Extraction that collapses blanks is plain extraction of markup whose blanks are collapsed.
import Phrasebook.Proofs.Message.Outcome
import Phrasebook.Proofs.Text.Collapse

/-!
# Collapsing while extracting

Extraction collapses blanks as it writes, by a look at the template written so far. Behind an
element or an expression the template never ends in a space, so every run of texts collapses by
itself (`Content.Run.print_collapsed`), and the edges are single spaces already
(`Content.shrinkEdges_split_print`). Collapsing while extracting is therefore the same as collapsing
the texts of the markup first (`Element.collapsed`) and extracting then, and layout has no part in
the message (`extract_collapsed`).
-/
namespace Phrasebook

open Markup Template
open Text (isBlank)

/-! ## Markup with collapsed texts -/

namespace Markup

/-- The text of a run of adjacent texts, if there was any. -/
def Node.collapsedRun : Option (List Char) → List Node
  | none => []
  | some run => [.text (String.ofList (Text.collapse run)) none]

mutual
/-- What stands inside a node, collapsed unless the node keeps its blanks. -/
def Node.collapsedInside (options : ExtractionOptions) : Node → List Node
  | .text .. => []
  | .expression _ => []
  | .element tag children =>
    if options.preserves tag then children else collapsedAll options none children
/-- The nodes behind the texts `run`, with adjacent texts taken together and their blanks
collapsed. -/
def Node.collapsedAll (options : ExtractionOptions) (run : Option (List Char)) :
    List Node → List Node
  | [] => collapsedRun run
  | node :: nodes =>
    let inside := node.collapsedInside options
    match node with
    | .text value _ => collapsedAll options (some (run.getD [] ++ value.toList)) nodes
    | .expression slot => collapsedRun run ++ .expression slot :: collapsedAll options none nodes
    | .element tag _ => collapsedRun run ++ .element tag inside :: collapsedAll options none nodes
end

/-- The element with the blanks in it collapsed, but for those inside elements that keep them. -/
def Element.collapsed (options : ExtractionOptions) (root : Element) : Element :=
  if options.preserves root.tag then root
  else { root with children := Node.collapsedAll options none root.children }

variable {options : ExtractionOptions} {run : Option (List Char)} {nodes : List Node}

@[simp] theorem Node.collapsedAll_nil :
    collapsedAll options run [] = collapsedRun run := rfl

@[simp] theorem Node.collapsedAll_text (value : String) (line : Line) :
    collapsedAll options run (.text value line :: nodes) =
      collapsedAll options (some (run.getD [] ++ value.toList)) nodes := rfl

@[simp] theorem Node.collapsedAll_expression (slot : ExpressionSlot) :
    collapsedAll options run (.expression slot :: nodes) =
      collapsedRun run ++ .expression slot :: collapsedAll options none nodes := rfl

@[simp] theorem Node.collapsedAll_element (tag : Tag) (children : List Node) :
    collapsedAll options run (.element tag children :: nodes) =
      collapsedRun run ++
        .element tag (if options.preserves tag then children
          else collapsedAll options none children) :: collapsedAll options none nodes := rfl

/-! ## Elements and expressions stay -/

theorem Node.elementsAll_collapsedRun (run : Option (List Char)) (nodes : List Node) :
    elementsAll (collapsedRun run ++ nodes) = elementsAll nodes := by
  cases run <;> rfl

theorem Node.slotsAll_collapsedRun (run : Option (List Char)) (nodes : List Node) :
    slotsAll (collapsedRun run ++ nodes) = slotsAll nodes := by
  cases run <;> rfl

theorem Node.elementsAll_collapsedAll (options : ExtractionOptions) (run : Option (List Char))
    (nodes : List Node) :
    (elementsAll (collapsedAll options run nodes)).map Element.stripped =
      (elementsAll nodes).map Element.stripped := by
  induction nodes using Node.inductionAll generalizing run with
  | nil => cases run <;> rfl
  | text value line nodes ih => exact ih _
  | expression slot nodes ih =>
    rw [collapsedAll_expression, elementsAll_collapsedRun]
    exact ih none
  | element tag children nodes ihChildren ih =>
    rw [collapsedAll_element, elementsAll_collapsedRun]
    simp only [elementsAll, elements, List.map_append, List.map_cons, ih none]
    split
    · rfl
    · rw [ihChildren none]
      rfl

theorem Node.slotsAll_collapsedAll (options : ExtractionOptions) (run : Option (List Char))
    (nodes : List Node) : slotsAll (collapsedAll options run nodes) = slotsAll nodes := by
  induction nodes using Node.inductionAll generalizing run with
  | nil => cases run <;> rfl
  | text value line nodes ih => exact ih _
  | expression slot nodes ih =>
    rw [collapsedAll_expression, slotsAll_collapsedRun, slotsAll, ih none, slotsAll]
  | element tag children nodes ihChildren ih =>
    rw [collapsedAll_element, slotsAll_collapsedRun, slotsAll, ih none, slotsAll, slots, slots]
    split
    · rfl
    · rw [ihChildren none]

end Markup

/-! ## Writing collapsed text -/

/-- Text collapses as it is written or before. -/
theorem Template.written_squeeze (spaced spaced' : Bool) (cs : List Char) :
    written false spaced' (Text.squeeze spaced cs) = written true spaced cs := by
  induction cs generalizing spaced spaced' with
  | nil => rfl
  | cons c cs ih =>
    by_cases hc : isBlank c = true
    · rw [Text.squeeze_blank hc, written_blank hc]
      cases spaced with
      | true => exact ih true spaced'
      | false =>
        have hspace : written false spaced' (' ' :: Text.squeeze true cs) =
            ' ' :: written false false (Text.squeeze true cs) := written_cons rfl
        simp only [Bool.false_eq_true, if_false, hspace, ih true false]
    · -- what follows completes the same references, since it is written alike
      have hname : nameAt (Text.squeeze false cs) = nameAt cs := by
        have h := congrArg nameAt (ih false false)
        rwa [← List.append_nil (written false _ _), ← List.append_nil (written true _ _),
          nameAt_written .nil, nameAt_written .nil] at h
      rw [Text.squeeze_cons (by simpa using hc), written_cons rfl, written_cons (by simp [hc]),
        hname, ih false false]

theorem Template.written_collapse (spaced : Bool) (cs : List Char) :
    written false spaced (Text.collapse cs) = written true false cs := by
  rw [Text.collapse_eq_squeeze, written_squeeze]

namespace Content

variable {options : ExtractionOptions} {collapse : Bool} {names : List String}

/-! ## The template of collapsed markup -/

/-- The run with its texts collapsed. -/
def Run.collapsed (run : Run) : Run where
  parts := run.parts.map fun part => (Text.collapse part.1, part.2)
  rest  := Text.collapse run.rest

theorem Run.print_collapsed (run : Run) :
    run.collapsed.print false names = run.print true names := by
  simp only [print, collapsed, List.flatMap_map, written_collapse]

/-- A template is told where to collapse blanks, and does not ask the options. -/
@[simp] theorem print_normalize (normalize : Bool) (content : Content) (collapse : Bool) :
    content.print { options with normalize } collapse names =
      content.print options collapse names := by
  have hpreserves : ({ options with normalize } : ExtractionOptions).preserves =
      options.preserves := rfl
  exact print_congr hpreserves content collapse fun _ _ => rfl

/-- A run that ends is taken up as one collapsed text. -/
theorem ofNodes_collapsedRun (k j : Nat) (parts : List (List Char × Nat))
    (run : Option (List Char)) (nodes : List Node) :
    ofNodes k j ({ parts } : Run).collapsed (Node.collapsedRun run ++ nodes) =
      ofNodes k j ({ parts, rest := run.getD [] } : Run).collapsed nodes := by
  cases run with
  | none => rfl
  | some run =>
    rw [Node.collapsedRun, List.singleton_append, ofNodes_text, String.toList_ofList]
    rfl

theorem Run.collapsed_addExpression (run : Run) (j : Nat) :
    run.collapsed.addExpression j = (run.addExpression j).collapsed := by
  simp only [Run.collapsed, addExpression, List.map_append, List.map_singleton]
  rfl

/-- Collapsed nodes have the plain template that the nodes have with blanks collapsed. -/
theorem print_collapsedAll (options : ExtractionOptions) (nodes : List Node) (k j : Nat)
    (parts : List (List Char × Nat)) (run : Option (List Char)) :
    (ofNodes k j ({ parts } : Run).collapsed (Node.collapsedAll options run nodes)).print options
        false names =
      (ofNodes k j { parts, rest := run.getD [] } nodes).print options true names := by
  induction nodes using Node.inductionAll generalizing k j parts run with
  | nil =>
    rw [Node.collapsedAll_nil, ← List.append_nil (Node.collapsedRun run), ofNodes_collapsedRun]
    exact Run.print_collapsed _
  | text value line nodes ih => exact ih k j parts _
  | expression slot nodes ih =>
    rw [Node.collapsedAll_expression, ofNodes_collapsedRun, ofNodes_expression,
      Run.collapsed_addExpression, ofNodes_expression]
    exact ih k (j + 1) _ none
  | element tag children nodes ihChildren ih =>
    have hempty : ({} : Run).collapsed = {} := rfl
    have hafter := fun k j => ih k j [] none
    have hinner := fun k j => ihChildren k j [] none
    rw [hempty] at hafter hinner
    -- the elements and expressions inside are as many as before
    have helements : (Node.elementsAll (Node.collapsedAll options none children)).length =
        (Node.elementsAll children).length := by
      simpa using congrArg List.length (Node.elementsAll_collapsedAll options none children)
    have hslots : (Node.slotsAll (Node.collapsedAll options none children)).length =
        (Node.slotsAll children).length := by
      rw [Node.slotsAll_collapsedAll]
    rw [Node.collapsedAll_element, ofNodes_collapsedRun]
    cases hpreserves : options.preserves tag with
    | true =>
      simp only [if_true, ofNodes_element, print, Run.print_collapsed, hpreserves, Bool.not_true,
        Bool.and_false, hafter]
      rfl
    | false =>
      simp only [Bool.false_eq_true, if_false, ofNodes_element, print, Run.print_collapsed,
        hpreserves, Bool.not_false, Bool.false_and, Bool.and_self, helements, hslots, hafter,
        hinner]
      rfl

/-! ## Runs that collapse alike -/

theorem Run.collapsed_addText {run run' : Run} (h : run.collapsed = run'.collapsed)
    (cs : List Char) : (run.addText cs).collapsed = (run'.addText cs).collapsed := by
  obtain ⟨hparts, hrest⟩ := Run.mk.inj h
  simp only [Run.collapsed, addText, Run.mk.injEq]
  exact ⟨hparts, Text.collapse_append_congr hrest cs⟩

/-- Nodes behind runs that collapse alike have one template. -/
theorem print_ofNodes_congr {run run' : Run} (h : run.collapsed = run'.collapsed) (k j : Nat)
    (nodes : List Node) :
    (ofNodes k j run nodes).print options true names =
      (ofNodes k j run' nodes).print options true names := by
  have hprint : run.print true names = run'.print true names := by
    rw [← run.print_collapsed, h, run'.print_collapsed]
  induction nodes using Node.inductionAll generalizing j run run' with
  | nil => exact hprint
  | text value line nodes ih =>
    have htext := Run.collapsed_addText h value.toList
    refine ih htext _ ?_
    rw [← Run.print_collapsed, htext, Run.print_collapsed]
  | expression slot nodes ih =>
    have hslot : (run.addExpression j).collapsed = (run'.addExpression j).collapsed := by
      rw [← Run.collapsed_addExpression, h, Run.collapsed_addExpression]
    refine ih hslot _ ?_
    rw [← Run.print_collapsed, hslot, Run.print_collapsed]
  | element tag children nodes ihChildren ih => simp only [ofNodes_element, print, hprint]

end Content

/-! ## Markup in another layout -/

namespace Markup

/-- Nodes in another layout: texts cut into adjacent texts elsewhere, and where blanks collapse,
runs of blanks that are other runs of blanks. -/
inductive Node.Respaced (options : ExtractionOptions) : Bool → List Node → List Node → Prop where
  | refl (collapse : Bool) (nodes : List Node) : Respaced options collapse nodes nodes
  | symm {collapse : Bool} {nodes nodes' : List Node} (h : Respaced options collapse nodes nodes') :
      Respaced options collapse nodes' nodes
  | trans {collapse : Bool} {nodes nodes' nodes'' : List Node}
      (h : Respaced options collapse nodes nodes') (h' : Respaced options collapse nodes' nodes'') :
      Respaced options collapse nodes nodes''
  | blanks (front blanks blanks' back : List Char) (line line' : Line) (nodes : List Node)
      (hne : blanks ≠ []) (hblanks : ∀ b ∈ blanks, isBlank b = true) (hne' : blanks' ≠ [])
      (hblanks' : ∀ b ∈ blanks', isBlank b = true) :
      Respaced options true (.text (String.ofList (front ++ blanks ++ back)) line :: nodes)
        (.text (String.ofList (front ++ blanks' ++ back)) line' :: nodes)
  | cut (collapse : Bool) (front back : String) (line line' line'' : Line) (nodes : List Node) :
      Respaced options collapse (.text (front ++ back) line :: nodes)
        (.text front line' :: .text back line'' :: nodes)
  | empty (collapse : Bool) (line : Line) (nodes : List Node) :
      Respaced options collapse (.text "" line :: nodes) nodes
  | behind {collapse : Bool} {nodes nodes' : List Node} (node : Node)
      (h : Respaced options collapse nodes nodes') :
      Respaced options collapse (node :: nodes) (node :: nodes')
  | inside {collapse : Bool} {children children' : List Node} (tag : Tag) (nodes : List Node)
      (h : Respaced options (collapse && !options.preserves tag) children children') :
      Respaced options collapse (.element tag children :: nodes) (.element tag children' :: nodes)

/-- Elements of one tag whose nodes differ in layout. -/
def Element.Respaced (options : ExtractionOptions) (root other : Element) : Prop :=
  root.tag = other.tag ∧
    Node.Respaced options (!options.preserves root.tag) root.children other.children

/-- Nodes of which extraction makes the same. -/
structure Node.Alike (options : ExtractionOptions) (collapse : Bool) (nodes nodes' : List Node) :
    Prop where
  print    : ∀ names k j run, (Content.ofNodes k j run nodes).print options collapse names =
    (Content.ofNodes k j run nodes').print options collapse names
  elements : (elementsAll nodes).map Element.stripped = (elementsAll nodes').map Element.stripped
  slots    : slotsAll nodes = slotsAll nodes'

theorem Node.Alike.length_elements {options : ExtractionOptions} {collapse : Bool}
    {nodes nodes' : List Node} (h : Alike options collapse nodes nodes') :
    (elementsAll nodes).length = (elementsAll nodes').length := by
  simpa using congrArg List.length h.elements

/-- Layout has no part in what extraction makes of nodes. -/
theorem Node.Respaced.alike {options : ExtractionOptions} {collapse : Bool}
    {nodes nodes' : List Node} (h : Respaced options collapse nodes nodes') :
    Alike options collapse nodes nodes' := by
  induction h with
  | refl collapse nodes => exact ⟨fun _ _ _ _ => rfl, rfl, rfl⟩
  | symm h ih => exact ⟨fun names k j run => (ih.print names k j run).symm, ih.elements.symm,
      ih.slots.symm⟩
  | trans h h' ih ih' =>
    exact ⟨fun names k j run => (ih.print names k j run).trans (ih'.print names k j run),
      ih.elements.trans ih'.elements, ih.slots.trans ih'.slots⟩
  | blanks front blanks blanks' back line line' nodes hne hblanks hne' hblanks' =>
    refine ⟨fun names k j run => Content.print_ofNodes_congr ?_ k j nodes, rfl, rfl⟩
    have hcollapse := Text.collapse_append_congr
      (Text.collapse_blanks (run.rest ++ front) hne hblanks hne' hblanks') back
    simpa [Content.Run.collapsed, Content.Run.addText] using hcollapse
  | cut collapse front back line line' line'' nodes =>
    exact ⟨fun names k j run => by simp [Content.Run.addText], rfl, rfl⟩
  | empty collapse line nodes =>
    exact ⟨fun names k j run => by simp [Content.Run.addText], rfl, rfl⟩
  | behind node h ih =>
    refine ⟨fun names k j run => ?_, ?_, ?_⟩
    · cases node with
      | text value line => exact ih.print names k j _
      | expression slot => exact ih.print names k (j + 1) _
      | element tag children =>
        simp only [Content.ofNodes_element, Content.print, ih.print]
    · simp only [elementsAll, List.map_append, ih.elements]
    · simp only [slotsAll, ih.slots]
  | inside tag nodes h ih =>
    refine ⟨fun names k j run => ?_, ?_, ?_⟩
    · simp only [Content.ofNodes_element, Content.print, ih.print, ih.length_elements, ih.slots]
    · simp only [elementsAll, elements, List.map_append, List.map_cons, ih.elements]
      rfl
    · simp only [slotsAll, slots, ih.slots]

end Markup

/-! ## Extraction -/

/-- Elements with one template, the same elements and the same expressions are extracted alike. -/
theorem extract_congr {root other : Element} {names : List String}
    {options options' : ExtractionOptions} (hunused : options.allowUnused = options'.allowUnused)
    (hslots : Node.slotsAll root.children = Node.slotsAll other.children)
    (hmessage : root.message names options = other.message names options') :
    extract root names options = extract other names options' := by
  rw [extract_eq, extract_eq, hunused, hslots, hmessage]

/-- The message of an element with blanks collapsed is the plain message of the collapsed element. -/
theorem Markup.Element.message_collapsed (root : Element) (names : List String)
    (options : ExtractionOptions) :
    root.message names { options with normalize := true } =
      (root.collapsed options).message names { options with normalize := false } := by
  have hcollapses : ({ options with normalize := true } : ExtractionOptions).collapses root =
      !options.preserves root.tag := rfl
  have hplain (other : Element) :
      ({ options with normalize := false } : ExtractionOptions).collapses other = false := rfl
  simp only [message, hcollapses, hplain, Content.print_normalize, collapsed]
  cases options.preserves root.tag with
  | true => rfl
  | false =>
    have hprint : root.content.print options true names =
        (content ⟨root.tag, Node.collapsedAll options none root.children⟩).print options false
          names :=
      (Content.print_collapsedAll options root.children 0 0 [] none).symm
    have hedges := root.content.shrinkEdges_split_print options names
    rw [hprint] at hedges
    simp only [Bool.not_false, Bool.false_eq_true, if_false, if_true, hprint, hedges,
      Node.elementsAll_collapsedAll, Node.slotsAll_collapsedAll]

/-- Elements that differ in layout only have one message. -/
theorem Markup.Element.Respaced.message_eq {root other : Element} {options : ExtractionOptions}
    (h : root.Respaced options other) (names : List String) :
    root.message names { options with normalize := true } =
      other.message names { options with normalize := true } := by
  obtain ⟨htag, hnodes⟩ := h
  have halike := hnodes.alike
  have hcollapses (element : Element) :
      ({ options with normalize := true } : ExtractionOptions).collapses element =
        !options.preserves element.tag := rfl
  have hprint : root.content.print options (!options.preserves root.tag) names =
      other.content.print options (!options.preserves root.tag) names :=
    halike.print names 0 0 {}
  simp only [message, hcollapses, Content.print_normalize, ← htag, hprint, halike.elements,
    halike.slots]

/-- Extraction that collapses blanks is plain extraction of the collapsed element, and elements
that differ in layout only have one message. -/
theorem extract_collapsed (root : Element) (names : List String) (options : ExtractionOptions) :
    extract root names { options with normalize := true } =
        extract (root.collapsed options) names { options with normalize := false } ∧
      ∀ other, root.Respaced options other →
        extract root names { options with normalize := true } =
          extract other names { options with normalize := true } := by
  constructor
  · refine extract_congr rfl ?_ (root.message_collapsed names options)
    rw [Element.collapsed]
    split
    · rfl
    · exact (Node.slotsAll_collapsedAll options none root.children).symm
  · intro other h
    exact extract_congr rfl h.2.alike.slots (h.message_eq names)

/-- A paragraph whose texts are laid out over two lines and around emphasis, as parsed. -/
def wrapped : Element where
  tag := { name := "p" }
  children := [.text "a\n" none, .text "\t" none, .element { name := "b" } [.text " c  d" none]]

/-- The same paragraph on one line. -/
def unwrapped : Element where
  tag := { name := "p" }
  children := [.text "a " none, .element { name := "b" } [.text " c d" none]]

/-- Both layouts of the paragraph are extracted to one message. -/
theorem extract_wrapped :
    wrapped.Respaced {} unwrapped ∧
      extract wrapped [] { normalize := true } = extract unwrapped [] { normalize := true } := by
  have hlayout : wrapped.Respaced {} unwrapped := by
    refine ⟨rfl, .trans (.symm (.cut _ "a\n" "\t" none none none _)) ?_⟩
    refine .trans (.blanks ['a'] ['\n', '\t'] [' '] [] none none _ (by simp)
      (List.all_eq_true.1 rfl) (by simp) (List.all_eq_true.1 rfl)) (.behind _ (.inside _ _ ?_))
    exact .blanks [' ', 'c'] [' ', ' '] [' '] ['d'] none none _ (by simp)
      (List.all_eq_true.1 rfl) (by simp) (List.all_eq_true.1 rfl)
  exact ⟨hlayout, (extract_collapsed wrapped [] {}).2 unwrapped hlayout⟩

end Phrasebook
