-- SUMMARY: Extracting an element that was filled from its own message gives the message again.
import Phrasebook.Proofs.Message.Collapsing
import Phrasebook.Proofs.Message.Rebuilding

/-!
# Extracting again

An element without expressions that is filled from its own message is extracted to the same message
(`extract_rendered`). What its message shows is its content, trimmed and collapsed
(`Element.shown`); the template of that is the template of the message, whether blanks collapse in
it or not (`Content.print_collapsed`, `Element.print_shown`). Filling turns this content into nodes,
and these nodes have this content again (`Content.ofNodes_nodes`).
-/
namespace Phrasebook

open Markup Template

namespace Content

variable {options : ExtractionOptions} {collapse : Bool} {names values : List String}
  {slots : List Element}

/-! ## Collapsed content -/

/-- The content with its texts collapsed where its template collapses them. -/
def collapsed (options : ExtractionOptions) (collapse : Bool) : Content → Content
  | .last run => .last (if collapse then run.collapsed else run)
  | .element before index tag inner after =>
    .element (if collapse then before.collapsed else before) index tag
      (inner.collapsed options (collapse && !options.preserves tag))
      (after.collapsed options collapse)

theorem Run.collapsed_collapsed (run : Run) : run.collapsed.collapsed = run.collapsed := by
  simp [Run.collapsed, Text.collapse_collapse]

/-- What is collapsed already is written the same, whether blanks collapse or not. -/
theorem Run.print_collapsed_congr (collapse' : Bool) (run : Run) :
    (if collapse then run.collapsed else run).print (collapse && collapse') names =
      run.print collapse names := by
  cases collapse with
  | false => rfl
  | true =>
    cases collapse' with
    | false => exact run.print_collapsed
    | true =>
      simp only [if_true, Bool.and_self]
      rw [← run.collapsed.print_collapsed, run.collapsed_collapsed, run.print_collapsed]

/-- The template of a content is that of the collapsed content, whether blanks collapse in that
or not. -/
theorem print_collapsed (collapse' : Bool) (content : Content) :
    (content.collapsed options collapse).print options (collapse && collapse') names =
      content.print options collapse names := by
  induction content generalizing collapse collapse' with
  | last run => exact run.print_collapsed_congr collapse'
  | element before index tag inner after ihInner ihAfter =>
    have hcollapse : (collapse && collapse' && !options.preserves tag) =
        (collapse && !options.preserves tag && collapse') := by
      ac_rfl
    simp only [collapsed, print, before.print_collapsed_congr, hcollapse, ihInner, ihAfter]

@[simp] theorem outline_collapsed (content : Content) :
    (content.collapsed options collapse).outline = content.outline := by
  induction content generalizing collapse with
  | last run => rfl
  | element before index tag inner after ihInner ihAfter =>
    simp only [collapsed, outline, ihInner, ihAfter]

theorem Run.positions_collapsed (run : Run) : run.collapsed.positions = run.positions := by
  simp [Run.collapsed, positions]

@[simp] theorem positions_collapsed (content : Content) :
    (content.collapsed options collapse).positions = content.positions := by
  have hrun (collapse : Bool) (run : Run) :
      (if collapse then run.collapsed else run).positions = run.positions := by
    cases collapse with
    | false => rfl
    | true => exact run.positions_collapsed
  induction content generalizing collapse with
  | last run => exact hrun collapse run
  | element before index tag inner after ihInner ihAfter =>
    simp only [collapsed, positions, hrun, ihInner, ihAfter]

@[simp] theorem slotted_collapsed (content : Content) :
    (content.collapsed options collapse).Slotted slots ↔ content.Slotted slots := by
  induction content generalizing collapse with
  | last run => rfl
  | element before index tag inner after ihInner ihAfter =>
    simp only [collapsed, Slotted, ihInner, ihAfter]

/-! ## The content of what is shown -/

theorem Run.ofNodes_nodes (run : Run) (h : run.positions = []) (k j : Nat) (nodes : List Node) :
    ofNodes k j {} (run.nodes values ++ nodes) = ofNodes k j run nodes := by
  obtain ⟨_ | ⟨part, parts⟩, rest⟩ := run
  · cases rest with
    | nil => rfl
    | cons c rest => simp [Run.nodes, Run.isEmpty, Run.show, Run.addText]
  · simp [Run.positions] at h

theorem Run.elementsAll_nodes (run : Run) (nodes : List Node) :
    Node.elementsAll (run.nodes values ++ nodes) = Node.elementsAll nodes := by
  unfold Run.nodes
  split <;> rfl

/-- What is shown has an element for each slot. -/
theorem length_elementsAll_nodes (content : Content) :
    (Node.elementsAll (content.nodes values)).length =
      (Piece.indicesAll content.outline).length := by
  induction content with
  | last run =>
    rw [nodes, ← List.append_nil (run.nodes values), run.elementsAll_nodes]
    rfl
  | element before index tag inner after ihInner ihAfter =>
    simp [nodes, before.elementsAll_nodes, Node.elementsAll, Node.elements, outline,
      Piece.indicesAll, Piece.indices, ihInner, ihAfter]

/-- Content without expressions is the content of the nodes shown for it, if its elements are
numbered in document order. -/
theorem ofNodes_nodes (content : Content) (hpositions : content.positions = []) (k j : Nat) {n : Nat}
    (hindices : Piece.indicesAll content.outline = List.range' (k + 1) n) :
    ofNodes k j {} (content.nodes values) = content := by
  induction content generalizing k j n with
  | last run =>
    rw [nodes, ← List.append_nil (run.nodes values), run.ofNodes_nodes hpositions, ofNodes_nil]
  | element before index tag inner after ihInner ihAfter =>
    simp only [positions, List.append_eq_nil_iff] at hpositions
    obtain ⟨hbefore, hinner, hafter⟩ := hpositions
    obtain ⟨rfl, -, hrest⟩ := List.range'_eq_cons_iff.1 hindices.symm
    have hrest : List.range' (k + 1 + 1) (n - 1) =
        Piece.indicesAll inner.outline ++ Piece.indicesAll after.outline := hrest.symm
    obtain ⟨m, -, hindicesInner, hindicesAfter⟩ := List.range'_eq_append_iff.1 hrest
    have hlength : (Node.elementsAll (inner.nodes values)).length = m := by
      rw [length_elementsAll_nodes, hindicesInner, List.length_range']
    rw [nodes, before.ofNodes_nodes hbefore, ofNodes_element, hlength,
      ihInner hinner (k + 1) j hindicesInner]
    have hnext : Piece.indicesAll after.outline =
        List.range' (k + (m + 1) + 1) (n - 1 - m) := by
      rw [hindicesAfter]
      congr 1
      omega
    rw [ihAfter hafter (k + (m + 1)) _ hnext]

/-- Slots that give the elements of one content agree wherever the content has an element. -/
theorem Slotted.getElem?_eq {slots' : List Element} {content : Content}
    (h : content.Slotted slots) (h' : content.Slotted slots') :
    ∀ i ∈ Piece.indicesAll content.outline, slots[i]? = slots'[i]? := by
  induction content with
  | last run => simp [outline, Piece.indicesAll]
  | element before index tag inner after ihInner ihAfter =>
    obtain ⟨hslot, hinner, hafter⟩ := h
    obtain ⟨hslot', hinner', hafter'⟩ := h'
    simp only [outline, Piece.indicesAll, Piece.indices, List.cons_append, List.forall_mem_cons,
      List.forall_mem_append]
    exact ⟨hslot.trans hslot'.symm, ihInner hinner hinner', ihAfter hafter hafter'⟩

end Content

/-! ## Extracting again -/

/-- What the template of the element shows: its content without the blanks at both ends and with
blanks collapsed where they are. -/
def Markup.Element.shown (root : Element) (options : ExtractionOptions) : Content :=
  root.content.trimmed.collapsed options (options.collapses root)

section

variable (root : Element) (options : ExtractionOptions)

theorem Markup.Element.outline_shown :
    (root.shown options).outline = Node.outlineAll 0 root.children := by
  simp [shown, root.outline_trimmed]

theorem Markup.Element.positions_shown :
    (root.shown options).positions = List.range' 0 (Node.slotsAll root.children).length := by
  simp [shown, root.positions_trimmed]

theorem Markup.Element.slotted_shown :
    (root.shown options).Slotted
      (root.stripped :: (Node.elementsAll root.children).map Element.stripped) := by
  simpa [shown, Content.trimmed] using root.slotted_content

/-- Both with blanks collapsed and without, what is shown has the template of the message. -/
theorem Markup.Element.print_shown (collapse : Bool) (names : List String) :
    (root.shown options).print options (options.collapses root && collapse) names =
      Text.trim (root.content.print options (options.collapses root) names) := by
  rw [shown, Content.print_collapsed, Content.print_trimmed]

end

/-- The element filled with what is shown has that as its content. -/
theorem Markup.Element.content_shown {root : Element} (hslots : Node.slotsAll root.children = [])
    (options : ExtractionOptions) (values : List String) :
    content ⟨root.tag, (root.shown options).nodes values⟩ = root.shown options := by
  have hpositions : (root.shown options).positions = [] := by
    rw [root.positions_shown, hslots]
    rfl
  have hindices : Piece.indicesAll (root.shown options).outline =
      List.range' (0 + 1) (Node.elementsAll root.children).length := by
    rw [root.outline_shown, Node.indicesAll_outlineAll]
  exact Content.ofNodes_nodes _ hpositions 0 0 hindices

/-- Filled with what is shown, the element has the elements that it had, but for what stands in
them. -/
theorem Markup.Element.elementsAll_shown {root : Element}
    (hslots : Node.slotsAll root.children = []) (options : ExtractionOptions)
    (values : List String) :
    (Node.elementsAll ((root.shown options).nodes values)).map Element.stripped =
      (Node.elementsAll root.children).map Element.stripped := by
  have hlength : (Node.elementsAll ((root.shown options).nodes values)).length =
      (Node.elementsAll root.children).length := by
    rw [Content.length_elementsAll_nodes, root.outline_shown, Node.indicesAll_outlineAll,
      List.length_range']
  have hshown := slotted_content ⟨root.tag, (root.shown options).nodes values⟩
  rw [content_shown hslots] at hshown
  refine List.ext_getElem? fun i => ?_
  by_cases hi : i < (Node.elementsAll root.children).length
  · have hindex : i + 1 ∈ Piece.indicesAll (root.shown options).outline := by
      rw [root.outline_shown, Node.indicesAll_outlineAll, List.mem_range'_1]
      omega
    exact hshown.getElem?_eq (root.slotted_shown options) (i + 1) hindex
  · rw [List.getElem?_eq_none_iff.2 (by simp [hlength]; omega),
      List.getElem?_eq_none_iff.2 (by simp; omega)]

theorem Markup.Element.slotsAll_shown {root : Element} (hslots : Node.slotsAll root.children = [])
    (options : ExtractionOptions) (values : List String) :
    Node.slotsAll ((root.shown options).nodes values) = [] := by
  have hcount := positions_content ⟨root.tag, (root.shown options).nodes values⟩
  rw [content_shown hslots, root.positions_shown, hslots] at hcount
  exact List.eq_nil_of_length_eq_zero (by simpa using congrArg List.length hcount.symm)

/-- The message of the element filled with what is shown. -/
theorem Markup.Element.message_shown {root : Element} (hslots : Node.slotsAll root.children = [])
    (options : ExtractionOptions) (values : List String) {format : String}
    (hformat : format.toList = Text.trim (root.content.print options (options.collapses root) [])) :
    message ⟨root.tag, (root.shown options).nodes values⟩ [] options =
      { format, leading := "", trailing := "", expressions := []
        elements := (Node.elementsAll root.children).map Element.stripped } := by
  have hcollapses : options.collapses ⟨root.tag, (root.shown options).nodes values⟩ =
      options.collapses root := rfl
  have hprint : (root.shown options).print options (options.collapses root) [] = format.toList := by
    rw [hformat, ← root.print_shown options true, Bool.and_true]
  have hshrink : (⟨"", format, ""⟩ : MessageId).shrinkEdges = ⟨"", format, ""⟩ := rfl
  simp only [message, hcollapses, content_shown hslots, hprint, String.ofList_toList,
    MessageId.split_trim hformat, hshrink, ite_self, elementsAll_shown hslots,
    slotsAll_shown hslots]

/-- An element that is filled from its own message is extracted to that message again, with nothing
left to split off at its ends. -/
theorem extract_rendered (root : Element) (options : ExtractionOptions)
    (hslots : Node.slotsAll root.children = []) :
    ∃ x, extract root [] options = .ok x ∧
      ∀ tree, parse x.format = .ok tree → ∀ resolve, ∃ rendered,
        renderTemplate x.format (root.stripped :: x.elements) resolve = .ok rendered ∧
        extract rendered [] options = .ok { x with leading := "", trailing := "" } := by
  have hcount : (Node.slotsAll root.children).length = ([] : List String).length := by
    rw [hslots]
    rfl
  obtain ⟨x, h⟩ := exists_extract root options rfl hcount
  have hx := extract_spec h
  refine ⟨x, h, fun tree htree resolve => ?_⟩
  have hnames : ∀ name ∈ ([] : List String), isName name.toList = true := by simp
  have hvalues : ([] : List String).map resolve = ([] : List String).map some := rfl
  have hpositions : ∀ j ∈ (root.shown options).positions, j < ([] : List String).length := by
    simp [root.positions_shown, hslots]
  have hformat : x.format.toList = (root.shown options).print options false [] := by
    rw [hx.format_eq, Content.print_trimmed, ← root.print_shown options false, Bool.and_false]
  obtain ⟨hsize, hdepth, -⟩ :=
    (Content.parse_eq_ok_iff (root.outline_shown options) hnames hformat).1 htree
  have hrendered := Content.renderTemplate_eq hnames hvalues (root.outline_shown options)
    hpositions (root.slotted_shown options) hformat hsize hdepth
  rw [← hx.elements_eq] at hrendered
  have htrim := hx.format_eq.trans (Content.print_trimmed root.content)
  refine ⟨_, hrendered, extract_eq_ok_iff_message.2 ⟨rfl, ?_, ?_⟩⟩
  · exact checkCount_eq_ok_iff.2 (.inl (by rw [root.slotsAll_shown hslots]; rfl))
  · rw [root.message_shown hslots options [] htrim, hx.elements_eq, hx.expressions_eq, hslots]

/-- A paragraph with blanks at both ends, blanks to collapse, and an element that keeps its blanks. -/
def listing : Element where
  tag      := { name := "p" }
  children := [.text "\n  See \t" none, .text " [x] " (some 2),
    .element { name := "pre", line := some 3 } [.text " a  b\n" none], .text " " none]

theorem extract_listing :
    extract listing [] { normalize := true, preserveTags := ["pre"] } =
      .ok { format := "See \\[x\\] [1: a  b\n]", leading := " ", trailing := " "
            elements := [{ tag := { name := "pre", line := some 3 } }], expressions := [] } := by rfl

/-- What the message of the paragraph shows. -/
def listingShown : Element where
  tag      := { name := "p" }
  children := [.text "See [x] " none,
    .element { name := "pre", line := some 3 } [.text " a  b\n" none]]

theorem extract_rendered_listing :
    Node.slotsAll listing.children = [] ∧ ∃ x,
      extract listing [] { normalize := true, preserveTags := ["pre"] } = .ok x ∧
      x.format = "See \\[x\\] [1: a  b\n]" ∧
      renderTemplate x.format (listing.stripped :: x.elements) (fun _ => none) =
        .ok listingShown ∧
      extract listingShown [] { normalize := true, preserveTags := ["pre"] } =
        .ok { x with leading := "", trailing := "" } := by
  have hparse : parse "See \\[x\\] [1: a  b\n]" =
      .ok ⟨0, [.text "See \\[x\\] ", .slot 1 [.text " a  b\n"]]⟩ := by rfl
  have hshown : renderTemplate "See \\[x\\] [1: a  b\n]"
      [listing.stripped, { tag := { name := "pre", line := some 3 } }] (fun _ => none) =
        .ok listingShown := by
    have hsee : fillText (fun _ => none) "See \\[x\\] " = .ok "See [x] " := by
      simp [fillText, fillOnto, bind, Except.bind, pure, Except.pure]
    have hpre : fillText (fun _ => none) " a  b\n" = .ok " a  b\n" := by
      simp [fillText, fillOnto, bind, Except.bind, pure, Except.pure]
    simp only [renderTemplate, hparse, bind, Except.bind]
    rw [render, if_neg (by decide)]
    simp [Tree.fill, Piece.fillAll, Piece.fill, hsee, hpre, bind, Except.bind, pure, Except.pure]
    rfl
  obtain ⟨x, hx, hagain⟩ :=
    extract_rendered listing { normalize := true, preserveTags := ["pre"] } rfl
  obtain rfl := Except.ok.inj (extract_listing.symm.trans hx)
  obtain ⟨rendered, hrendered, hextract⟩ := hagain _ hparse fun _ => none
  obtain rfl : rendered = listingShown := Except.ok.inj (hrendered.symm.trans hshown)
  exact ⟨rfl, _, hx, rfl, hrendered, hextract⟩

end Phrasebook
