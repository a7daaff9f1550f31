-- SUMMARY: Filling the template that was made from an element gives the element back.
import Phrasebook.Proofs.Message.Shape

/-!
# Rebuilding

A run fills to the text shown for it and a slot to the element of its number, so the pieces of a
content fill to its nodes (`Content.fillAll_pieces`). Extraction and filling together therefore
give the canonical form of the element (`render_extract`).
-/
namespace Phrasebook

open Markup Template

/-! ## Filling pieces -/

theorem Template.Piece.fillAll_append {slots : List Element} {resolve : Resolver}
    {ps qs : List Piece} {ns ms : List Node} (hps : Piece.fillAll slots resolve ps = .ok ns)
    (hqs : Piece.fillAll slots resolve qs = .ok ms) :
    Piece.fillAll slots resolve (ps ++ qs) = .ok (ns ++ ms) := by
  induction ps generalizing ns with
  | nil =>
    obtain rfl := Except.ok.inj hps
    exact hqs
  | cons p ps ih =>
    simp only [List.cons_append, Piece.fillAll, bind, Except.bind] at hps ⊢
    cases hp : p.fill slots resolve with
    | error failure => simp [hp] at hps
    | ok n =>
      cases hrest : Piece.fillAll slots resolve ps with
      | error failure => simp [hp, hrest] at hps
      | ok rest =>
        obtain rfl : n :: rest = ns := by simpa [hp, hrest, pure, Except.pure] using hps
        simp [ih hrest, pure, Except.pure]

namespace Content

variable {names values : List String} {resolve : Resolver} {slots : List Element}

/-- Every name that is used resolves to the value of its expression. -/
theorem resolve_eq (hvalues : names.map resolve = values.map some) {j : Nat}
    (hj : j < names.length) :
    resolve (names[j]?.getD "") = some (values[j]?.getD "") := by
  have h := congrArg (·[j]?) hvalues
  simp only [List.getElem?_map, List.getElem?_eq_getElem hj, Option.map_some] at h ⊢
  cases hvalue : values[j]? with
  | none => simp [hvalue] at h
  | some value => simpa [hvalue] using h

/-- A run fills to what is shown for it. -/
theorem Run.fillOnto_print (hnames : ∀ name ∈ names, isName name.toList = true)
    (hvalues : names.map resolve = values.map some) (run : Run)
    (hpositions : ∀ j ∈ run.positions, j < names.length) (out : List Char) :
    fillOnto resolve out 0 (run.print false names) = .ok ((run.show values).reverse ++ out) := by
  obtain ⟨parts, rest⟩ := run
  simp only [print, Run.show]
  induction parts generalizing out with
  | nil => simpa [fillOnto] using fillOnto_written .nil resolve out rest
  | cons part parts ih =>
    obtain ⟨hpart, hparts⟩ := List.forall_mem_cons.1 hpositions
    have hname : isName (names[part.2]?.getD "").toList = true := by
      simpa [hpart] using hnames _ (List.getElem_mem hpart)
    have hresolve : resolve (String.ofList (names[part.2]?.getD "").toList) =
        some (values[part.2]?.getD "") := by
      rw [String.ofList_toList, resolve_eq hvalues hpart]
    simp only [List.flatMap_cons, List.append_assoc, fillOnto_written (Breaks.reference _ _),
      fillOnto_reference hname hresolve, ih _ hparts]
    simp

theorem Run.fillAll_pieces (hnames : ∀ name ∈ names, isName name.toList = true)
    (hvalues : names.map resolve = values.map some) (run : Run)
    (hpositions : ∀ j ∈ run.positions, j < names.length) :
    Piece.fillAll slots resolve (run.pieces false names) = .ok (run.nodes values) := by
  have hfill := run.fillOnto_print hnames hvalues hpositions []
  unfold pieces nodes
  split
  · rfl
  · simp [Piece.fillAll, Piece.fill, fillText, hfill, bind, Except.bind, pure, Except.pure]

/-- The pieces of the content fill to the nodes shown for it. -/
theorem fillAll_pieces (options : ExtractionOptions)
    (hnames : ∀ name ∈ names, isName name.toList = true)
    (hvalues : names.map resolve = values.map some) (content : Content)
    (hpositions : ∀ j ∈ content.positions, j < names.length) (hslotted : content.Slotted slots) :
    Piece.fillAll slots resolve (content.pieces options false names) =
      .ok (content.nodes values) := by
  induction content with
  | last run => exact run.fillAll_pieces hnames hvalues hpositions
  | element before index tag inner after ihInner ihAfter =>
    simp only [positions, List.forall_mem_append] at hpositions
    obtain ⟨hbefore, hinner, hafter⟩ := hpositions
    obtain ⟨hslot, hslottedInner, hslottedAfter⟩ := hslotted
    have hpiece : Piece.fillAll slots resolve
        (.slot index (inner.pieces options false names) :: after.pieces options false names) =
        .ok (.element tag (inner.nodes values) :: after.nodes values) := by
      simp [Piece.fillAll, Piece.fill, hslot, ihInner hinner hslottedInner,
        ihAfter hafter hslottedAfter, bind, Except.bind, pure, Except.pure, Element.withChildren,
        Element.toNode, Tag.toElement]
    exact Piece.fillAll_append (before.fillAll_pieces hnames hvalues hbefore) hpiece

/-- A template of content with the elements of `root` fills to what is shown for the content. -/
theorem renderTemplate_eq {content : Content} {root : Element} {options : ExtractionOptions}
    {template : String} (hnames : ∀ name ∈ names, isName name.toList = true)
    (hvalues : names.map resolve = values.map some)
    (houtline : content.outline = Node.outlineAll 0 root.children)
    (hpositions : ∀ j ∈ content.positions, j < names.length)
    (hslotted : content.Slotted
      (root.stripped :: (Node.elementsAll root.children).map Element.stripped))
    (htemplate : template.toList = content.print options false names)
    (hsize : template.utf8ByteSize ≤ maxBytes)
    (hdepth : Node.depthAll root.children ≤ maxDepth) :
    renderTemplate template
        (root.stripped :: (Node.elementsAll root.children).map Element.stripped) resolve =
      .ok ⟨root.tag, content.nodes values⟩ := by
  have hparse : parse template = .ok ⟨rootIndex, content.pieces options false names⟩ :=
    (parse_eq_ok_iff houtline hnames htemplate).2 ⟨hsize, hdepth, rfl⟩
  have hfill := content.fillAll_pieces options hnames hvalues hpositions hslotted
  have hroom : ¬ (root.stripped :: (Node.elementsAll root.children).map Element.stripped).length ≤
      (⟨rootIndex, content.pieces options false names⟩ : Tree).maxIndex := by
    rw [maxIndex_pieces houtline]
    simp
  have hroot : (root.stripped :: (Node.elementsAll root.children).map Element.stripped)[rootIndex]? =
      some root.stripped := rfl
  simp only [renderTemplate, hparse, bind, Except.bind, render, if_neg hroom, Tree.fill, hroot,
    hfill]
  rfl

end Content

/-! ## Rebuilding an element -/

/-- The canonical form of an element, where `values` are the values of its expressions: adjacent
texts and expressions are one text, and there is no empty text. -/
def Markup.Element.canonical (values : List String) (element : Element) : Element :=
  { element with children := element.content.nodes values }

theorem Markup.Element.slotted_content (element : Element) :
    element.content.Slotted
      (element.stripped :: (Node.elementsAll element.children).map Element.stripped) := by
  simpa [content] using Content.slotted_ofNodes (k := 0) 0 {} [element.stripped] [] rfl

/-- The template that extraction makes, with the blanks split off around it, fills to the canonical
form of the element, if it keeps the limits of reading. Alone it fills to the same but for these
blanks: they are missing at the front of the first text and at the end of the last. -/
theorem render_extract {root : Element} {names : List String} {options : ExtractionOptions}
    {x : Extraction} {resolve : Resolver} {values : List String}
    (h : extract root names options = .ok x) (hnormalize : options.normalize = false)
    (hvalues : names.map resolve = values.map some)
    (hsize : (x.leading ++ x.format ++ x.trailing).utf8ByteSize ≤ maxBytes)
    (hdepth : Node.depthAll root.children ≤ maxDepth) :
    renderTemplate (x.leading ++ x.format ++ x.trailing) (root.stripped :: x.elements) resolve =
        .ok (root.canonical values) ∧
      ∃ inner : Content, root.content = inner.surround x.leading.toList x.trailing.toList ∧
        renderTemplate x.format (root.stripped :: x.elements) resolve =
          .ok { root with children := inner.nodes values } := by
  have hx := extract_spec h
  have hcollapse : options.collapses root = false := by
    simp [ExtractionOptions.collapses, hnormalize]
  have hposition : ∀ j ∈ List.range' 0 (Node.slotsAll root.children).length, j < names.length := by
    intro j hj
    rw [← hx.expressions_eq, List.mem_range'_1] at hj
    have := hx.named
    omega
  rw [hx.elements_eq]
  refine ⟨?_, root.content.trimmed, hx.surround_eq hcollapse, ?_⟩
  · exact Content.renderTemplate_eq hx.names_ok hvalues root.outline_content
      (root.positions_content ▸ hposition) root.slotted_content (hx.wrap_eq hcollapse) hsize hdepth
  · have hformat := hx.format_eq
    rw [hcollapse] at hformat
    have hslotted : root.content.trimmed.Slotted
        (root.stripped :: (Node.elementsAll root.children).map Element.stripped) := by
      simpa [Content.trimmed] using root.slotted_content
    simp only [String.utf8ByteSize_append] at hsize
    exact Content.renderTemplate_eq hx.names_ok hvalues root.outline_trimmed
      (root.positions_trimmed ▸ hposition) hslotted hformat (by omega) hdepth

theorem canonical_greeting :
    greeting.canonical ["Ann"] = ⟨greeting.tag, [.text " Hi {you} Ann" none,
      .element { name := "b" } [.text "!]" none], .text " \n" none]⟩ := by rfl

theorem render_extract_greeting :
    extract greeting ["who"] {} = .ok greetingMessage ∧
      renderTemplate (greetingMessage.leading ++ greetingMessage.format ++ greetingMessage.trailing)
          (greeting.stripped :: greetingMessage.elements) (fun _ => some "Ann") =
        .ok ⟨greeting.tag, [.text " Hi {you} Ann" none,
          .element { name := "b" } [.text "!]" none], .text " \n" none]⟩ := by
  have hvalues : ["who"].map (fun _ => some "Ann") = ["Ann"].map some := rfl
  have hsize : (greetingMessage.leading ++ greetingMessage.format ++
      greetingMessage.trailing).utf8ByteSize ≤ maxBytes := by decide
  have hdepth : Node.depthAll greeting.children ≤ maxDepth := by decide
  obtain ⟨hrender, -⟩ := render_extract extract_greeting rfl hvalues hsize hdepth
  rw [canonical_greeting] at hrender
  exact ⟨extract_greeting, hrender⟩

end Phrasebook
