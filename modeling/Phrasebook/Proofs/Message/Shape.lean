-- SUMMARY: The shape of the templates that extraction makes, and which of them can be read again.
import Phrasebook.Proofs.Message.Walk

/-!
# Shape

A template made from an element has one slot for each element inside it, nested as the elements are
and numbered in document order, and refers to its expressions in document order; nothing that is
literal text in the element reads as a slot or a reference (`extract_shape`). Extraction does not
look at the limits of reading, so a template is refused where it exceeds them, and only there
(`parse_extract_iff`).
-/
namespace Phrasebook

open Markup Template
open Text.Numeral (nat64Max)

/-! ## The outline of a template -/

theorem foldl_max_range' (n k : Nat) : (List.range' (k + 1) n).foldl max k = k + n := by
  induction n generalizing k with
  | zero => rfl
  | succ n ih =>
    rw [List.range'_succ, List.foldl_cons, Nat.max_eq_right (Nat.le_succ k), ih (k + 1)]
    omega

/-- The greatest slot index of an outline is the number of its elements. -/
theorem Markup.Node.maxIndexAll_outlineAll (nodes : List Node) :
    (Piece.indicesAll (Node.outlineAll 0 nodes)).foldl max rootIndex =
      (Node.elementsAll nodes).length := by
  rw [Node.indicesAll_outlineAll, rootIndex, foldl_max_range', Nat.zero_add]

namespace Content

variable {options : ExtractionOptions} {names : List String} {nodes : List Node}

/-- Every slot takes a character at least. -/
theorem length_indicesAll_le (content : Content) (options : ExtractionOptions) (collapse : Bool)
    (names : List String) :
    (Piece.indicesAll content.outline).length ≤
      (content.print options collapse names).length := by
  induction content generalizing collapse with
  | last run => simp [outline, Piece.indicesAll]
  | element before index tag inner after ihInner ihAfter =>
    have hinner := ihInner (collapse && !options.preserves tag)
    have hafter := ihAfter collapse
    simp [outline, Piece.indicesAll, Piece.indices, print]
    omega

/-- The grammar derives the pieces of any content with the elements of `nodes`. -/
theorem derives_of_outline {content : Content} (collapse : Bool)
    (houtline : content.outline = Node.outlineAll 0 nodes)
    (hnames : ∀ name ∈ names, isName name.toList = true)
    (hcount : (Node.elementsAll nodes).length ≤ nat64Max) :
    Derives (content.print options collapse names) (content.pieces options collapse names) := by
  refine content.derives collapse hnames fun i hi => ?_
  rw [houtline, Node.indicesAll_outlineAll, List.mem_range'_1] at hi
  exact ⟨Nat.ne_of_gt (Nat.lt_of_lt_of_le Nat.one_pos (by omega)), by omega⟩

end Content

theorem Markup.Element.outline_content (element : Element) :
    element.content.outline = Node.outlineAll 0 element.children :=
  Content.outline_ofNodes _ _ _ _

theorem Markup.Element.positions_content (element : Element) :
    element.content.positions = List.range' 0 (Node.slotsAll element.children).length := by
  simpa [content, Content.Run.positions] using Content.positions_ofNodes element.children 0 0 {}

theorem Markup.Element.outline_trimmed (element : Element) :
    element.content.trimmed.outline = Node.outlineAll 0 element.children := by
  simp [Content.trimmed, element.outline_content]

theorem Markup.Element.positions_trimmed (element : Element) :
    element.content.trimmed.positions = List.range' 0 (Node.slotsAll element.children).length := by
  simp [Content.trimmed, element.positions_content]

/-! ## The shape of a template -/

theorem map_getD_range' {names : List String} {n : Nat} (h : n ≤ names.length) :
    ((List.range' 0 n).map fun j => names[j]?.getD "") = names.take n := by
  refine List.ext_getElem (by simp [h]) fun j hj _ => ?_
  have hn : j < n := by simpa using hj
  have hlt : j < names.length := Nat.lt_of_lt_of_le hn h
  simp [hlt]

/-- The template that extraction makes. Indices of slots are 64-bit numbers, as is the number of
elements of a list in memory. -/
theorem extract_shape {root : Element} {names : List String} {options : ExtractionOptions}
    {x : Extraction} (h : extract root names options = .ok x)
    (hcount : x.elements.length ≤ nat64Max) :
    ∃ ts tokens, tokenize x.format = ⟨ts, none⟩ ∧ tokens = ts.map (·.token) ∧
      -- its brackets are those of the elements
      Token.nesting 0 tokens = some 0 ∧
      tokens.filter Token.isBracket = Piece.tokensAll (Node.outlineAll 0 root.children) ∧
      tokens.flatMap Token.opened = List.range' 1 x.elements.length ∧
      x.elements = (Node.elementsAll root.children).map Element.stripped ∧
      -- its references are those to the expressions
      tokens.flatMap Token.references = names.take x.expressions.length ∧
      (tokens.flatMap Token.references).Nodup ∧
      x.expressions.length ≤ names.length ∧
      x.expressions = Node.slotsAll root.children := by
  have hx := extract_spec h
  have helements : x.elements.length = (Node.elementsAll root.children).length := by
    simp [hx.elements_eq]
  have hderives : Derives (root.content.trimmed.print options (options.collapses root) names) _ :=
    Content.derives_of_outline _ root.outline_trimmed hx.names_ok (helements ▸ hcount)
  rw [← hx.format_eq] at hderives
  obtain ⟨ts, hts, htokens⟩ := hderives.tokenize_eq
  have hpositions : ∀ j ∈ root.content.trimmed.positions, j < names.length := by
    intro j hj
    rw [root.positions_trimmed, ← hx.expressions_eq, List.mem_range'_1] at hj
    have := hx.named
    omega
  have hreferences : (ts.map (·.token)).flatMap Token.references =
      names.take x.expressions.length := by
    rw [hts, Content.references_pieces _ hx.names_ok _ hpositions, root.positions_trimmed,
      ← hx.expressions_eq, map_getD_range' hx.named]
  refine ⟨ts, _, htokens, rfl, ?_, ?_, ?_, hx.elements_eq, hreferences, ?_, hx.named,
    hx.expressions_eq⟩
  · rw [hts]
    simpa [Token.nesting] using Token.nesting_tokensAll (root.content.trimmed.pieces options
      (options.collapses root) names) 0 []
  · rw [hts, Content.brackets_pieces, root.outline_trimmed]
  · rw [hts, Token.opened_tokensAll, Content.indicesAll_pieces, root.outline_trimmed,
      Node.indicesAll_outlineAll, helements]
  · rw [hreferences]
    exact hx.nodup.sublist (List.take_sublist _ _)

/-- A paragraph with a literal reference, an expression and an element. -/
def greeting : Element where
  tag      := { name := "p" }
  children := [.text r" Hi {" none, .text r"you} " (some 1),
    .expression { source := "user.name" }, .element { name := "b" } [.text "!]" none],
    .text " \n" none]

def greetingMessage : Extraction where
  format      := "Hi \\{you} {who}[1:!\\]]"
  leading     := " "
  trailing    := " \n"
  elements    := [.named "b"]
  expressions := [{ source := "user.name" }]

theorem extract_greeting : extract greeting ["who"] {} = .ok greetingMessage := by rfl

theorem extract_shape_greeting :
    greetingMessage.elements.length ≤ nat64Max ∧
      ∃ ts tokens, tokenize greetingMessage.format = ⟨ts, none⟩ ∧ tokens = ts.map (·.token) ∧
        tokens.filter Token.isBracket = [.opening 1, .closing] ∧
        tokens.flatMap Token.references = ["who"] := by
  have hcount : greetingMessage.elements.length ≤ nat64Max := by decide
  obtain ⟨ts, tokens, htokens, heq, -, hbrackets, -, -, hreferences, -⟩ :=
    extract_shape extract_greeting hcount
  exact ⟨hcount, ts, tokens, htokens, heq, hbrackets, hreferences⟩

/-! ## Reading a template again -/

/-- The template of any content with the elements of `nodes` is read as the pieces of the content,
within the limits. -/
theorem Content.parse_eq_ok_iff {options : ExtractionOptions} {collapse : Bool}
    {names : List String} {nodes : List Node} {content : Content} {template : String} {tree : Tree}
    (houtline : content.outline = Node.outlineAll 0 nodes)
    (hnames : ∀ name ∈ names, isName name.toList = true)
    (htemplate : template.toList = content.print options collapse names) :
    parse template = .ok tree ↔
      template.utf8ByteSize ≤ maxBytes ∧ Node.depthAll nodes ≤ maxDepth ∧
        tree = ⟨rootIndex, content.pieces options collapse names⟩ := by
  have hdepth : Piece.depthAll (content.pieces options collapse names) = Node.depthAll nodes := by
    rw [depthAll_pieces, houtline, Node.depthAll_outlineAll]
  -- a template of that size has no room for an index beyond 64 bits
  have hderives (hsize : template.utf8ByteSize ≤ maxBytes) :
      Derives template.toList (content.pieces options collapse names) := by
    have hlength := content.length_indicesAll_le options collapse names
    rw [houtline, Node.indicesAll_outlineAll, List.length_range', ← htemplate] at hlength
    have hbytes : template.toList.length ≤ template.utf8ByteSize := by
      simpa [← utf8ByteSize_ofList] using length_le_byteSize template.toList
    have hmax : maxBytes ≤ nat64Max := by decide
    rw [htemplate]
    exact content.derives_of_outline collapse houtline hnames (by omega)
  rw [Template.parse_eq_ok_iff]
  constructor
  · rintro ⟨hsize, hroot, htree, hlimit⟩
    obtain ⟨index, pieces⟩ := tree
    obtain rfl : index = rootIndex := hroot
    obtain rfl := htree.unique (hderives hsize)
    exact ⟨hsize, hdepth ▸ hlimit, rfl⟩
  · rintro ⟨hsize, hlimit, rfl⟩
    exact ⟨hsize, rfl, hderives hsize, hdepth ▸ hlimit⟩

/-- The tree of such a template has as many indices as there are elements. -/
theorem Content.maxIndex_pieces {options : ExtractionOptions} {collapse : Bool}
    {names : List String} {nodes : List Node} {content : Content}
    (houtline : content.outline = Node.outlineAll 0 nodes) :
    (⟨rootIndex, content.pieces options collapse names⟩ : Tree).maxIndex =
      (Node.elementsAll nodes).length := by
  rw [Tree.maxIndex, Piece.maxIndexAll_eq_foldl, indicesAll_pieces, houtline,
    Node.maxIndexAll_outlineAll]

/-- A template can be read exactly if it keeps the limits of reading, which extraction does not look
at. Its greatest index is then the number of its elements. -/
theorem parse_extract_iff {root : Element} {names : List String} {options : ExtractionOptions}
    {x : Extraction} (h : extract root names options = .ok x) :
    ((∃ tree, parse x.format = .ok tree) ↔
      x.format.utf8ByteSize ≤ maxBytes ∧ Node.depthAll root.children ≤ maxDepth) ∧
    ∀ tree, parse x.format = .ok tree → tree.maxIndex = x.elements.length := by
  have hx := extract_spec h
  have hparse (tree : Tree) : parse x.format = .ok tree ↔ _ :=
    Content.parse_eq_ok_iff root.outline_trimmed hx.names_ok hx.format_eq
  refine ⟨⟨?_, ?_⟩, ?_⟩
  · rintro ⟨tree, htree⟩
    obtain ⟨hsize, hdepth, -⟩ := (hparse tree).1 htree
    exact ⟨hsize, hdepth⟩
  · rintro ⟨hsize, hdepth⟩
    exact ⟨_, (hparse _).2 ⟨hsize, hdepth, rfl⟩⟩
  · intro tree htree
    obtain ⟨-, -, rfl⟩ := (hparse tree).1 htree
    rw [Content.maxIndex_pieces root.outline_trimmed, hx.elements_eq, List.length_map]

theorem parse_extract_greeting :
    extract greeting ["who"] {} = .ok greetingMessage ∧
      ∃ tree, parse greetingMessage.format = .ok tree ∧ tree.maxIndex = 1 := by
  obtain ⟨hparse, hmax⟩ := parse_extract_iff extract_greeting
  obtain ⟨tree, htree⟩ := hparse.2 ⟨by decide, by decide⟩
  exact ⟨extract_greeting, tree, htree, hmax tree htree⟩

/-- A text with `n` elements around each other around it. -/
def Markup.Node.nested : Nat → List Node
  | 0 => [.text "a" none]
  | n + 1 => [.element { name := "b" } (nested n)]

theorem Markup.Node.depthAll_nested (n : Nat) : Node.depthAll (Node.nested n) = n := by
  induction n with
  | zero => rfl
  | succ n ih => simp [nested, depthAll, depth, ih]

theorem Markup.Node.slotsAll_nested (n : Nat) : Node.slotsAll (Node.nested n) = [] := by
  induction n with
  | zero => rfl
  | succ n ih => simp [nested, slotsAll, slots, ih]

/-- Extraction takes elements to any depth, reading does not. -/
theorem exists_extract_nested (n : Nat) :
    ∃ x, extract ⟨{ name := "p" }, Node.nested n⟩ [] {} = .ok x ∧
      (maxDepth < n → ∀ tree, parse x.format ≠ .ok tree) := by
  have hslots : (Node.slotsAll (Node.nested n)).length = ([] : List String).length := by
    rw [Node.slotsAll_nested]
    rfl
  obtain ⟨x, h⟩ := exists_extract ⟨{ name := "p" }, Node.nested n⟩ {} rfl hslots
  have hx := extract_spec h
  refine ⟨x, h, fun hdeep tree htree => ?_⟩
  obtain ⟨-, hdepth, -⟩ := (Content.parse_eq_ok_iff (Element.outline_trimmed _) hx.names_ok
    hx.format_eq).1 htree
  rw [Node.depthAll_nested] at hdepth
  exact Nat.not_lt.2 hdepth hdeep

theorem extract_nested_not_parse :
    ∃ x, extract ⟨{ name := "p" }, Node.nested 65⟩ [] {} = .ok x ∧
      ∀ tree, parse x.format ≠ .ok tree := by
  obtain ⟨x, h, hdeep⟩ := exists_extract_nested 65
  exact ⟨x, h, hdeep (by decide)⟩

end Phrasebook
