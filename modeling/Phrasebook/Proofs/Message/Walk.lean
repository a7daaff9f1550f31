-- SUMMARY: The walk over an element writes the template of its content, and what extraction returns.
import Phrasebook.Proofs.Message.Edges

/-!
# The walk

A draft is a template under way: behind what is written there are texts and expressions of a run
that is not finished (`Draft.Holds`). Every node takes the draft a step further (`addText`,
`addExpression`, `openElement`, `closeElement`), and nodes add the template of their content
(`addNodes_spec`). `extract_spec` is what this makes of extraction.
-/
namespace Phrasebook

open Markup Template Content

namespace Draft

variable {options : ExtractionOptions} {collapse : Bool} {names : List String} {front : List Char}
  {run : Run} {draft next : Draft}

/-- The draft has written `front` and then `run`, but for the text at the end of the run. -/
structure Holds (collapse : Bool) (names : List String) (front : List Char) (run : Run)
    (draft : Draft) : Prop where
  out_eq     : draft.out.reverse = front ++ ({ run with rest := [] } : Run).print collapse names
  pending_eq : draft.pending.reverse = run.rest
  /-- Text that comes next begins a run of blanks, if it begins with a blank. -/
  unspaced   : draft.out.head? ≠ some ' '
  /-- There were names for all expressions. -/
  named      : draft.expressions.length ≤ names.length

/-! ## Steps -/

@[simp] theorem elements_flush : (draft.flush collapse).elements = draft.elements := rfl
@[simp] theorem expressions_flush : (draft.flush collapse).expressions = draft.expressions := rfl

@[simp] theorem elements_openElement (tag : Tag) :
    (draft.openElement tag).elements = tag.toElement :: draft.elements := rfl
@[simp] theorem expressions_openElement (tag : Tag) :
    (draft.openElement tag).expressions = draft.expressions := rfl

@[simp] theorem elements_closeElement : draft.closeElement.elements = draft.elements := rfl
@[simp] theorem expressions_closeElement : draft.closeElement.expressions = draft.expressions := rfl

/-- Flushing finishes the run. -/
theorem Holds.flush_out (h : Holds collapse names front run draft) :
    (draft.flush collapse).out.reverse = front ++ run.print collapse names := by
  have hspaced : collapse = true → false = (draft.out.head? == some ' ') := fun _ => by
    simpa using h.unspaced
  simp [flush, writeText_eq false draft.out hspaced, h.out_eq, h.pending_eq, Run.print]

theorem Holds.addText (h : Holds collapse names front run draft) (value : String) :
    Holds collapse names front (run.addText value.toList)
      { draft with pending := value.toList.reverse ++ draft.pending } :=
  ⟨h.out_eq, by simp [Run.addText, h.pending_eq], h.unspaced, h.named⟩

/-- An expression takes the next name. -/
theorem Holds.addExpression {slot : ExpressionSlot} (h : Holds collapse names front run draft)
    (hnext : (draft.flush collapse).addExpression names slot = .ok next) :
    Holds collapse names front (run.addExpression draft.expressions.length) next ∧
      next.elements = draft.elements ∧ next.expressions = slot :: draft.expressions := by
  have hflush := h.flush_out
  simp only [Draft.addExpression] at hnext
  split at hnext
  · cases hnext
  rename_i name hname
  obtain rfl := Except.ok.inj hnext
  refine ⟨⟨?_, rfl, ?_, (List.getElem?_eq_some_iff.1 hname).1⟩, rfl, rfl⟩
  · have hname' : names[draft.expressions.length]? = some name := hname
    simp [write, hflush, Run.print, Run.addExpression, hname']
  · simp [write, reference]

/-- An element takes the next index, and a new run begins inside it. -/
theorem Holds.openElement (h : Holds collapse names front run draft) (tag : Tag) (inner : Bool) :
    Holds inner names
      (front ++ run.print collapse names ++
        '[' :: (toString (draft.elements.length + 1)).toList ++ [':'])
      {} ((draft.flush collapse).openElement tag) := by
  have hflush := h.flush_out
  refine ⟨?_, rfl, by simp [Draft.openElement, write], h.named⟩
  simp [Draft.openElement, write, hflush, Run.print]

/-- A new run begins behind an element. -/
theorem Holds.closeElement {inner : Bool} (hout : (draft.flush inner).out.reverse = front)
    (hnamed : draft.expressions.length ≤ names.length) :
    Holds collapse names (front ++ [']']) {} (draft.flush inner).closeElement :=
  ⟨by simp [Draft.closeElement, write, hout, Run.print], rfl, by simp [Draft.closeElement, write],
    hnamed⟩

/-! ## Nodes -/

/-- What adding nodes to a draft adds to it: the template of their content, their elements and
their expressions. -/
structure Adds (options : ExtractionOptions) (collapse : Bool) (names : List String)
    (front : List Char) (run : Run) (nodes : List Node) (draft next : Draft) : Prop where
  out_eq         : (next.flush collapse).out.reverse = front ++
    (ofNodes draft.elements.length draft.expressions.length run nodes).print options collapse names
  elements_eq    : next.elements.reverse =
    draft.elements.reverse ++ (Node.elementsAll nodes).map Element.stripped
  expressions_eq : next.expressions.reverse = draft.expressions.reverse ++ Node.slotsAll nodes
  named          : next.expressions.length ≤ names.length

theorem addNodes_expression {slot : ExpressionSlot} {nodes : List Node} :
    addNodes options names collapse draft (.expression slot :: nodes) = .ok next ↔
      ∃ mid, (draft.flush collapse).addExpression names slot = .ok mid ∧
        addNodes options names collapse mid nodes = .ok next := by
  simp only [addNodes, addNode]
  cases (draft.flush collapse).addExpression names slot <;> simp [bind, Except.bind]

theorem addNodes_element {tag : Tag} {children nodes : List Node} :
    addNodes options names collapse draft (.element tag children :: nodes) = .ok next ↔
      ∃ mid, addNodes options names (collapse && !options.preserves tag)
          ((draft.flush collapse).openElement tag) children = .ok mid ∧
        addNodes options names collapse
          (mid.flush (collapse && !options.preserves tag)).closeElement nodes = .ok next := by
  simp only [addNodes, addNode]
  cases addNodes options names (collapse && !options.preserves tag)
    ((draft.flush collapse).openElement tag) children <;> simp [bind, Except.bind, pure, Except.pure]

/-- Nodes add the template of their content. -/
theorem addNodes_spec {nodes : List Node} (h : Holds collapse names front run draft)
    (hnext : addNodes options names collapse draft nodes = .ok next) :
    Adds options collapse names front run nodes draft next := by
  induction nodes using Node.inductionAll generalizing collapse front run draft next with
  | nil =>
    obtain rfl := Except.ok.inj hnext
    exact ⟨by simpa [Content.print] using h.flush_out, by simp [Node.elementsAll],
      by simp [Node.slotsAll], h.named⟩
  | text value line nodes ih =>
    obtain ⟨hout, helements, hexpressions, hnamed⟩ := ih (h.addText value) hnext
    exact ⟨by simpa using hout, by simpa [Node.elementsAll, Node.elements] using helements,
      by simpa [Node.slotsAll, Node.slots] using hexpressions, hnamed⟩
  | expression slot nodes ih =>
    obtain ⟨mid, hmid, hnext⟩ := addNodes_expression.1 hnext
    obtain ⟨hholds, hmidElements, hmidExpressions⟩ := h.addExpression hmid
    obtain ⟨hout, helements, hexpressions, hnamed⟩ := ih hholds hnext
    rw [hmidElements, hmidExpressions] at hout
    rw [hmidElements] at helements
    rw [hmidExpressions] at hexpressions
    exact ⟨by simpa using hout, by simpa [Node.elementsAll, Node.elements] using helements,
      by simpa [Node.slotsAll, Node.slots] using hexpressions, hnamed⟩
  | element tag children nodes ihChildren ih =>
    obtain ⟨mid, hmid, hnext⟩ := addNodes_element.1 hnext
    have hinside := ihChildren (h.openElement tag _) hmid
    have hafter := ih (Holds.closeElement hinside.out_eq hinside.named) hnext
    have helements : mid.elements.reverse = draft.elements.reverse ++
        tag.toElement :: (Node.elementsAll children).map Element.stripped := by
      simpa using hinside.elements_eq
    have hexpressions : mid.expressions.reverse =
        draft.expressions.reverse ++ Node.slotsAll children := hinside.expressions_eq
    have hlength : mid.elements.length =
        draft.elements.length + ((Node.elementsAll children).length + 1) := by
      simpa using congrArg List.length helements
    have hslots : mid.expressions.length =
        draft.expressions.length + (Node.slotsAll children).length := by
      simpa using congrArg List.length hexpressions
    have hstripped : (⟨tag, children⟩ : Element).stripped = tag.toElement := rfl
    refine ⟨?_, ?_, ?_, hafter.named⟩
    · have hout := hafter.out_eq
      simpa [Content.print, hlength, hslots] using hout
    · have hnext := hafter.elements_eq
      rw [elements_closeElement, elements_flush, helements] at hnext
      simpa [Node.elementsAll, Node.elements, hstripped] using hnext
    · have hnext := hafter.expressions_eq
      rw [expressions_closeElement, expressions_flush, hexpressions] at hnext
      simpa [Node.slotsAll, Node.slots] using hnext

/-- Nodes can be added as long as there are names for their expressions. -/
theorem exists_addNodes (options : ExtractionOptions) {names : List String} {nodes : List Node}
    (collapse : Bool) (draft : Draft)
    (h : draft.expressions.length + (Node.slotsAll nodes).length ≤ names.length) :
    ∃ next, addNodes options names collapse draft nodes = .ok next ∧
      next.expressions.length = draft.expressions.length + (Node.slotsAll nodes).length := by
  induction nodes using Node.inductionAll generalizing collapse draft with
  | nil => exact ⟨draft, rfl, rfl⟩
  | text value line nodes ih => exact ih collapse _ h
  | expression slot nodes ih =>
    simp only [Node.slotsAll, Node.slots, List.length_append, List.length_singleton] at h ⊢
    have hname : draft.expressions.length < names.length := by omega
    obtain ⟨mid, hmid, hcount⟩ : ∃ mid,
        (draft.flush collapse).addExpression names slot = .ok mid ∧
          mid.expressions.length = draft.expressions.length + 1 := by
      simp [addExpression, hname, write]
    obtain ⟨next, hnext, hlength⟩ := ih collapse mid (by omega)
    exact ⟨next, addNodes_expression.2 ⟨mid, hmid, hnext⟩, by omega⟩
  | element tag children nodes ihChildren ih =>
    simp only [Node.slotsAll, Node.slots, List.length_append] at h ⊢
    obtain ⟨mid, hmid, hcount⟩ := ihChildren (collapse && !options.preserves tag)
      ((draft.flush collapse).openElement tag) (by simp; omega)
    simp only [expressions_openElement, expressions_flush] at hcount
    obtain ⟨next, hnext, hlength⟩ := ih collapse
      (mid.flush (collapse && !options.preserves tag)).closeElement (by simp; omega)
    simp only [expressions_closeElement, expressions_flush] at hlength
    exact ⟨next, addNodes_element.2 ⟨mid, hmid, hnext⟩, by omega⟩

end Draft

/-! ## Names -/

theorem checkNamesFrom_eq_ok_iff {seen names : List String} :
    checkNamesFrom seen names = .ok () ↔
      (∀ name ∈ names, isName name.toList = true) ∧ names.Nodup ∧ ∀ name ∈ names, name ∉ seen := by
  induction names generalizing seen with
  | nil => simp [checkNamesFrom]
  | cons name names ih =>
    rw [checkNamesFrom]
    by_cases hname : isName name.toList = true
    · by_cases hseen : name ∈ seen
      · simp [hname, hseen]
      · have hrest : (∀ a ∈ names, a ∉ name :: seen) ↔ name ∉ names ∧ ∀ a ∈ names, a ∉ seen := by
          constructor
          · intro h
            exact ⟨fun hmem => h name hmem List.mem_cons_self,
              fun a ha hmem => h a ha (List.mem_cons_of_mem name hmem)⟩
          · rintro ⟨hnew, hfresh⟩ a ha hmem
            obtain rfl | hmem := List.mem_cons.1 hmem
            · exact hnew ha
            · exact hfresh a ha hmem
        simp only [hname, hseen, ih, hrest, List.contains_eq_mem, List.forall_mem_cons,
          List.nodup_cons, Bool.not_true, Bool.false_eq_true, decide_false, if_false,
          not_false_eq_true, true_and]
        exact and_congr_right fun _ => ⟨fun ⟨hnodup, hnew, hfresh⟩ => ⟨⟨hnew, hnodup⟩, hfresh⟩,
          fun ⟨⟨hnew, hnodup⟩, hfresh⟩ => ⟨hnodup, hnew, hfresh⟩⟩
    · simp [hname]

/-- Names pass the check if they are well formed and distinct. -/
theorem checkNames_eq_ok_iff {names : List String} :
    checkNames names = .ok () ↔ (∀ name ∈ names, isName name.toList = true) ∧ names.Nodup := by
  simp [checkNames, checkNamesFrom_eq_ok_iff]

/-! ## Extraction -/

/-- Blanks collapse in the text of the element itself. -/
def ExtractionOptions.collapses (options : ExtractionOptions) (root : Element) : Bool :=
  options.normalize && !options.preserves root.tag

/-- The message of a draft that is flushed. -/
def Draft.message (draft : Draft) (collapse : Bool) : Extraction :=
  let split := MessageId.split (String.ofList draft.out.reverse)
  let message := if collapse then split.shrinkEdges else split
  { format      := message.id
    leading     := message.leading
    trailing    := message.trailing
    elements    := draft.elements.reverse
    expressions := draft.expressions.reverse }

/-- Extraction succeeds if the names are well formed and enough, and, where that is asked, not too
many. -/
theorem extract_eq_ok_iff {root : Element} {names : List String} {options : ExtractionOptions}
    {x : Extraction} :
    extract root names options = .ok x ↔
      checkNames names = .ok () ∧ ∃ draft,
        Draft.addNodes options names (options.collapses root) {} root.children = .ok draft ∧
        (options.allowUnused = false → names.length ≤ draft.expressions.length) ∧
        (draft.flush (options.collapses root)).message (options.collapses root) = x := by
  have hcollapses : (options.normalize && !options.preserves root.tag) =
      options.collapses root := rfl
  rw [extract, hcollapses]
  cases hnames : checkNames names with
  | error failure => simp [bind, Except.bind]
  | ok =>
    cases hdraft : Draft.addNodes options names (options.collapses root) {} root.children with
    | error failure => simp [bind, Except.bind, hdraft]
    | ok draft =>
      cases hunused : names[draft.expressions.length]? with
      | none =>
        have hcount : names.length ≤ draft.expressions.length := List.getElem?_eq_none_iff.1 hunused
        simp [bind, Except.bind, pure, Except.pure, hdraft, hcount, Draft.message]
      | some unused =>
        have hcount : ¬ names.length ≤ draft.expressions.length :=
          Nat.not_le.2 (List.getElem?_eq_some_iff.1 hunused).1
        cases hallow : options.allowUnused <;>
          simp [bind, Except.bind, pure, Except.pure, throw, throwThe, MonadExceptOf.throw, hdraft,
            hunused, hcount, Draft.message]

/-- Extraction succeeds with as many names as there are expressions. -/
theorem exists_extract (root : Element) {names : List String} (options : ExtractionOptions)
    (hnames : checkNames names = .ok ())
    (hcount : (Node.slotsAll root.children).length = names.length) :
    ∃ x, extract root names options = .ok x := by
  have hroom : ({} : Draft).expressions.length + (Node.slotsAll root.children).length ≤
      names.length := by
    simp [hcount]
  obtain ⟨draft, hdraft, hlength⟩ :=
    Draft.exists_addNodes options (options.collapses root) {} hroom
  exact ⟨_, extract_eq_ok_iff.2 ⟨hnames, draft, hdraft, fun _ => by simp [hlength, hcount], rfl⟩⟩

/-- What extraction returns for an element. -/
structure Extracts (root : Element) (names : List String) (options : ExtractionOptions)
    (x : Extraction) : Prop where
  names_ok       : ∀ name ∈ names, isName name.toList = true
  nodup          : names.Nodup
  format_eq      : x.format.toList =
    root.content.trimmed.print options (options.collapses root) names
  /-- Where blanks do not collapse, nothing of the template is lost. -/
  wrap_eq        : options.collapses root = false →
    (x.leading ++ x.format ++ x.trailing).toList = root.content.print options false names
  surround_eq    : options.collapses root = false →
    root.content = root.content.trimmed.surround x.leading.toList x.trailing.toList
  elements_eq    : x.elements = (Node.elementsAll root.children).map Element.stripped
  expressions_eq : x.expressions = Node.slotsAll root.children
  named          : x.expressions.length ≤ names.length

theorem extract_spec {root : Element} {names : List String} {options : ExtractionOptions}
    {x : Extraction} (h : extract root names options = .ok x) : Extracts root names options x := by
  obtain ⟨hnames, draft, hdraft, -, rfl⟩ := extract_eq_ok_iff.1 h
  have hempty : Draft.Holds (options.collapses root) names [] {} {} := by
    constructor <;> simp [Run.print]
  obtain ⟨hout, helements, hexpressions, hnamed⟩ :=
    Draft.addNodes_spec hempty hdraft
  have hprint : (draft.flush (options.collapses root)).out.reverse =
      root.content.print options (options.collapses root) names := hout
  obtain ⟨hvalid, hnodup⟩ := checkNames_eq_ok_iff.1 hnames
  refine ⟨hvalid, hnodup, ?_, ?_, ?_, helements, hexpressions, ?_⟩
  · rw [print_trimmed, ← hprint, Draft.message]
    cases options.collapses root <;> simp [MessageId.split, MessageId.shrinkEdges, Text.trim]
  · intro hcollapse
    rw [hcollapse] at hprint ⊢
    have hwrap := MessageId.wrap_split (String.ofList (draft.flush false).out.reverse)
    rw [← hprint, ← String.toList_ofList (l := (draft.flush false).out.reverse)]
    exact congrArg String.toList hwrap
  · intro hcollapse
    rw [hcollapse] at hprint ⊢
    obtain ⟨front, back, hsplit, hcontent⟩ := root.content.exists_split options names
    rw [← hprint] at hsplit
    simpa only [Draft.message, Bool.false_eq_true, if_false, hsplit, String.toList_ofList] using
      hcontent
  · simpa [Draft.message] using hnamed

end Phrasebook
