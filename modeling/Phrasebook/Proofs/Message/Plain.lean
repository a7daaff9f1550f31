-- SUMMARY: The message of an element with text alone, and the message id of that text.
import Phrasebook.Proofs.Message.Collapsing

/-!
# Plain text

Text gets a message id in two ways: by itself (`MessageId.ofText`), and as all there is in an
element that is extracted. The first cuts the text and then collapses its blanks; the second
collapses and escapes it and then cuts. As escapes leave the blanks at the ends alone, cutting what
was written is writing what was cut (`MessageId.split_literal`), and both ways agree
(`extract_texts`). A text is written as itself if there is nothing in it to escape
(`written_eq_self_iff`).
-/
namespace Phrasebook

open Markup Template
open Text (isBlank StartsTight EndsTight)

/-! ## Literal text -/

namespace Template

variable {collapse spaced : Bool} {cs : List Char}

theorem literalText_eq (cs : List Char) : literalText cs = written false false cs := by
  have hwritten : writeText false [] cs = (written false false cs).reverse ++ [] :=
    writeText_eq false [] nofun
  rw [literalText, hwritten, List.append_nil, List.reverse_reverse]

/-- Literal text shows itself, and asks for no values. -/
theorem fillText_literalText (resolve : Resolver) (cs : List Char) :
    fillText resolve (String.ofList (literalText cs)) = .ok (String.ofList cs) := by
  have hfill : fillOnto resolve [] 0 (written false false cs ++ []) =
      fillOnto resolve (cs.reverse ++ []) 0 [] :=
    fillOnto_written .nil resolve [] cs
  rw [List.append_nil, List.append_nil, ← literalText_eq] at hfill
  rw [fillText, String.toList_ofList, hfill]
  simp [fillOnto, bind, Except.bind, pure, Except.pure]

theorem referencesIn_literalText (cs : List Char) : referencesIn (literalText cs) = [] := by
  have hreferences : referencesIn (written false false cs ++ []) = referencesIn [] :=
    referencesIn_written .nil cs
  rwa [List.append_nil, ← literalText_eq] at hreferences

theorem startsTight_written (h : StartsTight cs) : StartsTight (written collapse spaced cs) := by
  have htrim : Text.trimStart (written collapse spaced cs ++ []) =
      written collapse spaced (Text.trimStart cs) ++ [] :=
    trimStart_written .nil
  rw [List.append_nil, List.append_nil, Text.trimStart_eq_self h] at htrim
  rw [← htrim]
  exact Text.startsTight_trimStart _

theorem endsTight_written (h : EndsTight cs) : EndsTight (written collapse spaced cs) := by
  rw [EndsTight, getLast?_written h]
  exact h

theorem length_le_length_written (spaced : Bool) (cs : List Char) :
    cs.length ≤ (written false spaced cs).length := by
  induction cs generalizing spaced with
  | nil => exact Nat.le_refl 0
  | cons c cs ih =>
    have hrest := ih false
    rw [written_cons rfl]
    split <;> simp <;> omega

/-- A brace has to be escaped where a reference stands. -/
theorem opens_reference_iff {c : Char} :
    (c == '{' && (nameAt cs).isSome) = true ↔
      ∃ name, isName name = true ∧ reference name <+: c :: cs := by
  constructor
  · intro h
    obtain ⟨hbrace, hsome⟩ := Bool.and_eq_true_iff.1 h
    obtain ⟨name, hname⟩ := Option.isSome_iff_exists.1 hsome
    obtain ⟨hwell, rest, rfl⟩ := nameAt_eq_some_iff.1 hname
    exact ⟨name, hwell, rest, by simp [reference, beq_iff_eq.1 hbrace]⟩
  · rintro ⟨name, hname, rest, h⟩
    obtain ⟨rfl, rfl⟩ := List.cons.inj h
    simp [nameAt_name hname]

/-- Text is written as itself if nothing in it has to be escaped. -/
theorem written_eq_self_iff (spaced : Bool) (cs : List Char) :
    written false spaced cs = cs ↔
      (∀ c ∈ cs, isReserved c = false) ∧
        ∀ name, isName name = true → ¬ reference name <:+: cs := by
  induction cs generalizing spaced with
  | nil => simp [reference]
  | cons c cs ih =>
    rw [written_cons rfl]
    cases hescape : isReserved c || (c == '{' && (nameAt cs).isSome) with
    | true =>
      rw [if_pos rfl]
      constructor
      · intro h
        have hlength := congrArg List.length h
        have hrest := length_le_length_written false cs
        simp only [List.length_cons] at hlength
        omega
      · rintro ⟨hplain, hnone⟩
        rcases Bool.or_eq_true_iff.1 hescape with hreserved | hopens
        · cases (hplain c List.mem_cons_self).symm.trans hreserved
        · obtain ⟨name, hname, hprefix⟩ := opens_reference_iff.1 hopens
          exact absurd hprefix.isInfix (hnone name hname)
    | false =>
      obtain ⟨hreserved, hopens⟩ := Bool.or_eq_false_iff.1 hescape
      have hfirst : ∀ name, isName name = true → ¬ reference name <+: c :: cs := by
        intro name hname hprefix
        cases hopens.symm.trans (opens_reference_iff.2 ⟨name, hname, hprefix⟩)
      rw [if_neg Bool.false_ne_true, List.cons_inj_right, ih]
      simp only [List.forall_mem_cons, hreserved, true_and, List.infix_cons_iff, not_or]
      refine and_congr_right fun _ => ⟨?_, ?_⟩
      · intro h name hname
        exact ⟨hfirst name hname, h name hname⟩
      · intro h name hname
        exact (h name hname).2

end Template

/-! ## Cutting literal text -/

namespace MessageId

variable {text : String} {message : MessageId}

/-- The message with its id as a template writes it. -/
def literal (message : MessageId) : MessageId :=
  { message with id := String.ofList (literalText message.id.toList) }

theorem toList_id_literal (message : MessageId) :
    message.literal.id.toList = written false false message.id.toList := by
  rw [literal, String.toList_ofList, literalText_eq]

/-- What is written for a text is cut where the text is. -/
theorem Splits.literal (h : message.Splits text) :
    message.literal.Splits (String.ofList (literalText text.toList)) where
  wrap_eq        := by
    have htrailing := Breaks.of_blanks h.trailing_blank
    obtain ⟨spaced, hwritten⟩ := exists_written_append false false message.id.toList htrailing
    have hback : written false spaced (message.trailing.toList ++ []) =
        message.trailing.toList ++ written false spaced [] :=
      written_blanks_append h.trailing_blank []
    rw [List.append_nil, written_nil, List.append_nil] at hback
    apply String.toList_inj.1
    rw [String.toList_ofList, literalText_eq, h.toList_eq, written_blanks_append h.leading_blank,
      hwritten, hback, ← toList_id_literal]
    simp [wrap, MessageId.literal]
  leading_blank  := h.leading_blank
  trailing_blank := h.trailing_blank
  startsTight    := by
    rw [toList_id_literal]
    exact startsTight_written h.startsTight
  endsTight      := by
    rw [toList_id_literal]
    exact endsTight_written h.endsTight
  trailing_eq    := by
    intro hid
    apply h.trailing_eq
    have hlength := length_le_length_written false message.id.toList
    rw [← toList_id_literal, hid] at hlength
    exact String.toList_eq_nil_iff.1 (List.eq_nil_of_length_eq_zero (Nat.le_zero.1 hlength))

theorem split_literal (text : String) :
    split (String.ofList (literalText text.toList)) = (split text).literal :=
  (splits_split text).literal.eq

end MessageId

/-! ## Elements with text alone -/

/-- An element of a tag that has texts inside and nothing else. -/
def Markup.Element.ofTexts (tag : Tag) (texts : List (String × Line)) : Element :=
  ⟨tag, texts.map fun text => .text text.1 text.2⟩

/-- Texts take the run before them further and begin nothing else. -/
theorem Content.ofNodes_texts (k j : Nat) (before : Run) (texts : List (String × Line)) :
    ofNodes k j before (texts.map fun text => .text text.1 text.2) =
      .last (before.addText (String.join (texts.map (·.1))).toList) := by
  induction texts generalizing before with
  | nil => simp [Run.addText]
  | cons text texts ih => simp [ih, Run.addText]

variable (tag : Tag) (texts : List (String × Line))

theorem Markup.Element.slotsAll_ofTexts : Node.slotsAll (ofTexts tag texts).children = [] := by
  rw [ofTexts]
  induction texts with
  | nil => rfl
  | cons text texts ih => simpa [Node.slotsAll, Node.slots] using ih

theorem Markup.Element.elementsAll_ofTexts : Node.elementsAll (ofTexts tag texts).children = [] := by
  rw [ofTexts]
  induction texts with
  | nil => rfl
  | cons text texts ih => simpa [Node.elementsAll, Node.elements] using ih

/-- Cutting the template of texts is cutting the text that they make together. -/
theorem Markup.Element.split_print_ofTexts (options : ExtractionOptions) (collapse : Bool) :
    MessageId.split (String.ofList ((ofTexts tag texts).content.print options collapse [])) =
      (MessageId.ofText (String.join (texts.map (·.1))) collapse).literal := by
  have hcontent : (ofTexts tag texts).content =
      .last { rest := (String.join (texts.map (·.1))).toList } :=
    Content.ofNodes_texts 0 0 {} texts
  have hprint : (ofTexts tag texts).content.print options collapse [] =
      written collapse false (String.join (texts.map (·.1))).toList := by
    rw [hcontent]
    rfl
  rw [MessageId.ofText_eq_split, ← MessageId.split_literal, hprint, literalText_eq]
  cases collapse with
  | false => rfl
  | true => rw [if_pos rfl, Text.collapsed, String.toList_ofList, written_collapse]

/-- Shrinking takes nothing off the edges of a message, since where blanks collapse they are short
already. -/
theorem Markup.Element.message_eq_split (root : Element) (names : List String)
    (options : ExtractionOptions) :
    let message := MessageId.split
      (String.ofList (root.content.print options (options.collapses root) names))
    root.message names options =
      { format := message.id, leading := message.leading, trailing := message.trailing
        elements := (Node.elementsAll root.children).map Element.stripped
        expressions := Node.slotsAll root.children } := by
  intro message
  have hedges : (if options.collapses root then message.shrinkEdges else message) = message := by
    cases hcollapses : options.collapses root with
    | false => rfl
    | true =>
      have hshrink := root.content.shrinkEdges_split_print options names
      rw [← hcollapses] at hshrink
      exact hshrink
  simp only [Element.message]
  rw [hedges]

/-- The message of an element with text alone is that of the text, written as a template. -/
theorem Markup.Element.message_ofTexts (options : ExtractionOptions) :
    let message := (MessageId.ofText (String.join (texts.map (·.1)))
      (options.normalize && !options.preserves tag)).literal
    (ofTexts tag texts).message [] options =
      { format := message.id, leading := message.leading, trailing := message.trailing
        elements := [], expressions := [] } := by
  have hcollapses : options.collapses (ofTexts tag texts) =
      (options.normalize && !options.preserves tag) := rfl
  intro message
  rw [message_eq_split, hcollapses, split_print_ofTexts, elementsAll_ofTexts, slotsAll_ofTexts]
  rfl

/-- The message of an element with text alone, and no names, is the message id of the text: it has
its edges, and its template shows the id and asks for no values. The template is the id itself unless
there is something to escape in it. -/
theorem extract_texts (options : ExtractionOptions) :
    let collapse := options.normalize && !options.preserves tag
    let message := MessageId.ofText (String.join (texts.map (·.1))) collapse
    let format := String.ofList (literalText message.id.toList)
    extract (.ofTexts tag texts) [] options = .ok
      { format, leading := message.leading, trailing := message.trailing
        elements := [], expressions := [] } ∧
    (∀ resolve, fillText resolve format = .ok message.id) ∧
    referencesIn format.toList = [] ∧
    (format = message.id ↔ (∀ c ∈ message.id.toList, isReserved c = false) ∧
      ∀ name, isName name = true → ¬ reference name <:+: message.id.toList) := by
  intro collapse message format
  have hformat : format.toList = literalText message.id.toList := String.toList_ofList
  refine ⟨?_, ?_, ?_, ?_⟩
  · refine extract_eq_ok_iff_message.2 ⟨rfl, ?_, Element.message_ofTexts tag texts options⟩
    exact checkCount_eq_ok_iff.2 (.inl (by rw [Element.slotsAll_ofTexts]; rfl))
  · intro resolve
    rw [fillText_literalText, String.ofList_toList]
  · rw [hformat, referencesIn_literalText]
  · rw [← String.toList_inj, hformat, literalText_eq, written_eq_self_iff]

example : extract (.ofTexts { name := "p" } [(r" a  {", none), (r"b}  ", some 2)]) []
    { normalize := true } =
      .ok { format := "a \\{b}", leading := " ", trailing := " "
            elements := [], expressions := [] } := by rfl

end Phrasebook
