-- SUMMARY: Comments for the translators have no part in what a scan finds or how it fails.
import Phrasebook.Proofs.Config.Checks
import Phrasebook.Proofs.Message.Outcome
import Phrasebook.Proofs.Scan.Findings

/-!
# Comments

Nodes that differ in the values of the attributes of one name are the same nodes once these values
are taken out (`Node.redactedAll`). A scan looks at an attribute by its name, so the values make a
difference only where their attribute is the message attribute or translatable. Settings that pass
their check do not use the comment attribute in this way; then the findings are the same but for
the comments on them (`ScanOptions.uncommented_findings_redactedAll`), and so are the reports
(`scan_comments`).
-/
namespace Phrasebook

open Markup

variable {name : String}

/-! ## Redacted markup -/

namespace Markup

/-- The attribute without its value, if it has the name. -/
def Attribute.redacted (name : String) (candidate : Attribute) : Attribute :=
  if candidate.name == name then { candidate with value := .flag } else candidate

/-- The tag without the values of the attributes of a name. -/
def Tag.redacted (name : String) (tag : Tag) : Tag :=
  { tag with attributes := tag.attributes.map (Attribute.redacted name) }

mutual
/-- The node without the values of the attributes of a name. -/
def Node.redacted (name : String) : Node → Node
  | .text value line => .text value line
  | .expression slot => .expression slot
  | .element tag children => .element (tag.redacted name) (redactedAll name children)
def Node.redactedAll (name : String) : List Node → List Node
  | [] => []
  | node :: nodes => node.redacted name :: redactedAll name nodes
end

@[simp] theorem Attribute.name_redacted (candidate : Attribute) :
    (candidate.redacted name).name = candidate.name := by
  unfold redacted
  split <;> rfl

theorem Attribute.redacted_eq_self {candidate : Attribute} (h : candidate.name ≠ name) :
    candidate.redacted name = candidate := by
  rw [redacted, if_neg (by simpa using h)]

@[simp] theorem Tag.line_redacted (tag : Tag) : (tag.redacted name).line = tag.line := rfl

theorem Tag.attribute?_redacted (tag : Tag) (other : String) :
    (tag.redacted name).attribute? other =
      (tag.attribute? other).map (Attribute.redacted name) := by
  simp only [attribute?, redacted, List.find?_map, Function.comp_def, Attribute.name_redacted]

/-- Attributes of other names stay. -/
theorem Tag.attribute?_redacted_of_ne {other : String} (h : other ≠ name) (tag : Tag) :
    (tag.redacted name).attribute? other = tag.attribute? other := by
  rw [attribute?_redacted]
  cases hfound : tag.attribute? other with
  | none => rfl
  | some found =>
    have hname : found.name = other := by simpa using List.find?_some hfound
    rw [Option.map_some, Attribute.redacted_eq_self (hname ▸ h)]

@[simp] theorem Tag.hasAttribute_redacted (tag : Tag) (other : String) :
    (tag.redacted name).hasAttribute other = tag.hasAttribute other := by
  rw [hasAttribute, attribute?_redacted, Option.isSome_map, hasAttribute]

theorem Node.length_elementsAll_redactedAll (nodes : List Node) :
    (elementsAll (redactedAll name nodes)).length = (elementsAll nodes).length := by
  induction nodes using Node.inductionAll with
  | nil => rfl
  | text value line nodes ih => exact ih
  | expression slot nodes ih => exact ih
  | element tag children nodes ihChildren ih =>
    simp [redactedAll, redacted, elementsAll, elements, ihChildren, ih]

theorem Node.slotsAll_redactedAll (nodes : List Node) :
    slotsAll (redactedAll name nodes) = slotsAll nodes := by
  induction nodes using Node.inductionAll with
  | nil => rfl
  | text value line nodes ih => exact ih
  | expression slot nodes ih => exact congrArg (slot :: ·) ih
  | element tag children nodes ihChildren ih =>
    simp [redactedAll, redacted, slotsAll, slots, ihChildren, ih]

end Markup

/-! ## Templates of redacted markup -/

/-- A template holds no attributes. -/
theorem Content.print_redactedAll (options : ExtractionOptions) (collapse : Bool)
    (names : List String) (nodes : List Node) (k j : Nat) (run : Run) :
    (ofNodes k j run (Node.redactedAll name nodes)).print options collapse names =
      (ofNodes k j run nodes).print options collapse names := by
  induction nodes using Node.inductionAll generalizing collapse k j run with
  | nil => rfl
  | text value line nodes ih => exact ih collapse k j _
  | expression slot nodes ih => exact ih collapse k (j + 1) _
  | element tag children nodes ihChildren ih =>
    have hpreserves : options.preserves (tag.redacted name) = options.preserves tag := rfl
    simp only [Node.redactedAll, Node.redacted, ofNodes_element, print, hpreserves, ihChildren, ih,
      Node.length_elementsAll_redactedAll, Node.slotsAll_redactedAll]

/-- The template of an element, or the lack of one, is that of the redacted element. -/
theorem Report.template_redacted (options : ScanOptions) (tag : Tag) (children : List Node)
    (names : AttributeValue) (normalize : Bool) :
    template options ⟨tag.redacted name, Node.redactedAll name children⟩ names normalize =
      template options ⟨tag, children⟩ names normalize := by
  have hformat (names : List String) (extraction : ExtractionOptions) :
      (Element.message ⟨tag.redacted name, Node.redactedAll name children⟩ names
        extraction).format = (Element.message ⟨tag, children⟩ names extraction).format := by
    have hcollapses : extraction.collapses ⟨tag.redacted name, Node.redactedAll name children⟩ =
        extraction.collapses ⟨tag, children⟩ := rfl
    simp only [Element.message, Element.content, hcollapses, Content.print_redactedAll]
  simp only [template, extract_eq, Node.slotsAll_redactedAll, bind_assoc, pure_bind, hformat]

/-! ## Findings without their comments -/

/-- The finding without the comment on it. -/
def Finding.uncommented : Finding → Finding
  | .occurrence id line _ => .occurrence id line none
  | .failure error line => .failure error line

theorem Finding.uncommented_ofId (id : String) (line : Line) (comment comment' : Option String) :
    (ofId id line comment).map uncommented = (ofId id line comment').map uncommented := by
  unfold ofId
  split <;> rfl

namespace ScanOptions

variable {options : ScanOptions}

theorem nearestLine_redacted (own : Line) (around : List Tag) :
    nearestLine own (around.map (Tag.redacted name)) = nearestLine own around := by
  rw [nearestLine, nearestLine, List.findSome?_map]
  rfl

theorem collapses_redacted (name : String) (around : List Tag) :
    options.collapses (around.map (Tag.redacted name)) = options.collapses around := by
  rw [collapses, collapses, List.any_map]
  rfl

theorem excludes_redacted (tag : Tag) :
    options.excludes (tag.redacted name) = options.excludes tag := by
  rw [excludes, excludes, Tag.hasAttribute_redacted]
  rfl

theorem reaches_redacted (around : List Tag) :
    options.reaches (around.map (Tag.redacted name)) = options.reaches around := by
  have henters : options.enters ∘ Tag.redacted name = options.enters := by
    funext tag
    simp only [Function.comp_apply, enters, excludes_redacted, Tag.hasAttribute_redacted]
  rw [reaches, reaches, List.all_map, henters]

/-- The attribute is neither the message attribute nor translatable. -/
def Ignores (options : ScanOptions) (name : String) : Prop :=
  options.messageAttribute ≠ name ∧ name ∉ options.translatableAttributes

theorem ofAttribute_redacted (hname : options.Ignores name) (line : Line) (normalize : Bool)
    (candidate : Attribute) :
    Finding.ofAttribute options line normalize (candidate.redacted name) =
      Finding.ofAttribute options line normalize candidate := by
  by_cases h : candidate.name = name
  · have huntranslated : options.translatableAttributes.contains candidate.name = false := by
      simpa [h] using hname.2
    simp only [Finding.ofAttribute, Attribute.name_redacted, huntranslated]
    rfl
  · rw [Attribute.redacted_eq_self h]

theorem uncommented_findingsAt_redacted (hname : options.Ignores name) (around : List Tag)
    (node : Node) :
    (options.findingsAt (around.map (Tag.redacted name)) (node.redacted name)).map
        Finding.uncommented =
      (options.findingsAt around node).map Finding.uncommented := by
  cases node with
  | text value own =>
    simp only [Node.redacted, findingsAt, nearestLine_redacted, collapses_redacted]
  | expression slot => rfl
  | element tag children =>
    have hcollapses := options.collapses_redacted name (tag :: around)
    rw [List.map_cons] at hcollapses
    simp only [Node.redacted, findingsAt, excludes_redacted, nearestLine_redacted, hcollapses,
      Tag.line_redacted, findingsAtElement, Tag.attribute?_redacted_of_ne hname.1]
    split
    · rfl
    · split
      · simp only [Finding.ofMessage, Report.template_redacted]
        split
        · exact Finding.uncommented_ofId ..
        · rfl
      · simp only [Tag.redacted, List.flatMap_map, ofAttribute_redacted hname]

/-- The values of the attribute make no difference to the findings but for the comments on them. -/
theorem uncommented_findingsIn_redactedAll (hname : options.Ignores name) (around : List Tag)
    (nodes : List Node) :
    (options.findingsIn (around.map (Tag.redacted name)) (Node.redactedAll name nodes)).map
        Finding.uncommented =
      (options.findingsIn around nodes).map Finding.uncommented := by
  have hplace (around : List Tag) (node : Node) :
      (options.reachedFindings (around.map (Tag.redacted name), node.redacted name)).map
          Finding.uncommented =
        (options.reachedFindings (around, node)).map Finding.uncommented := by
    simp only [reachedFindings, reaches_redacted]
    split
    · exact uncommented_findingsAt_redacted hname around node
    · rfl
  induction nodes using Node.inductionAll generalizing around with
  | nil => rfl
  | text value own nodes ih =>
    rw [Node.redactedAll, Node.redacted, findingsIn_text, findingsIn_text, List.map_append,
      List.map_append, ih around]
    exact congrArg (· ++ _) (hplace around (.text value own))
  | expression slot nodes ih =>
    rw [Node.redactedAll, Node.redacted, findingsIn_expression, findingsIn_expression,
      List.map_append, List.map_append, ih around]
    exact congrArg (· ++ _) (hplace around (.expression slot))
  | element tag children nodes ihChildren ih =>
    have hinside := ihChildren (tag :: around)
    rw [List.map_cons] at hinside
    rw [Node.redactedAll, Node.redacted, findingsIn_element, findingsIn_element]
    simp only [List.map_append, ih around, hinside]
    exact congrArg (· ++ _ ++ _) (hplace around (.element tag children))

end ScanOptions

/-! ## Reports without their comments -/

/-- The entry without its comment. -/
def Entry.withoutComment (entry : Entry) : Entry := { entry with comment := none }

/-- The catalog without its comments. -/
def Catalog.withoutComments (catalog : Catalog) : Catalog :=
  { catalog with entries := catalog.entries.map Entry.withoutComment }

/-- The report without the comments in its catalog. -/
def Report.withoutComments (report : Report) : Report :=
  { report with catalog := report.catalog.withoutComments }

theorem Catalog.toList_withoutComments (catalog : Catalog) :
    catalog.withoutComments.toList = catalog.toList.map Entry.withoutComment :=
  Array.toList_map

theorem Catalog.withoutComments_update {change change' : Entry → Entry}
    (h : ∀ entry, (change entry).withoutComment = change' entry.withoutComment)
    (catalog : Catalog) (id : String) :
    (catalog.update id change).2.withoutComments =
      (catalog.withoutComments.update id change').2 := by
  have hindex : catalog.withoutComments.index = catalog.index := rfl
  rw [update, update, hindex]
  cases catalog.index[id]? with
  | none =>
    have hnew : (change { id }).withoutComment = change' { id } := h { id }
    simp only [withoutComments, Array.map_push, hnew, Array.size_map]
  | some position =>
    have hmodify : (catalog.entries.modify position change).map Entry.withoutComment =
        (catalog.entries.map Entry.withoutComment).modify position change' := by
      apply Array.ext_getElem?
      intro i
      rw [Array.getElem?_map, Array.getElem?_modify, Array.getElem?_modify, Array.getElem?_map]
      split
      · simp only [Option.map_map, Function.comp_def, h]
      · rfl
    simp only [withoutComments, hmodify]

theorem Catalog.withoutComments_add (catalog : Catalog) (id : String) (location : Location)
    (comment : Option String) :
    (catalog.add id location comment).2.withoutComments =
      (catalog.withoutComments.add id location none).2 := by
  refine withoutComments_update (fun entry => ?_) catalog id
  rw [Entry.addReference_eq, Entry.addReference_eq]
  rfl

namespace Report

variable {policy : ErrorPolicy}

/-- A finding makes the same of a report, but for its comment. -/
theorem receive_uncommented (report : Report) (finding : Finding) :
    report.withoutComments.receive policy finding.uncommented =
      (report.receive policy finding).map withoutComments := by
  cases finding with
  | occurrence id line comment =>
    simp only [Finding.uncommented, receive, record, Except.map, withoutComments,
      Catalog.withoutComments_add]
  | failure error line => cases policy <;> rfl

/-- A walk makes the same of a report, but for the comments. -/
theorem replay_uncommented (report : Report) (findings : List Finding) :
    report.withoutComments.replay policy (findings.map Finding.uncommented) =
      (report.replay policy findings).map withoutComments := by
  induction findings generalizing report with
  | nil => rfl
  | cons finding findings ih =>
    rw [List.map_cons, replay_cons, replay_cons, receive_uncommented]
    cases report.receive policy finding with
    | error failure => rfl
    | ok next => exact ih next

end Report

/-! ## Scanning -/

/-- Without its comments, a report can be told from nodes without the values of the attribute. -/
theorem withoutComments_scan_redactedAll {options : ScanOptions} (hname : options.Ignores name)
    (unit : String) (nodes : List Node) :
    (scan unit (Node.redactedAll name nodes) options).map Report.withoutComments =
      (scan unit nodes options).map Report.withoutComments := by
  have hfindings := ScanOptions.uncommented_findingsIn_redactedAll hname [] nodes
  simp only [scan_eq_replay, ← Report.replay_uncommented]
  exact congrArg _ hfindings

/-- Nodes that differ in nothing but the values of comment attributes are scanned alike, under settings
that pass their check: they fail with one error or make reports that differ in comments only. -/
theorem scan_comments {settings : Settings} (hcheck : settings.check = .ok ()) {xs ys : List Node}
    (h : Node.redactedAll settings.extract.commentAttribute xs =
      Node.redactedAll settings.extract.commentAttribute ys) (unit : String) :
    (∃ error, scan unit xs settings.extract.toScanOptions = .error error ∧
        scan unit ys settings.extract.toScanOptions = .error error) ∨
      ∃ report other, scan unit xs settings.extract.toScanOptions = .ok report ∧
        scan unit ys settings.extract.toScanOptions = .ok other ∧
        report.diagnostics = other.diagnostics ∧
        report.catalog.toList.map Entry.withoutComment =
          other.catalog.toList.map Entry.withoutComment := by
  have hname : settings.extract.Ignores settings.extract.commentAttribute :=
    ExtractSettings.attributes_apart (check_then_iff.1 hcheck).1
  have hsame := (withoutComments_scan_redactedAll hname unit xs).symm.trans
    (h ▸ withoutComments_scan_redactedAll hname unit ys)
  cases hxs : scan unit xs settings.extract.toScanOptions with
  | error error =>
    cases hys : scan unit ys settings.extract.toScanOptions with
    | error other =>
      have herror : error = other := by simpa [hxs, hys, Except.map] using hsame
      exact .inl ⟨error, rfl, by rw [herror]⟩
    | ok other => simp [hxs, hys, Except.map] at hsame
  | ok report =>
    cases hys : scan unit ys settings.extract.toScanOptions with
    | error other => simp [hxs, hys, Except.map] at hsame
    | ok other =>
      have hreport : report.withoutComments = other.withoutComments := by
        simpa [hxs, hys, Except.map] using hsame
      obtain ⟨-, hcatalog, hdiagnostics⟩ := Report.mk.inj hreport
      refine .inr ⟨report, other, rfl, rfl, hdiagnostics, ?_⟩
      rw [← Catalog.toList_withoutComments, hcatalog, Catalog.toList_withoutComments]

/-- A button with a message, and the value of a comment on it. -/
def button (comment : AttributeValue) : Node :=
  .element { name := "button", attributes := [⟨"i18nMsg", .flag⟩, ⟨"i18nComment", comment⟩] }
    [.text "Save" none]

/-- The default settings pass their check, and nodes that differ in a comment are scanned alike under
them. -/
theorem scan_comments_button :
    ({} : Settings).check = .ok () ∧
      Node.redactedAll "i18nComment" [button (.literal "on the toolbar")] =
        Node.redactedAll "i18nComment" [button .flag] ∧
      ∃ report other, scan "a.jsx" [button (.literal "on the toolbar")] {} = .ok report ∧
        scan "a.jsx" [button .flag] {} = .ok other ∧
        report.diagnostics = other.diagnostics ∧
        report.catalog.toList.map Entry.withoutComment =
          other.catalog.toList.map Entry.withoutComment := by
  have hcheck : ({} : Settings).check = .ok () := by rfl
  have hsame : Node.redactedAll "i18nComment" [button (.literal "on the toolbar")] =
      Node.redactedAll "i18nComment" [button .flag] := rfl
  refine ⟨hcheck, hsame, ?_⟩
  rcases scan_comments hcheck hsame "a.jsx" with ⟨error, h, -⟩ | h
  · cases h
  · exact h

end Phrasebook
