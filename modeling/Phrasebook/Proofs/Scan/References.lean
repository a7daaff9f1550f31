-- SUMMARY: The references of a scanned catalog are exactly the occurrences of messages in the unit.
import Phrasebook.Proofs.Scan.Findings

/-!
# References

`Occurs` says, without a walk, where a message occurs among the nodes of a unit: as a text, as the
value of an attribute, or as a message element. A scan refers to all of these and to nothing else
(`mem_references_scan`).
-/
namespace Phrasebook

open Markup

/-! ## Occurrences -/

/-- The message `id` occurs among the nodes, at a line. -/
inductive Occurs (options : ScanOptions) (nodes : List Node) (id : String) : Line → Prop
  /-- A text that the walk reaches. -/
  | text {around : List Tag} {value : String} {own : Line}
      (place : (around, .text value own) ∈ Node.placesAll [] nodes)
      (reached : options.reaches around = true)
      (id_eq : (MessageId.ofText value (options.collapses around)).id = id) :
      Occurs options nodes id (nearestLine own around)
  /-- A literal value of a translatable attribute, on an element that is entered. -/
  | value {around : List Tag} {tag : Tag} {children : List Node} {name text : String}
      (place : (around, .element tag children) ∈ Node.placesAll [] nodes)
      (reached : options.reaches around = true)
      (entered : options.excludes tag = false ∧ tag.hasAttribute options.messageAttribute = false)
      (mem : ⟨name, .literal text⟩ ∈ tag.attributes)
      (translatable : name ∈ options.translatableAttributes)
      (id_eq : (MessageId.ofText text (options.collapses (tag :: around))).id = id) :
      Occurs options nodes id (nearestLine tag.line around)
  /-- An element with the message attribute, from which a message can be extracted. -/
  | message {around : List Tag} {tag : Tag} {children : List Node} {marker : Attribute}
      {names : List String} {extraction : Extraction}
      (place : (around, .element tag children) ∈ Node.placesAll [] nodes)
      (reached : options.reaches around = true)
      (scanned : options.excludes tag = false)
      (marked : tag.attribute? options.messageAttribute = some marker)
      (declared : declaredNames options.messageAttribute marker.value = .ok names)
      (extracted : extract ⟨tag, children⟩ names
        { normalize    := options.collapses (tag :: around)
          preserveTags := options.preserveTags
          allowUnused  := options.allowUnused } = .ok extraction)
      (id_eq : extraction.format = id) :
      Occurs options nodes id (nearestLine tag.line around)

/-! ## Occurrences among the findings -/

namespace Finding

variable {options : ScanOptions} {id : String} {line own : Line} {normalize : Bool}
  {comment : Option String}

theorem mem_ofId {found : String} {source : Option String} :
    .occurrence id line comment ∈ ofId found own source ↔
      id ≠ "" ∧ found = id ∧ line = own ∧ comment = source := by
  by_cases hempty : found = ""
  · have hnil : ofId found own source = [] := if_pos (String.isEmpty_iff.2 hempty)
    rw [hnil]
    constructor
    · intro h
      cases h
    · rintro ⟨hid, rfl, -⟩
      exact absurd hempty hid
  · have hsingle : ofId found own source = [.occurrence found own source] :=
      if_neg (mt String.isEmpty_iff.1 hempty)
    rw [hsingle, List.mem_singleton, Finding.occurrence.injEq]
    constructor
    · rintro ⟨rfl, hline, hcomment⟩
      exact ⟨hempty, rfl, hline, hcomment⟩
    · rintro ⟨-, rfl, hline, hcomment⟩
      exact ⟨rfl, hline, hcomment⟩

theorem mem_ofText {text : String} :
    .occurrence id line comment ∈ ofText text own normalize ↔
      id ≠ "" ∧ (MessageId.ofText text normalize).id = id ∧ line = own ∧ comment = none :=
  mem_ofId

theorem mem_ofAttribute {candidate : Attribute} :
    .occurrence id line comment ∈ ofAttribute options own normalize candidate ↔
      candidate.name ∈ options.translatableAttributes ∧
        ∃ value, candidate.value = .literal value ∧
          .occurrence id line comment ∈ ofText value own normalize := by
  unfold ofAttribute
  cases candidate.value <;> simp [AttributeValue.literal?]

theorem template_eq_ok_iff {element : Element} {value : AttributeValue} :
    Report.template options element value normalize = .ok id ↔
      ∃ names extraction, declaredNames options.messageAttribute value = .ok names ∧
        extract element names
            { normalize
              preserveTags := options.preserveTags
              allowUnused  := options.allowUnused } =
          .ok extraction ∧ extraction.format = id := by
  unfold Report.template
  cases declaredNames options.messageAttribute value with
  | error error => simp [bind, Except.bind]
  | ok names =>
    cases hextract : extract element names
        { normalize, preserveTags := options.preserveTags, allowUnused := options.allowUnused } with
    | error error => simp [bind, Except.bind, hextract]
    | ok extraction => simp [bind, Except.bind, pure, Except.pure, hextract]

theorem mem_ofMessage {element : Element} {value : AttributeValue} :
    .occurrence id line comment ∈ ofMessage options element value own normalize ↔
      id ≠ "" ∧ Report.template options element value normalize = .ok id ∧ line = own ∧
        comment = Report.commentOn options element.tag := by
  unfold ofMessage
  cases Report.template options element value normalize with
  | error error => simp
  | ok found => simp only [mem_ofId, Except.ok.injEq]

end Finding

namespace ScanOptions

variable {options : ScanOptions} {nodes : List Node} {id : String} {line : Line}

/-- A finding is made at a place that the walk reaches. -/
theorem mem_findings_iff {finding : Finding} :
    finding ∈ options.findings nodes ↔
      ∃ around node, (around, node) ∈ Node.placesAll [] nodes ∧ options.reaches around = true ∧
        finding ∈ options.findingsAt around node := by
  rw [findings, findingsIn, List.mem_flatMap]
  constructor
  · rintro ⟨⟨around, node⟩, place, h⟩
    unfold reachedFindings at h
    split at h
    · rename_i reached
      exact ⟨around, node, place, reached, h⟩
    · cases h
  · rintro ⟨around, node, place, reached, h⟩
    exact ⟨_, place, options.reachedFindings_of_reaches reached node ▸ h⟩

/-- What is found at an element occurs there. -/
theorem occurs_of_mem_element {around : List Tag} {tag : Tag} {children : List Node}
    {comment : Option String}
    (place : (around, .element tag children) ∈ Node.placesAll [] nodes)
    (reached : options.reaches around = true)
    (h : .occurrence id line comment ∈ options.findingsAt around (.element tag children)) :
    id ≠ "" ∧ Occurs options nodes id line := by
  rw [findingsAt] at h
  by_cases hexcludes : options.excludes tag = true
  · rw [if_pos hexcludes] at h
    cases h
  · rw [if_neg hexcludes, findingsAtElement] at h
    have scanned : options.excludes tag = false := Bool.not_eq_true _ ▸ hexcludes
    cases hmessage : tag.attribute? options.messageAttribute with
    | some marker =>
      simp only [hmessage, Finding.mem_ofMessage, Finding.template_eq_ok_iff] at h
      obtain ⟨hid, ⟨names, extraction, hnames, hextract, hformat⟩, rfl, -⟩ := h
      exact ⟨hid, .message place reached scanned hmessage hnames hextract hformat⟩
    | none =>
      simp only [hmessage, List.mem_flatMap, Finding.mem_ofAttribute, Finding.mem_ofText] at h
      obtain ⟨⟨name, _⟩, hmem, htranslatable, value, rfl, hid, htext, rfl, -⟩ := h
      have entered : tag.hasAttribute options.messageAttribute = false := by
        rw [Tag.hasAttribute, hmessage]
        rfl
      exact ⟨hid, .value place reached ⟨scanned, entered⟩ hmem htranslatable htext⟩

/-- An occurrence is found at its place. -/
theorem exists_mem_of_occurs (h : Occurs options nodes id line) (hid : id ≠ "") :
    ∃ comment, .occurrence id line comment ∈ options.findings nodes := by
  cases h with
  | text place reached id_eq =>
    refine ⟨none, mem_findings_iff.2 ⟨_, _, place, reached, ?_⟩⟩
    exact Finding.mem_ofText.2 ⟨hid, id_eq, rfl, rfl⟩
  | value place reached entered mem translatable id_eq =>
    obtain ⟨scanned, unmarked⟩ := entered
    have hmessage := Option.not_isSome_iff_eq_none.1 (Bool.eq_false_iff.1 unmarked)
    refine ⟨none, mem_findings_iff.2 ⟨_, _, place, reached, ?_⟩⟩
    rw [findingsAt, scanned, if_neg Bool.false_ne_true, findingsAtElement]
    simp only [hmessage]
    refine List.mem_flatMap.2 ⟨_, mem, Finding.mem_ofAttribute.2 ⟨translatable, _, rfl, ?_⟩⟩
    exact Finding.mem_ofText.2 ⟨hid, id_eq, rfl, rfl⟩
  | @message _ tag _ _ _ _ place reached scanned marked declared extracted id_eq =>
    refine ⟨Report.commentOn options tag, mem_findings_iff.2 ⟨_, _, place, reached, ?_⟩⟩
    rw [findingsAt, scanned, if_neg Bool.false_ne_true, findingsAtElement]
    simp only [marked]
    refine Finding.mem_ofMessage.2 ⟨hid, ?_, rfl, rfl⟩
    exact Finding.template_eq_ok_iff.2 ⟨_, _, declared, extracted, id_eq⟩

theorem exists_mem_findings_iff :
    (∃ comment, .occurrence id line comment ∈ options.findings nodes) ↔
      id ≠ "" ∧ Occurs options nodes id line := by
  constructor
  · rintro ⟨comment, h⟩
    obtain ⟨around, node, place, reached, h⟩ := mem_findings_iff.1 h
    cases node with
    | text value own =>
      obtain ⟨hid, htext, rfl, -⟩ := Finding.mem_ofText.1 h
      exact ⟨hid, .text place reached htext⟩
    | expression slot => cases h
    | element tag children => exact occurs_of_mem_element place reached h
  · rintro ⟨hid, h⟩
    exact exists_mem_of_occurs h hid

end ScanOptions

/-! ## The catalog of a unit -/

/-- The entries of findings refer to the occurrences among the findings. -/
theorem Finding.exists_mem_entries {unit id : String} {location : Location}
    {findings : List Finding} :
    (∃ entry ∈ findings.filterMap (·.entryIn unit),
        entry.id = id ∧ location ∈ entry.references) ↔
      ∃ line, (∃ comment, .occurrence id line comment ∈ findings) ∧
        location = { file := unit, line } := by
  constructor
  · rintro ⟨entry, hentry, rfl, hlocation⟩
    obtain ⟨finding, hfinding, hmade⟩ := List.mem_filterMap.1 hentry
    cases finding with
    | failure error line => cases hmade
    | occurrence id line comment =>
      obtain rfl := Option.some.inj hmade
      exact ⟨line, ⟨comment, hfinding⟩, List.mem_singleton.1 hlocation⟩
  · rintro ⟨line, ⟨comment, hfinding⟩, rfl⟩
    exact ⟨_, List.mem_filterMap.2 ⟨_, hfinding, rfl⟩, rfl, List.mem_singleton_self _⟩

theorem Catalog.mem_references_ofEntries (entries : List Entry) (id : String)
    (location : Location) :
    (id, location) ∈ (ofEntries entries).references ↔
      ∃ entry ∈ entries, entry.id = id ∧ location ∈ entry.references := by
  rw [ofEntries, lawful_empty.mem_references_mergeEntries]
  simp [references, empty, toList]

/-- A scan that skips failing messages refers to a message at a location exactly if the message
occurs there. -/
theorem mem_references_scan (unit : String) (nodes : List Node) (options : ScanOptions) :
    ∃ report, scan unit nodes { options with onError := .skipMessage } = .ok report ∧
      ∀ id location, (id, location) ∈ report.catalog.references ↔
        id ≠ "" ∧ ∃ line, Occurs options nodes id line ∧ location = { file := unit, line } := by
  refine ⟨_, scan_skipMessage unit nodes options, ?_⟩
  intro id location
  rw [Report.ofFindings, Catalog.mem_references_ofEntries, Finding.exists_mem_entries]
  simp only [ScanOptions.exists_mem_findings_iff, and_assoc, exists_and_left]

end Phrasebook
