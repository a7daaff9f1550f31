-- SUMMARY: Reports under the two error policies, without failing messages, and on parts of a unit.
import Phrasebook.Proofs.Scan.Findings

/-!
# Reports

A failing message has no part in a report but its diagnostic. Stopping at it and skipping it
therefore agree up to it, and skipping it is the same as deleting its element
(`scan_policies_agree`). As findings come in document order, what is found in two parts of a unit
merges into what is found in both (`scan_append`).
-/
namespace Phrasebook

open Markup

/-! ## Deleting messages that fail -/

/-- The walk comes upon the element as a message, and no template can be made for it. -/
def ScanOptions.fails (options : ScanOptions) (around : List Tag) (element : Element) : Bool :=
  options.reaches around && !options.excludes element.tag &&
    match element.tag.attribute? options.messageAttribute with
    | some names =>
      !(Report.template options element names.value
        (options.collapses (element.tag :: around))).isOk
    | none => false

mutual
/-- The node without the messages that fail, and no node if it is one. -/
def Markup.Node.withoutFailing (options : ScanOptions) (around : List Tag) : Node → List Node
  | .text value line => [.text value line]
  | .expression slot => [.expression slot]
  | .element tag children =>
    if options.fails around ⟨tag, children⟩ then []
    else [.element tag (withoutFailingAll options (tag :: around) children)]
/-- The nodes inside the elements `around` without the messages that fail. -/
def Markup.Node.withoutFailingAll (options : ScanOptions) (around : List Tag) :
    List Node → List Node
  | [] => []
  | node :: nodes => node.withoutFailing options around ++ withoutFailingAll options around nodes
end

/-- The finding is no failure. -/
def Finding.isOccurrence : Finding → Bool
  | .occurrence .. => true
  | .failure .. => false

namespace ScanOptions

variable {options : ScanOptions} {around : List Tag}

/-- Nothing is deleted where the walk does not come. -/
theorem withoutFailingAll_eq_self (h : options.reaches around = false) (nodes : List Node) :
    Node.withoutFailingAll options around nodes = nodes := by
  induction nodes using Node.inductionAll generalizing around with
  | nil => rfl
  | text value line nodes ih => exact congrArg _ (ih h)
  | expression slot nodes ih => exact congrArg _ (ih h)
  | element tag children nodes ihChildren ih =>
    have hkept : options.fails around ⟨tag, children⟩ = false := by simp [fails, h]
    have hinside : options.reaches (tag :: around) = false := by
      rw [reaches_cons, h, Bool.and_false]
    rw [Node.withoutFailingAll, Node.withoutFailing, hkept, ih h, ihChildren hinside]
    rfl

theorem isOccurrence_of_mem_ofId {id : String} {line : Line} {comment : Option String}
    {finding : Finding} (h : finding ∈ Finding.ofId id line comment) :
    finding.isOccurrence = true := by
  unfold Finding.ofId at h
  split at h
  · cases h
  · rw [List.mem_singleton.1 h]
    rfl

theorem isOccurrence_of_mem_ofAttribute {line : Line} {normalize : Bool} {candidate : Attribute}
    {finding : Finding} (h : finding ∈ Finding.ofAttribute options line normalize candidate) :
    finding.isOccurrence = true := by
  unfold Finding.ofAttribute at h
  split at h
  · cases hvalue : candidate.value.literal? with
    | none => simp [hvalue] at h
    | some text => exact isOccurrence_of_mem_ofId (by simpa [hvalue, Finding.ofText] using h)
  · cases h

/-- An element that is kept makes no failure. -/
theorem isOccurrence_of_not_fails {tag : Tag} {children : List Node}
    (hreached : options.reaches around = true)
    (hkept : options.fails around ⟨tag, children⟩ = false) {finding : Finding}
    (h : finding ∈ options.findingsAt around (.element tag children)) :
    finding.isOccurrence = true := by
  rw [findingsAt] at h
  by_cases hexcludes : options.excludes tag = true
  · rw [if_pos hexcludes] at h
    cases h
  · rw [if_neg hexcludes, findingsAtElement] at h
    cases hmessage : tag.attribute? options.messageAttribute with
    | some names =>
      simp only [hmessage] at h
      simp only [fails, hreached, hexcludes, hmessage] at hkept
      unfold Finding.ofMessage at h
      cases htemplate : Report.template options ⟨tag, children⟩ names.value
          (options.collapses (tag :: around)) with
      | ok id => exact isOccurrence_of_mem_ofId (by simpa [htemplate] using h)
      | error error => simp [htemplate, Except.isOk, Except.toBool] at hkept
    | none =>
      simp only [hmessage] at h
      obtain ⟨candidate, -, hfinding⟩ := List.mem_flatMap.1 h
      exact isOccurrence_of_mem_ofAttribute hfinding

/-- An element that is entered has findings that do not depend on what stands inside it. -/
theorem findingsAt_of_enters {tag : Tag} (h : options.enters tag = true) (xs ys : List Node) :
    options.findingsAt around (.element tag xs) = options.findingsAt around (.element tag ys) := by
  obtain ⟨hexcludes, hmessage⟩ := Bool.and_eq_true_iff.1 h
  have hnone : tag.attribute? options.messageAttribute = none := by
    simpa [Tag.hasAttribute] using hmessage
  simp only [findingsAt, findingsAtElement, hnone]

/-- A message that fails makes nothing but a failure. -/
theorem findings_of_fails {tag : Tag} {children : List Node}
    (h : options.fails around ⟨tag, children⟩ = true) :
    options.enters tag = false ∧
      (options.findingsAt around (.element tag children)).filter Finding.isOccurrence = [] := by
  unfold fails at h
  cases hmessage : tag.attribute? options.messageAttribute with
  | none => simp [hmessage] at h
  | some names =>
    refine ⟨options.enters_of_message hmessage, ?_⟩
    simp only [hmessage, Bool.and_eq_true, Bool.not_eq_true'] at h
    obtain ⟨⟨-, hexcludes⟩, htemplate⟩ := h
    rw [findingsAt, hexcludes, if_neg Bool.false_ne_true, findingsAtElement]
    simp only [hmessage]
    unfold Finding.ofMessage
    cases hresult : Report.template options ⟨tag, children⟩ names.value
        (options.collapses (tag :: around)) with
    | ok id => simp [hresult, Except.isOk, Except.toBool] at htemplate
    | error error => rfl

/-- A kept element makes its findings whatever is deleted inside it. -/
theorem reachedFindings_of_not_fails {tag : Tag} {children : List Node}
    (hkept : options.fails around ⟨tag, children⟩ = false) :
    options.reachedFindings
        (around, .element tag (Node.withoutFailingAll options (tag :: around) children)) =
      (options.reachedFindings (around, .element tag children)).filter Finding.isOccurrence := by
  cases hreached : options.reaches around with
  | false =>
    rw [options.reachedFindings_of_not_reaches hreached,
      options.reachedFindings_of_not_reaches hreached]
    rfl
  | true =>
    rw [options.reachedFindings_of_reaches hreached, options.reachedFindings_of_reaches hreached,
      List.filter_eq_self.2 fun _ h => isOccurrence_of_not_fails hreached hkept h]
    cases henters : options.enters tag with
    | true => exact findingsAt_of_enters henters _ _
    | false =>
      have hinside : options.reaches (tag :: around) = false := by
        rw [reaches_cons, henters, Bool.false_and]
      rw [withoutFailingAll_eq_self hinside]

/-- Deleting the messages that fail deletes the failures from the findings. -/
theorem findingsIn_withoutFailingAll (around : List Tag) (nodes : List Node) :
    options.findingsIn around (Node.withoutFailingAll options around nodes) =
      (options.findingsIn around nodes).filter Finding.isOccurrence := by
  induction nodes using Node.inductionAll generalizing around with
  | nil => rfl
  | text value own nodes ih =>
    have hself : ∀ finding ∈ options.reachedFindings (around, .text value own),
        finding.isOccurrence = true := by
      intro finding h
      unfold reachedFindings at h
      split at h
      · exact isOccurrence_of_mem_ofId h
      · cases h
    rw [findingsIn_text, List.filter_append, List.filter_eq_self.2 hself, ← ih]
    rfl
  | expression slot nodes ih =>
    have hnone : options.reachedFindings (around, .expression slot) = [] := by
      unfold reachedFindings
      split <;> rfl
    rw [findingsIn_expression, hnone, List.nil_append, ← ih]
    exact (options.findingsIn_expression ..).trans (by rw [hnone]; rfl)
  | element tag children nodes ihChildren ih =>
    rw [findingsIn_element, List.filter_append, List.filter_append, ← ihChildren, ← ih,
      Node.withoutFailingAll, Node.withoutFailing]
    cases hkept : options.fails around ⟨tag, children⟩ with
    | false =>
      rw [if_neg Bool.false_ne_true, List.singleton_append, findingsIn_element,
        reachedFindings_of_not_fails hkept]
    | true =>
      obtain ⟨hentered, hfailure⟩ := findings_of_fails hkept
      have hinside : options.reaches (tag :: around) = false := by
        rw [reaches_cons, hentered, Bool.false_and]
      have hnone : (options.reachedFindings (around, .element tag children)).filter
          Finding.isOccurrence = [] := by
        unfold reachedFindings
        split
        · exact hfailure
        · rfl
      rw [if_pos rfl, hnone, options.findingsIn_eq_nil hinside]
      rfl

-- the name that the message declares has no expression
example :
    Node.withoutFailingAll {} []
        [.element { name := "p", attributes := [⟨"i18nMsg", .literal "name"⟩] } [.text "Hi" none],
          .text "Fine" none] =
      [.text "Fine" none] := by rfl

end ScanOptions

/-! ## The two policies -/

theorem Finding.entries_filter_isOccurrence (unit : String) (findings : List Finding) :
    (findings.filter isOccurrence).filterMap (·.entryIn unit) =
      findings.filterMap (·.entryIn unit) := by
  rw [List.filterMap_filter]
  congr 1
  funext finding
  cases finding <;> rfl

theorem Finding.errors_filter_isOccurrence (unit : String) (findings : List Finding) :
    (findings.filter isOccurrence).filterMap (·.errorIn unit) = [] := by
  rw [List.filterMap_filter, List.filterMap_eq_nil_iff]
  intro finding _
  cases finding <;> rfl

/-- Skipping failing messages always makes a report. Stopping at failing messages makes the same
report if it has no diagnostic, and fails with the first diagnostic otherwise. Without the failing
messages the report is the same but for the diagnostics, of which there are none. -/
theorem scan_policies_agree (unit : String) (nodes : List Node) (options : ScanOptions) :
    ∃ report, scan unit nodes { options with onError := .skipMessage } = .ok report ∧
      scan unit nodes { options with onError := .abort } =
        (match report.diagnostics with
          | [] => .ok report
          | first :: _ => .error first) ∧
      scan unit (Node.withoutFailingAll options [] nodes)
          { options with onError := .skipMessage } =
        .ok { report with diagnostics := [] } := by
  refine ⟨_, scan_skipMessage unit nodes options, scan_abort unit nodes options, ?_⟩
  rw [scan_skipMessage, ScanOptions.findings, ScanOptions.findingsIn_withoutFailingAll,
    Report.ofFindings, Finding.entries_filter_isOccurrence, Finding.errors_filter_isOccurrence]
  rfl

/-! ## Parts of a unit -/

/-- What is found in two parts of a unit, one behind the other, merges into what is found in the
unit. -/
theorem scan_append (unit : String) (xs ys : List Node) (options : ScanOptions) :
    ∃ first second whole,
      scan unit xs { options with onError := .skipMessage } = .ok first ∧
      scan unit ys { options with onError := .skipMessage } = .ok second ∧
      scan unit (xs ++ ys) { options with onError := .skipMessage } = .ok whole ∧
      whole.catalog = Catalog.mergeAll .keepFirst [first.catalog, second.catalog] ∧
      whole.diagnostics = first.diagnostics ++ second.diagnostics := by
  have hfindings : options.findings (xs ++ ys) = options.findings xs ++ options.findings ys :=
    options.findingsIn_append [] xs ys
  refine ⟨_, _, _, scan_skipMessage unit xs options, scan_skipMessage unit ys options,
    scan_skipMessage unit (xs ++ ys) options, ?_, ?_⟩
  · rw [hfindings, Report.ofFindings, List.filterMap_append, Catalog.ofEntries_append]
    rfl
  · rw [hfindings]
    exact List.filterMap_append

end Phrasebook
