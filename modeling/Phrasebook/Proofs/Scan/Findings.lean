-- SUMMARY: A scan is its findings in document order, each told by the elements around its node.
import Phrasebook.Proofs.Catalog.Merging
import Phrasebook.Proofs.Message.Content
import Phrasebook.Scan.Unit

/-!
# Findings

The walk hands down the nearest line and whether blanks collapse, and it passes over some elements.
Here both are read off the elements around a node (`nearestLine`, `ScanOptions.collapses`,
`ScanOptions.reaches`), so that every node of the unit has its findings by itself
(`ScanOptions.findingsAt`). The walk meets the findings of all nodes in document order
(`Report.visitAll_eq_replay`); what becomes of them is up to the policy
(`Report.replay_skipMessage`, `Report.replay_abort`).
-/
namespace Phrasebook

open Markup

/-! ## Places -/

mutual
/-- A node and all nodes inside it, in document order, each with the elements around it, the
innermost first. -/
def Markup.Node.places (around : List Tag) : Node → List (List Tag × Node)
  | .text value line => [(around, .text value line)]
  | .expression slot => [(around, .expression slot)]
  | .element tag children => (around, .element tag children) :: placesAll (tag :: around) children
def Markup.Node.placesAll (around : List Tag) : List Node → List (List Tag × Node)
  | [] => []
  | node :: nodes => node.places around ++ placesAll around nodes
end

theorem Markup.Node.placesAll_append (around : List Tag) (xs ys : List Node) :
    placesAll around (xs ++ ys) = placesAll around xs ++ placesAll around ys := by
  induction xs with
  | nil => rfl
  | cons x xs ih => rw [List.cons_append, placesAll, ih, placesAll, List.append_assoc]

/-- The line of a node: its own or else that of the nearest element around it that has one. -/
def nearestLine (own : Line) (around : List Tag) : Line := own <|> around.findSome? Tag.line

theorem findSome?_line_cons (tag : Tag) (around : List Tag) :
    (tag :: around).findSome? Tag.line = nearestLine tag.line around := by
  rw [nearestLine, List.findSome?_cons]
  cases tag.line <;> rfl

namespace ScanOptions

variable (options : ScanOptions)

/-- What stands inside the element is scanned node by node. -/
def enters (tag : Tag) : Bool :=
  !options.excludes tag && !tag.hasAttribute options.messageAttribute

/-- The walk reaches what stands inside all these elements. -/
def reaches (around : List Tag) : Bool := around.all options.enters

/-- Blanks collapse inside all these elements. -/
def collapses (around : List Tag) : Bool := options.normalize && !around.any options.preserves

theorem reaches_cons (tag : Tag) (around : List Tag) :
    options.reaches (tag :: around) = (options.enters tag && options.reaches around) := rfl

theorem collapses_cons (tag : Tag) (around : List Tag) :
    options.collapses (tag :: around) = (options.collapses around && !options.preserves tag) := by
  rw [collapses, List.any_cons, Bool.not_or, collapses, Bool.and_assoc, Bool.and_comm (!_) (!_)]

theorem enters_of_message {tag : Tag} {names : Attribute}
    (h : tag.attribute? options.messageAttribute = some names) : options.enters tag = false := by
  simp [enters, Tag.hasAttribute, h]

theorem enters_of_excludes {tag : Tag} (h : options.excludes tag = true) :
    options.enters tag = false := by
  simp [enters, h]

end ScanOptions

/-! ## Findings -/

/-- What the walk comes upon. -/
inductive Finding where
  /-- A message occurs. -/
  | occurrence (id : String) (line : Line) (comment : Option String)
  /-- A message has no template. -/
  | failure (error : TemplateError) (line : Line)

namespace Finding

/-- The occurrence of a message, if there is anything to translate. -/
def ofId (id : String) (line : Line) (comment : Option String) : List Finding :=
  if id.isEmpty then [] else [.occurrence id line comment]

/-- The finding of a plain text. -/
def ofText (text : String) (line : Line) (normalize : Bool) : List Finding :=
  ofId (MessageId.ofText text normalize).id line none

/-- The finding of an attribute. -/
def ofAttribute (options : ScanOptions) (line : Line) (normalize : Bool) (candidate : Attribute) :
    List Finding :=
  if options.translatableAttributes.contains candidate.name then
    match candidate.value.literal? with
    | some text => ofText text line normalize
    | none => []
  else []

/-- The finding of a message element. -/
def ofMessage (options : ScanOptions) (element : Element) (names : AttributeValue) (line : Line)
    (normalize : Bool) : List Finding :=
  match Report.template options element names normalize with
  | .ok id => ofId id line (Report.commentOn options element.tag)
  | .error error => [.failure error line]

/-- The entry that an occurrence makes. -/
def entryIn (unit : String) : Finding → Option Entry
  | .occurrence id line comment => some { id, references := [{ file := unit, line }], comment }
  | .failure .. => none

/-- The error that a failure makes. -/
def errorIn (unit : String) : Finding → Option LocatedError
  | .occurrence .. => none
  | .failure error line => some { location := { file := unit, line }, error }

end Finding

namespace ScanOptions

variable (options : ScanOptions)

/-- The findings at an element that is not passed over, but for what stands inside it. -/
def findingsAtElement (element : Element) (line : Line) (normalize : Bool) : List Finding :=
  match element.tag.attribute? options.messageAttribute with
  | some names => Finding.ofMessage options element names.value line normalize
  | none => element.tag.attributes.flatMap (Finding.ofAttribute options line normalize)

/-- The findings at a node inside the elements `around`, but for what stands inside the node. -/
def findingsAt (around : List Tag) : Node → List Finding
  | .text value own => Finding.ofText value (nearestLine own around) (options.collapses around)
  | .expression _ => []
  | .element tag children =>
    if options.excludes tag then []
    else
      options.findingsAtElement ⟨tag, children⟩ (nearestLine tag.line around)
        (options.collapses (tag :: around))

/-- The findings at a place, if the walk reaches it. -/
def reachedFindings (place : List Tag × Node) : List Finding :=
  if options.reaches place.1 then options.findingsAt place.1 place.2 else []

/-- The findings in nodes inside the elements `around`. -/
def findingsIn (around : List Tag) (nodes : List Node) : List Finding :=
  (Node.placesAll around nodes).flatMap options.reachedFindings

theorem findingsIn_append (around : List Tag) (xs ys : List Node) :
    options.findingsIn around (xs ++ ys) =
      options.findingsIn around xs ++ options.findingsIn around ys := by
  rw [findingsIn, Node.placesAll_append, List.flatMap_append]
  rfl

theorem findingsIn_text (around : List Tag) (value : String) (own : Line) (nodes : List Node) :
    options.findingsIn around (.text value own :: nodes) =
      options.reachedFindings (around, .text value own) ++ options.findingsIn around nodes := rfl

theorem findingsIn_expression (around : List Tag) (slot : ExpressionSlot) (nodes : List Node) :
    options.findingsIn around (.expression slot :: nodes) =
      options.reachedFindings (around, .expression slot) ++ options.findingsIn around nodes := rfl

theorem findingsIn_element (around : List Tag) (tag : Tag) (children nodes : List Node) :
    options.findingsIn around (.element tag children :: nodes) =
      options.reachedFindings (around, .element tag children) ++
        options.findingsIn (tag :: around) children ++ options.findingsIn around nodes := by
  simp only [findingsIn, Node.placesAll, Node.places, List.flatMap_append, List.flatMap_cons]

theorem reachedFindings_of_reaches {around : List Tag} (h : options.reaches around = true)
    (node : Node) : options.reachedFindings (around, node) = options.findingsAt around node :=
  if_pos h

theorem reachedFindings_of_not_reaches {around : List Tag} (h : options.reaches around = false)
    (node : Node) : options.reachedFindings (around, node) = [] := by
  rw [reachedFindings, h]
  rfl

/-- Nothing is found where the walk does not come. -/
theorem findingsIn_eq_nil {around : List Tag} (h : options.reaches around = false)
    (nodes : List Node) : options.findingsIn around nodes = [] := by
  have hplace := options.reachedFindings_of_not_reaches h
  induction nodes using Node.inductionAll generalizing around with
  | nil => rfl
  | text value own nodes ih =>
    rw [findingsIn_text, hplace, ih h hplace]
    rfl
  | expression slot nodes ih =>
    rw [findingsIn_expression, hplace, ih h hplace]
    rfl
  | element tag children nodes ihChildren ih =>
    have hinside : options.reaches (tag :: around) = false := by
      rw [reaches_cons, h, Bool.and_false]
    rw [findingsIn_element, hplace, ih h hplace,
      ihChildren hinside (options.reachedFindings_of_not_reaches hinside)]
    rfl

end ScanOptions

/-! ## The walk -/

namespace Report

variable {options : ScanOptions} {policy : ErrorPolicy} {report : Report}

/-- Record an occurrence, or treat a failure as the policy says. -/
def receive (policy : ErrorPolicy) (report : Report) : Finding → Except LocatedError Report
  | .occurrence id line comment => .ok (report.record id line comment)
  | .failure error line =>
    let located : LocatedError :=
      { location := ({ file := report.unit } : Location).withLine line, error }
    match policy with
    | .abort => .error located
    | .skipMessage => .ok { report with diagnostics := report.diagnostics ++ [located] }

/-- Receive findings in order. -/
def replay (policy : ErrorPolicy) (report : Report) (findings : List Finding) :
    Except LocatedError Report :=
  findings.foldlM (receive policy) report

theorem replay_cons (finding : Finding) (findings : List Finding) :
    report.replay policy (finding :: findings) =
      report.receive policy finding >>= fun next => next.replay policy findings := rfl

theorem replay_append (xs ys : List Finding) :
    report.replay policy (xs ++ ys) =
      report.replay policy xs >>= fun next => next.replay policy ys :=
  List.foldlM_append

theorem replay_ofId (id : String) (line : Line) (comment : Option String) :
    report.replay policy (Finding.ofId id line comment) =
      .ok (if id.isEmpty then report else report.record id line comment) := by
  unfold Finding.ofId
  split <;> rfl

theorem recordText_eq_replay (text : String) (line : Line) (normalize : Bool) :
    .ok (report.recordText text line normalize) =
      report.replay policy (Finding.ofText text line normalize) := by
  rw [Finding.ofText, replay_ofId]
  rfl

theorem recordAttributes_eq_replay (attributes : List Attribute) (line : Line) (normalize : Bool) :
    .ok (report.recordAttributes options attributes line normalize) =
      report.replay policy (attributes.flatMap (Finding.ofAttribute options line normalize)) := by
  unfold recordAttributes
  induction attributes generalizing report with
  | nil => rfl
  | cons candidate attributes ih =>
    rw [List.foldl_cons, ih, List.flatMap_cons, replay_append, Finding.ofAttribute]
    split
    · cases candidate.value.literal? with
      | none => rfl
      | some text => rw [← recordText_eq_replay]; rfl
    · rfl

theorem recordElement_eq_replay (element : Element) (names : AttributeValue) (line : Line)
    (normalize : Bool) :
    report.recordElement options element names line normalize =
      report.replay options.onError (Finding.ofMessage options element names line normalize) := by
  unfold recordElement Finding.ofMessage
  cases template options element names normalize with
  | ok id =>
    simp only [replay_ofId]
    split <;> rfl
  | error error =>
    simp only [replay_cons, receive]
    cases options.onError <;> rfl

theorem visitAll_cons (line : Line) (normalize : Bool) (node : Node) (nodes : List Node) :
    visitAll options line normalize report (node :: nodes) =
      visit options line normalize report node >>= fun next =>
        visitAll options line normalize next nodes := rfl

/-- The findings at an element come before those inside it, which `hinside` is about. -/
theorem visit_element_eq_replay (report : Report) {around : List Tag}
    (h : options.reaches around = true) (tag : Tag) (children : List Node)
    (hinside : options.reaches (tag :: around) = true → ∀ report,
      visitAll options ((tag :: around).findSome? Tag.line) (options.collapses (tag :: around))
        report children = report.replay options.onError (options.findingsIn (tag :: around) children)) :
    visit options (around.findSome? Tag.line) (options.collapses around) report
        (.element tag children) =
      report.replay options.onError
        (options.findingsAt around (.element tag children) ++
          options.findingsIn (tag :: around) children) := by
  rw [visit, ScanOptions.findingsAt]
  by_cases hexcludes : options.excludes tag = true
  · -- an excluded element hides what stands inside it
    have hhidden : options.reaches (tag :: around) = false := by
      rw [options.reaches_cons, options.enters_of_excludes hexcludes, Bool.false_and]
    rw [if_pos hexcludes, if_pos hexcludes, options.findingsIn_eq_nil hhidden]
    rfl
  · rw [if_neg hexcludes, if_neg hexcludes, options.collapses_cons, ScanOptions.findingsAtElement]
    cases hmessage : tag.attribute? options.messageAttribute with
    | some names =>
      -- so does a message
      have hhidden : options.reaches (tag :: around) = false := by
        rw [options.reaches_cons, options.enters_of_message hmessage, Bool.false_and]
      simp only [options.findingsIn_eq_nil hhidden, List.append_nil]
      exact recordElement_eq_replay _ _ _ _
    | none =>
      have hreached : options.reaches (tag :: around) = true := by
        rw [options.reaches_cons, h, Bool.and_true]
        simp [ScanOptions.enters, hexcludes, Tag.hasAttribute, hmessage]
      rw [findSome?_line_cons, options.collapses_cons] at hinside
      simp only [replay_append, ← recordAttributes_eq_replay]
      exact hinside hreached _

/-- The walk meets the findings of the nodes in document order. -/
theorem visitAll_eq_replay (report : Report) {around : List Tag}
    (h : options.reaches around = true) (nodes : List Node) :
    visitAll options (around.findSome? Tag.line) (options.collapses around) report nodes =
      report.replay options.onError (options.findingsIn around nodes) := by
  induction nodes using Node.inductionAll generalizing around report with
  | nil => rfl
  | text value own nodes ih =>
    rw [visitAll_cons, options.findingsIn_text, replay_append, options.reachedFindings_of_reaches h,
      ScanOptions.findingsAt, ← recordText_eq_replay]
    exact ih _ h
  | expression slot nodes ih =>
    rw [visitAll_cons, options.findingsIn_expression, options.reachedFindings_of_reaches h]
    exact ih report h
  | element tag children nodes ihChildren ih =>
    have hnode := visit_element_eq_replay report h tag children
      fun hreached report => ihChildren report hreached
    rw [visitAll_cons, options.findingsIn_element, replay_append,
      options.reachedFindings_of_reaches h, hnode]
    congr 1
    funext next
    exact ih next h

/-! ## The two policies -/

/-- The report with the entries and errors of further findings. -/
def extend (report : Report) (findings : List Finding) : Report where
  unit        := report.unit
  catalog     := report.catalog.mergeEntries .keepFirst (findings.filterMap (·.entryIn report.unit))
  diagnostics := report.diagnostics ++ findings.filterMap (·.errorIn report.unit)

theorem withLine_unit (line : Line) :
    ({ file := report.unit } : Location).withLine line = { file := report.unit, line } := by
  cases line <;> rfl

theorem receive_occurrence (id : String) (line : Line) (comment : Option String) :
    report.receive policy (.occurrence id line comment) =
      .ok (report.extend [.occurrence id line comment]) := by
  rw [receive, record, withLine_unit, Catalog.add_eq_mergeEntry, extend]
  simp [Finding.entryIn, Finding.errorIn, Catalog.mergeEntries]

theorem extend_extend (xs ys : List Finding) :
    (report.extend xs).extend ys = report.extend (xs ++ ys) := by
  simp [extend, Catalog.mergeEntries]

theorem extend_nil : report.extend [] = report := by
  simp [extend, Catalog.mergeEntries]

/-- Failures are kept as diagnostics. -/
theorem replay_skipMessage (findings : List Finding) :
    report.replay .skipMessage findings = .ok (report.extend findings) := by
  induction findings generalizing report with
  | nil => rw [extend_nil]; rfl
  | cons finding findings ih =>
    have hreceive : report.receive .skipMessage finding = .ok (report.extend [finding]) := by
      cases finding with
      | occurrence id line comment => exact receive_occurrence id line comment
      | failure error line =>
        rw [receive, withLine_unit]
        simp [extend, Finding.entryIn, Finding.errorIn, Catalog.mergeEntries]
    rw [replay_cons, hreceive]
    exact ih.trans (congrArg Except.ok (extend_extend [finding] findings))

/-- The first failure stops the walk. -/
theorem replay_abort (findings : List Finding) :
    report.replay .abort findings =
      match findings.filterMap (·.errorIn report.unit) with
      | [] => .ok (report.extend findings)
      | first :: _ => .error first := by
  induction findings generalizing report with
  | nil => rw [extend_nil]; rfl
  | cons finding findings ih =>
    rw [replay_cons]
    cases finding with
    | occurrence id line comment =>
      rw [receive_occurrence]
      refine ih.trans ?_
      rw [extend_extend]
      rfl
    | failure error line =>
      rw [receive, withLine_unit]
      rfl

end Report

/-! ## Scanning a unit -/

/-- The findings in the nodes of a unit. -/
def ScanOptions.findings (options : ScanOptions) (nodes : List Node) : List Finding :=
  options.findingsIn [] nodes

theorem scan_eq_replay (unit : String) (nodes : List Node) (options : ScanOptions) :
    scan unit nodes options =
      ({ unit } : Report).replay options.onError (options.findings nodes) := by
  have hnormalize : options.collapses [] = options.normalize := by
    rw [ScanOptions.collapses, List.any_nil, Bool.not_false, Bool.and_true]
  have hreaches : options.reaches [] = true := rfl
  rw [scan, ← hnormalize]
  exact Report.visitAll_eq_replay { unit } hreaches nodes

/-- The report on the findings in a unit. -/
def Report.ofFindings (unit : String) (findings : List Finding) : Report where
  unit        := unit
  catalog     := .ofEntries (findings.filterMap (·.entryIn unit))
  diagnostics := findings.filterMap (·.errorIn unit)

theorem scan_skipMessage (unit : String) (nodes : List Node) (options : ScanOptions) :
    scan unit nodes { options with onError := .skipMessage } =
      .ok (.ofFindings unit (options.findings nodes)) :=
  (scan_eq_replay ..).trans (Report.replay_skipMessage _)

theorem scan_abort (unit : String) (nodes : List Node) (options : ScanOptions) :
    scan unit nodes { options with onError := .abort } =
      match (options.findings nodes).filterMap (·.errorIn unit) with
      | [] => .ok (.ofFindings unit (options.findings nodes))
      | first :: _ => .error first :=
  (scan_eq_replay ..).trans (Report.replay_abort _)

end Phrasebook
