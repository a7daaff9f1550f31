-- SUMMARY: Placeholder names may be declared in a list or in a literal; a scan cannot tell which.
import Mathlib.Data.List.Forall2
import Phrasebook.Proofs.Scan.Comments

/-!
# Declarations of names

A message attribute declares its names as a list or as a literal, in which commas stand between the
names and blanks may stand around them (`PaddedName`). Both forms are read as the same names
(`declaredNames_literalOf`). Where nodes differ in nothing but the form of such declarations
(`Node.Redeclared`), they are the same nodes without the values of message attributes, and the names
that a scan reads off these values are the same too, so the scans agree
(`declarations_interchangeable`).
-/
namespace Phrasebook

open Markup Template

/-! ## Names and blanks -/

/-- A placeholder name with the blanks written around it. -/
structure PaddedName where
  before       : String
  name         : String
  behind       : String
  isName_name  : isName name.toList = true
  before_blank : ∀ c ∈ before.toList, Text.isBlank c = true
  behind_blank : ∀ c ∈ behind.toList, Text.isBlank c = true

namespace PaddedName

/-- The name as it is written. -/
def spelling (padded : PaddedName) : String := padded.before ++ padded.name ++ padded.behind

theorem toList_spelling (padded : PaddedName) :
    padded.spelling.toList =
      padded.before.toList ++ padded.name.toList ++ padded.behind.toList := by
  simp [spelling]

theorem name_ne_nil (padded : PaddedName) : padded.name.toList ≠ [] := by
  intro h
  have hname := padded.isName_name
  rw [h] at hname
  cases hname

theorem name_tight (padded : PaddedName) : ∀ c ∈ padded.name.toList, Text.isBlank c = false :=
  fun c hc => (isNameChar_plain (isNameChar_of_isName padded.isName_name c hc)).1

/-- Trimming gives the name back. -/
theorem trim_spelling (padded : PaddedName) :
    Text.trim padded.spelling.toList = padded.name.toList := by
  have hends : Text.EndsTight padded.name.toList :=
    fun c hc => padded.name_tight c (List.mem_of_getLast? hc)
  have hstarts : Text.StartsTight (padded.name.toList ++ padded.behind.toList) := by
    obtain ⟨c, cs, hname⟩ := List.exists_cons_of_ne_nil padded.name_ne_nil
    rw [hname, List.cons_append, Text.StartsTight.cons_iff]
    exact padded.name_tight c (hname ▸ List.mem_cons_self)
  rw [Text.trim, toList_spelling, List.append_assoc,
    Text.trimStart_blanks_append padded.before_blank, Text.trimStart_eq_self hstarts,
    Text.trimEnd_append_blanks padded.behind_blank, Text.trimEnd_eq_self hends]

/-- Neither a name nor the blanks around it hold a comma. -/
theorem comma_not_mem_spelling (padded : PaddedName) : ',' ∉ padded.spelling.toList := by
  have hblank : Text.isBlank ',' = false := by decide
  have hname : isNameChar ',' = false := by decide
  rw [toList_spelling, List.mem_append, List.mem_append]
  rintro ((h | h) | h)
  · simpa [hblank] using padded.before_blank ',' h
  · simpa [hname] using isNameChar_of_isName padded.isName_name ',' h
  · simpa [hblank] using padded.behind_blank ',' h

end PaddedName

/-! ## The two forms -/

/-- The names declared in a literal, between commas and with their blanks. -/
def literalOf (names : List PaddedName) : AttributeValue :=
  .literal (",".intercalate (names.map PaddedName.spelling))

/-- The names declared as a list. -/
def listOf (names : List PaddedName) : AttributeValue := .list (names.map PaddedName.name)

variable {names : List PaddedName}

theorem splitOn_literal (h : names ≠ []) :
    (",".intercalate (names.map PaddedName.spelling)).toList.splitOn ',' =
      names.map fun padded => padded.spelling.toList := by
  have htexts : ",".toList = [','] := rfl
  rw [String.toList_intercalate, List.map_map, htexts]
  refine List.splitOn_intercalate ',' ?_ (by simpa using h)
  rintro piece hpiece
  obtain ⟨padded, -, rfl⟩ := List.mem_map.1 hpiece
  exact padded.comma_not_mem_spelling

/-- A text with a name in it is not blank. -/
theorem not_isBlankText_literal (h : names ≠ []) :
    Text.isBlankText (",".intercalate (names.map PaddedName.spelling)).toList = false := by
  obtain ⟨first, rest, rfl⟩ := List.exists_cons_of_ne_nil h
  obtain ⟨c, cs, hname⟩ := List.exists_cons_of_ne_nil first.name_ne_nil
  have hc : Text.isBlank c = false := first.name_tight c (hname ▸ List.mem_cons_self)
  rw [Text.isBlankText, List.all_eq_false]
  refine ⟨c, ?_, by simp [hc]⟩
  cases rest with
  | nil => simp [PaddedName.toList_spelling, hname]
  | cons second rest => simp [PaddedName.toList_spelling, hname]

/-- A literal declares the names that were put into it. -/
theorem declaredNames_literalOf (messageAttribute : String) (h : names ≠ []) :
    declaredNames messageAttribute (literalOf names) = .ok (names.map PaddedName.name) := by
  have htrimmed (padded : PaddedName) :
      String.ofList (Text.trim padded.spelling.toList) = padded.name := by
    rw [padded.trim_spelling, String.ofList_toList]
  simp only [declaredNames, literalOf, not_isBlankText_literal h, splitOn_literal h, List.map_map,
    Function.comp_def, htrimmed]
  rfl

theorem declaredNames_listOf (messageAttribute : String) (names : List PaddedName) :
    declaredNames messageAttribute (listOf names) = .ok (names.map PaddedName.name) := rfl

/-! ## Other forms of one declaration -/

namespace Markup

/-- The attributes are the same but for the form in which the message attribute, which is called
`message`, declares its names. -/
inductive Attribute.Redeclared (message : String) : Attribute → Attribute → Prop where
  | same (candidate : Attribute) : Redeclared message candidate candidate
  | asList (names : List PaddedName) (h : names ≠ []) :
      Redeclared message ⟨message, literalOf names⟩ ⟨message, listOf names⟩
  | asLiteral (names : List PaddedName) (h : names ≠ []) :
      Redeclared message ⟨message, listOf names⟩ ⟨message, literalOf names⟩

/-- The nodes are the same but for the form of the declarations in any of their elements. -/
inductive Node.Redeclared (message : String) : List Node → List Node → Prop where
  | nil : Redeclared message [] []
  | text (value : String) (line : Line) {nodes nodes' : List Node}
      (h : Redeclared message nodes nodes') :
      Redeclared message (.text value line :: nodes) (.text value line :: nodes')
  | expression (slot : ExpressionSlot) {nodes nodes' : List Node}
      (h : Redeclared message nodes nodes') :
      Redeclared message (.expression slot :: nodes) (.expression slot :: nodes')
  | element (tag : Tag) {attributes : List Attribute} {children children' nodes nodes' : List Node}
      (hattributes : List.Forall₂ (Attribute.Redeclared message) tag.attributes attributes)
      (hchildren : Redeclared message children children')
      (h : Redeclared message nodes nodes') :
      Redeclared message (.element tag children :: nodes)
        (.element { tag with attributes } children' :: nodes')

variable {message : String}

theorem Attribute.Redeclared.name_eq {candidate other : Attribute}
    (h : candidate.Redeclared message other) : candidate.name = other.name := by
  cases h <;> rfl

theorem Attribute.Redeclared.redacted_eq {candidate other : Attribute}
    (h : candidate.Redeclared message other) :
    candidate.redacted message = other.redacted message := by
  cases h with
  | same => rfl
  | asList names h => simp [redacted]
  | asLiteral names h => simp [redacted]

/-- The value declares the same names, or fails to in the same way. -/
theorem Attribute.Redeclared.declaredNames_eq {candidate other : Attribute}
    (h : candidate.Redeclared message other) :
    declaredNames message candidate.value = declaredNames message other.value := by
  cases h with
  | same => rfl
  | asList names h => rw [declaredNames_literalOf message h, declaredNames_listOf]
  | asLiteral names h => rw [declaredNames_literalOf message h, declaredNames_listOf]

variable {attributes attributes' : List Attribute}

theorem map_redacted_of_redeclared
    (h : List.Forall₂ (Attribute.Redeclared message) attributes attributes') :
    attributes.map (Attribute.redacted message) = attributes'.map (Attribute.redacted message) := by
  induction h with
  | nil => rfl
  | cons hfirst _ ih => rw [List.map_cons, List.map_cons, hfirst.redacted_eq, ih]

theorem Tag.redacted_eq_of_redeclared {tag : Tag}
    (h : List.Forall₂ (Attribute.Redeclared message) tag.attributes attributes) :
    tag.redacted message = { tag with attributes }.redacted message := by
  rw [redacted, map_redacted_of_redeclared h]
  rfl

/-- An attribute is found in another form where it was found before. -/
theorem find?_redeclared
    (h : List.Forall₂ (Attribute.Redeclared message) attributes attributes') (name : String) :
    Option.Rel (Attribute.Redeclared message)
      (attributes.find? fun candidate => candidate.name == name)
      (attributes'.find? fun candidate => candidate.name == name) := by
  induction h with
  | nil => exact .none
  | @cons first other rest others hfirst hrest ih =>
    rw [List.find?_cons, List.find?_cons, ← hfirst.name_eq]
    cases first.name == name with
    | true => exact .some hfirst
    | false => exact ih

/-- Attributes of other names have no other form. -/
theorem eq_of_redeclared
    (h : List.Forall₂ (Attribute.Redeclared message) attributes attributes')
    (hnames : ∀ candidate ∈ attributes, candidate.name ≠ message) : attributes = attributes' := by
  induction h with
  | nil => rfl
  | cons hfirst _ ih =>
    obtain ⟨hname, hrest⟩ := List.forall_mem_cons.1 hnames
    cases hfirst with
    | same candidate => rw [ih hrest]
    | asList => exact absurd rfl hname
    | asLiteral => exact absurd rfl hname

theorem Node.Redeclared.redactedAll_eq {nodes nodes' : List Node}
    (h : Redeclared message nodes nodes') :
    redactedAll message nodes = redactedAll message nodes' := by
  induction h with
  | nil => rfl
  | text value line h ih => exact congrArg (Node.text value line :: ·) ih
  | expression slot h ih => exact congrArg (Node.expression slot :: ·) ih
  | element tag hattributes hchildren h ihChildren ih =>
    rw [redactedAll, redacted, redactedAll, redacted, Tag.redacted_eq_of_redeclared hattributes,
      ihChildren, ih]

end Markup

/-! ## Scanning -/

namespace Report

variable {options : ScanOptions}

/-- The same names make the same template. -/
theorem template_congr {names names' : AttributeValue}
    (h : declaredNames options.messageAttribute names =
      declaredNames options.messageAttribute names') (element : Element) (normalize : Bool) :
    template options element names normalize = template options element names' normalize := by
  rw [template, h]
  rfl

variable (hcomment : options.commentAttribute ≠ options.messageAttribute) {tag : Tag}
  {attributes : List Attribute} {children children' nodes nodes' : List Node}
include hcomment

/-- The form of its names makes no difference to what becomes of a message element. -/
theorem recordElement_redeclared
    (hattributes : List.Forall₂ (Attribute.Redeclared options.messageAttribute) tag.attributes
      attributes)
    (hchildren : Node.Redeclared options.messageAttribute children children')
    {names names' : Attribute} (hnames : names.Redeclared options.messageAttribute names')
    (report : Report) (line : Line) (normalize : Bool) :
    report.recordElement options ⟨tag, children⟩ names.value line normalize =
      report.recordElement options ⟨{ tag with attributes }, children'⟩ names'.value line
        normalize := by
  have htag := Tag.redacted_eq_of_redeclared hattributes
  have htemplate : template options ⟨tag, children⟩ names.value normalize =
      template options ⟨{ tag with attributes }, children'⟩ names'.value normalize := by
    rw [← @template_redacted options.messageAttribute, htag, hchildren.redactedAll_eq,
      template_redacted, template_congr hnames.declaredNames_eq]
  have hcommentOn : commentOn options tag = commentOn options { tag with attributes } := by
    rw [commentOn, ← Tag.attribute?_redacted_of_ne hcomment, htag,
      Tag.attribute?_redacted_of_ne hcomment, commentOn]
  rw [recordElement, htemplate, hcommentOn, recordElement]

/-- Nor to what becomes of any element, if it makes none to what stands inside. -/
theorem visit_element_redeclared
    (hattributes : List.Forall₂ (Attribute.Redeclared options.messageAttribute) tag.attributes
      attributes)
    (hchildren : Node.Redeclared options.messageAttribute children children')
    (hinside : ∀ line normalize report, visitAll options line normalize report children =
      visitAll options line normalize report children')
    (line : Line) (normalize : Bool) (report : Report) :
    visit options line normalize report (.element tag children) =
      visit options line normalize report (.element { tag with attributes } children') := by
  have hexcludes : options.excludes tag = options.excludes { tag with attributes } := by
    rw [← @ScanOptions.excludes_redacted options.messageAttribute,
      Tag.redacted_eq_of_redeclared hattributes, ScanOptions.excludes_redacted]
  have hpreserves : options.preserves tag = options.preserves { tag with attributes } := rfl
  have hfound : Option.Rel (Attribute.Redeclared options.messageAttribute)
      (tag.attribute? options.messageAttribute)
      ({ tag with attributes }.attribute? options.messageAttribute) :=
    find?_redeclared hattributes _
  simp only [visit, hexcludes, hpreserves]
  generalize hmessage : tag.attribute? options.messageAttribute = names,
    hmessage' : { tag with attributes }.attribute? options.messageAttribute = names' at hfound
  cases hfound with
  | none =>
    -- an element without the message attribute has no other form
    have hnames : ∀ candidate ∈ tag.attributes, candidate.name ≠ options.messageAttribute := by
      simpa [Tag.attribute?] using hmessage
    obtain rfl := eq_of_redeclared hattributes hnames
    simp only [hinside]
  | some hnames => simp only [recordElement_redeclared hcomment hattributes hchildren hnames]

/-- The form of the declarations makes no difference to a walk. -/
theorem visitAll_redeclared (h : Node.Redeclared options.messageAttribute nodes nodes')
    (line : Line) (normalize : Bool) (report : Report) :
    visitAll options line normalize report nodes =
      visitAll options line normalize report nodes' := by
  induction h generalizing line normalize report with
  | nil => rfl
  | text value own h ih => rw [visitAll_cons, visitAll_cons]; exact ih line normalize _
  | expression slot h ih => exact ih line normalize report
  | element tag hattributes hchildren h ihChildren ih =>
    rw [visitAll_cons, visitAll_cons,
      visit_element_redeclared hcomment hattributes hchildren ihChildren]
    simp only [ih]

end Report

/-- Both forms of a declaration are read as its names. A scan makes the same of nodes that differ in
the form of declarations only, as long as comments stand in another attribute. -/
theorem declarations_interchangeable :
    (∀ (messageAttribute : String) (names : List PaddedName), names ≠ [] →
      declaredNames messageAttribute (literalOf names) = .ok (names.map PaddedName.name) ∧
        declaredNames messageAttribute (listOf names) = .ok (names.map PaddedName.name)) ∧
    ∀ options : ScanOptions, options.commentAttribute ≠ options.messageAttribute →
      ∀ nodes nodes' : List Node, Node.Redeclared options.messageAttribute nodes nodes' →
        ∀ unit : String, scan unit nodes options = scan unit nodes' options := by
  refine ⟨fun messageAttribute names h => ?_, fun options hcomment nodes nodes' h unit => ?_⟩
  · exact ⟨declaredNames_literalOf messageAttribute h, declaredNames_listOf messageAttribute names⟩
  · exact Report.visitAll_redeclared hcomment h none options.normalize { unit }

/-- A name with blanks on both sides, and one with a blank of another kind behind it. -/
def welcomeNames : List PaddedName :=
  [⟨" ", "user_name", "\t", by decide, List.all_eq_true.1 rfl, List.all_eq_true.1 rfl⟩,
   ⟨"", "n2", "\u3000", by decide, List.all_eq_true.1 rfl, List.all_eq_true.1 rfl⟩]

/-- A message with two expressions; an element inside it declares their names once more. -/
def welcome (names names' : AttributeValue) : Node :=
  .element { name := "p", attributes := [⟨"i18nMsg", names⟩] }
    [.text "Hello " none, .expression { source := "user.name" },
     .element { name := "b", attributes := [⟨"i18nMsg", names'⟩] }
      [.expression { source := "n" }, .text "!" none]]

/-- The two declarations change their forms, one each way. -/
theorem declarations_interchangeable_welcome :
    literalOf welcomeNames = .literal " user_name\t,n2\u3000" ∧
      declaredNames "i18nMsg" (literalOf welcomeNames) = .ok ["user_name", "n2"] ∧
      scan "a.jsx" [welcome (literalOf welcomeNames) (listOf welcomeNames)] {} =
        scan "a.jsx" [welcome (listOf welcomeNames) (literalOf welcomeNames)] {} := by
  have hne : welcomeNames ≠ [] := List.cons_ne_nil _ _
  have hforms : Node.Redeclared "i18nMsg" [welcome (literalOf welcomeNames) (listOf welcomeNames)]
      [welcome (listOf welcomeNames) (literalOf welcomeNames)] := by
    refine .element _ (.cons (.asList welcomeNames hne) .nil) (.text _ _ (.expression _ ?_)) .nil
    refine .element _ (.cons (.asLiteral welcomeNames hne) .nil) ?_ .nil
    exact .expression _ (.text _ _ .nil)
  refine ⟨rfl, ?_, ?_⟩
  · exact (declarations_interchangeable.1 "i18nMsg" welcomeNames hne).1
  · exact declarations_interchangeable.2 {} (by decide) _ _ hforms "a.jsx"

end Phrasebook
