-- SUMMARY: What becomes of an extraction, its errors included, told by the names and the content.
import Phrasebook.Proofs.Message.Shape

/-!
# Outcomes

The walk fails at the first expression for which there is no name (`Draft.addNodes_eq_error`), so
whether an extraction succeeds, and how it fails, is decided by the names and the number of
expressions (`extract_eq`): the first name at fault is reported before all else
(`checkNames_eq_error_iff`), and a wrong number of names after that (`checkCount_eq_error_iff`).
What an extraction makes is read off the content of the element and the names of its expressions,
so that elements whose contents have the same template are extracted alike, and names to spare
change nothing (`Markup.Element.message_take`).
-/
namespace Phrasebook

open Markup Template

/-! ## Too few names -/

/-- Nodes with more expressions than there are names left cannot be added. -/
theorem Draft.addNodes_eq_error (options : ExtractionOptions) {names : List String}
    {nodes : List Node} (collapse : Bool) (draft : Draft)
    (hnamed : draft.expressions.length ≤ names.length)
    (h : names.length < draft.expressions.length + (Node.slotsAll nodes).length) :
    addNodes options names collapse draft nodes =
      .error (.indexOutOfRange names.length names.length) := by
  induction nodes using Node.inductionAll generalizing collapse draft with
  | nil => exact absurd h (Nat.not_lt.2 hnamed)
  | text value line nodes ih => exact ih collapse _ hnamed h
  | expression slot nodes ih =>
    simp only [Node.slotsAll, Node.slots, List.length_append, List.length_singleton] at h
    simp only [addNodes, addNode, addExpression, expressions_flush]
    rcases Nat.lt_or_eq_of_le hnamed with hname | hnone
    · rw [List.getElem?_eq_getElem hname]
      exact ih collapse _ (by simpa [write] using Nat.succ_le_of_lt hname) (by simp [write]; omega)
    · rw [List.getElem?_eq_none_iff.2 (Nat.le_of_eq hnone.symm), hnone]
      rfl
  | element tag children nodes ihChildren ih =>
    simp only [Node.slotsAll, Node.slots, List.length_append] at h
    simp only [addNodes, addNode]
    by_cases hchildren :
        draft.expressions.length + (Node.slotsAll children).length ≤ names.length
    · -- the children still have names, so a node behind them lacks one
      obtain ⟨mid, hmid, hcount⟩ := exists_addNodes options
        (collapse && !options.preserves tag) ((draft.flush collapse).openElement tag) hchildren
      simp only [expressions_openElement, expressions_flush] at hcount
      rw [hmid]
      exact ih collapse _ (by simpa [hcount] using hchildren) (by simp [hcount]; omega)
    · rw [ihChildren _ _ (by simpa using hnamed) (by simpa using hchildren)]
      rfl

/-! ## The outcome -/

/-- There is a name for each of `count` expressions, and where that is asked no further name. -/
def checkCount (allowUnused : Bool) (names : List String) (count : Nat) :
    Except TemplateError Unit :=
  if names.length < count then .error (.indexOutOfRange names.length names.length)
  else match names[count]? with
    | some unused => if allowUnused then .ok () else .error (.unusedPlaceholder unused)
    | none => .ok ()

/-- The message of an element that has a name for each of its expressions. -/
def Markup.Element.message (root : Element) (names : List String) (options : ExtractionOptions) :
    Extraction :=
  let collapse := options.collapses root
  let split := MessageId.split (String.ofList (root.content.print options collapse names))
  let message := if collapse then split.shrinkEdges else split
  { format      := message.id
    leading     := message.leading
    trailing    := message.trailing
    elements    := (Node.elementsAll root.children).map Element.stripped
    expressions := Node.slotsAll root.children }

/-- The draft of all nodes in an element makes the message of the element. -/
theorem Draft.message_eq {root : Element} {names : List String} {options : ExtractionOptions}
    {draft : Draft}
    (h : addNodes options names (options.collapses root) {} root.children = .ok draft) :
    (draft.flush (options.collapses root)).message (options.collapses root) =
      root.message names options := by
  have hempty : Holds (options.collapses root) names [] {} {} := by
    constructor <;> simp [Content.Run.print]
  obtain ⟨hout, helements, hexpressions, -⟩ := addNodes_spec hempty h
  have hprint : (draft.flush (options.collapses root)).out.reverse =
      root.content.print options (options.collapses root) names := hout
  have helements' : draft.elements.reverse = (Node.elementsAll root.children).map Element.stripped :=
    helements
  have hexpressions' : draft.expressions.reverse = Node.slotsAll root.children := hexpressions
  simp only [message, Element.message, hprint, elements_flush, expressions_flush, helements',
    hexpressions']

/-- The names decide whether an extraction succeeds, and the content what it makes. -/
theorem extract_eq (root : Element) (names : List String) (options : ExtractionOptions) :
    extract root names options = do
      checkNames names
      checkCount options.allowUnused names (Node.slotsAll root.children).length
      return root.message names options := by
  have hcollapses : (options.normalize && !options.preserves root.tag) =
      options.collapses root := rfl
  rw [extract, hcollapses]
  cases checkNames names with
  | error failure => rfl
  | ok =>
    simp only [bind, Except.bind, pure, Except.pure]
    by_cases hfew : names.length < (Node.slotsAll root.children).length
    · have herror := Draft.addNodes_eq_error options (options.collapses root) {}
        (Nat.zero_le _) (by simpa using hfew)
      simp only [checkCount, if_pos hfew, herror]
    · obtain ⟨draft, hdraft, hcount⟩ := Draft.exists_addNodes options (options.collapses root) {}
        (by simpa using hfew)
      have hlength : draft.expressions.length = (Node.slotsAll root.children).length := by
        simpa using hcount
      simp only [checkCount, if_neg hfew, hdraft, ← Draft.message_eq hdraft,
        Draft.expressions_flush, hlength]
      cases names[(Node.slotsAll root.children).length]? with
      | none => rfl
      | some unused => cases options.allowUnused <;> rfl

/-! ## Names at fault -/

/-- The name is not empty and made of ASCII letters, digits and underscores. -/
def WellNamed (name : String) : Prop :=
  name ≠ "" ∧ ∀ c ∈ name.toList,
    ('A' ≤ c ∧ c ≤ 'Z') ∨ ('a' ≤ c ∧ c ≤ 'z') ∨ ('0' ≤ c ∧ c ≤ '9') ∨ c = '_'

/-- What is wrong with a name behind the names `before`. A name that is not well formed is told as
such, whether it repeats another or not. -/
inductive NameFault (before : List String) (name : String) : TemplateError → Prop where
  | invalid : ¬ WellNamed name → NameFault before name (.invalidPlaceholderName name)
  | duplicate : WellNamed name → name ∈ before →
      NameFault before name (.duplicatePlaceholder name)

theorem NameFault.of_mem {before before' : List String} {name : String} {failure : TemplateError}
    (h : NameFault before name failure) (hmem : name ∈ before → name ∈ before') :
    NameFault before' name failure := by
  cases h with
  | invalid hname => exact .invalid hname
  | duplicate hname h => exact .duplicate hname (hmem h)

/-- Nothing is wrong with any of the names. -/
def Usable (names : List String) : Prop := (∀ name ∈ names, WellNamed name) ∧ names.Nodup

/-- The failure is what is wrong with the first name with which something is wrong. -/
def FirstFault (names : List String) (failure : TemplateError) : Prop :=
  ∃ before name behind, names = before ++ name :: behind ∧ Usable before ∧
    NameFault before name failure

theorem isNameChar_iff {c : Char} :
    isNameChar c = true ↔
      ('A' ≤ c ∧ c ≤ 'Z') ∨ ('a' ≤ c ∧ c ≤ 'z') ∨ ('0' ≤ c ∧ c ≤ '9') ∨ c = '_' := by
  have hbetween (lo hi : Char) : (decide (lo ≤ c) && decide (c ≤ hi)) = true ↔ lo ≤ c ∧ c ≤ hi := by
    rw [Bool.and_eq_true, decide_eq_true_iff, decide_eq_true_iff]
  have hupper : c.isUpper = true ↔ 'A' ≤ c ∧ c ≤ 'Z' :=
    decide_eq_true_iff (p := 'A' ≤ c ∧ c ≤ 'Z')
  have hlower : c.isLower = true ↔ 'a' ≤ c ∧ c ≤ 'z' := hbetween 'a' 'z'
  have hdigit : c.isDigit = true ↔ '0' ≤ c ∧ c ≤ '9' := hbetween '0' '9'
  have hclasses : isNameChar c = (c.isUpper || c.isLower || c.isDigit || c == '_') := rfl
  simp only [hclasses, Bool.or_eq_true, hupper, hlower, hdigit, beq_iff_eq, or_assoc]

theorem isName_iff {name : String} : isName name.toList = true ↔ WellNamed name := by
  simp only [isName, WellNamed, Bool.and_eq_true, Bool.not_eq_true', List.isEmpty_eq_false_iff,
    List.all_eq_true, isNameChar_iff, ne_eq, String.toList_eq_nil_iff]

theorem checkNames_eq_ok_iff_usable {names : List String} :
    checkNames names = .ok () ↔ Usable names := by
  simp only [checkNames_eq_ok_iff, Usable, isName_iff]

/-- The names before it pass, so a name at fault is what is reported. -/
theorem checkNamesFrom_append_cons {seen before behind : List String} {name : String}
    {failure : TemplateError} (hbefore : checkNamesFrom seen before = .ok ())
    (hfault : NameFault (before ++ seen) name failure) :
    checkNamesFrom seen (before ++ name :: behind) = .error failure := by
  induction before generalizing seen with
  | nil =>
    cases hfault with
    | invalid hname => simp [checkNamesFrom, mt isName_iff.1 hname]
    | duplicate hname hmem =>
      have hseen : name ∈ seen := hmem
      simp [checkNamesFrom, isName_iff.2 hname, hseen]
  | cons first before ih =>
    rw [checkNamesFrom] at hbefore
    split at hbefore
    · cases hbefore
    split at hbefore
    · cases hbefore
    rename_i hfirst hnew
    have hmoved : NameFault (before ++ first :: seen) name failure :=
      hfault.of_mem fun hmem => by simpa [or_left_comm] using hmem
    simpa only [List.cons_append, checkNamesFrom, hfirst, hnew, Bool.false_eq_true, if_false]
      using ih hbefore hmoved

/-- What is reported is a name at fault, and the names before it pass. -/
theorem exists_nameFault {seen names : List String} {failure : TemplateError}
    (h : checkNamesFrom seen names = .error failure) :
    ∃ before name behind, names = before ++ name :: behind ∧
      checkNamesFrom seen before = .ok () ∧ NameFault (before ++ seen) name failure := by
  induction names generalizing seen with
  | nil => cases h
  | cons first names ih =>
    rw [checkNamesFrom] at h
    split at h
    · rename_i hfirst
      obtain rfl := Except.error.inj h
      exact ⟨[], first, names, rfl, rfl, .invalid fun hname => by simp [isName_iff.2 hname] at hfirst⟩
    rename_i hfirst
    have hnamed : WellNamed first := isName_iff.1 (by simpa using hfirst)
    split at h
    · rename_i hseen
      obtain rfl := Except.error.inj h
      exact ⟨[], first, names, rfl, rfl, .duplicate hnamed (by simpa using hseen)⟩
    rename_i hnew
    obtain ⟨before, name, behind, rfl, hbefore, hfault⟩ := ih h
    refine ⟨first :: before, name, behind, rfl, ?_, hfault.of_mem fun hmem => ?_⟩
    · simpa only [checkNamesFrom, hfirst, hnew, Bool.false_eq_true, if_false] using hbefore
    · simpa [or_left_comm] using hmem

/-- The check reports the first name at fault. -/
theorem checkNames_eq_error_iff {names : List String} {failure : TemplateError} :
    checkNames names = .error failure ↔ FirstFault names failure := by
  constructor
  · intro h
    obtain ⟨before, name, behind, hnames, hbefore, hfault⟩ := exists_nameFault h
    exact ⟨before, name, behind, hnames, checkNames_eq_ok_iff_usable.1 hbefore,
      by simpa using hfault⟩
  · rintro ⟨before, name, behind, rfl, hbefore, hfault⟩
    exact checkNamesFrom_append_cons (checkNames_eq_ok_iff_usable.2 hbefore) (by simpa using hfault)

/-! ## Surplus names -/

/-- A template depends on the names of its own expressions only, and on the options by which
elements keep their blanks. -/
theorem Content.print_congr {options options' : ExtractionOptions} {names names' : List String}
    (hpreserves : options.preserves = options'.preserves) (content : Content) (collapse : Bool)
    (hnames : ∀ j ∈ content.positions, names[j]? = names'[j]?) :
    content.print options collapse names = content.print options' collapse names' := by
  have hrun (run : Run) (collapse : Bool) (h : ∀ j ∈ run.positions, names[j]? = names'[j]?) :
      run.print collapse names = run.print collapse names' := by
    obtain ⟨parts, rest⟩ := run
    simp only [Run.print]
    rw [List.flatMap_def, List.flatMap_def, List.map_congr_left fun part hpart => by
      rw [h part.2 (List.mem_map_of_mem hpart)]]
  induction content generalizing collapse with
  | last run => exact hrun run collapse hnames
  | element before index tag inner after ihInner ihAfter =>
    simp only [positions, List.forall_mem_append] at hnames
    obtain ⟨hbefore, hinner, hafter⟩ := hnames
    simp only [print, hrun before collapse hbefore, ihInner _ hinner, ihAfter _ hafter, hpreserves]

/-- The message of an element is the same under other options that only differ in whether surplus
names are accepted, and for the names of its expressions alone. -/
theorem Markup.Element.message_take (root : Element) (names : List String)
    (options : ExtractionOptions) (allowUnused : Bool) :
    root.message (names.take (Node.slotsAll root.children).length) { options with allowUnused } =
      root.message names options := by
  have hpositions : ∀ j ∈ root.content.positions,
      (names.take (Node.slotsAll root.children).length)[j]? = names[j]? := by
    intro j hj
    rw [root.positions_content, List.mem_range'_1] at hj
    exact List.getElem?_take_of_lt (by omega)
  have hpreserves : ({ options with allowUnused } : ExtractionOptions).preserves =
      options.preserves := rfl
  have hprint := Content.print_congr hpreserves root.content (options.collapses root) hpositions
  have hcollapses : ({ options with allowUnused } : ExtractionOptions).collapses root =
      options.collapses root := rfl
  simp only [message, hcollapses, hprint]

/-! ## The outcome by names and count -/

theorem checkCount_eq_ok_iff {allowUnused : Bool} {names : List String} {count : Nat} :
    checkCount allowUnused names count = .ok () ↔
      count = names.length ∨ count < names.length ∧ allowUnused = true := by
  rw [checkCount]
  split
  · simp; omega
  · rename_i hfew
    split
    · rename_i hunused
      have hcount := (List.getElem?_eq_some_iff.1 hunused).1
      have hne : count ≠ names.length := Nat.ne_of_lt hcount
      cases allowUnused <;> simp [hcount, hne]
    · rename_i hnone
      have hcount := List.getElem?_eq_none_iff.1 hnone
      simp; omega

theorem checkCount_eq_error_iff {allowUnused : Bool} {names : List String} {count : Nat}
    {failure : TemplateError} :
    checkCount allowUnused names count = .error failure ↔
      names.length < count ∧ failure = .indexOutOfRange names.length names.length ∨
      allowUnused = false ∧ ∃ unused, names[count]? = some unused ∧
        failure = .unusedPlaceholder unused := by
  rw [checkCount]
  split
  · rename_i hfew
    have hnone : names[count]? = none := List.getElem?_eq_none_iff.2 (Nat.le_of_lt hfew)
    simp [hfew, hnone, eq_comm]
  · rename_i hfew
    split
    · rename_i unused hunused
      cases allowUnused <;> simp [hfew, hunused, eq_comm]
    · rename_i hnone
      simp [hfew, hnone]

/-- An extraction fails as the check of the names does, or else as that of their number. -/
theorem extract_eq_error_iff {root : Element} {names : List String} {options : ExtractionOptions}
    {failure : TemplateError} :
    extract root names options = .error failure ↔
      checkNames names = .error failure ∨ checkNames names = .ok () ∧
        checkCount options.allowUnused names (Node.slotsAll root.children).length =
          .error failure := by
  rw [extract_eq]
  cases checkNames names with
  | error fault => simp [bind, Except.bind]
  | ok =>
    cases checkCount options.allowUnused names (Node.slotsAll root.children).length <;>
      simp [bind, Except.bind, pure, Except.pure]

/-- An extraction that passes both checks makes the message of the element. -/
theorem extract_eq_ok_iff_message {root : Element} {names : List String}
    {options : ExtractionOptions} {x : Extraction} :
    extract root names options = .ok x ↔
      checkNames names = .ok () ∧
        checkCount options.allowUnused names (Node.slotsAll root.children).length = .ok () ∧
        root.message names options = x := by
  rw [extract_eq]
  cases checkNames names with
  | error fault => simp [bind, Except.bind]
  | ok =>
    cases checkCount options.allowUnused names (Node.slotsAll root.children).length <;>
      simp [bind, Except.bind, pure, Except.pure]

/-- The names and the number of expressions decide the outcome: the first name at fault is
reported before a lack of names, and that before a name left over. What is extracted depends on the
names of the expressions alone. -/
theorem extract_outcome (root : Element) (names : List String) (options : ExtractionOptions) :
    let count := (Node.slotsAll root.children).length
    (∀ failure, extract root names options = .error failure ↔
      FirstFault names failure ∨
      Usable names ∧
        (names.length < count ∧ failure = .indexOutOfRange names.length names.length ∨
          options.allowUnused = false ∧
            ∃ unused, names[count]? = some unused ∧ failure = .unusedPlaceholder unused)) ∧
    ((∃ x, extract root names options = .ok x) ↔
      Usable names ∧
        (count = names.length ∨ count < names.length ∧ options.allowUnused = true)) ∧
    ∀ x, extract root names options = .ok x →
      ∀ allowUnused, extract root (names.take count) { options with allowUnused } = .ok x := by
  intro count
  refine ⟨fun failure => ?_, ?_, fun x hx allowUnused => ?_⟩
  · rw [extract_eq_error_iff, checkNames_eq_error_iff, checkNames_eq_ok_iff_usable,
      checkCount_eq_error_iff]
  · simp only [extract_eq_ok_iff_message, exists_and_left, exists_eq', and_true,
      checkNames_eq_ok_iff_usable, checkCount_eq_ok_iff]
    rfl
  · obtain ⟨hnames, hcount, hmessage⟩ := extract_eq_ok_iff_message.1 hx
    obtain ⟨hwell, hnodup⟩ := checkNames_eq_ok_iff_usable.1 hnames
    have hroom : count ≤ names.length := by
      rcases checkCount_eq_ok_iff.1 hcount with heq | ⟨hlt, -⟩
      · exact Nat.le_of_eq heq
      · exact Nat.le_of_lt hlt
    refine extract_eq_ok_iff_message.2 ⟨?_, ?_, (root.message_take names options allowUnused).trans
      hmessage⟩
    · exact checkNames_eq_ok_iff_usable.2 ⟨fun name hname => hwell name (List.mem_of_mem_take hname),
        hnodup.sublist (List.take_sublist count names)⟩
    · exact checkCount_eq_ok_iff.2 (.inl (by simp [count, hroom]))

end Phrasebook
