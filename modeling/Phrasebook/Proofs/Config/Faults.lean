-- SUMMARY: Everything that is wrong with settings, in order; the check reports the first of it.
import Phrasebook.Config.Reading
import Phrasebook.Proofs.Config.Checks
import Phrasebook.Proofs.Text.Blank

/-!
# Faults

A check stops at the first violation. `Settings.faults` lists all violations of some settings, in the
order of the checks and whether or not others come before them, and a check refuses the first on
such a list (`Settings.check_eq_refuseFirst`). Settings without faults are those within the limits
(`Settings.Valid`), so checking and reading settings accepts exactly these
(`Settings.accepts_exactly_valid`).
-/
namespace Phrasebook

/-! ## Lists of violations -/

/-- The violation, if there is one. -/
def faultIf (condition : Prop) [Decidable condition] (violation : Violation) : List Violation :=
  if condition then [violation] else []

/-- What is wrong with a name. -/
def nameFaults (setting name : String) : List Violation :=
  faultIf (name = "") (.empty setting) ++
  faultIf (128 < name.utf8ByteSize) (.tooLong setting) ++
  faultIf (name.toList.any Text.isBlank) (.hasBlank setting)

/-- What is wrong with a list of names. -/
def nameListFaults (setting : String) (names : List String) : List Violation :=
  faultIf (64 < names.length) (.tooManyEntries setting) ++ names.flatMap (nameFaults setting)

/-- What is wrong with a path. -/
def pathFaults (setting : String) (path : Path) : List Violation :=
  faultIf (path.spelling = "") (.empty setting) ++
  faultIf (4096 < path.spelling.utf8ByteSize) (.tooLong setting) ++
  faultIf (∃ component ∈ path.components, 255 < component.size) (.componentTooLong setting)

def ExtractSettings.faults (settings : ExtractSettings) : List Violation :=
  nameFaults "extract.message_attribute" settings.messageAttribute ++
  nameFaults "extract.comment_attribute" settings.commentAttribute ++
  nameFaults "extract.lang_attribute" settings.langAttribute ++
  nameListFaults "extract.translatable_attributes" settings.translatableAttributes ++
  nameListFaults "extract.element_blacklist" settings.blacklist ++
  nameListFaults "extract.preserve_whitespace_elements" settings.preserveTags ++
  faultIf (settings.messageAttribute = settings.commentAttribute) .sameAttributes ++
  faultIf (settings.messageAttribute ∈ settings.translatableAttributes)
    (.reservedAttribute settings.messageAttribute) ++
  faultIf (settings.commentAttribute ∈ settings.translatableAttributes)
    (.reservedAttribute settings.commentAttribute) ++
  faultIf (settings.maxInputBytes < 1 ∨ 64 * 1024 * 1024 < settings.maxInputBytes) .inputLimit

def AuditSettings.faults (settings : AuditSettings) : List Violation :=
  match settings.path with
  | some path => pathFaults "audit.path" ⟨Text.trimmed path⟩
  | none => []

/-- What is wrong with settings, in the order of the checks. -/
def Settings.faults (settings : Settings) : List Violation :=
  settings.extract.faults ++ settings.audit.faults

/-! ## Settings within the limits -/

/-- The text can be the name of an attribute or an element. -/
structure NameFits (name : String) : Prop where
  ne_empty  : name ≠ ""
  bytes     : name.utf8ByteSize ≤ 128
  not_blank : ∀ c ∈ name.toList, Text.isBlank c = false

/-- The list is short, and all its entries can be names. -/
structure NameListFits (names : List String) : Prop where
  entries : names.length ≤ 64
  names   : ∀ name ∈ names, NameFits name

/-- The path can be that of a file. -/
structure PathFits (path : Path) : Prop where
  ne_empty   : path.spelling ≠ ""
  bytes      : path.spelling.utf8ByteSize ≤ 4096
  components : ∀ component ∈ path.components, component.size ≤ 255

/-- Settings that a scan can run with. -/
structure ExtractSettings.Valid (settings : ExtractSettings) : Prop where
  message              : NameFits settings.messageAttribute
  comment              : NameFits settings.commentAttribute
  lang                 : NameFits settings.langAttribute
  translatable         : NameListFits settings.translatableAttributes
  blacklist            : NameListFits settings.blacklist
  preserveTags         : NameListFits settings.preserveTags
  message_ne_comment   : settings.messageAttribute ≠ settings.commentAttribute
  message_untranslated : settings.messageAttribute ∉ settings.translatableAttributes
  comment_untranslated : settings.commentAttribute ∉ settings.translatableAttributes
  inputs               : 1 ≤ settings.maxInputBytes ∧ settings.maxInputBytes ≤ 64 * 1024 * 1024

/-- Settings of a run. -/
structure Settings.Valid (settings : Settings) : Prop where
  extract : settings.extract.Valid
  audit   : ∀ path, settings.audit.path = some path → PathFits ⟨Text.trimmed path⟩

/-! ## Without faults -/

theorem faultIf_eq_nil {condition : Prop} [Decidable condition] {violation : Violation} :
    faultIf condition violation = [] ↔ ¬ condition := by
  by_cases h : condition <;> simp [faultIf, h]

theorem nameFaults_eq_nil {setting name : String} :
    nameFaults setting name = [] ↔ NameFits name := by
  simp only [nameFaults, List.append_eq_nil_iff, faultIf_eq_nil, Nat.not_lt, Bool.not_eq_true,
    List.any_eq_false, and_assoc]
  exact ⟨fun ⟨hempty, hbytes, hblank⟩ => ⟨hempty, hbytes, hblank⟩,
    fun h => ⟨h.ne_empty, h.bytes, h.not_blank⟩⟩

theorem nameListFaults_eq_nil {setting : String} {names : List String} :
    nameListFaults setting names = [] ↔ NameListFits names := by
  simp only [nameListFaults, List.append_eq_nil_iff, faultIf_eq_nil, List.flatMap_eq_nil_iff,
    nameFaults_eq_nil, Nat.not_lt]
  exact ⟨fun ⟨hentries, hnames⟩ => ⟨hentries, hnames⟩, fun h => ⟨h.entries, h.names⟩⟩

theorem pathFaults_eq_nil {setting : String} {path : Path} :
    pathFaults setting path = [] ↔ PathFits path := by
  simp only [pathFaults, List.append_eq_nil_iff, faultIf_eq_nil, Nat.not_lt, not_exists, not_and,
    and_assoc]
  exact ⟨fun ⟨hempty, hbytes, hcomponents⟩ => ⟨hempty, hbytes, hcomponents⟩,
    fun h => ⟨h.ne_empty, h.bytes, h.components⟩⟩

theorem ExtractSettings.faults_eq_nil {settings : ExtractSettings} :
    settings.faults = [] ↔ settings.Valid := by
  simp only [faults, List.append_eq_nil_iff, nameFaults_eq_nil, nameListFaults_eq_nil,
    faultIf_eq_nil, not_or, Nat.not_lt, and_assoc]
  constructor
  · rintro ⟨hmessage, hcomment, hlang, htranslatable, hblacklist, hpreserve, hdiffer,
      huntranslated, huntranslated', hlow, hhigh⟩
    exact ⟨hmessage, hcomment, hlang, htranslatable, hblacklist, hpreserve, hdiffer,
      huntranslated, huntranslated', hlow, hhigh⟩
  · intro h
    exact ⟨h.message, h.comment, h.lang, h.translatable, h.blacklist, h.preserveTags,
      h.message_ne_comment, h.message_untranslated, h.comment_untranslated, h.inputs⟩

theorem AuditSettings.faults_eq_nil {settings : AuditSettings} :
    settings.faults = [] ↔ ∀ path, settings.path = some path → PathFits ⟨Text.trimmed path⟩ := by
  rw [faults]
  cases settings.path with
  | none => simp
  | some path => simp [pathFaults_eq_nil]

theorem Settings.faults_eq_nil {settings : Settings} : settings.faults = [] ↔ settings.Valid := by
  rw [faults, List.append_eq_nil_iff, ExtractSettings.faults_eq_nil, AuditSettings.faults_eq_nil]
  exact ⟨fun ⟨hextract, haudit⟩ => ⟨hextract, haudit⟩, fun h => ⟨h.extract, h.audit⟩⟩

/-! ## Refusing -/

/-- Of several violations the first is reported. -/
def refuseFirst : List Violation → Except Violation Unit
  | [] => .ok ()
  | first :: _ => .error first

theorem refuseFirst_append (xs ys : List Violation) :
    refuseFirst (xs ++ ys) = refuseFirst xs >>= fun _ => refuseFirst ys := by
  cases xs <;> rfl

theorem refuseFirst_eq_ok_iff {violations : List Violation} :
    refuseFirst violations = .ok () ↔ violations = [] := by
  cases violations <;> simp [refuseFirst]

theorem refuseIf_eq_refuseFirst {refused : Bool} {condition : Prop} [Decidable condition]
    (h : refused = true ↔ condition) (violation : Violation) :
    refuseIf refused violation = refuseFirst (faultIf condition violation) := by
  by_cases hcondition : condition
  · simp [refuseIf, h.2 hcondition, faultIf, hcondition, refuseFirst]
  · simp [refuseIf, mt h.1 hcondition, faultIf, hcondition, refuseFirst]

theorem forM_eq_refuseFirst {check : String → Except Violation Unit}
    {faults : String → List Violation} (h : ∀ name, check name = refuseFirst (faults name))
    (names : List String) : names.forM check = refuseFirst (names.flatMap faults) := by
  induction names with
  | nil => rfl
  | cons name names ih => rw [List.forM, List.flatMap_cons, refuseFirst_append, h, ih]

theorem checkName_eq_refuseFirst (setting name : String) :
    checkName setting name = refuseFirst (nameFaults setting name) := by
  have hbytes : decide (name.utf8ByteSize > Limit.nameBytes) = true ↔ 128 < name.utf8ByteSize :=
    decide_eq_true_iff
  simp only [checkName, nameFaults, refuseFirst_append, bind_assoc,
    refuseIf_eq_refuseFirst String.isEmpty_iff, refuseIf_eq_refuseFirst hbytes,
    refuseIf_eq_refuseFirst Iff.rfl]

theorem checkNameList_eq_refuseFirst (setting : String) (names : List String) :
    checkNameList setting names = refuseFirst (nameListFaults setting names) := by
  have hentries : decide (names.length > Limit.listEntries) = true ↔ 64 < names.length :=
    decide_eq_true_iff
  simp only [checkNameList, nameListFaults, refuseFirst_append, refuseIf_eq_refuseFirst hentries,
    forM_eq_refuseFirst (checkName_eq_refuseFirst setting)]

theorem checkPath_eq_refuseFirst (setting : String) (path : Path) :
    checkPath setting path = refuseFirst (pathFaults setting path) := by
  have hbytes : decide (path.size > Path.maxSize) = true ↔ 4096 < path.spelling.utf8ByteSize :=
    decide_eq_true_iff
  have hcomponents : path.hasLongComponent = true ↔
      ∃ component ∈ path.components, 255 < component.size := by
    simp [Path.hasLongComponent, Path.maxComponentSize]
  simp only [checkPath, pathFaults, refuseFirst_append, bind_assoc,
    refuseIf_eq_refuseFirst String.isEmpty_iff, refuseIf_eq_refuseFirst hbytes,
    refuseIf_eq_refuseFirst hcomponents]

theorem ExtractSettings.check_eq_refuseFirst (settings : ExtractSettings) :
    settings.check = refuseFirst settings.faults := by
  have hreserved (name : String) :
      refuseIf (settings.translatableAttributes.contains name) (.reservedAttribute name) =
        refuseFirst (faultIf (name ∈ settings.translatableAttributes) (.reservedAttribute name)) :=
    refuseIf_eq_refuseFirst List.contains_iff_mem _
  have hinputs :
      (settings.maxInputBytes == 0 || decide (settings.maxInputBytes > Limit.inputBytes)) = true ↔
        settings.maxInputBytes < 1 ∨ 64 * 1024 * 1024 < settings.maxInputBytes := by
    simp [Limit.inputBytes]
  simp only [check, faults, refuseFirst_append, bind_assoc, checkName_eq_refuseFirst,
    checkNameList_eq_refuseFirst, refuseIf_eq_refuseFirst beq_iff_eq,
    refuseIf_eq_refuseFirst hinputs, forM_eq_refuseFirst hreserved, List.flatMap_cons,
    List.flatMap_nil, List.append_nil]

theorem AuditSettings.check_eq_refuseFirst (settings : AuditSettings) :
    settings.check = refuseFirst settings.faults := by
  rw [check, faults, logPath]
  cases settings.path with
  | none => rfl
  | some path => exact checkPath_eq_refuseFirst _ _

/-- The check reports the first fault. -/
theorem Settings.check_eq_refuseFirst (settings : Settings) :
    settings.check = refuseFirst settings.faults := by
  rw [check, faults, refuseFirst_append, ExtractSettings.check_eq_refuseFirst,
    AuditSettings.check_eq_refuseFirst]

theorem Settings.check_eq_ok_iff {settings : Settings} :
    settings.check = .ok () ↔ settings.Valid := by
  rw [check_eq_refuseFirst, refuseFirst_eq_ok_iff, faults_eq_nil]

/-! ## Settings read from files -/

/-- A file gives settings exactly if it is small enough and describes them, and they are valid. -/
theorem Settings.ofBytes_eq_ok_iff {bytes : ByteArray} {settings : Settings} :
    ofBytes bytes = .ok settings ↔
      bytes.size ≤ 1024 * 1024 ∧ (String.fromUTF8? bytes).bind ofText? = some settings ∧
        settings.Valid := by
  have hthrow (error : ConfigError) : (throw error : Except ConfigError Settings) = .error error :=
    rfl
  rw [← check_eq_ok_iff, ofBytes]
  by_cases hsize : bytes.size > Limit.fileBytes
  · have hlarge : ¬ bytes.size ≤ 1024 * 1024 := Nat.not_le.2 hsize
    simp [hsize, hlarge, throw, throwThe, MonadExceptOf.throw, bind, Except.bind]
  · have hsmall : bytes.size ≤ 1024 * 1024 := Nat.not_lt.1 hsize
    simp only [if_neg hsize, hsmall, true_and]
    cases String.fromUTF8? bytes with
    | none => simp [hthrow]
    | some text =>
      rw [Option.bind_some]
      cases hread : ofText? text with
      | none => simp [hread, hthrow]
      | some found =>
        simp only [hread, Option.some.injEq]
        cases hcheck : found.check with
        | ok =>
          refine ⟨fun h => ?_, fun h => congrArg Except.ok h.1⟩
          obtain rfl : found = settings := Except.ok.inj h
          exact ⟨rfl, hcheck⟩
        | error violation =>
          refine ⟨nofun, ?_⟩
          rintro ⟨rfl, h⟩
          rw [hcheck] at h
          cases h

/-- The log path of valid settings is not blank. -/
theorem Settings.Valid.logPath_not_blank {settings : Settings} (h : settings.Valid) {path : Path}
    (hpath : settings.audit.logPath = some path) :
    Text.isBlankText path.spelling.toList = false := by
  obtain ⟨text, htext, rfl⟩ := Option.map_eq_some_iff.1 hpath
  have hne : Text.trim text.toList ≠ [] := fun hnil => by
    refine (h.audit text htext).ne_empty ?_
    simp [Text.trimmed, hnil]
  obtain ⟨c, cs, htrim⟩ := List.exists_cons_of_ne_nil hne
  have hc : Text.isBlank c = false := by
    have htight := Text.startsTight_trim text.toList
    rwa [htrim, Text.StartsTight.cons_iff] at htight
  simp [Text.trimmed, htrim, Text.isBlankText, hc]

/-- The log path has no blanks around it. -/
theorem AuditSettings.trimmed_logPath {settings : AuditSettings} {path : Path}
    (hpath : settings.logPath = some path) : Text.trimmed path.spelling = path.spelling := by
  obtain ⟨text, -, rfl⟩ := Option.map_eq_some_iff.1 hpath
  have hends : Text.EndsTight (Text.trim text.toList) := Text.endsTight_trimEnd _
  have htrim : Text.trim (Text.trim text.toList) = Text.trim text.toList := by
    rw [Text.trim, Text.trimStart_eq_self (Text.startsTight_trim _), Text.trimEnd_eq_self hends]
  simp [Text.trimmed, htrim]

/-- The check accepts the settings within the limits and otherwise reports their first fault. Reading
accepts the small files that describe such settings, whose log path is neither blank nor has blanks
around it. -/
theorem Settings.accepts_exactly_valid (settings : Settings) :
    (settings.check = .ok () ↔ settings.Valid) ∧
      (∀ violation, settings.check = .error violation ↔ settings.faults.head? = some violation) ∧
      ∀ bytes,
        (ofBytes bytes = .ok settings ↔
          bytes.size ≤ 1024 * 1024 ∧ (String.fromUTF8? bytes).bind ofText? = some settings ∧
            settings.Valid) ∧
        (ofBytes bytes = .ok settings → ∀ path, settings.audit.logPath = some path →
          Text.isBlankText path.spelling.toList = false ∧
            Text.trimmed path.spelling = path.spelling) := by
  refine ⟨check_eq_ok_iff, fun violation => ?_,
    fun bytes => ⟨ofBytes_eq_ok_iff, fun h path hpath => ?_⟩⟩
  · rw [check_eq_refuseFirst]
    cases settings.faults <;> simp [refuseFirst]
  · obtain ⟨-, -, hvalid⟩ := ofBytes_eq_ok_iff.1 h
    exact ⟨hvalid.logPath_not_blank hpath, AuditSettings.trimmed_logPath hpath⟩

example : ({ extract := { messageAttribute := "i18n msg", maxInputBytes := 0 },
             audit := { path := some "\t" } } : Settings).faults =
    [.hasBlank "extract.message_attribute", .inputLimit, .empty "audit.path"] := by
  decide +kernel

end Phrasebook
