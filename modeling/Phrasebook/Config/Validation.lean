-- SUMMARY: What makes settings invalid, the wording of it, and the check of all settings.
import Phrasebook.Config.Settings

/-!
# Validation

`Settings.check` accepts settings that meet every limit and otherwise reports the first violation,
in a fixed order: the three attribute names, the three lists of names, the clashes between
attributes, the input limit, and the path of the audit log. Lengths count bytes of UTF-8.
-/
namespace Phrasebook

/-! ## Violations -/

/-- What is wrong with a configuration. -/
inductive Violation where
  /-- The configuration file is too large. -/
  | fileTooLarge
  /-- The configuration file is no text. -/
  | fileNotText
  /-- The path of the configuration file is too long. -/
  | filePathTooLong
  /-- A component of that path is too long. -/
  | filePathComponentTooLong
  /-- A setting is empty. -/
  | empty (setting : String)
  /-- A setting is too long. -/
  | tooLong (setting : String)
  /-- A name has blanks in it. -/
  | hasBlank (setting : String)
  /-- A list has too many entries. -/
  | tooManyEntries (setting : String)
  /-- The message and the comment attribute have the same name. -/
  | sameAttributes
  /-- An attribute with a meaning of its own is translatable. -/
  | reservedAttribute (name : String)
  /-- The input limit is out of range. -/
  | inputLimit
  /-- A component of a path is too long. -/
  | componentTooLong (setting : String)
deriving DecidableEq, Repr

namespace Limit

/-- The greatest length of a name, in bytes. -/
def nameBytes : Nat := 128

/-- The greatest length of a list of names. -/
def listEntries : Nat := 64

/-- The greatest limit on the size of inputs, in bytes. -/
def inputBytes : Nat := 64 * 1024 * 1024

/-- The greatest size of a configuration file, in bytes. -/
def fileBytes : Nat := 1024 * 1024

end Limit

def Violation.message : Violation → String
  | .fileTooLarge => "config file exceeds size limit"
  | .fileNotText => "config file must be utf-8"
  | .filePathTooLong => "config path exceeds max length"
  | .filePathComponentTooLong => "config path component too long"
  | .empty setting => setting ++ " must be non-empty"
  | .tooLong setting => setting ++ " exceeds max length"
  | .hasBlank setting => setting ++ " must not contain whitespace"
  | .tooManyEntries setting => setting ++ " exceeds " ++ toString Limit.listEntries ++ " entries"
  | .sameAttributes => "extract.message_attribute and extract.comment_attribute must differ"
  | .reservedAttribute name => "extract.translatable_attributes must not contain " ++ name
  | .inputLimit =>
    "extract.max_input_bytes must be between 1 and " ++ toString Limit.inputBytes
  | .componentTooLong setting => setting ++ " path component too long"

/-! ## Checks -/

/-- Refuse with a violation where a condition holds. -/
def refuseIf (condition : Bool) (violation : Violation) : Except Violation Unit :=
  if condition then .error violation else .ok ()

/-- A name is not empty, not too long, and has no blanks. -/
def checkName (setting name : String) : Except Violation Unit := do
  refuseIf name.isEmpty (.empty setting)
  refuseIf (name.utf8ByteSize > Limit.nameBytes) (.tooLong setting)
  refuseIf (name.toList.any Text.isBlank) (.hasBlank setting)

/-- A list of names is not too long, and all its names are fine. -/
def checkNameList (setting : String) (names : List String) : Except Violation Unit := do
  refuseIf (names.length > Limit.listEntries) (.tooManyEntries setting)
  names.forM (checkName setting)

/-- A path is not empty and meets the limits on paths. -/
def checkPath (setting : String) (path : Path) : Except Violation Unit := do
  refuseIf path.spelling.isEmpty (.empty setting)
  refuseIf (path.size > Path.maxSize) (.tooLong setting)
  refuseIf path.hasLongComponent (.componentTooLong setting)

def ExtractSettings.check (settings : ExtractSettings) : Except Violation Unit := do
  checkName "extract.message_attribute" settings.messageAttribute
  checkName "extract.comment_attribute" settings.commentAttribute
  checkName "extract.lang_attribute" settings.langAttribute
  checkNameList "extract.translatable_attributes" settings.translatableAttributes
  checkNameList "extract.element_blacklist" settings.blacklist
  checkNameList "extract.preserve_whitespace_elements" settings.preserveTags
  refuseIf (settings.messageAttribute == settings.commentAttribute) .sameAttributes
  [settings.messageAttribute, settings.commentAttribute].forM fun name =>
    refuseIf (settings.translatableAttributes.contains name) (.reservedAttribute name)
  refuseIf (settings.maxInputBytes == 0 || settings.maxInputBytes > Limit.inputBytes) .inputLimit

def AuditSettings.check (settings : AuditSettings) : Except Violation Unit :=
  match settings.logPath with
  | some path => checkPath "audit.path" path
  | none => .ok ()

/-- Check all settings; the first violation counts. -/
def Settings.check (settings : Settings) : Except Violation Unit := do
  settings.extract.check
  settings.audit.check

end Phrasebook
