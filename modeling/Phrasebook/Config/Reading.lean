-- SUMMARY: Reading settings from a configuration file, and the failures of it.
import Phrasebook.Config.Validation
import Phrasebook.Toml.Decode
import Phrasebook.Toml.Document

/-!
# Configuration files

A configuration file is a TOML document with the sections `extract`, `catalog` and `audit`.
`Settings.ofBytes` checks its size and encoding, reads it, and checks the settings it describes.
-/
namespace Phrasebook

/-! ## Failures -/

/-- Why settings cannot be loaded. -/
inductive ConfigError where
  /-- The file cannot be read, for the given reason. -/
  | unreadable (reason : String)
  /-- The file is no TOML, or a value has the wrong type. -/
  | malformed
  | invalid (violation : Violation)
deriving DecidableEq, Repr

/-- The wording shown to users. `complaint` is what is said of a malformed file. -/
def ConfigError.message (complaint : String) : ConfigError → String
  | .unreadable reason => "config io error: " ++ reason
  | .malformed => "config parse error: " ++ complaint
  | .invalid violation => "invalid config: " ++ violation.message

/-! ## Sections -/

open Toml.Decode

def ExtractSettings.ofToml? (value : Toml.Value) : Option ExtractSettings := do
  let fields ← fields
    ["normalize_whitespace", "message_attribute", "comment_attribute", "lang_attribute",
     "translatable_attributes", "element_blacklist", "preserve_whitespace_elements",
     "allow_unused_placeholders", "on_error", "max_input_bytes"] value
  let usual : ExtractSettings := {}
  return {
    normalize        := ← default fields "normalize_whitespace" usual.normalize bool
    messageAttribute := ← default fields "message_attribute" usual.messageAttribute string
    commentAttribute := ← default fields "comment_attribute" usual.commentAttribute string
    langAttribute    := ← default fields "lang_attribute" usual.langAttribute string
    translatableAttributes :=
      ← default fields "translatable_attributes" usual.translatableAttributes (list string)
    blacklist        := ← default fields "element_blacklist" usual.blacklist (list string)
    preserveTags     :=
      ← default fields "preserve_whitespace_elements" usual.preserveTags (list string)
    allowUnused      := ← default fields "allow_unused_placeholders" usual.allowUnused bool
    onError          := ← default fields "on_error" usual.onError (choice ErrorPolicy.names)
    maxInputBytes    :=
      ← default fields "max_input_bytes" usual.maxInputBytes (nat Text.Numeral.nat64Max) }

def CatalogSettings.ofToml? (value : Toml.Value) : Option CatalogSettings := do
  let fields ← fields ["comment_merge", "seed_translations", "format"] value
  let usual : CatalogSettings := {}
  return {
    commentPolicy :=
      ← default fields "comment_merge" usual.commentPolicy (choice CommentPolicy.names)
    seed   := ← default fields "seed_translations" usual.seed (choice TranslationSeed.names)
    format := ← default fields "format" usual.format (choice CatalogFormat.names) }

def AuditSettings.ofToml? (value : Toml.Value) : Option AuditSettings := do
  let fields ← fields ["enabled", "path"] value
  return {
    enabled := ← default fields "enabled" false bool
    path    := ← default fields "path" none fun value => (string value).map some }

/-! ## Files -/

namespace Settings

/-- The settings that a document describes. -/
def ofToml? (document : List (String × Toml.Value)) : Option Settings := do
  let fields ← known ["extract", "catalog", "audit"] document
  return {
    extract := ← default fields "extract" {} ExtractSettings.ofToml?
    catalog := ← default fields "catalog" {} CatalogSettings.ofToml?
    audit   := ← default fields "audit" {} AuditSettings.ofToml? }

/-- The settings that a text describes, not yet checked. -/
def ofText? (text : String) : Option Settings := (Toml.Value.ofText? text).bind ofToml?

/-- Read and check the settings in a file. -/
def ofBytes (bytes : ByteArray) : Except ConfigError Settings := do
  if bytes.size > Limit.fileBytes then throw (.invalid .fileTooLarge)
  let some text := String.fromUTF8? bytes | throw (.invalid .fileNotText)
  let some settings := ofText? text | throw .malformed
  settings.check.mapError .invalid
  return settings

end Settings

end Phrasebook
