-- SUMMARY: Options of the scan of a source unit, and their defaults.
import Phrasebook.Markup.Element

/-!
# Scan options

Which attributes and elements a scan looks for, and what it does with a message that fails.
-/
namespace Phrasebook

/-- What to do when a message cannot be extracted. -/
inductive ErrorPolicy where
  /-- Stop. -/
  | abort
  /-- Drop the message and keep a diagnostic. -/
  | skipMessage
deriving DecidableEq, Repr

def ErrorPolicy.name : ErrorPolicy → String
  | .abort       => "abort"
  | .skipMessage => "skip_message"

/-- The policies by name. -/
def ErrorPolicy.names : List (String × ErrorPolicy) :=
  [ErrorPolicy.abort, .skipMessage].map fun policy => (policy.name, policy)

structure ScanOptions where
  /-- Collapse blanks in message ids. -/
  normalize              : Bool := true
  /-- Makes an element one message and names its expressions. -/
  messageAttribute       : String := "i18nMsg"
  /-- Holds the comment for the translators of such a message. -/
  commentAttribute       : String := "i18nComment"
  /-- Excludes an element and all inside, as written in one language for good. -/
  langAttribute          : String := "lang"
  /-- Attributes whose literal values are messages. -/
  translatableAttributes : List String := ["alt", "placeholder", "title"]
  /-- Elements excluded with all inside. -/
  blacklist              : List String := ["style", "code"]
  /-- Elements whose blanks are kept. -/
  preserveTags           : List String := ["pre", "textarea"]
  /-- Accept names without an expression. -/
  allowUnused            : Bool := false
  onError                : ErrorPolicy := .abort
deriving DecidableEq, Repr

namespace ScanOptions

open Markup

/-- The scan passes over the element. -/
def excludes (options : ScanOptions) (tag : Tag) : Bool :=
  options.blacklist.contains tag.name || tag.hasAttribute options.langAttribute

/-- The element keeps its blanks. -/
def preserves (options : ScanOptions) (tag : Tag) : Bool :=
  tag.preserveWhitespace || options.preserveTags.contains tag.name

end ScanOptions

end Phrasebook
