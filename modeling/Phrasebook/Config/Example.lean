-- SUMMARY: The example configuration file, with every default spelled out.

/-!
# Example configuration

The lines of a configuration file that sets everything to its default and explains each setting.
-/
namespace Phrasebook.Settings

/-- The lines of the example. -/
def exampleLines : List String :=
  ["# markup-msg.toml",
   "",
   "[extract]",
   "# Collapse whitespace runs in message ids.",
   "normalize_whitespace = true",
   "# Attribute that turns an element into one message with nested markup.",
   "# Its value lists placeholder names for embedded expressions: \"name, count\".",
   "message_attribute = \"i18nMsg\"",
   "# Attribute carrying a comment for translators.",
   "comment_attribute = \"i18nComment\"",
   "# Elements carrying this attribute are skipped.",
   "lang_attribute = \"lang\"",
   "translatable_attributes = [\"alt\", \"placeholder\", \"title\"]",
   "element_blacklist = [\"style\", \"code\"]",
   "preserve_whitespace_elements = [\"pre\", \"textarea\"]",
   "# Accept names in the message attribute that no expression uses.",
   "allow_unused_placeholders = false",
   "# \"abort\" or \"skip_message\".",
   "on_error = \"abort\"",
   "max_input_bytes = 8388608",
   "",
   "[catalog]",
   "# \"keep_first\" or \"concatenate_distinct\".",
   "comment_merge = \"keep_first\"",
   "# \"empty\" or \"source_text\".",
   "seed_translations = \"empty\"",
   "# \"po\" or \"json\".",
   "format = \"po\"",
   "",
   "[audit]",
   "enabled = false",
   "# path = \"markup-msg-audit.jsonl\""]

/-- The text of the example. -/
def exampleText : String := String.join (exampleLines.map (· ++ "\n"))

end Phrasebook.Settings
