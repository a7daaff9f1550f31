-- SUMMARY: Writing catalog documents as gettext PO text.
import Phrasebook.Catalog.Document
import Phrasebook.Text.Lines

/-!
# PO text

A PO file starts with the header, written as the translation of the empty id. Each record follows
after an empty line: its comment in lines marked `#.`, its references in lines marked `#:`, its id
and its translations. Several translations make a plural entry, which repeats the id and numbers
the translations.

A value that goes on after a line feed is written in several quoted strings, one per line.
-/
namespace Phrasebook.Po

/-! ## Quoted strings -/

/-- A character inside a quoted string. -/
def escapeChar (c : Char) : List Char :=
  match c with
  | '\\' => ['\\', '\\']
  | '"'  => ['\\', '"']
  | '\n' => ['\\', 'n']
  | '\r' => ['\\', 'r']
  | '\t' => ['\\', 't']
  | c    => [c]

/-- Escape the text of a quoted string. -/
def escape (cs : List Char) : List Char := cs.flatMap escapeChar

/-- A text in quotes. -/
def quoted (cs : List Char) : String := "\"" ++ String.ofList (escape cs) ++ "\""

/-! ## Lines -/

/-- A comment line. Nothing stands behind the marker of an empty comment. -/
def comment (marker text : String) : String :=
  if text.isEmpty then marker else marker ++ " " ++ text

/-- Text goes on behind a line feed. -/
def isMultiline (cs : List Char) : Bool := (cs.reverse.dropWhile (· == '\n')).contains '\n'

/-- A keyword with its value, in one line or in several. -/
def keyword (name value : String) : List String :=
  let cs := value.toList
  if isMultiline cs then (name ++ " \"\"") :: (Text.segments cs).map quoted
  else [name ++ " " ++ quoted cs]

/-- Numbered translations of a plural entry. -/
def plurals (translations : List String) : List String :=
  (translations.zipIdx.map fun (text, i) => keyword s!"msgstr[{i}]" text).flatten

/-- The translations of a message. -/
def translations (id : String) : List String → List String
  | [] => keyword "msgstr" ""
  | [text] => keyword "msgstr" text
  | texts => keyword "msgid_plural" id ++ plurals texts

/-- The lines of a record. -/
def record (entry : Entry) : List String :=
  let comments := match entry.comment with
    | some text => (Text.lines text.toList).map fun line => comment "#." (String.ofList line)
    | none => []
  let references := entry.references.map fun location => comment "#:" location.display
  comments ++ references ++ keyword "msgid" entry.id ++ translations entry.id entry.translations

/-- The lines of the header. -/
def header (header : Header) : List String :=
  "msgid \"\"" :: "msgstr \"\"" ::
    header.fields.map fun (name, value) => quoted (name ++ ": " ++ value ++ "\n").toList

/-- Lines as a text, each with its end. -/
def unlines (lines : List String) : String := String.join (lines.map (· ++ "\n"))

end Phrasebook.Po

namespace Phrasebook

/-- The PO text of a document. -/
def CatalogDocument.toPo (document : CatalogDocument) : String :=
  Po.unlines (Po.header document.header ++ document.records.flatMap fun entry =>
    "" :: Po.record entry)

end Phrasebook
