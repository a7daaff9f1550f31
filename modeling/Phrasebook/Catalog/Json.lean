-- SUMMARY: The JSON form of locations, catalog entries, and catalog documents.
import Phrasebook.Catalog.Document
import Phrasebook.Json.Decode

/-!
# Catalogs as JSON

Locations, entries and documents are records. An entry keeps its references and its comment in a
record of their own; a record of a document has all its fields side by side.
-/
namespace Phrasebook

open Json Decode

/-! ## Locations -/

def Location.toJson (location : Location) : Value :=
  .record
    [("file", some (.string location.file)),
     ("line", location.line.map fun line => .ofNat line.toNat)]

def Location.ofJson? (value : Value) : Option Location := do
  let fields ← record ["file", "line"] value
  return { file := ← required fields "file" string, line := ← optional fields "line" uint32 }

/-! ## Entries -/

/-- A list of strings. -/
def strings (texts : List String) : Value := .array (texts.map Value.string)

/-- The fields of references and a comment; the list has a name of its own in each record. -/
def Entry.occurrences (entry : Entry) (references : String) : List (String × Option Value) :=
  [(references, some (.array (entry.references.map Location.toJson))),
   ("extracted", entry.comment.map Value.string)]

/-- An entry on its own. -/
def Entry.toJson (entry : Entry) : Value :=
  .record
    [("id", some (.string entry.id)),
     ("translations", some (strings entry.translations)),
     ("comments", some (.record (entry.occurrences "reference")))]

/-- An entry as a record of a document. -/
def Entry.toRecord (entry : Entry) : Value :=
  .record
    (("id", some (.string entry.id)) :: ("translations", some (strings entry.translations)) ::
      entry.occurrences "references")

/-- References and a comment. -/
def Entry.occurrences? (value : Value) : Option (List Location × Option String) := do
  let fields ← record ["reference", "extracted"] value
  return (← required fields "reference" (list Location.ofJson?),
    ← optional fields "extracted" string)

/-- Read an entry on its own. -/
def Entry.ofJson? (value : Value) : Option Entry := do
  let fields ← record ["id", "translations", "comments"] value
  let id ← required fields "id" string
  let translations ← default fields "translations" [] (list string)
  let (references, comment) ← default fields "comments" ([], none) Entry.occurrences?
  return { id, translations, references, comment }

/-- Read an entry as a record of a document. -/
def Entry.ofRecord? (value : Value) : Option Entry := do
  let fields ← record ["id", "translations", "references", "extracted"] value
  return {
    id           := ← required fields "id" string
    translations := ← required fields "translations" (list string)
    references   := ← required fields "references" (list Location.ofJson?)
    comment      := ← optional fields "extracted" string }

/-! ## Documents -/

def Header.toJson (header : Header) : Value :=
  .record
    [("charset", some (.string header.charset)),
     ("creation_date", some (.string header.creationDate)),
     ("mime_version", some (.string header.mimeVersion)),
     ("content_type", some (.string header.contentType)),
     ("content_transfer_encoding", some (.string header.contentTransferEncoding))]

def Header.ofJson? (value : Value) : Option Header := do
  let fields ← record
    ["charset", "creation_date", "mime_version", "content_type", "content_transfer_encoding"] value
  return {
    charset                 := ← required fields "charset" string
    creationDate            := ← required fields "creation_date" string
    mimeVersion             := ← required fields "mime_version" string
    contentType             := ← required fields "content_type" string
    contentTransferEncoding := ← required fields "content_transfer_encoding" string }

def CatalogDocument.toJson (document : CatalogDocument) : Value :=
  .record
    [("header", some document.header.toJson),
     ("records", some (.array (document.records.map Entry.toRecord)))]

def CatalogDocument.ofJson? (value : Value) : Option CatalogDocument := do
  let fields ← record ["header", "records"] value
  return {
    header  := ← required fields "header" Header.ofJson?
    records := ← required fields "records" (list Entry.ofRecord?) }

end Phrasebook
