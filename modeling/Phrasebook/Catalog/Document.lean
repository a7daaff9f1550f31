-- SUMMARY: Catalog documents: a header and the records of a catalog, ready to be written.
import Phrasebook.Calendar.Moment
import Phrasebook.Catalog.Basic

/-!
# Catalog documents

A document is what a catalog file holds: a header and one record per message, in catalog order.
The creation date is given, never read off a clock, so equal catalogs give equal files.
-/
namespace Phrasebook

/-- The header of a catalog file. -/
structure Header where
  charset                 : String
  /-- The creation date, `YYYY-MM-DD HH:MM+0000`. -/
  creationDate            : String
  mimeVersion             : String
  contentType             : String
  contentTransferEncoding : String
deriving DecidableEq, Repr

namespace Header

/-- The standard header of a file created at a written date. -/
def stamped (creationDate : String) : Header where
  charset                 := "utf-8"
  creationDate            := creationDate
  mimeVersion             := "1.0"
  contentType             := "text/plain; charset=UTF-8"
  contentTransferEncoding := "8bit"

/-- The standard header of a file created at a moment, which must have a UTC form. -/
def ofMoment? (created : Moment) : Option Header := created.creationDate?.map stamped

/-- The fields that a PO file shows, in order. -/
def fields (header : Header) : List (String × String) :=
  [("POT-Creation-Date", header.creationDate),
   ("MIME-Version", header.mimeVersion),
   ("Content-Type", header.contentType),
   ("Content-Transfer-Encoding", header.contentTransferEncoding)]

end Header

/-- What an untranslated message starts from. -/
inductive TranslationSeed where
  /-- No translation. -/
  | empty
  /-- Its own id, as in a catalog of the source language. -/
  | sourceText
deriving DecidableEq, Repr

def TranslationSeed.name : TranslationSeed → String
  | .empty      => "empty"
  | .sourceText => "source_text"

/-- The seeds by name. -/
def TranslationSeed.names : List (String × TranslationSeed) :=
  [TranslationSeed.empty, .sourceText].map fun seed => (seed.name, seed)

/-- A catalog ready to be written. -/
structure CatalogDocument where
  header  : Header
  records : List Entry
deriving DecidableEq, Repr

/-- Give an untranslated message its first translation. -/
def Entry.seeded (seed : TranslationSeed) (entry : Entry) : Entry :=
  match seed with
  | .empty => entry
  | .sourceText =>
    if entry.translations.isEmpty then { entry with translations := [entry.id] } else entry

/-- The document of a catalog. -/
def Catalog.document (catalog : Catalog) (header : Header) (seed : TranslationSeed) :
    CatalogDocument where
  header  := header
  records := catalog.toList.map (Entry.seeded seed)

end Phrasebook
