-- SUMMARY: Settings of the tool, section by section, with their defaults.
import Phrasebook.Catalog.Document
import Phrasebook.Files.Path
import Phrasebook.Scan.Options
import Phrasebook.Text.Blank

/-!
# Settings

The settings of a run: what a scan looks for, how catalogs are written, and where audit events go.
Every setting has a default, so the empty configuration is the default one.
-/
namespace Phrasebook

/-- How a catalog is written. -/
inductive CatalogFormat where
  | po
  | json
deriving DecidableEq, Repr

def CatalogFormat.name : CatalogFormat → String
  | .po   => "po"
  | .json => "json"

/-- The formats by name. -/
def CatalogFormat.names : List (String × CatalogFormat) :=
  [CatalogFormat.po, .json].map fun format => (format.name, format)

/-- What a scan looks for, and how large its inputs may be. -/
structure ExtractSettings extends ScanOptions where
  /-- The greatest size of a markup document, in bytes. -/
  maxInputBytes : Nat := 8 * 1024 * 1024
deriving DecidableEq, Repr

/-- How catalogs are merged and written. -/
structure CatalogSettings where
  commentPolicy : CommentPolicy := .keepFirst
  seed          : TranslationSeed := .empty
  format        : CatalogFormat := .po
deriving DecidableEq, Repr

/-- Whether events are recorded, and where. -/
structure AuditSettings where
  enabled : Bool := false
  /-- The log file, as written. Without one, events go to the error stream. -/
  path    : Option String := none
deriving DecidableEq, Repr

/-- The log file, without blanks around its path. -/
def AuditSettings.logPath (settings : AuditSettings) : Option Path :=
  settings.path.map fun path => ⟨Text.trimmed path⟩

structure Settings where
  extract : ExtractSettings := {}
  catalog : CatalogSettings := {}
  audit   : AuditSettings := {}
deriving DecidableEq, Repr

end Phrasebook
