-- SUMMARY: What the tool says, phrase by phrase, in each of its languages.
import Phrasebook.Command.Locale

/-!
# Phrases

Everything the tool says to its users is a phrase: a text with named slots in braces. Each phrase
has a text in every language, so none can be missing, and a key under which it can be looked up.
`Phrase.substitute` fills the slots in one pass, so that an inserted text is never filled again.
-/
namespace Phrasebook

/-! ## Phrases -/

inductive Phrase where
  /-- The version of the tool. -/
  | version
  /-- The language in the environment is unknown. -/
  | badLanguage
  /-- A note in front of output that is not English. -/
  | disclaimer
  /-- The name of the standard output. -/
  | outputStream
  /-- The name of the error stream. -/
  | errorStream
  /-- The name of any other stream. -/
  | otherStream
  /-- A stream cannot be written. -/
  | cannotPrint
  /-- The name of a markup document. -/
  | document
  /-- The name of a list of slots. -/
  | slots
  /-- The name of the values of expressions. -/
  | expressions
  /-- An input cannot be read. -/
  | cannotRead
  /-- An input is too large. -/
  | inputTooLarge
  /-- An input is malformed. -/
  | inputMalformed
  /-- The configuration cannot be loaded. -/
  | cannotLoadConfig
  /-- The configuration is valid. -/
  | configValid
  /-- The audit log cannot be opened. -/
  | cannotOpenAudit
  /-- A worker stopped. -/
  | workerFailed
  /-- A message was dropped. -/
  | skipped
  /-- A document cannot be scanned. -/
  | scanFailed
  /-- The creation date is malformed. -/
  | badCreationDate
  /-- The creation date in the environment is malformed. -/
  | badSourceDate
  /-- The catalog cannot be encoded. -/
  | cannotEncodeCatalog
  /-- The catalog cannot be written. -/
  | cannotWriteCatalog
  /-- The catalog was written. -/
  | catalogWritten
  /-- A template cannot be rendered. -/
  | cannotRender
  /-- The rendered markup cannot be encoded. -/
  | cannotEncodeMarkup
  /-- A template is well formed. -/
  | templateFine
  /-- A template is malformed. -/
  | templateMalformed
  /-- How many templates are malformed. -/
  | checkSummary
deriving DecidableEq, Repr

namespace Phrase

/-- All phrases. -/
def all : List Phrase :=
  [.version, .badLanguage, .disclaimer, .outputStream, .errorStream, .otherStream, .cannotPrint,
   .document, .slots, .expressions, .cannotRead, .inputTooLarge, .inputMalformed,
   .cannotLoadConfig, .configValid, .cannotOpenAudit, .workerFailed, .skipped, .scanFailed,
   .badCreationDate, .badSourceDate, .cannotEncodeCatalog, .cannotWriteCatalog, .catalogWritten,
   .cannotRender, .cannotEncodeMarkup, .templateFine, .templateMalformed, .checkSummary]

/-- The key of a phrase. -/
def key : Phrase → String
  | .version => "main.version"
  | .badLanguage => "i18n.lang.invalid_env"
  | .disclaimer => "i18n.disclaimer.machine_translated"
  | .outputStream => "output.stream.stdout"
  | .errorStream => "output.stream.stderr"
  | .otherStream => "output.stream.unknown"
  | .cannotPrint => "output.write_failed"
  | .document => "input.kind.document"
  | .slots => "input.kind.slots"
  | .expressions => "input.kind.expressions"
  | .cannotRead => "input.read_failed"
  | .inputTooLarge => "input.read_too_large"
  | .inputMalformed => "input.parse_failed"
  | .cannotLoadConfig => "config.load_failed"
  | .configValid => "config.validate.ok"
  | .cannotOpenAudit => "audit.open_failed"
  | .workerFailed => "extract.worker_failed"
  | .skipped => "extract.skipped"
  | .scanFailed => "extract.scan_failed"
  | .badCreationDate => "extract.creation_date.invalid"
  | .badSourceDate => "extract.source_date_epoch.invalid"
  | .cannotEncodeCatalog => "extract.serialize_failed"
  | .cannotWriteCatalog => "extract.write_failed"
  | .catalogWritten => "extract.ok"
  | .cannotRender => "render.failed"
  | .cannotEncodeMarkup => "render.serialize_failed"
  | .templateFine => "check.ok"
  | .templateMalformed => "check.failed"
  | .checkSummary => "check.summary"

/-- The phrase of a key. -/
def ofKey? (key : String) : Option Phrase := all.find? fun phrase => phrase.key == key

/-! ## Texts -/

def english : Phrase → String
  | .version => "markup-msg {version}"
  | .badLanguage => "Invalid value for {env}: {value}. Expected 'en' or 'ca'."
  | .disclaimer => "Note: non-English output is machine-translated and may be inaccurate."
  | .outputStream => "stdout"
  | .errorStream => "stderr"
  | .otherStream => "output"
  | .cannotPrint => "Failed to write to {stream}: {error}"
  | .document => "markup document"
  | .slots => "slot list"
  | .expressions => "expression values"
  | .cannotRead => "Failed to read {kind} at {path}: {error}"
  | .inputTooLarge =>
    "Refusing to read {kind} at {path} because it is {size} bytes (limit {limit})."
  | .inputMalformed => "Failed to parse {kind} JSON at {path}: {error}"
  | .cannotLoadConfig => "Failed to load config: {error}"
  | .configValid => "Config valid."
  | .cannotOpenAudit => "Failed to open audit log at {path}: {error}"
  | .workerFailed => "An extraction worker stopped unexpectedly."
  | .skipped => "Skipped message: {error}"
  | .scanFailed => "Extraction failed: {error}"
  | .badCreationDate => "Invalid creation date {value}: {error}"
  | .badSourceDate => "Invalid value for {env}: {value}. Expected a unix timestamp in seconds."
  | .cannotEncodeCatalog => "Failed to serialize catalog: {error}"
  | .cannotWriteCatalog => "Failed to write catalog to {path}: {error}"
  | .catalogWritten => "Wrote {count} messages to {path}"
  | .cannotRender => "Failed to render template: {error}"
  | .cannotEncodeMarkup => "Failed to serialize rendered markup: {error}"
  | .templateFine => "ok: {template}"
  | .templateMalformed => "error: {template}: {error}"
  | .checkSummary => "{failed} of {total} templates failed."

def catalan : Phrase → String
  | .version => "markup-msg {version}"
  | .badLanguage => "Valor no vàlid per a {env}: {value}. S'esperava 'en' o 'ca'."
  | .disclaimer =>
    "Nota: la sortida que no és en anglès està traduïda automàticament i pot ser inexacta."
  | .outputStream => "stdout"
  | .errorStream => "stderr"
  | .otherStream => "sortida"
  | .cannotPrint => "No s'ha pogut escriure a {stream}: {error}"
  | .document => "document de marcatge"
  | .slots => "llista de ranures"
  | .expressions => "valors d'expressions"
  | .cannotRead => "No s'ha pogut llegir {kind} a {path}: {error}"
  | .inputTooLarge =>
    "Es rebutja llegir {kind} a {path} perquè ocupa {size} bytes (límit {limit})."
  | .inputMalformed => "No s'ha pogut analitzar el JSON de {kind} a {path}: {error}"
  | .cannotLoadConfig => "No s'ha pogut carregar la configuració: {error}"
  | .configValid => "Configuració vàlida."
  | .cannotOpenAudit => "No s'ha pogut obrir el registre d'auditoria a {path}: {error}"
  | .workerFailed => "Un fil d'extracció s'ha aturat inesperadament."
  | .skipped => "Missatge omès: {error}"
  | .scanFailed => "L'extracció ha fallat: {error}"
  | .badCreationDate => "Data de creació no vàlida {value}: {error}"
  | .badSourceDate =>
    "Valor no vàlid per a {env}: {value}. S'esperava una marca de temps unix en segons."
  | .cannotEncodeCatalog => "No s'ha pogut serialitzar el catàleg: {error}"
  | .cannotWriteCatalog => "No s'ha pogut escriure el catàleg a {path}: {error}"
  | .catalogWritten => "S'han escrit {count} missatges a {path}"
  | .cannotRender => "No s'ha pogut renderitzar la plantilla: {error}"
  | .cannotEncodeMarkup => "No s'ha pogut serialitzar el marcatge renderitzat: {error}"
  | .templateFine => "correcte: {template}"
  | .templateMalformed => "error: {template}: {error}"
  | .checkSummary => "Han fallat {failed} de {total} plantilles."

/-- The text of a phrase, its slots not yet filled. -/
def text (phrase : Phrase) : Locale → String
  | .english => phrase.english
  | .catalan => phrase.catalan

/-! ## Slots -/

/-- Texts by the name of their slot; of two for one slot the first counts. -/
abbrev Arguments := List (String × String)

/-- The name between an opening brace, which stands in front of `cs`, and the next closing one. -/
def slotAt (cs : List Char) : Option (List Char) :=
  if cs.contains '}' then some (cs.takeWhile (· != '}')) else none

/-- Fill the slots of a text behind the reversed text `out`. The first `skip` characters belong to
a slot already filled. -/
def substituteOnto (values : Arguments) (out : List Char) (skip : Nat) : List Char → List Char
  | [] => out
  | c :: cs =>
    match skip with
    | skip + 1 => substituteOnto values out skip cs
    | 0 =>
      let filled := if c = '{' then (slotAt cs).bind fun name =>
          (values.lookup (String.ofList name)).map fun value => (name, value)
        else none
      match filled with
      | some (name, value) =>
        substituteOnto values (value.toList.reverse ++ out) (name.length + 1) cs
      | none => substituteOnto values (c :: out) 0 cs

/-- Fill the slots of a text. Braces that enclose no slot with a value stay as they are. -/
def substitute (values : Arguments) (text : String) : String :=
  String.ofList (substituteOnto values [] 0 text.toList).reverse

/-- A text with its slots filled; without values it stays as it is. -/
def fill (text : String) (values : Arguments) : String :=
  if values.isEmpty then text else substitute values text

/-- What a phrase says. -/
def say (phrase : Phrase) (locale : Locale) (values : Arguments) : String :=
  fill (phrase.text locale) values

/-- What the phrase of a key says. An unknown key is a text of its own. -/
def sayKey (key : String) (locale : Locale) (values : Arguments) : String :=
  match ofKey? key with
  | some phrase => phrase.say locale values
  | none => fill key values

end Phrase

end Phrasebook
