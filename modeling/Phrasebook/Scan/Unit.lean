-- SUMMARY: Scanning the markup of a source unit for messages.
import Phrasebook.Catalog.Merge
import Phrasebook.Message.Extraction
import Phrasebook.Scan.Options

/-!
# Scanning a unit

`scan` walks the nodes of a source unit in document order and collects its catalog:

* an excluded element is passed over with all inside;
* an element with the message attribute is one message, made by `extract`, and is not entered;
* any other text that is not blank is a message, and so is each literal value of a translatable
  attribute, which comes before what stands inside its element.

A message is recorded at the line of its own node or else of the nearest element around it.
-/
namespace Phrasebook

open Markup

/-! ## Declared names -/

/-- The placeholder names that the value of a message attribute declares. A literal is a list
separated by commas, and a blank one declares none. -/
def declaredNames (messageAttribute : String) (value : AttributeValue) :
    Except TemplateError (List String) :=
  match value with
  | .literal text =>
    if Text.isBlankText text.toList then .ok []
    else .ok ((text.toList.splitOn ',').map fun name => String.ofList (Text.trim name))
  | .list names => .ok names
  | .flag => .ok []
  | .expression _ => .error (.invalidPlaceholderList messageAttribute)

/-! ## The walk -/

/-- What a scan found. -/
structure Report where
  unit        : String
  catalog     : Catalog := {}
  /-- The messages dropped under `ErrorPolicy.skipMessage`, in document order. -/
  diagnostics : List LocatedError := []

namespace Report

/-- Record an occurrence of a message. -/
def record (report : Report) (id : String) (line : Line) (comment : Option String) : Report :=
  let location := ({ file := report.unit } : Location).withLine line
  { report with catalog := (report.catalog.add id location comment).2 }

/-- Record a plain text, unless it is blank. -/
def recordText (report : Report) (text : String) (line : Line) (normalize : Bool) : Report :=
  let message := MessageId.ofText text normalize
  if message.isEmpty then report else report.record message.id line none

/-- Record the literal values of the translatable attributes of an element. -/
def recordAttributes (options : ScanOptions) (report : Report) (attributes : List Attribute)
    (line : Line) (normalize : Bool) : Report :=
  attributes.foldl (fun report candidate =>
    if options.translatableAttributes.contains candidate.name then
      match candidate.value.literal? with
      | some text => report.recordText text line normalize
      | none => report
    else report) report

/-- The template of a message element; its names come from the message attribute. -/
def template (options : ScanOptions) (element : Element) (names : AttributeValue)
    (normalize : Bool) : Except TemplateError String := do
  let names ← declaredNames options.messageAttribute names
  let extraction ← extract element names
    { normalize, preserveTags := options.preserveTags, allowUnused := options.allowUnused }
  return extraction.format

/-- The comment on a message element. -/
def commentOn (options : ScanOptions) (tag : Tag) : Option String :=
  (tag.attribute? options.commentAttribute).bind fun comment => comment.value.literal?

/-- Record a message element, or treat its failure as the policy says. -/
def recordElement (options : ScanOptions) (report : Report) (element : Element)
    (names : AttributeValue) (line : Line) (normalize : Bool) : Except LocatedError Report :=
  match template options element names normalize with
  | .ok id =>
    if id.isEmpty then .ok report
    else .ok (report.record id line (commentOn options element.tag))
  | .error error =>
    let located : LocatedError :=
      { location := ({ file := report.unit } : Location).withLine line, error }
    match options.onError with
    | .abort => .error located
    | .skipMessage => .ok { report with diagnostics := report.diagnostics ++ [located] }

mutual
/-- Visit a node. `line` is the line of the nearest element around it, and `normalize` says
whether blanks collapse here. -/
def visit (options : ScanOptions) (line : Line) (normalize : Bool) (report : Report) :
    Node → Except LocatedError Report
  | .text value own => .ok (report.recordText value (own <|> line) normalize)
  | .expression _ => .ok report
  | .element tag children =>
    if options.excludes tag then .ok report
    else
      let line := tag.line <|> line
      let normalize := normalize && !options.preserves tag
      match tag.attribute? options.messageAttribute with
      | some names => report.recordElement options ⟨tag, children⟩ names.value line normalize
      | none =>
        let report := report.recordAttributes options tag.attributes line normalize
        visitAll options line normalize report children
def visitAll (options : ScanOptions) (line : Line) (normalize : Bool) (report : Report) :
    List Node → Except LocatedError Report
  | [] => .ok report
  | node :: nodes => do
    let report ← visit options line normalize report node
    visitAll options line normalize report nodes
end

/-- The catalog of the unit, for merging. -/
def toUnitCatalog (report : Report) : UnitCatalog :=
  { unit := report.unit, catalog := report.catalog }

end Report

/-- Scan the nodes of a source unit. -/
def scan (unit : String) (nodes : List Node) (options : ScanOptions) :
    Except LocatedError Report :=
  Report.visitAll options none options.normalize { unit } nodes

end Phrasebook
