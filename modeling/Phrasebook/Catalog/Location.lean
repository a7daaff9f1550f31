-- SUMMARY: Source locations, their wording and order, and errors tied to a location.
import Phrasebook.Template.Error

/-!
# Source locations

A location names a source unit and, where it is known, a line. It is shown as `file:line`, or as
the unit alone. A `LocatedError` ties a template error to the markup that caused it.
-/
namespace Phrasebook

structure Location where
  /-- The source unit, as the caller names it. -/
  file : String
  line : Option UInt32 := none
deriving DecidableEq, Repr

namespace Location

/-- The location moved to a line, if there is one. -/
def withLine (location : Location) (line : Option UInt32) : Location :=
  { location with line := line <|> location.line }

/-- The text shown in references and diagnostics. -/
def display (location : Location) : String :=
  match location.line with
  | some line => location.file ++ ":" ++ toString line.toNat
  | none => location.file

/-- Order by unit and then by line; a location without a line comes first. -/
def le (a b : Location) : Bool :=
  if a.file = b.file then
    match a.line, b.line with
    | none, _ => true
    | some _, none => false
    | some m, some n => m ≤ n
  else a.file < b.file

end Location

/-- A template error and the markup that caused it. -/
structure LocatedError where
  location  : Location
  /-- The message, when its id is known. -/
  messageId : Option String := none
  error     : TemplateError
deriving DecidableEq, Repr

/-- The wording shown to users. -/
def LocatedError.message (located : LocatedError) : String :=
  let text := located.location.display ++ ": " ++ located.error.message
  match located.messageId with
  | some id => text ++ " (message \"" ++ id ++ "\")"
  | none => text

end Phrasebook
