-- SUMMARY: Message ids: a text split into leading blanks, its canonical id, and trailing blanks.
import Phrasebook.Text.Blank

/-!
# Message identity

Source text carries layout blanks that translators should not see. `MessageId.split` cuts a text
into its leading blanks, the id between, and its trailing blanks; a blank text has all of it in
front. `MessageId.ofText` may also normalize: blank runs inside the id collapse to one space and
each blank edge shrinks to one space.
-/
namespace Phrasebook

/-- A text split around its canonical id. -/
structure MessageId where
  /-- Blanks before the id. -/
  leading  : String
  /-- The catalog key. -/
  id       : String
  /-- Blanks behind the id. -/
  trailing : String
deriving DecidableEq, Repr

namespace MessageId

/-- Nothing in the text is to be translated. -/
def isEmpty (message : MessageId) : Bool := message.id.isEmpty

/-- Put a translation between the blanks of the text. -/
def wrap (message : MessageId) (translated : String) : String :=
  message.leading ++ translated ++ message.trailing

/-- Split the blanks off both ends. -/
def split (text : String) : MessageId :=
  let core := Text.trimStart text.toList
  { leading  := String.ofList (text.toList.takeWhile Text.isBlank)
    id       := String.ofList (Text.trimEnd core)
    trailing := String.ofList (core.reverse.takeWhile Text.isBlank).reverse }

/-- One space for a blank edge, nothing for an empty one. -/
def shrinkEdge (edge : String) : String := if edge.isEmpty then "" else " "

/-- Shrink both edges. -/
def shrinkEdges (message : MessageId) : MessageId :=
  { message with
    leading := shrinkEdge message.leading, trailing := shrinkEdge message.trailing }

/-- Collapse the blank runs of the id and shrink both edges. -/
def normalized (message : MessageId) : MessageId :=
  { message with id := Text.collapsed message.id }.shrinkEdges

/-- The message id of a text, normalized on demand. -/
def ofText (text : String) (normalize : Bool) : MessageId :=
  if normalize then (split text).normalized else split text

/-- Splitting loses nothing. -/
theorem wrap_split (text : String) : (split text).wrap (split text).id = text := by
  apply String.toList_inj.1
  simp [wrap, split, Text.trimEnd_append_takeWhile, Text.takeWhile_append_trimStart]

example : ofText "  a \t b\n" true = ⟨" ", "a b", " "⟩ := by decide
example : ofText " \n" false = ⟨" \n", "", ""⟩ := by decide

end MessageId

end Phrasebook
