-- SUMMARY: Failures of templates, their labels, and their wording.

/-!
# Template errors

`SyntaxFault` names what is wrong with the text of a template; `TemplateError` names what can go
wrong when a template is read, filled or made. Positions and sizes count bytes of UTF-8.
-/
namespace Phrasebook

/-- What makes a template text malformed. -/
inductive SyntaxFault where
  /-- A `[` without digits and a colon behind it. -/
  | expectedElementIndex
  /-- An element index beyond 64 bits. -/
  | elementIndexOverflow
  /-- Element index 0, which belongs to the root of the message. -/
  | reservedElementIndex
  /-- A backslash at the very end. -/
  | danglingEscape
  /-- A bracket without its counterpart. -/
  | unmatchedElements
deriving DecidableEq, Repr

/-- Why a template cannot be read, filled or made. -/
inductive TemplateError where
  /-- The text is malformed at a byte position. -/
  | malformed (fault : SyntaxFault) (position : Nat)
  /-- A slot was asked for that does not exist. -/
  | indexOutOfRange (index available : Nat)
  /-- A referenced placeholder has no value. -/
  | missingExpression (name : String)
  /-- A declared name has no expression slot. -/
  | unusedPlaceholder (name : String)
  /-- A name is declared twice for one message. -/
  | duplicatePlaceholder (name : String)
  /-- A declared name cannot be written as a reference. -/
  | invalidPlaceholderName (name : String)
  /-- The value of a message attribute is no list of names. -/
  | invalidPlaceholderList (name : String)
  /-- Elements nest too deep, first at a byte position. -/
  | tooDeep (limit depth position : Nat)
  /-- The text is too long. -/
  | tooLarge (limit size : Nat)
deriving DecidableEq, Repr

def SyntaxFault.message : SyntaxFault → String
  | .expectedElementIndex => "expected element index"
  | .elementIndexOverflow => "element index out of range"
  | .reservedElementIndex => "element index 0 is reserved for the message root"
  | .danglingEscape       => "dangling escape at end of template"
  | .unmatchedElements    => "unmatched opening and closing elements"

/-- The wording shown to users. -/
def TemplateError.message : TemplateError → String
  | .malformed fault position =>
    s!"syntax error at byte {position}: " ++ fault.message
  | .indexOutOfRange index available =>
    s!"slot index {index} out of range ({available} available)"
  | .missingExpression name => s!"missing expression `{name}`"
  | .unusedPlaceholder name => s!"placeholder `{name}` has no matching expression slot"
  | .duplicatePlaceholder name => s!"placeholder `{name}` is declared more than once"
  | .invalidPlaceholderName name =>
    s!"placeholder name `{name}` must be non-empty and use only [A-Za-z0-9_]"
  | .invalidPlaceholderList name =>
    s!"attribute `{name}` must be a string literal or a list of strings"
  | .tooDeep limit depth position =>
    s!"template nesting exceeds limit: depth {depth} (max {limit}) at byte {position}"
  | .tooLarge limit size => s!"template exceeds size limit: {size} bytes (max {limit})"

/-- A stable label of the kind of failure, for logs. -/
def TemplateError.label : TemplateError → String
  | .malformed ..              => "syntax"
  | .indexOutOfRange ..        => "index_out_of_range"
  | .missingExpression ..      => "missing_expression"
  | .unusedPlaceholder ..      => "unused_placeholder"
  | .duplicatePlaceholder ..   => "duplicate_placeholder"
  | .invalidPlaceholderName .. => "invalid_placeholder_name"
  | .invalidPlaceholderList .. => "invalid_placeholder_list"
  | .tooDeep ..                => "too_deep"
  | .tooLarge ..               => "too_large"

end Phrasebook
