-- SUMMARY: Printing JSON values on one line or indented.
import Phrasebook.Json.Number

/-!
# Printing JSON

`Value.compact` prints a value without blanks, and `Value.pretty` prints one item or member per
line, indented by two spaces per level. Strings escape quotes, backslashes and control characters
and nothing else.
-/
namespace Phrasebook.Json

/-! ## Strings -/

/-- A hexadecimal digit, in lower case. -/
def hexDigit (n : Nat) : Char := Nat.digitChar (n % 16)

/-- A character inside a quoted string. -/
def escapeChar (c : Char) : List Char :=
  match c with
  | '"'    => ['\\', '"']
  | '\\'   => ['\\', '\\']
  | '\x08' => ['\\', 'b']
  | '\x0c' => ['\\', 'f']
  | '\n'   => ['\\', 'n']
  | '\r'   => ['\\', 'r']
  | '\t'   => ['\\', 't']
  | c =>
    if c.toNat < 0x20 then ['\\', 'u', '0', '0', hexDigit (c.toNat / 16), hexDigit c.toNat]
    else [c]

/-- A string in quotes. -/
def quote (text : String) : String :=
  "\"" ++ String.ofList (text.toList.flatMap escapeChar) ++ "\""

namespace Value

/-! ## On one line -/

/-- Texts with commas between them. -/
def commaSeparated (texts : List String) : String := ",".intercalate texts

mutual
/-- The text of a value without blanks. -/
def compact : Value → String
  | .null => "null"
  | .bool true => "true"
  | .bool false => "false"
  | .number n => n.text
  | .string text => quote text
  | .array items => "[" ++ commaSeparated (compactItems items) ++ "]"
  | .object members => r"{" ++ commaSeparated (compactMembers members) ++ r"}"
  | .garbled => "null"
def compactItems : List Value → List String
  | [] => []
  | item :: items => item.compact :: compactItems items
def compactMembers : List (String × Value) → List String
  | [] => []
  | (name, value) :: members => (quote name ++ ":" ++ value.compact) :: compactMembers members
end

/-! ## Indented -/

/-- A line feed and the blanks in front of the next line. -/
def newline (level : Nat) : String := "\n" ++ String.ofList (List.replicate (2 * level) ' ')

mutual
/-- The text of a value that stands at an indentation level. -/
def indented (level : Nat) : Value → String
  | .array [] => "[]"
  | .array items =>
    "[" ++ commaSeparated (indentedItems (level + 1) items) ++ newline level ++ "]"
  | .object [] => "{}"
  | .object members =>
    r"{" ++ commaSeparated (indentedMembers (level + 1) members) ++ newline level ++ r"}"
  | .null => "null"
  | .bool true => "true"
  | .bool false => "false"
  | .number n => n.text
  | .string text => quote text
  | .garbled => "null"
/-- Items on lines of their own. -/
def indentedItems (level : Nat) : List Value → List String
  | [] => []
  | item :: items => (newline level ++ item.indented level) :: indentedItems level items
/-- Members on lines of their own. -/
def indentedMembers (level : Nat) : List (String × Value) → List String
  | [] => []
  | (name, value) :: members =>
    (newline level ++ quote name ++ ": " ++ value.indented level) :: indentedMembers level members
end

/-- The text of a value in several lines. -/
def pretty (value : Value) : String := value.indented 0

end Value

end Phrasebook.Json
