-- SUMMARY: Tokens of a JSON text and the tokenizer that reads them one character at a time.
import Phrasebook.Json.Number

/-!
# JSON tokens

A JSON text is a sequence of punctuation, strings and other scalars, with blanks between them. A
scalar that is no string is as long as possible: it ends at a blank, at punctuation or at a quote.
A string that is well formed but holds half of a surrogate pair has no text.
-/
namespace Phrasebook.Json

inductive Token where
  | arrayOpen
  | arrayClose
  | objectOpen
  | objectClose
  | comma
  | colon
  /-- A string; it has no text if it holds half of a surrogate pair. -/
  | string (text : Option String)
  /-- Any other scalar. -/
  | scalar (value : Value)

/-! ## Scalars -/

/-- The value of a scalar that is no string. -/
def scalar? (cs : List Char) : Option Value :=
  if cs = ['n', 'u', 'l', 'l'] then some .null
  else if cs = ['t', 'r', 'u', 'e'] then some (.bool true)
  else if cs = ['f', 'a', 'l', 's', 'e'] then some (.bool false)
  else (Numeral.ofChars? cs).map fun numeral =>
    match numeral.number? with
    | some number => .number number
    | none => .garbled

/-! ## Strings -/

/-- A string under way. -/
structure StringDraft where
  /-- The characters so far, reversed. -/
  seen    : List Char := []
  /-- The first half of a surrogate pair, just read. -/
  lead    : Option Nat := none
  /-- Half of a pair was read without the other half. -/
  garbled : Bool := false

namespace StringDraft

/-- Append a character, before which no half of a pair may wait. -/
def push (draft : StringDraft) (c : Char) : StringDraft :=
  { seen := c :: draft.seen, lead := none, garbled := draft.garbled || draft.lead.isSome }

/-- Append the UTF-16 unit of a numeric escape. -/
def pushUnit (draft : StringDraft) (unit : Nat) : StringDraft :=
  if 0xD800 ≤ unit ∧ unit < 0xDC00 then
    { draft with lead := some unit, garbled := draft.garbled || draft.lead.isSome }
  else if 0xDC00 ≤ unit ∧ unit < 0xE000 then
    match draft.lead with
    | some lead =>
      let code := 0x10000 + (lead - 0xD800) * 0x400 + (unit - 0xDC00)
      { draft with seen := Char.ofNat code :: draft.seen, lead := none }
    | none => { draft with garbled := true }
  else draft.push (Char.ofNat unit)

/-- The token of a finished string. -/
def token (draft : StringDraft) : Token :=
  if draft.garbled || draft.lead.isSome then .string none
  else .string (some (String.ofList draft.seen.reverse))

end StringDraft

/-- The character of a short escape. -/
def unescapeChar? (c : Char) : Option Char :=
  match c with
  | '"'  => some '"'
  | '\\' => some '\\'
  | '/'  => some '/'
  | 'b'  => some '\x08'
  | 'f'  => some '\x0c'
  | 'n'  => some '\n'
  | 'r'  => some '\r'
  | 't'  => some '\t'
  | _    => none

/-- The value of a hexadecimal digit. -/
def hexDigit? (c : Char) : Option Nat :=
  if c.isDigit then some (c.toNat - '0'.toNat)
  else if 'a' ≤ c ∧ c ≤ 'f' then some (c.toNat - 'a'.toNat + 10)
  else if 'A' ≤ c ∧ c ≤ 'F' then some (c.toNat - 'A'.toNat + 10)
  else none

/-! ## The tokenizer -/

/-- Where the tokenizer stands between two characters. -/
inductive Lexer.Mode where
  /-- Between two tokens. -/
  | between
  /-- In a scalar that is no string, read so far in reverse. -/
  | scalar (seen : List Char)
  | string (draft : StringDraft)
  /-- Behind a backslash. -/
  | escape (draft : StringDraft)
  /-- In a numeric escape, with the digits still to come and the value so far. -/
  | hex (draft : StringDraft) (left : Nat) (unit : Nat)

/-- The tokenizer's state: its mode and the finished tokens, the last one first. -/
structure Lexer where
  mode : Lexer.Mode := .between
  done : List Token := []

/-- The four blanks that JSON allows between tokens. -/
def isSeparator (c : Char) : Bool := c == ' ' || c == '\t' || c == '\n' || c == '\r'

def punctuation? (c : Char) : Option Token :=
  match c with
  | '[' => some .arrayOpen
  | ']' => some .arrayClose
  | '{' => some .objectOpen
  | '}' => some .objectClose
  | ',' => some .comma
  | ':' => some .colon
  | _   => none

namespace Lexer

/-- The first character of a token, or a blank. -/
def first (lexer : Lexer) (c : Char) : Lexer :=
  if isSeparator c then { lexer with mode := .between }
  else if c = '"' then { lexer with mode := .string {} }
  else
    match punctuation? c with
    | some token => { mode := .between, done := token :: lexer.done }
    | none => { lexer with mode := .scalar [c] }

/-- Finish a scalar. -/
def finishScalar (lexer : Lexer) (seen : List Char) : Option Lexer :=
  (scalar? seen.reverse).map fun value =>
    { mode := .between, done := .scalar value :: lexer.done }

/-- Read one character; a malformed text has no next state. -/
def step (lexer : Lexer) (c : Char) : Option Lexer :=
  match lexer.mode with
  | .between => some (lexer.first c)
  | .scalar seen =>
    if isSeparator c || c == '"' || (punctuation? c).isSome then
      (lexer.finishScalar seen).map fun lexer => lexer.first c
    else some { lexer with mode := .scalar (c :: seen) }
  | .string draft =>
    if c = '"' then some { mode := .between, done := draft.token :: lexer.done }
    else if c = '\\' then some { lexer with mode := .escape draft }
    else if c.toNat < 0x20 then none
    else some { lexer with mode := .string (draft.push c) }
  | .escape draft =>
    if c = 'u' then some { lexer with mode := .hex draft 4 0 }
    else (unescapeChar? c).map fun d => { lexer with mode := .string (draft.push d) }
  | .hex draft left unit =>
    (hexDigit? c).map fun d =>
      let unit := 16 * unit + d
      if left ≤ 1 then { lexer with mode := .string (draft.pushUnit unit) }
      else { lexer with mode := .hex draft (left - 1) unit }

/-- The tokens at the end of the text. -/
def finish (lexer : Lexer) : Option (List Token) :=
  match lexer.mode with
  | .between => some lexer.done.reverse
  | .scalar seen => (lexer.finishScalar seen).map fun lexer => lexer.done.reverse
  | _ => none

/-- Read the rest of a text. -/
def run (lexer : Lexer) : List Char → Option (List Token)
  | [] => lexer.finish
  | c :: cs =>
    match lexer.step c with
    | some next => next.run cs
    | none => none

end Lexer

/-- The tokens of a JSON text. -/
def tokenize? (cs : List Char) : Option (List Token) := ({} : Lexer).run cs

end Phrasebook.Json
