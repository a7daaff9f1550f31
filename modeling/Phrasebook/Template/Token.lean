-- SUMMARY: Tokens of a template and the tokenizer that cuts a template into them.
import Phrasebook.Template.Error
import Phrasebook.Text.Numeral

/-!
# Template tokens

A template is a sequence of text runs, element openings `[<digits>:` and closings `]`. A text run
is as long as possible and keeps its escape pairs. `tokenize` reads a template from left to right,
one character at a time, and stops at its end or at the first malformed token; the tokens before a
failure are kept. Every token carries the byte position at which it starts.
-/
namespace Phrasebook.Template

/-! ## Tokens -/

inductive Token where
  /-- Literal text, still escaped. -/
  | text (run : String)
  /-- The start of the element in slot `index`. -/
  | opening (index : Nat)
  /-- The end of the innermost open element. -/
  | closing
deriving DecidableEq, Repr

/-- A token and the byte position of its first character. -/
structure PlacedToken where
  token    : Token
  position : Nat
deriving DecidableEq, Repr

/-- The tokens of a template up to its end or, if one is malformed, up to the failure. -/
structure Tokens where
  tokens  : List PlacedToken
  failure : Option TemplateError
deriving DecidableEq, Repr

/-! ## The tokenizer -/

/-- Where the tokenizer stands between two characters. Texts read so far are reversed. -/
inductive Lexer.Mode where
  /-- Between two tokens. -/
  | between
  /-- In the text run that starts at `start`. -/
  | run (start : Nat) (seen : List Char)
  /-- Behind the backslash at `slash` in such a run. -/
  | escape (start : Nat) (seen : List Char) (slash : Nat)
  /-- Behind the `[` at `start`, with the digits read since. -/
  | index (start : Nat) (digits : List Char)

/-- The tokenizer's state: the byte position of the next character and the finished tokens, the
last one first. -/
structure Lexer where
  mode     : Lexer.Mode := .between
  position : Nat := 0
  done     : List PlacedToken := []

namespace Lexer

/-- Finish a token. -/
def push (lexer : Lexer) (token : Token) (position : Nat) : Lexer :=
  { lexer with done := ⟨token, position⟩ :: lexer.done }

/-- Finish the text run `seen`. -/
def pushRun (lexer : Lexer) (start : Nat) (seen : List Char) : Lexer :=
  lexer.push (.text (String.ofList seen.reverse)) start

/-- The first character of a token, at the lexer's position. -/
def first (lexer : Lexer) (c : Char) : Lexer :=
  if c = '[' then { lexer with mode := .index lexer.position [] }
  else if c = ']' then { lexer.push .closing lexer.position with mode := .between }
  else if c = '\\' then { lexer with mode := .escape lexer.position [c] lexer.position }
  else { lexer with mode := .run lexer.position [c] }

/-- A character behind a text run: a raw bracket ends the run, all else continues it. -/
def afterRun (lexer : Lexer) (start : Nat) (seen : List Char) (c : Char) : Lexer :=
  if c = '[' ∨ c = ']' then (lexer.pushRun start seen).first c
  else if c = '\\' then { lexer with mode := .escape start (c :: seen) lexer.position }
  else { lexer with mode := .run start (c :: seen) }

/-- A character behind `[` and digits: a further digit, or the colon that ends a numeral. -/
def afterDigits (lexer : Lexer) (start : Nat) (digits : List Char) (c : Char) :
    Except TemplateError Lexer :=
  if c.isDigit then .ok { lexer with mode := .index start (c :: digits) }
  else if c = ':' ∧ digits ≠ [] then
    let index := Text.Numeral.value digits.reverse
    if index ≤ Text.Numeral.nat64Max then
      .ok { lexer.push (.opening index) start with mode := .between }
    else .error (.malformed .elementIndexOverflow start)
  else .error (.malformed .expectedElementIndex start)

/-- Read one character. -/
def step (lexer : Lexer) (c : Char) : Except TemplateError Lexer :=
  let moved (lexer : Lexer) : Lexer := { lexer with position := lexer.position + c.utf8Size }
  match lexer.mode with
  | .between => .ok (moved (lexer.first c))
  | .run start seen => .ok (moved (lexer.afterRun start seen c))
  | .escape start seen _ => .ok (moved { lexer with mode := .run start (c :: seen) })
  | .index start digits => (lexer.afterDigits start digits c).map moved

/-- Close the books at the end of the template. -/
def finish (lexer : Lexer) : Tokens :=
  match lexer.mode with
  | .between => ⟨lexer.done.reverse, none⟩
  | .run start seen => ⟨(lexer.pushRun start seen).done.reverse, none⟩
  | .escape _ _ slash => ⟨lexer.done.reverse, some (.malformed .danglingEscape slash)⟩
  | .index start _ => ⟨lexer.done.reverse, some (.malformed .expectedElementIndex start)⟩

/-- Read the rest of a template. -/
def run (lexer : Lexer) : List Char → Tokens
  | [] => lexer.finish
  | c :: cs =>
    match lexer.step c with
    | .ok next => next.run cs
    | .error failure => ⟨lexer.done.reverse, some failure⟩

end Lexer

/-- The tokens of a template. -/
def tokenize (template : String) : Tokens := ({} : Lexer).run template.toList

example : tokenize "a[1:b]" =
    ⟨[⟨.text "a", 0⟩, ⟨.opening 1, 1⟩, ⟨.text "b", 4⟩, ⟨.closing, 5⟩], none⟩ := by decide
example : tokenize "é[:x" =
    ⟨[⟨.text "é", 0⟩], some (.malformed .expectedElementIndex 2)⟩ := by decide
example : tokenize "a\\" = ⟨[], some (.malformed .danglingEscape 1)⟩ := by decide

end Phrasebook.Template
