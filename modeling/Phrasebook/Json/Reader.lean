-- SUMMARY: Reading JSON texts and files into values.
import Phrasebook.Json.Token

/-!
# Reading JSON

`Value.read?` builds the value of a sequence of tokens with a stack of the arrays and objects under
way. `Value.ofText?` reads a whole text and garbles what nests more than 127 levels deep, and
`Value.ofBytes?` reads a file, whose strings may hold bytes that are no UTF-8 as long as nobody
reads them.
-/
namespace Phrasebook.Json

/-! ## Building values -/

/-- An array or object under way. -/
inductive Frame where
  /-- Items, the last one first. -/
  | array (items : List Value)
  /-- Members, the last one first, and whether a name was garbled. -/
  | object (members : List (String × Value)) (garbled : Bool)
  /-- Such an object and the name of the next member. -/
  | member (members : List (String × Value)) (garbled : Bool) (name : Option String)

/-- What may come next. -/
inductive Focus where
  /-- A value. -/
  | value
  /-- The first item of an array, or its end. -/
  | item
  /-- The first name in an object, or its end. -/
  | member
  /-- A name. -/
  | name
  /-- The colon behind a name. -/
  | colon
  /-- A comma or an end. -/
  | rest
  /-- Nothing: the value is complete. -/
  | done (value : Value)

/-- A value under way: what may come next, and the arrays and objects around it, the innermost
first. -/
structure Builder where
  focus : Focus := .value
  stack : List Frame := []

namespace Builder

/-- Put a finished value where it belongs. -/
def deliver (value : Value) : List Frame → Option Builder
  | [] => some ⟨.done value, []⟩
  | .array items :: stack => some ⟨.rest, .array (value :: items) :: stack⟩
  | .member members garbled (some name) :: stack =>
    some ⟨.rest, .object ((name, value) :: members) garbled :: stack⟩
  | .member members _ none :: stack => some ⟨.rest, .object members true :: stack⟩
  | .object .. :: _ => none

/-- Begin or read a value. -/
def begin (stack : List Frame) : Token → Option Builder
  | .arrayOpen => some ⟨.item, .array [] :: stack⟩
  | .objectOpen => some ⟨.member, .object [] false :: stack⟩
  | .string (some text) => deliver (.string text) stack
  | .string none => deliver .garbled stack
  | .scalar value => deliver value stack
  | _ => none

/-- Read a name. -/
def readName (stack : List Frame) : Token → Option Builder
  | .string name =>
    match stack with
    | .object members garbled :: stack => some ⟨.colon, .member members garbled name :: stack⟩
    | _ => none
  | _ => none

/-- End the innermost array or object. -/
def close (stack : List Frame) : Token → Option Builder
  | .arrayClose =>
    match stack with
    | .array items :: stack => deliver (.array items.reverse) stack
    | _ => none
  | .objectClose =>
    match stack with
    | .object members garbled :: stack =>
      deliver (if garbled then .garbled else .object members.reverse) stack
    | _ => none
  | _ => none

/-- Read a token; a malformed text has no next state. -/
def step (builder : Builder) (token : Token) : Option Builder :=
  match builder.focus, token with
  | .value, token => begin builder.stack token
  | .item, .arrayClose => close builder.stack token
  | .item, token => begin builder.stack token
  | .member, .objectClose => close builder.stack token
  | .member, token => readName builder.stack token
  | .name, token => readName builder.stack token
  | .colon, .colon => some { builder with focus := .value }
  | .rest, .comma =>
    match builder.stack with
    | .array _ :: _ => some { builder with focus := .value }
    | .object _ _ :: _ => some { builder with focus := .name }
    | _ => none
  | .rest, token => close builder.stack token
  | _, _ => none

/-- Read tokens in order. -/
def run (builder : Builder) : List Token → Option Builder
  | [] => some builder
  | token :: tokens =>
    match builder.step token with
    | some next => next.run tokens
    | none => none

/-- The value, once it is complete. -/
def finish (builder : Builder) : Option Value :=
  match builder.focus with
  | .done value => some value
  | _ => none

end Builder

namespace Value

/-- The value of a sequence of tokens. -/
def ofTokens? (tokens : List Token) : Option Value :=
  (({} : Builder).run tokens).bind Builder.finish

/-- The value of a text, of any depth. -/
def read? (cs : List Char) : Option Value := (tokenize? cs).bind ofTokens?

/-- The greatest nesting of arrays and objects that can be read. -/
def maxNesting : Nat := 127

/-- The value of a text. -/
def ofText? (text : String) : Option Value := (read? text.toList).map (limit maxNesting)

/-! ## Files -/

/-- Stands for a byte that is no UTF-8. Like such a byte it is tolerated only in a string that
nobody reads: the escape in it is half of a surrogate pair, and its first character cannot end an
escape begun before. -/
def malformedByte : List Char := ['x', '\\', 'u', 'd', '8', '0', '0']

/-- The characters of a file from byte `position` on, behind the reversed text `out`. -/
def decodeFrom (bytes : ByteArray) (position : Nat) (out : List Char) : List Char :=
  if position < bytes.size then
    match bytes.utf8DecodeChar? position with
    | some c => decodeFrom bytes (position + c.utf8Size) (c :: out)
    | none => decodeFrom bytes (position + 1) (malformedByte.reverse ++ out)
  else out.reverse
termination_by bytes.size - position
decreasing_by
  · have := Char.utf8Size_pos c
    omega
  · omega

/-- The value in a file. -/
def ofBytes? (bytes : ByteArray) : Option Value :=
  (read? (decodeFrom bytes 0 [])).map (limit maxNesting)

end Value

end Phrasebook.Json
