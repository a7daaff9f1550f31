-- SUMMARY: The lexical parts of TOML: blanks and comments, quoted strings, and keys.

/-!
# Lexical parts of TOML

Readers take a part off the front of a text and give the rest of the text, or refuse. Control
characters other than the tab are refused everywhere; line ends are `\n` and `\r\n`.
-/
namespace Phrasebook.Toml

/-- What a reader gives. -/
abbrev Reader (α : Type) := List Char → Option (α × List Char)

/-! ## Blanks and comments -/

/-- A space or a tab. -/
def isBlank (c : Char) : Bool := c == ' ' || c == '\t'

/-- A character that comments and strings may hold. -/
def isPlain (c : Char) : Bool :=
  c == '\t' || (0x20 ≤ c.toNat && c.toNat ≤ 0x7E) || 0x80 ≤ c.toNat

/-- Drop the blanks at the front of a text. -/
def skipBlanks (cs : List Char) : List Char := cs.dropWhile isBlank

/-- The text starts with a line end. -/
def startsWithLineEnd : List Char → Bool
  | '\n' :: _ => true
  | '\r' :: '\n' :: _ => true
  | _ => false

/-- Drop blanks, line ends and comments at the front of a text; `comment` says that the text starts
inside a comment. -/
def skipFiller (comment : Bool) : List Char → Option (List Char)
  | '\n' :: cs => skipFiller false cs
  | '\r' :: '\n' :: cs => skipFiller false cs
  | c :: cs =>
    if comment then if isPlain c then skipFiller true cs else none
    else if isBlank c then skipFiller false cs
    else if c = '#' then skipFiller true cs
    else some (c :: cs)
  | [] => some []

/-- Go to the next statement from the end of one: nothing else may stand in its line. -/
def nextStatement (cs : List Char) : Option (List Char) :=
  match skipBlanks cs with
  | [] => some []
  | '#' :: cs => skipFiller true cs
  | cs => if startsWithLineEnd cs then skipFiller false cs else none

/-! ## Strings -/

/-- The value of hexadecimal digits. -/
def hex? (cs : List Char) : Option Nat :=
  cs.foldlM (fun n c =>
    if c.isDigit then some (16 * n + (c.toNat - '0'.toNat))
    else if 'a' ≤ c ∧ c ≤ 'f' then some (16 * n + (c.toNat - 'a'.toNat + 10))
    else if 'A' ≤ c ∧ c ≤ 'F' then some (16 * n + (c.toNat - 'A'.toNat + 10))
    else none) 0

/-- The character of a numeric escape. -/
def scalar? (cs : List Char) : Option Char := do
  let n ← hex? cs
  if n.isValidChar then some (Char.ofNat n) else none

/-- The character of a short escape. -/
def unescapeChar? (c : Char) : Option Char :=
  match c with
  | 'b'  => some '\x08'
  | 't'  => some '\t'
  | 'n'  => some '\n'
  | 'f'  => some '\x0c'
  | 'r'  => some '\r'
  | '"'  => some '"'
  | '\\' => some '\\'
  | _    => none

/-- Finish a string whose text is reversed. -/
def finish (out cs : List Char) : Option (String × List Char) :=
  some (String.ofList out.reverse, cs)

/-- A basic string behind its quote, onto the reversed text `out`. -/
def basicString (out : List Char) : Reader String
  | '"' :: cs => finish out cs
  | '\\' :: 'u' :: a :: b :: c :: d :: cs =>
    match scalar? [a, b, c, d] with
    | some e => basicString (e :: out) cs
    | none => none
  | '\\' :: 'U' :: a :: b :: c :: d :: e :: f :: g :: h :: cs =>
    match scalar? [a, b, c, d, e, f, g, h] with
    | some e => basicString (e :: out) cs
    | none => none
  | '\\' :: c :: cs =>
    match unescapeChar? c with
    | some d => basicString (d :: out) cs
    | none => none
  | c :: cs => if isPlain c && c != '\\' then basicString (c :: out) cs else none
  | [] => none

/-- A literal string behind its quote. -/
def literalString (out : List Char) : Reader String
  | '\'' :: cs => finish out cs
  | c :: cs => if isPlain c then literalString (c :: out) cs else none
  | [] => none

/-- A multi-line basic string. Its line ends stay as they are. Up to two quotes may stand right
before the closing ones. A backslash at the end of a line joins it to the next text; `joining` says
that blanks and line ends are being dropped for that. -/
def multilineBasic (joining : Bool) (out : List Char) : Reader String
  | '"' :: '"' :: '"' :: '"' :: '"' :: cs => finish ('"' :: '"' :: out) cs
  | '"' :: '"' :: '"' :: '"' :: cs => finish ('"' :: out) cs
  | '"' :: '"' :: '"' :: cs => finish out cs
  | '\r' :: '\n' :: cs =>
    multilineBasic joining (if joining then out else '\n' :: '\r' :: out) cs
  | '\n' :: cs => multilineBasic joining (if joining then out else '\n' :: out) cs
  | '\\' :: 'u' :: a :: b :: c :: d :: cs =>
    match scalar? [a, b, c, d] with
    | some e => multilineBasic false (e :: out) cs
    | none => none
  | '\\' :: 'U' :: a :: b :: c :: d :: e :: f :: g :: h :: cs =>
    match scalar? [a, b, c, d, e, f, g, h] with
    | some e => multilineBasic false (e :: out) cs
    | none => none
  | '\\' :: c :: cs =>
    match unescapeChar? c with
    | some d => multilineBasic false (d :: out) cs
    | none =>
      if startsWithLineEnd (skipBlanks (c :: cs)) then
        if c = '\r' then
          match cs with
          | '\n' :: cs => multilineBasic true out cs
          | _ => none
        else multilineBasic true out cs
      else none
  | c :: cs =>
    if joining && isBlank c then multilineBasic true out cs
    else if isPlain c && c != '\\' then multilineBasic false (c :: out) cs
    else none
  | [] => none

/-- A multi-line literal string. Its line ends stay as they are. -/
def multilineLiteral (out : List Char) : Reader String
  | '\'' :: '\'' :: '\'' :: '\'' :: '\'' :: cs => finish ('\'' :: '\'' :: out) cs
  | '\'' :: '\'' :: '\'' :: '\'' :: cs => finish ('\'' :: out) cs
  | '\'' :: '\'' :: '\'' :: cs => finish out cs
  | '\r' :: '\n' :: cs => multilineLiteral ('\n' :: '\r' :: out) cs
  | '\n' :: cs => multilineLiteral ('\n' :: out) cs
  | c :: cs => if isPlain c then multilineLiteral (c :: out) cs else none
  | [] => none

/-- Drop the line end right behind the opening quotes. -/
def skipFirstLineEnd : List Char → List Char
  | '\n' :: cs => cs
  | '\r' :: '\n' :: cs => cs
  | cs => cs

/-- A string of any of the four kinds. -/
def string? : Reader String
  | '"' :: '"' :: '"' :: cs => multilineBasic false [] (skipFirstLineEnd cs)
  | '"' :: cs => basicString [] cs
  | '\'' :: '\'' :: '\'' :: cs => multilineLiteral [] (skipFirstLineEnd cs)
  | '\'' :: cs => literalString [] cs
  | _ => none

/-! ## Keys -/

/-- A character of a bare key. -/
def isBareKeyChar (c : Char) : Bool := c.isAlphanum || c == '_' || c == '-'

/-- A key without dots. -/
def simpleKey? : Reader String
  | '"' :: cs => basicString [] cs
  | '\'' :: cs => literalString [] cs
  | cs =>
    match cs.takeWhile isBareKeyChar with
    | [] => none
    | name => some (String.ofList name, cs.dropWhile isBareKeyChar)

/-- A key with at most `parts` parts and dots between them. Blanks around the parts are passed
over. -/
def key? (parts : Nat) (cs : List Char) : Option (List String × List Char) :=
  match parts with
  | 0 => none
  | parts + 1 => do
    let (name, cs) ← simpleKey? (skipBlanks cs)
    match skipBlanks cs with
    | '.' :: cs => do
      let (names, cs) ← key? parts cs
      return (name :: names, cs)
    | cs => return ([name], cs)

end Phrasebook.Toml
