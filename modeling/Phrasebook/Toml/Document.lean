-- SUMMARY: Reading TOML values, statements and documents.
import Phrasebook.Toml.Lexeme
import Phrasebook.Toml.Scalar
import Phrasebook.Toml.Table

/-!
# Reading TOML

`Value.ofText?` reads a document into the table it describes. The readers of nested values and of
sequences of statements take a bound on their steps; the length of the text is enough for any text,
since every step reads a character. Arrays and inline tables may nest to a limit of their own.
-/
namespace Phrasebook.Toml

/-! ## Values -/

/-- How deep arrays and inline tables may nest. -/
def nestingLimit : Nat := 80

mutual
/-- A value that nests at most `depth` deep, in at most `steps` steps. -/
def value? (steps depth : Nat) (cs : List Char) : Option (Value × List Char) :=
  match steps with
  | 0 => none
  | steps + 1 =>
    match depth, cs with
    | 0, '[' :: _ | 0, '{' :: _ => none
    | depth + 1, '[' :: cs => items? steps depth [] cs
    | depth + 1, '{' :: cs =>
      match skipBlanks cs with
      | '}' :: cs => some (.table [], cs)
      | cs => members? steps depth [] cs
    | _, '"' :: _ | _, '\'' :: _ => (string? cs).map fun (text, cs) => (.string text, cs)
    | _, cs =>
      let (word, rest) := scalarChars cs
      (scalarValue? word).map fun value => (value, rest)
/-- The items of an array and its end, behind the reversed items `done`. -/
def items? (steps depth : Nat) (done : List Value) (cs : List Char) : Option (Value × List Char) :=
  match steps with
  | 0 => none
  | steps + 1 =>
    match skipFiller false cs with
    | none => none
    | some (']' :: cs) => some (.array done.reverse, cs)
    | some cs =>
      match value? steps depth cs with
      | none => none
      | some (value, cs) =>
        match skipFiller false cs with
        | some (',' :: cs) => items? steps depth (value :: done) cs
        | some (']' :: cs) => some (.array (value :: done).reverse, cs)
        | _ => none
/-- The members of an inline table and its end. -/
def members? (steps depth : Nat) (entries : Entries) (cs : List Char) :
    Option (Value × List Char) :=
  match steps with
  | 0 => none
  | steps + 1 =>
    match key? cs.length cs with
    | some (path, '=' :: cs) =>
      match value? steps depth (skipBlanks cs) with
      | none => none
      | some (value, cs) =>
        match Entries.put value path entries, skipBlanks cs with
        | some entries, ',' :: cs => members? steps depth entries cs
        | some entries, '}' :: cs => some (.table (Entries.closeAll entries), cs)
        | _, _ => none
    | _ => none
end

/-! ## Statements -/

/-- A document under way: its entries, and the path of the table that statements speak of. -/
structure Draft where
  entries : Entries := []
  path    : List String := []

namespace Draft

/-- Read a statement, up to its end. -/
def statement (draft : Draft) (cs : List Char) : Option (Draft × List Char) :=
  match cs with
  | '[' :: '[' :: cs =>
    match key? cs.length cs with
    | some (path, ']' :: ']' :: cs) =>
      (Entries.appendTable path draft.entries).map fun entries => (⟨entries, path⟩, cs)
    | _ => none
  | '[' :: cs =>
    match key? cs.length cs with
    | some (path, ']' :: cs) =>
      (Entries.openTable path draft.entries).map fun entries => (⟨entries, path⟩, cs)
    | _ => none
  | cs =>
    match key? cs.length cs with
    | some (path, '=' :: cs) =>
      match value? cs.length nestingLimit (skipBlanks cs) with
      | some (value, cs) =>
        (Entries.within (Entries.put value path) draft.path draft.entries).map fun entries =>
          ({ draft with entries }, cs)
      | none => none
    | _ => none

/-- Read at most `steps` statements, up to the end of the document. -/
def run (draft : Draft) (steps : Nat) (cs : List Char) : Option Draft :=
  match steps, cs with
  | _, [] => some draft
  | 0, _ => none
  | steps + 1, cs => do
    let (draft, cs) ← draft.statement cs
    let cs ← nextStatement cs
    draft.run steps cs

end Draft

/-- Drop a byte order mark. -/
def skipByteOrderMark : List Char → List Char
  | '\uFEFF' :: cs => cs
  | cs => cs

/-- The table that a document describes. -/
def Value.ofText? (text : String) : Option (List (String × Value)) := do
  let cs ← skipFiller false (skipByteOrderMark text.toList)
  let draft ← ({} : Draft).run cs.length cs
  return Entries.closeAll draft.entries

end Phrasebook.Toml
