-- SUMMARY: The lines of PO text, and how a line is read.
import Phrasebook.Catalog.Po
import Phrasebook.Proofs.Text.Numeral

/-!
# Lines of PO text

A line is empty, a comment or a reference behind its marker, or a quoted string, perhaps behind a
keyword (`Line.read?`). Inside a quoted string a backslash and a letter stand for a character as
they do in C. `unquote?_quoted` says that a text in quotes is read as it was, and `isLine_iff` that
these lines are read and no others.
-/
namespace Phrasebook.Po

/-! ## Quoted strings -/

/-- The character that a letter behind a backslash stands for. Numeric escapes are not read. -/
def unescapeChar? : Char → Option Char
  | 'a'  => some '\x07'
  | 'b'  => some '\x08'
  | 't'  => some '\t'
  | 'n'  => some '\n'
  | 'v'  => some '\x0b'
  | 'f'  => some '\x0c'
  | 'r'  => some '\r'
  | c    => if c ∈ ['\\', '"', '\x27', '?'] then some c else none

/-- The text up to the closing quote, which must be the last character. -/
def unquoteRest? : List Char → Option (List Char)
  | [] => none
  | '"' :: cs => if cs.isEmpty then some [] else none
  | '\\' :: [] => none
  | '\\' :: c :: cs => (unescapeChar? c).bind fun d => (unquoteRest? cs).map (d :: ·)
  | c :: cs => (unquoteRest? cs).map (c :: ·)

/-- The text of one quoted string. -/
def unquote? : List Char → Option (List Char)
  | '"' :: cs => unquoteRest? cs
  | _ => none

theorem unquoteRest?_escapeChar_append (c : Char) (cs : List Char) :
    unquoteRest? (escapeChar c ++ cs) = (unquoteRest? cs).map (c :: ·) := by
  unfold escapeChar
  split
  · rfl
  · rfl
  · rfl
  · rfl
  · rfl
  · rename_i hslash hquote _ _ _
    rw [List.singleton_append, unquoteRest?.eq_def]
    split <;> simp_all

theorem unquoteRest?_escape_append (cs rest : List Char) :
    unquoteRest? (escape cs ++ rest) = (unquoteRest? rest).map (cs ++ ·) := by
  induction cs with
  | nil => simp [escape]
  | cons c cs ih =>
    rw [escape, List.flatMap_cons, List.append_assoc, unquoteRest?_escapeChar_append, ← escape, ih,
      Option.map_map]
    rfl

theorem toList_quoted (cs : List Char) : (quoted cs).toList = '"' :: (escape cs ++ ['"']) := by
  simp [quoted]

/-- A text in quotes is read as it was. -/
theorem unquote?_quoted (cs : List Char) : unquote? (quoted cs).toList = some cs := by
  rw [toList_quoted, unquote?, unquoteRest?_escape_append]
  simp [unquoteRest?]

/-! ## Keywords -/

/-- What stands before a quoted string. -/
inductive Keyword where
  | id
  | pluralId
  | text
  /-- One of several translations. -/
  | numbered (n : Nat)
deriving DecidableEq, Repr

namespace Keyword

def name : Keyword → String
  | id         => "msgid"
  | pluralId   => "msgid_plural"
  | text       => "msgstr"
  | numbered n => s!"msgstr[{n}]"

/-- The keyword of a name. The number can only be the one that the digits of the name give. -/
def ofName? (cs : List Char) : Option Keyword :=
  [id, pluralId, text, numbered (Text.Numeral.value (cs.filter Char.isDigit))].find?
    (·.name.toList == cs)

theorem toList_name_numbered (n : Nat) :
    (numbered n).name.toList = "msgstr[".toList ++ (Nat.toDigits 10 n ++ [']']) := by
  have hname : (numbered n).name = "msgstr[" ++ toString n ++ "]" := rfl
  rw [hname, Nat.toString_eq_ofList_toDigits]
  simp

theorem filter_isDigit_name_numbered (n : Nat) :
    (numbered n).name.toList.filter Char.isDigit = Nat.toDigits 10 n := by
  have hstart : "msgstr[".toList.filter Char.isDigit = [] := by decide
  have hdigits : (Nat.toDigits 10 n).filter Char.isDigit = Nat.toDigits 10 n := by
    rw [List.filter_eq_self]
    exact fun c hc => Nat.isDigit_of_mem_toDigits (by decide) (by decide) hc
  have hbracket : [']'].filter Char.isDigit = [] := by decide
  rw [toList_name_numbered, List.filter_append, List.filter_append, hstart, hdigits, hbracket,
    List.nil_append, List.append_nil]

/-- A keyword is given by its name. -/
theorem ofName?_eq_some_iff {cs : List Char} {keyword : Keyword} :
    ofName? cs = some keyword ↔ keyword.name.toList = cs := by
  constructor
  · intro h
    have hname := List.find?_some h
    exact eq_of_beq hname
  · rintro rfl
    cases keyword with
    | id => decide
    | pluralId => decide
    | text => decide
    | numbered n =>
      have hid : (id.name.toList == (numbered n).name.toList) = false := by
        rw [toList_name_numbered]
        rfl
      have hplural : (pluralId.name.toList == (numbered n).name.toList) = false := by
        rw [toList_name_numbered]
        rfl
      have htext : (text.name.toList == (numbered n).name.toList) = false := by
        rw [toList_name_numbered]
        rfl
      rw [ofName?, filter_isDigit_name_numbered, Text.Numeral.value_toDigits]
      simp [hid, hplural, htext]

theorem exists_name_eq (keyword : Keyword) : ∃ rest, keyword.name.toList = 'm' :: rest := by
  cases keyword with
  | id => exact ⟨_, rfl⟩
  | pluralId => exact ⟨_, rfl⟩
  | text => exact ⟨_, rfl⟩
  | numbered n => exact ⟨_, toList_name_numbered n⟩

/-- A name ends where a space follows. -/
theorem ne_of_mem_name {keyword : Keyword} {c : Char} (h : c ∈ keyword.name.toList) :
    c ≠ ' ' ∧ c ≠ '\n' := by
  have hplain {cs : List Char} (hcs : cs.all (fun c => c ≠ ' ' ∧ c ≠ '\n') = true) (hc : c ∈ cs) :
      c ≠ ' ' ∧ c ≠ '\n' := of_decide_eq_true (List.all_eq_true.1 hcs c hc)
  cases keyword with
  | id => exact hplain (by decide) h
  | pluralId => exact hplain (by decide) h
  | text => exact hplain (by decide) h
  | numbered n =>
    rw [toList_name_numbered, List.mem_append, List.mem_append, List.mem_singleton] at h
    rcases h with h | hdigit | rfl
    · exact hplain (by decide) h
    · have hc : c.isDigit = true := Nat.isDigit_of_mem_toDigits (by decide) (by decide) hdigit
      constructor <;> (rintro rfl; cases hc)
    · decide

end Keyword

/-! ## Lines -/

inductive Line where
  | blank
  /-- A line of a comment for translators. -/
  | comment (text : String)
  /-- Where the message occurs. -/
  | reference (text : String)
  /-- A keyword and the first string of its value. -/
  | value (keyword : Keyword) (text : String)
  /-- A further string of a value. -/
  | string (text : String)
deriving DecidableEq, Repr

namespace Line

/-- The text behind a marker and a space. -/
def behindMarker : List Char → String
  | ' ' :: cs => String.ofList cs
  | cs => String.ofList cs

/-- A keyword and its string. -/
def readValue? (cs : List Char) : Option Line :=
  (Keyword.ofName? (cs.takeWhile (· != ' '))).bind fun keyword =>
    (unquote? ((cs.dropWhile (· != ' ')).drop 1)).map fun text =>
      value keyword (String.ofList text)

def read? : List Char → Option Line
  | [] => some blank
  | '#' :: '.' :: cs => some (comment (behindMarker cs))
  | '#' :: ':' :: cs => some (reference (behindMarker cs))
  | '"' :: cs => (unquoteRest? cs).map fun text => string (String.ofList text)
  | cs => readValue? cs

theorem readValue?_append (keyword : Keyword) (text : List Char) :
    readValue? (keyword.name.toList ++ ' ' :: text) =
      (unquote? text).map fun value => .value keyword (String.ofList value) := by
  have hname : ∀ c ∈ keyword.name.toList, (c != ' ') = true := fun c hc =>
    bne_iff_ne.2 (Keyword.ne_of_mem_name hc).1
  rw [readValue?, List.takeWhile_append_of_pos hname, List.dropWhile_append_of_pos hname]
  simp [Keyword.ofName?_eq_some_iff.2 rfl]

theorem readValue?_eq_some_iff {cs : List Char} {line : Line} :
    readValue? cs = some line ↔
      ∃ keyword text value, cs = keyword.name.toList ++ ' ' :: text ∧
        unquote? text = some value ∧ line = .value keyword (String.ofList value) := by
  constructor
  · intro h
    rw [readValue?, Option.bind_eq_some_iff] at h
    obtain ⟨keyword, hkeyword, h⟩ := h
    obtain ⟨value, hvalue, rfl⟩ := Option.map_eq_some_iff.1 h
    rw [Keyword.ofName?_eq_some_iff] at hkeyword
    obtain ⟨text, htext⟩ : ∃ text, cs.dropWhile (· != ' ') = ' ' :: text := by
      have hstop := List.head?_dropWhile_not (· != ' ') cs
      cases hrest : cs.dropWhile (· != ' ') with
      | nil =>
        rw [hrest] at hvalue
        cases hvalue
      | cons c rest =>
        rw [hrest] at hstop
        exact ⟨rest, by simpa using hstop⟩
    rw [htext] at hvalue
    refine ⟨keyword, text, value, ?_, hvalue, rfl⟩
    rw [hkeyword, ← htext, List.takeWhile_append_dropWhile]
  · rintro ⟨keyword, text, value, rfl, hvalue, rfl⟩
    rw [readValue?_append, hvalue, Option.map_some]

/-- A keyword stands in front of a space and the quoted string of its value. -/
theorem read?_append (keyword : Keyword) (text : List Char) :
    read? (keyword.name.toList ++ ' ' :: text) =
      (unquote? text).map fun value => .value keyword (String.ofList value) := by
  obtain ⟨rest, hrest⟩ := keyword.exists_name_eq
  rw [← readValue?_append, hrest]
  rfl

/-- A keyword and a text in quotes. -/
theorem read?_value (keyword : Keyword) (cs : List Char) :
    read? (keyword.name ++ " " ++ quoted cs).toList = some (value keyword (String.ofList cs)) := by
  have htoList : (keyword.name ++ " " ++ quoted cs).toList =
      keyword.name.toList ++ ' ' :: (quoted cs).toList := by simp
  rw [htoList, read?_append, unquote?_quoted, Option.map_some]

/-- A text in quotes. -/
theorem read?_quoted (cs : List Char) :
    read? (quoted cs).toList = some (string (String.ofList cs)) := by
  have hunquote := unquote?_quoted cs
  rw [toList_quoted] at hunquote ⊢
  rw [unquote?] at hunquote
  rw [read?, hunquote, Option.map_some]

theorem behindMarker_eq (text : String) :
    behindMarker (if text.isEmpty then [] else ' ' :: text.toList) = text := by
  split
  · rename_i h
    rw [String.isEmpty_iff.1 h]
    rfl
  · exact String.ofList_toList

theorem toList_comment (marker text : String) :
    (Po.comment marker text).toList =
      marker.toList ++ if text.isEmpty then [] else ' ' :: text.toList := by
  unfold Po.comment
  split <;> simp

theorem read?_comment (text : String) :
    read? (Po.comment "#." text).toList = some (comment text) := by
  rw [toList_comment]
  exact congrArg (some <| comment ·) (behindMarker_eq text)

theorem read?_reference (text : String) :
    read? (Po.comment "#:" text).toList = some (reference text) := by
  rw [toList_comment]
  exact congrArg (some <| reference ·) (behindMarker_eq text)

/-- The line holds the keyword of an id. -/
def opens : Line → Bool
  | value .id _ => true
  | _ => false

theorem opens_iff {line : Line} : line.opens = true ↔ ∃ text, line = value .id text := by
  constructor
  · intro h
    unfold opens at h
    split at h
    · exact ⟨_, rfl⟩
    · cases h
  · rintro ⟨text, rfl⟩
    rfl

end Line

/-! ## The lines there are -/

/-- One quoted string and nothing else. -/
def IsQuoted (cs : List Char) : Prop := (unquote? cs).isSome

/-- A line of PO text: empty, marked as a comment or a reference, or one quoted string, perhaps with
a keyword and a space in front. -/
def IsLine (line : List Char) : Prop :=
  line = [] ∨ ['#', '.'] <+: line ∨ ['#', ':'] <+: line ∨ IsQuoted line ∨
    ∃ keyword : Keyword, ∃ text, IsQuoted text ∧ line = keyword.name.toList ++ ' ' :: text

/-- The line starts an entry: the keyword of an id and a quote. -/
def opensEntry (line : List Char) : Bool := "msgid \"".toList.isPrefixOf line

theorem IsQuoted.exists_eq {cs : List Char} (h : IsQuoted cs) : ∃ rest, cs = '"' :: rest := by
  unfold IsQuoted unquote? at h
  split at h
  · exact ⟨_, rfl⟩
  · cases h

/-- The lines that are read are the lines of PO text. -/
theorem isLine_iff {cs : List Char} : IsLine cs ↔ (Line.read? cs).isSome := by
  constructor
  · rintro (rfl | ⟨rest, rfl⟩ | ⟨rest, rfl⟩ | hquoted | ⟨keyword, text, hquoted, rfl⟩)
    · rfl
    · rfl
    · rfl
    · obtain ⟨rest, rfl⟩ := hquoted.exists_eq
      rw [Line.read?, Option.isSome_map]
      exact hquoted
    · rw [Line.read?_append, Option.isSome_map]
      exact hquoted
  · intro h
    unfold Line.read? at h
    split at h
    · exact Or.inl rfl
    · exact Or.inr (Or.inl ⟨_, rfl⟩)
    · exact Or.inr (Or.inr (Or.inl ⟨_, rfl⟩))
    · rw [Option.isSome_map] at h
      exact Or.inr (Or.inr (Or.inr (Or.inl h)))
    · obtain ⟨line, hline⟩ := Option.isSome_iff_exists.1 h
      obtain ⟨keyword, text, value, rfl, hvalue, -⟩ := Line.readValue?_eq_some_iff.1 hline
      have hquoted : IsQuoted text := Option.isSome_iff_exists.2 ⟨value, hvalue⟩
      exact Or.inr (Or.inr (Or.inr (Or.inr ⟨keyword, text, hquoted, rfl⟩)))

instance : DecidablePred IsLine := fun _ => decidable_of_iff _ isLine_iff.symm

/-- A line starts an entry exactly if it is read as the keyword of an id. -/
theorem opensEntry_eq {cs : List Char} {line : Line} (h : Line.read? cs = some line) :
    opensEntry cs = line.opens := by
  rw [Bool.eq_iff_iff, Line.opens_iff, opensEntry, List.isPrefixOf_iff_prefix]
  constructor
  · rintro ⟨rest, rfl⟩
    have hread := Line.read?_append .id ('"' :: rest)
    obtain ⟨value, -, rfl⟩ := Option.map_eq_some_iff.1 (hread.symm.trans h)
    exact ⟨_, rfl⟩
  · rintro ⟨text, rfl⟩
    unfold Line.read? at h
    split at h
    · cases h
    · cases h
    · cases h
    · obtain ⟨value, -, hvalue⟩ := Option.map_eq_some_iff.1 h
      cases hvalue
    · obtain ⟨keyword, text, value, rfl, hvalue, hline⟩ := Line.readValue?_eq_some_iff.1 h
      have hquoted : IsQuoted text := Option.isSome_iff_exists.2 ⟨value, hvalue⟩
      obtain ⟨rest, rfl⟩ := hquoted.exists_eq
      obtain ⟨rfl, -⟩ := Line.value.inj hline
      exact ⟨rest, rfl⟩

end Phrasebook.Po
