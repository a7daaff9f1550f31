-- SUMMARY: The tokens of a JSON value, and that both printed forms of a plain value spell them.
import Phrasebook.Proofs.Json.Number

/-!
# Printing

`Value.tokens` lists the tokens that a value is written with. The text on one line and the indented
text differ in blanks only: both spell these tokens if the value is plain (`spells_compact`,
`spells_indented`).
-/
namespace Phrasebook.Json

namespace Spells

variable {space cs : List Char} {ts : List Token}

/-- Blanks in front of a text do not count. -/
theorem blanks (hspace : ∀ c ∈ space, isSeparator c = true) (hcs : Spells cs ts) :
    Spells (space ++ cs) ts := by
  induction space with
  | nil => exact hcs
  | cons c space ih =>
    obtain ⟨hc, hrest⟩ := List.forall_mem_cons.1 hspace
    exact separator hc (ih hrest)

/-- Texts between brackets, with commas between them and blanks in front of the closing bracket. -/
theorem bracketed {α : Type} {text : α → List Char} {tokens : α → List Token} {xs : List α}
    {left right : Char} {opening closing : Token} (hleft : punctuation? left = some opening)
    (hright : punctuation? right = some closing) (h : ∀ x ∈ xs, Spells (text x) (tokens x))
    (hspace : ∀ c ∈ space, isSeparator c = true) :
    Spells (left :: ([','].intercalate (xs.map text) ++ (space ++ [right])))
      (opening :: ([.comma].intercalate (xs.map tokens) ++ [closing])) := by
  have hclosing : Spells (space ++ [right]) [closing] := (nil.punctuation hright).blanks hspace
  have hdelimited : Delimited (space ++ [right]) := by
    cases space with
    | nil => exact .cons (by simp [isDelimiter, hright]) _
    | cons c space => exact .cons (by simp [isDelimiter, hspace c (List.mem_cons_self ..)]) _
  exact ((intercalate h).append hclosing hdelimited).punctuation hleft

end Spells

namespace Value

/-! ## The tokens of a value -/

mutual
/-- The tokens that a value is written with. -/
def tokens : Value → List Token
  | .null => [.scalar .null]
  | .bool value => [.scalar (.bool value)]
  | .number n => [.scalar (.number n)]
  | .string text => [.string (some text)]
  | .array items => .arrayOpen :: ([.comma].intercalate (itemTokens items) ++ [.arrayClose])
  | .object members => .objectOpen :: ([.comma].intercalate (memberTokens members) ++ [.objectClose])
  | .garbled => [.scalar .garbled]
def itemTokens : List Value → List (List Token)
  | [] => []
  | item :: items => item.tokens :: itemTokens items
def memberTokens : List (String × Value) → List (List Token)
  | [] => []
  | (name, value) :: members =>
    (.string (some name) :: .colon :: value.tokens) :: memberTokens members
end

/-- The tokens of a member. -/
def memberToken (member : String × Value) : List Token :=
  .string (some member.1) :: .colon :: member.2.tokens

variable {items : List Value} {members : List (String × Value)} {space : List Char}

theorem itemTokens_eq_map : itemTokens items = items.map tokens := by
  induction items with
  | nil => rfl
  | cons item items ih => rw [itemTokens, ih, List.map_cons]

theorem memberTokens_eq_map : memberTokens members = members.map memberToken := by
  induction members with
  | nil => rfl
  | cons member members ih => rw [memberTokens, ih, List.map_cons, memberToken]

theorem tokens_array :
    (array items).tokens =
      .arrayOpen :: ([.comma].intercalate (items.map tokens) ++ [.arrayClose]) := by
  rw [tokens, itemTokens_eq_map]

theorem tokens_object :
    (object members).tokens =
      .objectOpen :: ([.comma].intercalate (members.map memberToken) ++ [.objectClose]) := by
  rw [tokens, memberTokens_eq_map]

theorem spells_word {word : String} {value : Value} (h : scalar? word.toList = some value)
    (hword : word.toList.all (fun c => !isDelimiter c) = true) :
    Spells word.toList [.scalar value] :=
  .scalar h (by simpa using hword)

theorem spells_null : Spells "null".toList null.tokens := spells_word rfl rfl

theorem spells_bool : ∀ value, Spells (bool value).compact.toList (bool value).tokens
  | true => spells_word rfl rfl
  | false => spells_word rfl rfl

theorem spells_number {n : Number} (h : n.Fits) : Spells n.text.toList (number n).tokens :=
  .scalar (Number.scalar?_text h) (Number.isDelimiter_text h)

theorem spells_string (text : String) : Spells (quote text).toList (string text).tokens := by
  simpa [tokens] using Spells.nil.quote text

/-! ## On one line -/

/-- A member as it is written on one line. -/
def compactMember (member : String × Value) : String := quote member.1 ++ ":" ++ member.2.compact

theorem compactItems_eq_map : compactItems items = items.map compact := by
  induction items with
  | nil => rfl
  | cons item items ih => rw [compactItems, ih, List.map_cons]

theorem compactMembers_eq_map : compactMembers members = members.map compactMember := by
  induction members with
  | nil => rfl
  | cons member members ih => rw [compactMembers, ih, List.map_cons, compactMember]

theorem toList_commaSeparated (texts : List String) :
    (commaSeparated texts).toList = [','].intercalate (texts.map String.toList) :=
  String.toList_intercalate

theorem spells_compact {value : Value} (h : value.Plain) :
    Spells value.compact.toList value.tokens := by
  induction value using Value.induction with
  | null => exact spells_null
  | bool value => exact spells_bool value
  | number n => exact spells_number h
  | string text => exact spells_string text
  | garbled => exact absurd h id
  | array items ih =>
    have hitems : ∀ item ∈ items, Spells item.compact.toList item.tokens :=
      fun item hitem => ih item hitem (plain_array.1 h item hitem)
    have htext : (array items).compact.toList =
        '[' :: ([','].intercalate (items.map fun item => item.compact.toList) ++ ([] ++ [']'])) := by
      simp [compact, toList_commaSeparated, compactItems_eq_map, Function.comp_def]
    rw [htext, tokens_array]
    exact .bracketed rfl rfl hitems nofun
  | object members ih =>
    have hmembers : ∀ member ∈ members,
        Spells (compactMember member).toList (memberToken member) := by
      intro member hmember
      have hvalue := ih member hmember (plain_object.1 h member hmember)
      simpa [compactMember, memberToken] using (hvalue.punctuation (c := ':') rfl).quote member.1
    have htext : (object members).compact.toList =
        '{' :: ([','].intercalate (members.map fun member => (compactMember member).toList) ++
          ([] ++ ['}'])) := by
      simp [compact, toList_commaSeparated, compactMembers_eq_map, Function.comp_def]
    rw [htext, tokens_object]
    exact .bracketed rfl rfl hmembers nofun

/-! ## Indented -/

theorem isSeparator_newline (level : Nat) :
    ∀ c ∈ (newline level).toList, isSeparator c = true := by
  intro c hc
  have hc : c = '\n' ∨ c ∈ List.replicate (2 * level) ' ' := by simpa [newline] using hc
  obtain rfl | hc := hc
  · rfl
  · rw [List.eq_of_mem_replicate hc]
    rfl

/-- An item as it is written on a line of its own. -/
def indentedItem (level : Nat) (item : Value) : String := newline level ++ item.indented level

/-- A member as it is written on a line of its own. -/
def indentedMember (level : Nat) (member : String × Value) : String :=
  newline level ++ quote member.1 ++ ": " ++ member.2.indented level

theorem indentedItems_eq_map (level : Nat) :
    indentedItems level items = items.map (indentedItem level) := by
  induction items with
  | nil => rfl
  | cons item items ih => rw [indentedItems, ih, List.map_cons, indentedItem]

theorem indentedMembers_eq_map (level : Nat) :
    indentedMembers level members = members.map (indentedMember level) := by
  induction members with
  | nil => rfl
  | cons member members ih => rw [indentedMembers, ih, List.map_cons, indentedMember]

theorem spells_indented {value : Value} (h : value.Plain) (level : Nat) :
    Spells (value.indented level).toList value.tokens := by
  induction value using Value.induction generalizing level with
  | null => exact spells_null
  | bool value =>
    have htext : (bool value).indented level = (bool value).compact := by
      cases value <;> simp only [indented, compact]
    rw [htext]
    exact spells_bool value
  | number n => exact spells_number h
  | string text => exact spells_string text
  | garbled => exact absurd h id
  | array items ih =>
    have hitems : ∀ item ∈ items, Spells (indentedItem (level + 1) item).toList item.tokens := by
      intro item hitem
      have hitem := ih item hitem (plain_array.1 h item hitem) (level + 1)
      simpa [indentedItem] using hitem.blanks (isSeparator_newline (level + 1))
    rw [tokens_array]
    cases items with
    | nil =>
      have htext : (array []).indented level = "[]" := by simp only [indented]
      rw [htext]
      exact (Spells.nil.punctuation (c := ']') rfl).punctuation (c := '[') rfl
    | cons item items =>
      have htext : ((array (item :: items)).indented level).toList =
          '[' :: ([','].intercalate ((item :: items).map fun item =>
            (indentedItem (level + 1) item).toList) ++ ((newline level).toList ++ [']'])) := by
        simp [indented, toList_commaSeparated, indentedItems_eq_map, Function.comp_def]
      rw [htext]
      exact .bracketed rfl rfl hitems (isSeparator_newline level)
  | object members ih =>
    have hmembers : ∀ member ∈ members,
        Spells (indentedMember (level + 1) member).toList (memberToken member) := by
      intro member hmember
      have hvalue := ih member hmember (plain_object.1 h member hmember) (level + 1)
      have hmember := ((hvalue.separator (c := ' ') rfl).punctuation (c := ':') rfl).quote member.1
      simpa [indentedMember, memberToken] using hmember.blanks (isSeparator_newline (level + 1))
    rw [tokens_object]
    cases members with
    | nil =>
      have htext : (object []).indented level = "{}" := by simp only [indented]
      rw [htext]
      exact (Spells.nil.punctuation (c := '}') rfl).punctuation (c := '{') rfl
    | cons member members =>
      have htext : ((object (member :: members)).indented level).toList =
          '{' :: ([','].intercalate ((member :: members).map fun member =>
            (indentedMember (level + 1) member).toList) ++ ((newline level).toList ++ ['}'])) := by
        simp [indented, toList_commaSeparated, indentedMembers_eq_map, Function.comp_def]
      rw [htext]
      exact .bracketed rfl rfl hmembers (isSeparator_newline level)

end Value

end Phrasebook.Json
