-- SUMMARY: The tokens that a JSON text spells: blanks, punctuation, quoted strings, and other scalars.
import Phrasebook.Json.Printer
import Phrasebook.Json.Token

/-!
# Lexing

`Spells cs ts` says that the text `cs` is read as the tokens `ts` wherever it stands between other
tokens. A string in quotes spells its token (`Spells.quote`), and so does a scalar without
delimiters in it (`Spells.scalar`). A scalar goes on until a delimiter, so two texts can be put side
by side if the second starts with one (`Spells.append`).
-/
namespace Phrasebook.Json

/-! ## Delimiters -/

/-- The character ends a scalar in front of it. -/
def isDelimiter (c : Char) : Bool := isSeparator c || c == '"' || (punctuation? c).isSome

/-- No scalar goes on in `cs`: it is empty or starts with a delimiter. -/
def Delimited (cs : List Char) : Prop := ∀ c ∈ cs.head?, isDelimiter c = true

theorem Delimited.nil : Delimited [] := nofun

theorem Delimited.cons {c : Char} (h : isDelimiter c = true) (cs : List Char) :
    Delimited (c :: cs) := by
  rintro d ⟨⟩
  exact h

theorem Delimited.append {cs ds : List Char} (hcs : Delimited cs) (hds : Delimited ds) :
    Delimited (cs ++ ds) := by
  cases cs with
  | nil => exact hds
  | cons c cs => exact hcs

variable {c : Char} {cs ds : List Char} {t : Token} {ts us done : List Token} {v : Value}

namespace Lexer

theorem run_cons {lexer next : Lexer} (h : lexer.step c = some next) :
    lexer.run (c :: cs) = next.run cs := by
  simp only [Lexer.run, h]

theorem step_separator (h : isSeparator c = true) :
    Lexer.step ⟨.between, done⟩ c = some ⟨.between, done⟩ := by
  simp [step, first, h]

theorem step_punctuation (h : punctuation? c = some t) :
    Lexer.step ⟨.between, done⟩ c = some ⟨.between, t :: done⟩ := by
  unfold punctuation? at h
  split at h <;> cases h <;> rfl

theorem step_plain (h : isDelimiter c = false) :
    Lexer.step ⟨.between, done⟩ c = some ⟨.scalar [c], done⟩ := by
  obtain ⟨⟨hseparator, hquote⟩, hpunctuation⟩ :
      (isSeparator c = false ∧ c ≠ '"') ∧ punctuation? c = none := by
    simpa [isDelimiter] using h
  simp [step, first, hseparator, hquote, hpunctuation]

/-! ## Inside a scalar -/

theorem run_scalar_append (hcs : ∀ c ∈ cs, isDelimiter c = false) {seen : List Char} :
    Lexer.run ⟨.scalar seen, done⟩ (cs ++ ds) =
      Lexer.run ⟨.scalar (cs.reverse ++ seen), done⟩ ds := by
  induction cs generalizing seen with
  | nil => rfl
  | cons c cs ih =>
    obtain ⟨hc, hrest⟩ := List.forall_mem_cons.1 hcs
    have hstep : Lexer.step ⟨.scalar seen, done⟩ c = some ⟨.scalar (c :: seen), done⟩ :=
      if_neg (Bool.eq_false_iff.1 hc)
    rw [List.cons_append, run_cons hstep, ih hrest, List.reverse_cons, List.append_assoc]
    rfl

/-- At a delimiter the scalar is finished. -/
theorem run_scalar_stop {seen : List Char} (h : scalar? seen.reverse = some v)
    (hcs : Delimited cs) :
    Lexer.run ⟨.scalar seen, done⟩ cs = Lexer.run ⟨.between, .scalar v :: done⟩ cs := by
  have hfinish (lexer : Lexer) :
      lexer.finishScalar seen = some ⟨.between, .scalar v :: lexer.done⟩ := by
    simp only [Lexer.finishScalar, h, Option.map_some]
  cases cs with
  | nil => simp [Lexer.run, Lexer.finish, hfinish]
  | cons c cs =>
    have hstep : Lexer.step ⟨.scalar seen, done⟩ c =
        some (Lexer.first ⟨.between, .scalar v :: done⟩ c) := by
      refine (if_pos (hcs c rfl)).trans ?_
      simp only [hfinish, Option.map_some]
    exact (run_cons hstep).trans (run_cons rfl).symm

/-! ## Inside a string -/

theorem hexDigit?_hexDigit (n : Nat) : hexDigit? (hexDigit n) = some (n % 16) := by
  have hdigits : ∀ d < 16, hexDigit? (Nat.digitChar d) = some d := by decide
  exact hdigits (n % 16) (Nat.mod_lt n (by decide))

theorem pushUnit_toNat (hc : c.toNat < 0x20) (draft : StringDraft) :
    draft.pushUnit c.toNat = draft.push c := by
  have hlead : ¬(0xD800 ≤ c.toNat ∧ c.toNat < 0xDC00) := by omega
  have htrail : ¬(0xDC00 ≤ c.toNat ∧ c.toNat < 0xE000) := by omega
  simp only [StringDraft.pushUnit, if_neg hlead, if_neg htrail, Char.ofNat_toNat]

/-- A character that is escaped is read back as itself. -/
theorem run_escapeChar (c : Char) {draft : StringDraft} :
    Lexer.run ⟨.string draft, done⟩ (escapeChar c ++ cs) =
      Lexer.run ⟨.string (draft.push c), done⟩ cs := by
  unfold escapeChar
  split
  -- the short escapes compute; the last case is a control character or one that stands for itself
  case h_8 _ hquote hslash _ _ _ _ _ =>
    split
    case isTrue hcontrol =>
      have hunit : 16 * (c.toNat / 16 % 16) + c.toNat % 16 = c.toNat := by omega
      have hzero : hexDigit? '0' = some 0 := by decide
      simp [Lexer.run, Lexer.step, hexDigit?_hexDigit, hzero, hunit, pushUnit_toNat hcontrol]
    case isFalse hplain =>
      have hstep : Lexer.step ⟨.string draft, done⟩ c = some ⟨.string (draft.push c), done⟩ :=
        ((if_neg hquote).trans (if_neg hslash)).trans (if_neg hplain)
      exact run_cons hstep
  all_goals rfl

theorem run_escaped (text : List Char) {seen : List Char} :
    Lexer.run ⟨.string ⟨seen, none, false⟩, done⟩ (text.flatMap escapeChar ++ cs) =
      Lexer.run ⟨.string ⟨text.reverse ++ seen, none, false⟩, done⟩ cs := by
  induction text generalizing seen with
  | nil => rfl
  | cons c text ih =>
    simp only [List.flatMap_cons, List.append_assoc, run_escapeChar, StringDraft.push,
      Option.isSome_none, Bool.or_self, ih, List.reverse_cons, List.cons_append, List.nil_append]

/-- A string in quotes is read as its token, whatever follows. -/
theorem run_quote (text : String) :
    Lexer.run ⟨.between, done⟩ ((quote text).toList ++ cs) =
      Lexer.run ⟨.between, .string (some text) :: done⟩ cs := by
  have hquote : (quote text).toList ++ cs =
      '"' :: (text.toList.flatMap escapeChar ++ '"' :: cs) := by
    simp [quote]
  have hopen : Lexer.step ⟨.between, done⟩ '"' = some ⟨.string ⟨[], none, false⟩, done⟩ := rfl
  have hclose (draft : StringDraft) :
      Lexer.step ⟨.string draft, done⟩ '"' = some ⟨.between, draft.token :: done⟩ := rfl
  have htoken : StringDraft.token ⟨text.toList.reverse ++ [], none, false⟩ = .string (some text) := by
    simp [StringDraft.token]
  simp only [hquote, Lexer.run, hopen, run_escaped, hclose, htoken]

end Lexer

/-! ## Spelling -/

/-- Between two tokens the text is read as these tokens. What comes behind it may not go on with a
scalar at its end. -/
def Spells (cs : List Char) (ts : List Token) : Prop :=
  ∀ done rest, Delimited rest →
    Lexer.run ⟨.between, done⟩ (cs ++ rest) = Lexer.run ⟨.between, ts.reverse ++ done⟩ rest

namespace Spells

theorem nil : Spells [] [] := fun _ _ _ => rfl

theorem append (hcs : Spells cs ts) (hds : Spells ds us) (h : Delimited ds) :
    Spells (cs ++ ds) (ts ++ us) := by
  intro done rest hrest
  calc Lexer.run ⟨.between, done⟩ (cs ++ ds ++ rest)
      = Lexer.run ⟨.between, ts.reverse ++ done⟩ (ds ++ rest) := by
        rw [List.append_assoc]
        exact hcs done _ (h.append hrest)
    _ = Lexer.run ⟨.between, us.reverse ++ (ts.reverse ++ done)⟩ rest := hds _ rest hrest
    _ = Lexer.run ⟨.between, (ts ++ us).reverse ++ done⟩ rest := by
        rw [List.reverse_append, List.append_assoc]

theorem separator (h : isSeparator c = true) (hcs : Spells cs ts) : Spells (c :: cs) ts := by
  intro done rest hrest
  exact (Lexer.run_cons (Lexer.step_separator h)).trans (hcs done rest hrest)

/-- A token that needs no delimiter behind it, in front of further tokens. -/
theorem token_append (h : ∀ done rest,
      Lexer.run ⟨.between, done⟩ (ds ++ rest) = Lexer.run ⟨.between, t :: done⟩ rest)
    (hcs : Spells cs ts) : Spells (ds ++ cs) (t :: ts) := by
  intro done rest hrest
  calc Lexer.run ⟨.between, done⟩ (ds ++ cs ++ rest)
      = Lexer.run ⟨.between, t :: done⟩ (cs ++ rest) := by
        rw [List.append_assoc]
        exact h done _
    _ = Lexer.run ⟨.between, ts.reverse ++ (t :: done)⟩ rest := hcs _ rest hrest
    _ = Lexer.run ⟨.between, (t :: ts).reverse ++ done⟩ rest := by
        rw [List.reverse_cons, List.append_assoc, List.singleton_append]

theorem punctuation (h : punctuation? c = some t) (hcs : Spells cs ts) :
    Spells (c :: cs) (t :: ts) :=
  @token_append cs [c] t ts (fun _ _ => Lexer.run_cons (Lexer.step_punctuation h)) hcs

theorem quote (text : String) (hcs : Spells cs ts) :
    Spells ((quote text).toList ++ cs) (.string (some text) :: ts) :=
  token_append (fun _ _ => Lexer.run_quote text) hcs

theorem scalar (h : scalar? cs = some v) (hcs : ∀ c ∈ cs, isDelimiter c = false) :
    Spells cs [.scalar v] := by
  intro done rest hrest
  cases cs with
  | nil => cases h
  | cons c cs =>
    obtain ⟨hc, htail⟩ := List.forall_mem_cons.1 hcs
    have hseen : scalar? (cs.reverse ++ [c]).reverse = some v := by simpa using h
    calc Lexer.run ⟨.between, done⟩ (c :: cs ++ rest)
        = Lexer.run ⟨.scalar [c], done⟩ (cs ++ rest) :=
          Lexer.run_cons (Lexer.step_plain hc)
      _ = Lexer.run ⟨.scalar (cs.reverse ++ [c]), done⟩ rest := Lexer.run_scalar_append htail
      _ = Lexer.run ⟨.between, .scalar v :: done⟩ rest := Lexer.run_scalar_stop hseen hrest

/-- Texts with commas between them spell their tokens with commas between them. -/
theorem intercalate {α : Type} {text : α → List Char} {tokens : α → List Token} {xs : List α}
    (h : ∀ x ∈ xs, Spells (text x) (tokens x)) :
    Spells ([','].intercalate (xs.map text)) ([Token.comma].intercalate (xs.map tokens)) := by
  induction xs with
  | nil => exact nil
  | cons x xs ih =>
    obtain ⟨hx, hxs⟩ := List.forall_mem_cons.1 h
    cases xs with
    | nil => simpa using hx
    | cons y ys =>
      have htail := punctuation (c := ',') rfl (ih hxs)
      simpa using hx.append htail (.cons rfl _)

/-- A text that stands alone has the tokens that it spells. -/
theorem tokenize?_eq (h : Spells cs ts) : tokenize? cs = some ts := by
  have hrun := h [] [] .nil
  simpa [tokenize?, Lexer.run, Lexer.finish] using hrun

end Spells

end Phrasebook.Json
