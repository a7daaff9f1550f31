-- SUMMARY: What the tokenizer finds in a text, by big steps: runs, openings, closings, and failures.
import Phrasebook.Template.Escape
import Phrasebook.Template.Token

/-!
# Lexing

`Lexes p cs ts f` says which tokens `ts` and which failure `f` the text `cs` holds when it starts
at byte `p`, one rule for each kind of token and of failure. The tokenizer goes character by
character through the modes of a machine; `lexes_iff` says that it finds exactly that. Between two
tokens a text may be cut in two, and texts may be joined there (`Lexes.split`, `Lexes.append`).
-/
namespace Phrasebook.Template

open Text.Numeral

/-! ## Text runs -/

/-- A text run: characters that are not reserved, and pairs of a backslash and any character. -/
inductive RunText : List Char → Prop where
  | nil : RunText []
  | plain {c : Char} {cs : List Char} : isReserved c = false → RunText cs → RunText (c :: cs)
  | pair {c : Char} {cs : List Char} : RunText cs → RunText ('\\' :: c :: cs)

/-- No text run goes on in `cs`: it is empty or starts with a bracket. -/
def Stops (cs : List Char) : Prop := ∀ c ∈ cs.head?, c = '[' ∨ c = ']'

/-- The size of a text in bytes. -/
def byteSize : List Char → Nat
  | []      => 0
  | c :: cs => c.utf8Size + byteSize cs

@[simp] theorem byteSize_nil : byteSize [] = 0 := rfl
@[simp] theorem byteSize_cons (c : Char) (cs : List Char) :
    byteSize (c :: cs) = c.utf8Size + byteSize cs := rfl
@[simp] theorem byteSize_append (cs ds : List Char) :
    byteSize (cs ++ ds) = byteSize cs + byteSize ds := by
  induction cs with
  | nil => simp
  | cons c cs ih =>
    rw [List.cons_append, byteSize_cons, byteSize_cons, ih, Nat.add_assoc]

theorem byteSize_opening (digits cs : List Char) :
    byteSize ('[' :: digits ++ ':' :: cs) = byteSize digits + 2 + byteSize cs := by
  simp only [List.cons_append, byteSize_cons, byteSize_append, show '['.utf8Size = 1 from rfl,
    show ':'.utf8Size = 1 from rfl]
  omega

theorem utf8ByteSize_ofList (cs : List Char) : (String.ofList cs).utf8ByteSize = byteSize cs := by
  induction cs with
  | nil => rfl
  | cons c cs ih =>
    rw [String.ofList_cons, String.utf8ByteSize_append, String.utf8ByteSize_singleton, ih,
      byteSize_cons]

/-- Every character takes a byte at least. -/
theorem length_le_byteSize (cs : List Char) : cs.length ≤ byteSize cs := by
  induction cs with
  | nil => simp
  | cons c cs ih =>
    have := c.utf8Size_pos
    simp only [List.length_cons, byteSize_cons]
    omega

@[simp] theorem Stops.nil : Stops [] := by simp [Stops]
@[simp] theorem Stops.opening (cs : List Char) : Stops ('[' :: cs) := by simp [Stops]
@[simp] theorem Stops.closing (cs : List Char) : Stops (']' :: cs) := by simp [Stops]

theorem Stops.append {cs ds : List Char} (hcs : Stops cs) (hds : Stops ds) : Stops (cs ++ ds) := by
  cases cs with
  | nil => exact hds
  | cons c cs => exact hcs

theorem Stops.of_append {cs ds : List Char} (h : Stops (cs ++ ds)) : Stops cs := by
  cases cs with
  | nil => exact .nil
  | cons c cs => exact h

theorem Stops.swap {front back back' : List Char} (h : Stops (front ++ back))
    (hback : Stops back → Stops back') : Stops (front ++ back') := by
  cases front with
  | nil => exact hback h
  | cons c front => exact h

theorem isReserved_eq_false {c : Char} :
    isReserved c = false ↔ c ≠ '[' ∧ c ≠ ']' ∧ c ≠ '\\' := by
  simp [isReserved, and_assoc]

theorem RunText.append {cs ds : List Char} (hcs : RunText cs) (hds : RunText ds) :
    RunText (cs ++ ds) := by
  induction hcs with
  | nil => exact hds
  | plain hc _ ih => exact .plain hc ih
  | pair _ ih => exact .pair ih

/-- A text run does not start with a raw bracket. -/
theorem RunText.head_ne {c : Char} {cs : List Char} (h : RunText (c :: cs)) : c ≠ '[' ∧ c ≠ ']' := by
  cases h with
  | plain hc _ => exact ⟨(isReserved_eq_false.1 hc).1, (isReserved_eq_false.1 hc).2.1⟩
  | pair _ => decide

/-- Every text is a run up to a bracket, up to a lone backslash at its end, or up to its end. -/
theorem exists_runText : ∀ cs : List Char,
    ∃ run rest, cs = run ++ rest ∧ RunText run ∧ (Stops rest ∨ rest = ['\\'])
  | [] => ⟨[], [], rfl, .nil, .inl .nil⟩
  | c :: cs => by
    by_cases hslash : c = '\\'
    · subst hslash
      cases cs with
      | nil => exact ⟨[], ['\\'], rfl, .nil, .inr rfl⟩
      | cons d cs =>
        obtain ⟨run, rest, rfl, hrun, hrest⟩ := exists_runText cs
        exact ⟨'\\' :: d :: run, rest, rfl, .pair hrun, hrest⟩
    by_cases hbracket : c = '[' ∨ c = ']'
    · exact ⟨[], c :: cs, rfl, .nil, .inl (by simpa [Stops] using hbracket)⟩
    · obtain ⟨run, rest, rfl, hrun, hrest⟩ := exists_runText cs
      have hplain : isReserved c = false := by
        simpa [isReserved_eq_false, hslash, not_or] using hbracket
      exact ⟨c :: run, rest, rfl, .plain hplain hrun, hrest⟩

/-! ## The tokenizer over a run, over digits, and at the end of a token -/

namespace Lexer

variable {p start : Nat} {done : List PlacedToken} {cs : List Char}

/-- Behind the first character of a run, the rest of the run only lengthens it. -/
theorem run_afterRun {run : List Char} (hrun : RunText run) {seen : List Char} :
    Lexer.run ⟨.run start seen, p, done⟩ (run ++ cs) =
      Lexer.run ⟨.run start (run.reverse ++ seen), p + byteSize run, done⟩ cs := by
  induction hrun generalizing p seen with
  | nil => simp
  | @plain c cs' hc _ ih =>
    obtain ⟨h₁, h₂, h₃⟩ := isReserved_eq_false.1 hc
    simp [Lexer.run, step, afterRun, h₁, h₂, h₃, ih, Nat.add_assoc]
  | @pair c cs' _ ih =>
    simp [Lexer.run, step, afterRun, ih, Nat.add_assoc]

/-- A run that is not empty is read from between two tokens. -/
theorem run_first {run : List Char} (hrun : RunText run) (hne : run ≠ []) :
    Lexer.run ⟨.between, p, done⟩ (run ++ cs) =
      Lexer.run ⟨.run p run.reverse, p + byteSize run, done⟩ cs := by
  cases hrun with
  | nil => exact absurd rfl hne
  | @plain c run hc hrun =>
    obtain ⟨h₁, h₂, h₃⟩ := isReserved_eq_false.1 hc
    simp [Lexer.run, step, first, h₁, h₂, h₃, run_afterRun hrun, Nat.add_assoc]
  | @pair c run hrun =>
    simp [Lexer.run, step, first, run_afterRun hrun, Nat.add_assoc]

/-- Where a run stops, its token is finished. -/
theorem run_stop {seen : List Char} (hcs : Stops cs) :
    Lexer.run ⟨.run start seen, p, done⟩ cs =
      Lexer.run ⟨.between, p, ⟨.text (String.ofList seen.reverse), start⟩ :: done⟩ cs := by
  cases cs with
  | nil => rfl
  | cons c cs =>
    have hc : c = '[' ∨ c = ']' := hcs c rfl
    obtain rfl | rfl := hc <;> simp [Lexer.run, step, afterRun, first, pushRun, push]

/-- Digits behind a `[` only lengthen the numeral. -/
theorem run_digits {digits seen : List Char} (hdigits : ∀ d ∈ digits, d.isDigit = true) :
    Lexer.run ⟨.index start seen, p, done⟩ (digits ++ cs) =
      Lexer.run ⟨.index start (digits.reverse ++ seen), p + byteSize digits, done⟩ cs := by
  induction digits generalizing p seen with
  | nil => simp
  | cons d digits ih =>
    have hd : d.isDigit = true := hdigits d List.mem_cons_self
    have hrest : ∀ e ∈ digits, e.isDigit = true := fun e he =>
      hdigits e (List.mem_cons_of_mem d he)
    simp [Lexer.run, step, afterDigits, hd, ih hrest, Except.map, Nat.add_assoc]

/-- A numeral with a colon behind it is an opening, unless it exceeds 64 bits. -/
theorem run_opening {digits : List Char} (hdigits : isNumeral digits = true) :
    Lexer.run ⟨.between, p, done⟩ ('[' :: digits ++ ':' :: cs) =
      if value digits ≤ nat64Max then
        Lexer.run ⟨.between, p + byteSize digits + 2, ⟨.opening (value digits), p⟩ :: done⟩ cs
      else ⟨done.reverse, some (.malformed .elementIndexOverflow p)⟩ := by
  obtain ⟨hne, hall⟩ : digits ≠ [] ∧ ∀ d ∈ digits, d.isDigit = true := by
    simpa [isNumeral] using hdigits
  have hcolon : Char.isDigit ':' = false := by decide
  have hsize : p + byteSize digits + 2 = p + '['.utf8Size + byteSize digits + ':'.utf8Size := by
    simp only [show '['.utf8Size = 1 from rfl, show ':'.utf8Size = 1 from rfl]
    omega
  by_cases hvalue : value digits ≤ nat64Max
  · simp [Lexer.run, step, first, run_digits hall, afterDigits, hcolon, hne, hvalue, Except.map,
      push, hsize]
  · simp [Lexer.run, step, first, run_digits hall, afterDigits, hcolon, hne, hvalue, Except.map]

/-- Without a numeral and its colon, a `[` is a failure. -/
theorem run_noIndex
    (h : ∀ digits rest, isNumeral digits = true → cs ≠ digits ++ ':' :: rest) :
    Lexer.run ⟨.between, p, done⟩ ('[' :: cs) =
      ⟨done.reverse, some (.malformed .expectedElementIndex p)⟩ := by
  have hall : ∀ d ∈ cs.takeWhile Char.isDigit, d.isDigit = true := fun d hd =>
    List.all_eq_true.1 List.all_takeWhile d hd
  have hcs : cs.takeWhile Char.isDigit ++ cs.dropWhile Char.isDigit = cs :=
    List.takeWhile_append_dropWhile
  rw [← hcs]
  simp only [Lexer.run, step, first, if_true, run_digits hall]
  cases hrest : cs.dropWhile Char.isDigit with
  | nil => rfl
  | cons c rest =>
    have hc : c.isDigit = false := by
      have := List.head?_dropWhile_not Char.isDigit cs
      simpa [hrest] using this
    have hno : ¬ (c = ':' ∧ (cs.takeWhile Char.isDigit).reverse ++ [] ≠ []) := by
      rintro ⟨rfl, hne⟩
      have hnumeral : isNumeral (cs.takeWhile Char.isDigit) = true := by
        have : cs.takeWhile Char.isDigit ≠ [] := by simpa using hne
        simp [isNumeral, this]
      exact h _ rest hnumeral (by rw [← hrest, hcs])
    simp only [Lexer.run, step, afterDigits, hc, hno, if_false, Except.map, Bool.false_eq_true]

/-- A lone backslash at the end of a run is a failure. -/
theorem run_dangling {run : List Char} (hrun : RunText run) :
    Lexer.run ⟨.between, p, done⟩ (run ++ ['\\']) =
      ⟨done.reverse, some (.malformed .danglingEscape (p + byteSize run))⟩ := by
  by_cases hne : run = []
  · subst hne
    simp [Lexer.run, step, first, finish]
  · simp [run_first hrun hne, Lexer.run, step, afterRun, finish]

end Lexer

/-! ## Big steps -/

/-- The tokens that a text at byte `p` holds, and the failure that ends them, if one does. -/
inductive Lexes : Nat → List Char → List PlacedToken → Option TemplateError → Prop where
  | done {p : Nat} : Lexes p [] [] none
  | closing {p : Nat} {cs : List Char} {ts : List PlacedToken} {f : Option TemplateError} :
      Lexes (p + 1) cs ts f → Lexes p (']' :: cs) (⟨.closing, p⟩ :: ts) f
  | opening {p : Nat} {digits cs : List Char} {ts : List PlacedToken} {f : Option TemplateError} :
      isNumeral digits = true → value digits ≤ nat64Max →
      Lexes (p + byteSize digits + 2) cs ts f →
      Lexes p ('[' :: digits ++ ':' :: cs) (⟨.opening (value digits), p⟩ :: ts) f
  | text {p : Nat} {run cs : List Char} {ts : List PlacedToken} {f : Option TemplateError} :
      RunText run → run ≠ [] → Stops cs → Lexes (p + byteSize run) cs ts f →
      Lexes p (run ++ cs) (⟨.text (String.ofList run), p⟩ :: ts) f
  /-- Behind a `[` there is no numeral with a colon. -/
  | noIndex {p : Nat} {cs : List Char} :
      (∀ digits rest, isNumeral digits = true → cs ≠ digits ++ ':' :: rest) →
      Lexes p ('[' :: cs) [] (some (.malformed .expectedElementIndex p))
  /-- The numeral behind a `[` exceeds 64 bits. -/
  | overflow {p : Nat} {digits cs : List Char} :
      isNumeral digits = true → nat64Max < value digits →
      Lexes p ('[' :: digits ++ ':' :: cs) [] (some (.malformed .elementIndexOverflow p))
  /-- A run ends in a lone backslash. -/
  | dangling {p : Nat} {run : List Char} :
      RunText run → Lexes p (run ++ ['\\']) [] (some (.malformed .danglingEscape (p + byteSize run)))

namespace Lexes

variable {p : Nat} {cs : List Char} {ts : List PlacedToken} {f : Option TemplateError}

/-- The tokenizer finds what the rules say. -/
theorem run_eq (h : Lexes p cs ts f) (done : List PlacedToken) :
    Lexer.run ⟨.between, p, done⟩ cs = ⟨done.reverse ++ ts, f⟩ := by
  induction h generalizing done with
  | done => simp [Lexer.run, Lexer.finish]
  | closing _ ih =>
    simp [Lexer.run, Lexer.step, Lexer.first, Lexer.push, ih, show ']'.utf8Size = 1 from rfl]
  | opening hdigits hvalue _ ih => rw [Lexer.run_opening hdigits, if_pos hvalue, ih]; simp
  | text hrun hne hstops _ ih => simp [Lexer.run_first hrun hne, Lexer.run_stop hstops, ih]
  | noIndex hno => simp [Lexer.run_noIndex hno]
  | overflow hdigits hvalue =>
    rw [Lexer.run_opening hdigits, if_neg (Nat.not_le.2 hvalue)]; simp
  | dangling hrun => simp [Lexer.run_dangling hrun]

/-- The rules cover a text that starts with a bracket, if they cover every shorter text. -/
private theorem total_of_stops (hcs : Stops cs)
    (ih : ∀ p ds, ds.length < cs.length → ∃ ts f, Lexes p ds ts f) : ∃ ts f, Lexes p cs ts f := by
  cases cs with
  | nil => exact ⟨[], none, .done⟩
  | cons c rest =>
    obtain rfl | rfl : c = '[' ∨ c = ']' := hcs c rfl
    · by_cases hindex : ∃ digits tail, isNumeral digits = true ∧ rest = digits ++ ':' :: tail
      · obtain ⟨digits, tail, hdigits, rfl⟩ := hindex
        by_cases hvalue : value digits ≤ nat64Max
        · obtain ⟨ts, f, h⟩ := ih (p + byteSize digits + 2) tail (by simp; omega)
          exact ⟨_, f, .opening hdigits hvalue h⟩
        · exact ⟨[], _, .overflow hdigits (Nat.not_le.1 hvalue)⟩
      · exact ⟨[], _, .noIndex fun digits tail hdigits heq => hindex ⟨digits, tail, hdigits, heq⟩⟩
    · obtain ⟨ts, f, h⟩ := ih (p + 1) rest (by simp)
      exact ⟨_, f, .closing h⟩

/-- The rules cover every text. -/
theorem total (p : Nat) (cs : List Char) : ∃ ts f, Lexes p cs ts f := by
  induction hn : cs.length using Nat.strongRecOn generalizing p cs with
  | ind n ih =>
    subst hn
    obtain ⟨run, rest, rfl, hrun, hstops | rfl⟩ := exists_runText cs
    · by_cases hne : run = []
      · subst hne
        exact total_of_stops hstops fun p ds hds => ih _ hds p ds rfl
      · have hshort : rest.length < (run ++ rest).length := by
          simpa using List.length_pos_iff.2 hne
        obtain ⟨ts, f, h⟩ := ih _ hshort (p + byteSize run) rest rfl
        exact ⟨_, f, .text hrun hne hstops h⟩
    · exact ⟨[], _, .dangling hrun⟩

end Lexes

/-- The tokenizer finds in a text exactly what the rules say. -/
theorem lexes_iff {template : String} {ts : List PlacedToken} {f : Option TemplateError} :
    Lexes 0 template.toList ts f ↔ tokenize template = ⟨ts, f⟩ := by
  constructor
  · intro h
    simpa [tokenize] using h.run_eq []
  · intro h
    obtain ⟨ts', f', h'⟩ := Lexes.total 0 template.toList
    have heq : tokenize template = ⟨ts', f'⟩ := by simpa [tokenize] using h'.run_eq []
    rw [h] at heq
    obtain ⟨rfl, rfl⟩ := Tokens.mk.inj heq
    exact h'

/-! ## Texts cut between tokens -/

namespace Lexes

variable {p : Nat} {cs ds : List Char} {ts us : List PlacedToken} {f : Option TemplateError}

/-- The first of the tokens of a text stand in front of the others. They are found there whatever
else is behind them, unless it would go on with the last of them. -/
theorem split (h : Lexes p cs (ts ++ us) f) :
    ∃ front back, cs = front ++ back ∧ Lexes (p + byteSize front) back us f ∧
      ∀ {back' vs g}, (Stops back → Stops back') → Lexes (p + byteSize front) back' vs g →
        Lexes p (front ++ back') (ts ++ vs) g := by
  induction ts generalizing p cs with
  | nil => exact ⟨[], cs, rfl, h, fun _ hvs => hvs⟩
  | cons t ts ih =>
    cases h with
    | closing h =>
      obtain ⟨front, back, rfl, hback, hfront⟩ := ih h
      have hsize : p + 1 + byteSize front = p + byteSize (']' :: front) := Nat.add_assoc ..
      rw [hsize] at hback hfront
      exact ⟨']' :: front, back, rfl, hback, fun hstops hvs => .closing (hfront hstops hvs)⟩
    | @opening _ digits _ _ _ hdigits hvalue h =>
      obtain ⟨front, back, rfl, hback, hfront⟩ := ih h
      have hsize : p + byteSize digits + 2 + byteSize front =
          p + byteSize ('[' :: digits ++ ':' :: front) := by
        rw [byteSize_opening, ← Nat.add_assoc, ← Nat.add_assoc]
      rw [hsize] at hback hfront
      refine ⟨'[' :: digits ++ ':' :: front, back, by simp, hback, fun hstops hvs => ?_⟩
      simpa using Lexes.opening hdigits hvalue (hfront hstops hvs)
    | @text _ run _ _ _ hrun hne hcs h =>
      obtain ⟨front, back, rfl, hback, hfront⟩ := ih h
      have hsize : p + byteSize run + byteSize front = p + byteSize (run ++ front) := by
        rw [byteSize_append, Nat.add_assoc]
      rw [hsize] at hback hfront
      refine ⟨run ++ front, back, by simp, hback, fun hstops hvs => ?_⟩
      simpa using Lexes.text hrun hne (hcs.swap hstops) (hfront hstops hvs)

/-- Texts that end and start between tokens hold their tokens one behind the other. -/
theorem append (h : Lexes p cs ts none) (hstops : Stops ds)
    (hds : Lexes (p + byteSize cs) ds us f) : Lexes p (cs ++ ds) (ts ++ us) f := by
  rw [← List.append_nil ts] at h
  obtain ⟨front, back, rfl, hback, hfront⟩ := h.split
  cases hback
  rw [List.append_nil] at hds ⊢
  exact hfront (fun _ => hstops) hds

/-- A text of closings holds as many tokens. -/
theorem replicate_closing (p n : Nat) :
    ∃ ts, Lexes p (List.replicate n ']') ts none ∧
      ts.map (·.token) = List.replicate n Token.closing := by
  induction n generalizing p with
  | zero => exact ⟨[], .done, rfl⟩
  | succ n ih =>
    obtain ⟨ts, h, hts⟩ := ih (p + 1)
    exact ⟨⟨.closing, p⟩ :: ts, .closing h, by simp [hts, List.replicate_succ]⟩

end Lexes

end Phrasebook.Template
