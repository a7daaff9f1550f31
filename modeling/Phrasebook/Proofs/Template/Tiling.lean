-- SUMMARY: The tokens of a template tile its text, and a stream that is asked for them one at a time gives the same.
import Mathlib.Data.List.Chain
import Mathlib.Data.List.Forall2
import Phrasebook.Proofs.Template.Building
import Phrasebook.Proofs.Template.Lexing
import Phrasebook.Proofs.Text.Numeral

/-!
# Tiling

The tokens found in a template are written one behind the other at its start: `Tiles` cuts the text
into the lexeme of each token and the rest behind them, and `Lexes.tiles` gives the cut. The rest is
empty, or it starts with the malformed token that stopped the tokenizer.

`TokenStream` cuts one token off at a time, on request. `TokenStream.yields_lexes` says that it
yields what the tokenizer finds at once, and nothing behind its end or a failure.
-/
namespace Phrasebook.Template

open Text.Numeral

/-! ## Lexemes -/

/-- A token covers the characters that it is written with. -/
inductive Token.Covers : Token → List Char → Prop where
  | text {run : List Char} : RunText run → run ≠ [] → Covers (.text (String.ofList run)) run
  | opening {digits : List Char} :
      isNumeral digits = true → value digits ≤ nat64Max →
      Covers (.opening (value digits)) ('[' :: digits ++ [':'])
  | closing : Covers .closing [']']

theorem Token.Covers.ne_nil {token : Token} {lexeme : List Char} (h : token.Covers lexeme) :
    lexeme ≠ [] := by
  cases h with
  | text _ hne => exact hne
  | opening _ _ => simp
  | closing => simp

/-- Where lexemes start, the first one at byte `p` and each of the others where the one before it
ends. -/
def starts (p : Nat) : List (List Char) → List Nat
  | [] => []
  | lexeme :: lexemes => p :: starts (p + byteSize lexeme) lexemes

/-- The tokens `ts` are cut from the text `cs`, which starts at byte `p`, one behind the other. -/
structure Tiles (p : Nat) (cs : List Char) (ts : List PlacedToken) (lexemes : List (List Char))
    (rest : List Char) : Prop where
  text      : cs = lexemes.flatten ++ rest
  covers    : List.Forall₂ Token.Covers (ts.map (·.token)) lexemes
  positions : ts.map (·.position) = starts p lexemes
  /-- Of two neighbours one is a bracket. -/
  apart     : ts.IsChain fun t u => t.token.isBracket = true ∨ u.token.isBracket = true
  /-- A text run is followed by a bracket or by the end. -/
  maximal   : ∀ (i : Nat) (run : String) (q : Nat), ts[i]? = some ⟨.text run, q⟩ →
    Stops ((lexemes.drop (i + 1)).flatten ++ rest)

namespace Tiles

variable {p : Nat} {cs rest lexeme : List Char} {ts : List PlacedToken}
  {lexemes : List (List Char)}

theorem nil (p : Nat) (rest : List Char) : Tiles p rest [] [] rest :=
  ⟨rfl, .nil, rfl, .nil, by simp⟩

/-- A token in front of a tiling. -/
theorem cons {token : Token} (hcovers : token.Covers lexeme)
    (hstops : token.isBracket = true ∨ Stops cs)
    (hhead : token.isBracket = true ∨ ∀ t ∈ ts.head?, t.token.isBracket = true)
    (h : Tiles (p + byteSize lexeme) cs ts lexemes rest) :
    Tiles p (lexeme ++ cs) (⟨token, p⟩ :: ts) (lexeme :: lexemes) rest where
  text := by simp [h.text]
  covers := .cons hcovers h.covers
  positions := congrArg (p :: ·) h.positions
  apart := List.isChain_cons.2 ⟨fun t ht => hhead.imp_right fun hall => hall t ht, h.apart⟩
  maximal := by
    intro i run q hi
    cases i with
    | zero =>
      obtain rfl : token = .text run := by simpa using congrArg (Option.map (·.token)) hi
      have hcs : Stops cs := hstops.resolve_left (by simp [Token.isBracket])
      simpa [← h.text] using hcs
    | succ i => exact h.maximal i run q (by simpa using hi)

end Tiles

/-- What starts with a bracket or is empty starts with no text. -/
theorem Lexes.head_isBracket {p : Nat} {cs : List Char} {ts : List PlacedToken}
    {f : Option TemplateError} (h : Lexes p cs ts f) (hstops : Stops cs) :
    ∀ t ∈ ts.head?, t.token.isBracket = true := by
  cases h with
  | @text _ run _ _ _ hrun hne _ _ =>
    cases run with
    | nil => exact absurd rfl hne
    | cons c run =>
      obtain ⟨hopening, hclosing⟩ := hrun.head_ne
      exact ((hstops c rfl).elim hopening hclosing).elim
  | closing _ => simp [Token.isBracket]
  | opening _ _ _ => simp [Token.isBracket]
  | done | noIndex _ | overflow _ _ | dangling _ => simp

/-- The tokens that a text holds tile it up to the place where they end. -/
theorem Lexes.tiles {p : Nat} {cs : List Char} {ts : List PlacedToken} {f : Option TemplateError}
    (h : Lexes p cs ts f) :
    ∃ lexemes rest, Tiles p cs ts lexemes rest ∧ Lexes (p + byteSize lexemes.flatten) rest [] f := by
  induction h with
  | done => exact ⟨[], [], .nil _ [], .done⟩
  | @closing p cs ts f _ ih =>
    obtain ⟨lexemes, rest, htiles, hrest⟩ := ih
    refine ⟨[']'] :: lexemes, rest, .cons .closing (.inl rfl) (.inl rfl) htiles, ?_⟩
    simpa [Nat.add_assoc, show ']'.utf8Size = 1 from rfl] using hrest
  | @opening p digits cs ts f hdigits hvalue _ ih =>
    obtain ⟨lexemes, rest, htiles, hrest⟩ := ih
    have hsize : p + byteSize digits + 2 = p + byteSize ('[' :: digits ++ [':']) := by
      rw [byteSize_opening, byteSize_nil, Nat.add_zero, Nat.add_assoc]
    rw [hsize] at htiles hrest
    refine ⟨('[' :: digits ++ [':']) :: lexemes, rest, ?_, by simpa [Nat.add_assoc] using hrest⟩
    simpa using htiles.cons (.opening hdigits hvalue) (.inl rfl) (.inl rfl)
  | @text p run cs ts f hrun hne hstops h ih =>
    obtain ⟨lexemes, rest, htiles, hrest⟩ := ih
    have hhead := h.head_isBracket hstops
    refine ⟨run :: lexemes, rest, htiles.cons (.text hrun hne) (.inr hstops) (.inr hhead), ?_⟩
    simpa [Nat.add_assoc] using hrest
  | noIndex hno => exact ⟨[], _, .nil _ _, .noIndex hno⟩
  | overflow hdigits hvalue => exact ⟨[], _, .nil _ _, .overflow hdigits hvalue⟩
  | dangling hrun => exact ⟨[], _, .nil _ _, .dangling hrun⟩

/-! ## What a tiling tells -/

/-- A start is the size of what stands before it. -/
theorem exists_of_mem_starts {p q : Nat} {lexemes : List (List Char)} (h : q ∈ starts p lexemes) :
    ∃ front back, lexemes.flatten = front ++ back ∧ q = p + byteSize front := by
  induction lexemes generalizing p with
  | nil => simp [starts] at h
  | cons lexeme lexemes ih =>
    obtain rfl | h := List.mem_cons.1 h
    · exact ⟨[], _, rfl, rfl⟩
    · obtain ⟨front, back, hflat, rfl⟩ := ih h
      exact ⟨lexeme ++ front, back, by simp [hflat], by simp [Nat.add_assoc]⟩

theorem byteSize_pos {cs : List Char} (h : cs ≠ []) : 0 < byteSize cs :=
  Nat.lt_of_lt_of_le (List.length_pos_iff.2 h) (length_le_byteSize cs)

/-- Lexemes that are not empty start one after the other, and all before their end. -/
theorem starts_pairwise {lexemes : List (List Char)} (h : ∀ lexeme ∈ lexemes, lexeme ≠ [])
    (p : Nat) : (starts p lexemes ++ [p + byteSize lexemes.flatten]).Pairwise (· < ·) := by
  induction lexemes generalizing p with
  | nil => simp [starts]
  | cons lexeme lexemes ih =>
    obtain ⟨hne, hrest⟩ := List.forall_mem_cons.1 h
    have hpos := byteSize_pos hne
    have hafter := ih hrest (p + byteSize lexeme)
    rw [Nat.add_assoc, ← byteSize_append] at hafter
    refine List.pairwise_cons.2 ⟨fun q hq => ?_, hafter⟩
    obtain hq | hq := List.mem_append.1 hq
    · obtain ⟨front, -, -, rfl⟩ := exists_of_mem_starts hq
      omega
    · obtain rfl := List.mem_singleton.1 hq
      simp only [List.flatten_cons, byteSize_append]
      omega

/-- A text that is split in two has a character boundary between the parts. -/
theorem isValid_byteSize {template : String} {front back : List Char}
    (h : template.toList = front ++ back) :
    (⟨byteSize front⟩ : String.Pos.Raw).IsValid template := by
  refine String.Pos.Raw.isValid_iff_exists_append.2
    ⟨String.ofList front, String.ofList back, ?_, ?_⟩
  · rw [← String.ofList_append, ← h, String.ofList_toList]
  · exact String.Pos.Raw.ext (utf8ByteSize_ofList front).symm

theorem length_le_flatten {lexemes : List (List Char)} (h : ∀ lexeme ∈ lexemes, lexeme ≠ []) :
    lexemes.length ≤ lexemes.flatten.length := by
  induction lexemes with
  | nil => simp
  | cons lexeme lexemes ih =>
    obtain ⟨hne, hrest⟩ := List.forall_mem_cons.1 h
    have hpos := List.length_pos_iff.2 hne
    have := ih hrest
    simp only [List.length_cons, List.flatten_cons, List.length_append]
    omega

namespace Tiles

variable {p : Nat} {cs rest : List Char} {ts : List PlacedToken} {lexemes : List (List Char)}

theorem lexemes_ne_nil (h : Tiles p cs ts lexemes rest) : ∀ lexeme ∈ lexemes, lexeme ≠ [] := by
  intro lexeme hmem
  obtain ⟨i, hi, rfl⟩ := List.getElem_of_mem hmem
  exact ((List.forall₂_iff_get.1 h.covers).2 i (by simpa [h.covers.length_eq] using hi) hi).ne_nil

theorem length_eq (h : Tiles p cs ts lexemes rest) : ts.length = lexemes.length := by
  simpa using h.covers.length_eq

end Tiles

/-- Only the end of a text holds no token and no failure. -/
theorem Lexes.eq_nil_iff {p : Nat} {cs : List Char} {f : Option TemplateError}
    (h : Lexes p cs [] f) : f = none ↔ cs = [] := by
  cases h <;> simp

/-! ## One token at a time -/

/-- The longest text run at the start of a text, and what is left behind it. A backslash at the end
of the text is left. -/
def splitRun : List Char → List Char × List Char
  | [] => ([], [])
  | ['\\'] => ([], ['\\'])
  | '\\' :: c :: cs => ('\\' :: c :: (splitRun cs).1, (splitRun cs).2)
  | c :: cs => if c = '[' ∨ c = ']' then ([], c :: cs) else (c :: (splitRun cs).1, (splitRun cs).2)

/-- A tokenizer that cuts tokens off on request: the text that is left, the byte position at which
it starts, and whether a failure has been yielded. -/
structure TokenStream where
  rest     : List Char
  position : Nat := 0
  failed   : Bool := false

namespace TokenStream

/-- Cut off the text run that `cs` starts with, at byte `p`. -/
def cutRun (p : Nat) (cs : List Char) : Except TemplateError (Token × TokenStream) :=
  match splitRun cs with
  | (run, ['\\']) => .error (.malformed .danglingEscape (p + byteSize run))
  | (run, rest) => .ok (.text (String.ofList run), ⟨rest, p + byteSize run, false⟩)

/-- Cut off the numeral and the colon that `cs` starts with, behind the `[` at byte `p`. -/
def cutIndex (p : Nat) (cs : List Char) : Except TemplateError (Token × TokenStream) :=
  match cs.takeWhile Char.isDigit, cs.dropWhile Char.isDigit with
  | d :: digits, ':' :: rest =>
    if value (d :: digits) ≤ nat64Max then
      .ok (.opening (value (d :: digits)), ⟨rest, p + byteSize (d :: digits) + 2, false⟩)
    else .error (.malformed .elementIndexOverflow p)
  | _, _ => .error (.malformed .expectedElementIndex p)

/-- Cut off the token that starts with `c` at byte `p`. -/
def cut (p : Nat) (c : Char) (cs : List Char) : Except TemplateError (Token × TokenStream) :=
  if c = '[' then cutIndex p cs
  else if c = ']' then .ok (.closing, ⟨cs, p + 1, false⟩)
  else cutRun p (c :: cs)

/-- What the stream yields when it is asked, if anything, and the stream afterwards. -/
def next (stream : TokenStream) : Option (Except TemplateError PlacedToken) × TokenStream :=
  if stream.failed then (none, stream)
  else
    match stream.rest with
    | [] => (none, stream)
    | c :: cs =>
      match cut stream.position c cs with
      | .ok (token, after) => (some (.ok ⟨token, stream.position⟩), after)
      | .error failure => (some (.error failure), { stream with failed := true })

/-- What the stream yields when it is asked once more after `n` times. -/
def yields (stream : TokenStream) : Nat → Option (Except TemplateError PlacedToken)
  | 0 => stream.next.1
  | n + 1 => stream.next.2.yields n

end TokenStream

/-- The tokens one by one, and the failure behind them. -/
def Tokens.items (tokens : Tokens) : List (Except TemplateError PlacedToken) :=
  tokens.tokens.map .ok ++ tokens.failure.toList.map .error

theorem splitRun_append {run cs : List Char} (hrun : RunText run)
    (hcs : Stops cs ∨ cs = ['\\']) : splitRun (run ++ cs) = (run, cs) := by
  induction hrun with
  | nil =>
    obtain hstops | rfl := hcs
    · cases cs with
      | nil => rfl
      | cons c cs =>
        obtain rfl | rfl := hstops c rfl <;> simp [splitRun]
    · rfl
  | @plain c run hc _ ih =>
    obtain ⟨hopening, hclosing, hslash⟩ := isReserved_eq_false.1 hc
    simp [splitRun, hopening, hclosing, hslash, ih]
  | pair _ ih => simp [splitRun, ih]

namespace TokenStream

variable {p : Nat} {cs : List Char}

theorem cutRun_append {run : List Char} (hrun : RunText run) (hcs : Stops cs) :
    cutRun p (run ++ cs) = .ok (.text (String.ofList run), ⟨cs, p + byteSize run, false⟩) := by
  rw [cutRun, splitRun_append hrun (.inl hcs)]
  split
  · rename_i heq
    obtain ⟨-, rfl⟩ := Prod.mk.inj heq
    simp [Stops] at hcs
  · rename_i heq
    obtain ⟨rfl, rfl⟩ := Prod.mk.inj heq
    rfl

theorem cutRun_dangling {run : List Char} (hrun : RunText run) :
    cutRun p (run ++ ['\\']) = .error (.malformed .danglingEscape (p + byteSize run)) := by
  rw [cutRun, splitRun_append hrun (.inr rfl)]
  rfl

theorem cutIndex_numeral {digits : List Char} (hdigits : isNumeral digits = true) :
    cutIndex p (digits ++ ':' :: cs) =
      if value digits ≤ nat64Max then
        .ok (.opening (value digits), ⟨cs, p + byteSize digits + 2, false⟩)
      else .error (.malformed .elementIndexOverflow p) := by
  obtain ⟨hne, hall⟩ := isNumeral_iff.1 hdigits
  obtain ⟨d, digits, rfl⟩ := List.exists_cons_of_ne_nil hne
  have hcolon : Char.isDigit ':' = false := by decide
  have htake : (d :: digits ++ ':' :: cs).takeWhile Char.isDigit = d :: digits := by
    rw [List.takeWhile_append_of_pos hall, List.takeWhile_cons_of_neg (by simp [hcolon]),
      List.append_nil]
  have hdrop : (d :: digits ++ ':' :: cs).dropWhile Char.isDigit = ':' :: cs := by
    rw [List.dropWhile_append_of_pos hall, List.dropWhile_cons_of_neg (by simp [hcolon])]
  rw [cutIndex, htake, hdrop]
  rfl

theorem cutIndex_noIndex
    (h : ∀ digits rest, isNumeral digits = true → cs ≠ digits ++ ':' :: rest) :
    cutIndex p cs = .error (.malformed .expectedElementIndex p) := by
  rw [cutIndex]
  split
  · rename_i d digits rest htake hdrop
    have hnumeral : isNumeral (d :: digits) = true := by
      rw [← htake, isNumeral, List.all_takeWhile, htake]
      rfl
    refine absurd ?_ (h (d :: digits) rest hnumeral)
    rw [← htake, ← hdrop, List.takeWhile_append_dropWhile]
  · rfl

/-- A raw bracket starts no run, and all else does. -/
theorem cut_run {run : List Char} (hrun : RunText run) (hne : run ≠ []) :
    ∃ c run', run = c :: run' ∧ ∀ cs, cut p c (run' ++ cs) = cutRun p (run ++ cs) := by
  obtain ⟨c, run, rfl⟩ := List.exists_cons_of_ne_nil hne
  obtain ⟨hopening, hclosing⟩ := hrun.head_ne
  exact ⟨c, run, rfl, fun cs => by rw [cut, if_neg hopening, if_neg hclosing, List.cons_append]⟩

/-- A stream that yields nothing and stays as it is never yields anything. -/
theorem yields_of_next_none {stream : TokenStream} (h : stream.next = (none, stream)) (n : Nat) :
    stream.yields n = none := by
  induction n with
  | zero => rw [yields, h]
  | succ n ih => rw [yields, h, ih]

section
variable {c : Char} {token : Token} {after : TokenStream} {failure : TemplateError}

/-- A token that can be cut off is yielded, and then what is left yields. -/
theorem yields_of_cut_ok (h : cut p c cs = .ok (token, after))
    {items : List (Except TemplateError PlacedToken)} (hafter : ∀ n, after.yields n = items[n]?)
    (n : Nat) : yields ⟨c :: cs, p, false⟩ n = (.ok ⟨token, p⟩ :: items)[n]? := by
  have hnext : next ⟨c :: cs, p, false⟩ = (some (.ok ⟨token, p⟩), after) := by simp [next, h]
  cases n with
  | zero => simp [yields, hnext]
  | succ n => simp [yields, hnext, hafter]

/-- A failure is yielded once. -/
theorem yields_of_cut_error (h : cut p c cs = .error failure) (n : Nat) :
    yields ⟨c :: cs, p, false⟩ n = [.error failure][n]? := by
  have hnext : next ⟨c :: cs, p, false⟩ = (some (.error failure), ⟨c :: cs, p, true⟩) := by
    simp [next, h]
  cases n with
  | zero => simp [yields, hnext]
  | succ n =>
    have hfailed : next ⟨c :: cs, p, true⟩ = (none, ⟨c :: cs, p, true⟩) := by simp [next]
    simp [yields, hnext, yields_of_next_none hfailed]

end

/-- The stream yields what the text holds, one item for each request, and then nothing. -/
theorem yields_lexes {ts : List PlacedToken} {f : Option TemplateError} (h : Lexes p cs ts f)
    (n : Nat) : yields ⟨cs, p, false⟩ n = (Tokens.items ⟨ts, f⟩)[n]? := by
  induction h generalizing n with
  | done => exact yields_of_next_none rfl n
  | closing _ ih => exact yields_of_cut_ok rfl ih n
  | opening hdigits hvalue _ ih =>
    refine yields_of_cut_ok ?_ ih n
    exact (cutIndex_numeral hdigits).trans (if_pos hvalue)
  | @text p run cs ts f hrun hne hstops _ ih =>
    obtain ⟨c, run', rfl, hcut⟩ := cut_run hrun hne
    exact yields_of_cut_ok ((hcut cs).trans (cutRun_append hrun hstops)) ih n
  | noIndex hno =>
    refine yields_of_cut_error ?_ n
    exact cutIndex_noIndex hno
  | overflow hdigits hvalue =>
    refine yields_of_cut_error ?_ n
    exact (cutIndex_numeral hdigits).trans (if_neg (Nat.not_le.2 hvalue))
  | @dangling p run hrun =>
    by_cases hne : run = []
    · subst hne
      refine yields_of_cut_error ?_ n
      exact cutRun_dangling hrun
    · obtain ⟨c, run', rfl, hcut⟩ := cut_run hrun hne
      exact yields_of_cut_error ((hcut ['\\']).trans (cutRun_dangling hrun)) n

end TokenStream

/-- The tokenizer tiles a template. Its tokens cover lexemes that stand one behind the other at the
start of the text: a run that is not empty, stops only at a bracket or at the end and has only whole
escapes; an opening with a numeral of its index; a closing. No text run is next to another. Tokens
start at character boundaries, each behind the start of the one before. If no failure is found,
nothing is left behind them, and otherwise the malformed token starts there. Asked for one token
at a time, the tokenizer yields these tokens, then the failure, and then nothing, so at most one
item for each character. -/
theorem tokenize_tiles (template : String) :
    (∃ lexemes rest,
      Tiles 0 template.toList (tokenize template).tokens lexemes rest ∧
      ((tokenize template).failure = none ↔ rest = []) ∧
      Lexes (byteSize lexemes.flatten) rest [] (tokenize template).failure ∧
      (starts 0 lexemes ++ [byteSize lexemes.flatten]).Pairwise (· < ·) ∧
      ∀ p ∈ starts 0 lexemes ++ [byteSize lexemes.flatten],
        (⟨p⟩ : String.Pos.Raw).IsValid template) ∧
    (tokenize template).items.length ≤ template.length ∧
    ∀ n, TokenStream.yields ⟨template.toList, 0, false⟩ n = (tokenize template).items[n]? := by
  cases htokens : tokenize template with
  | mk ts f =>
    have hlexes := lexes_iff.2 htokens
    obtain ⟨lexemes, rest, htiles, hrest⟩ := hlexes.tiles
    rw [Nat.zero_add] at hrest
    have hne := htiles.lexemes_ne_nil
    refine ⟨⟨lexemes, rest, htiles, hrest.eq_nil_iff, hrest, ?_, ?_⟩, ?_, TokenStream.yields_lexes hlexes⟩
    · simpa using starts_pairwise hne 0
    · intro p hp
      obtain hp | hp := List.mem_append.1 hp
      · obtain ⟨front, back, hflat, rfl⟩ := exists_of_mem_starts hp
        have hsplit : template.toList = front ++ (back ++ rest) := by
          rw [htiles.text, hflat, List.append_assoc]
        rw [Nat.zero_add]
        exact isValid_byteSize hsplit
      · obtain rfl := List.mem_singleton.1 hp
        exact isValid_byteSize htiles.text
    · have hlexemes := length_le_flatten hne
      have hlast : f.toList.length ≤ rest.length := by
        cases f with
        | none => simp
        | some failure =>
          have : rest ≠ [] := fun hnil => by simpa using hrest.eq_nil_iff.2 hnil
          exact List.length_pos_iff.2 this
      have hlength : template.length = lexemes.flatten.length + rest.length := by
        rw [← String.length_toList, htiles.text, List.length_append]
      simp only [Tokens.items, List.length_append, List.length_map, htiles.length_eq]
      omega

end Phrasebook.Template
