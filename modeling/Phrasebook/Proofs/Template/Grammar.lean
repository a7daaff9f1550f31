-- SUMMARY: The grammar of templates, and the parser as exactly its decision procedure.
import Phrasebook.Proofs.Template.Building
import Phrasebook.Proofs.Template.Lexing
import Phrasebook.Proofs.Text.Numeral

/-!
# The grammar of templates

`Derives` is the grammar: a template is a sequence of text runs and slots, a slot being a numeral
and a sequence of the same kind in brackets. A derivation and the pieces it yields are read off the
tokens (`derives_of_lexes`) and give them back (`Derives.lexes`), so that `parse` accepts what the
grammar derives within the limits on size and depth, and nothing else (`parse_eq_ok_iff`).
-/
namespace Phrasebook.Template

open Text.Numeral

/-! ## The grammar -/

/-- The pieces that a text derives. A run is as long as it can be, and a slot's numeral, perhaps
with leading zeros, stands for a positive 64-bit number. -/
inductive Derives : List Char → List Piece → Prop where
  | nil : Derives [] []
  | run {run cs : List Char} {ps : List Piece} :
      RunText run → run ≠ [] → Stops cs → Derives cs ps →
      Derives (run ++ cs) (.text (String.ofList run) :: ps)
  | slot {digits inner cs : List Char} {ps qs : List Piece} :
      isNumeral digits = true → value digits ≠ rootIndex → value digits ≤ nat64Max →
      Derives inner ps → Derives cs qs →
      Derives ('[' :: digits ++ ':' :: inner ++ ']' :: cs) (.slot (value digits) ps :: qs)

/-! ## Derivations and tokens -/

/-- Tokens of pieces, found in front of others, are found in a text that derives the pieces. -/
theorem derives_of_lexes {ps : List Piece} {p : Nat} {cs : List Char} {ts : List PlacedToken}
    {us : List Token} {f : Option TemplateError} (h : Lexes p cs ts f)
    (hts : ts.map (·.token) = Piece.tokensAll ps ++ us)
    (hindices : ∀ i ∈ Piece.indicesAll ps, i ≠ rootIndex) :
    ∃ cs₁ cs₂ q ts₂, cs = cs₁ ++ cs₂ ∧ Derives cs₁ ps ∧ Lexes q cs₂ ts₂ f ∧
      ts₂.map (·.token) = us := by
  induction ps using Piece.inductionAll generalizing p cs ts us with
  | nil => exact ⟨[], cs, p, ts, rfl, .nil, h, hts⟩
  | text run ps ih =>
    simp only [Piece.tokensAll, Piece.tokens, List.cons_append, List.nil_append] at hts
    obtain ⟨placed, ts, rfl, htoken, htail⟩ := List.map_eq_cons_iff.1 hts
    cases h with
    | closing _ => cases htoken
    | opening _ _ _ => cases htoken
    | @text _ chars cs _ _ hrun hne hstops h =>
      obtain rfl := Token.text.inj htoken
      obtain ⟨cs₁, cs₂, q, ts₂, rfl, hderives, hrest⟩ :=
        ih h htail (by simpa [Piece.indicesAll, Piece.indices] using hindices)
      exact ⟨chars ++ cs₁, cs₂, q, ts₂, by simp, .run hrun hne hstops.of_append hderives, hrest⟩
  | slot index inner ps ihInner ih =>
    simp only [Piece.tokensAll, Piece.tokens, List.cons_append, List.nil_append,
      List.append_assoc] at hts
    obtain ⟨placed, ts, rfl, htoken, htail⟩ := List.map_eq_cons_iff.1 hts
    simp only [Piece.indicesAll, Piece.indices, List.cons_append, List.forall_mem_cons,
      List.forall_mem_append] at hindices
    obtain ⟨hindex, hinner, hafter⟩ := hindices
    cases h with
    | text _ _ _ _ => cases htoken
    | closing _ => cases htoken
    | @opening _ digits cs _ _ hdigits hvalue h =>
      obtain rfl := Token.opening.inj htoken
      obtain ⟨cs₁, cs₂, q, ts₂, rfl, hinside, h, hclosed⟩ := ihInner h htail hinner
      obtain ⟨last, ts, rfl, hclose, hbehind⟩ := List.map_eq_cons_iff.1 hclosed
      cases h with
      | text _ _ _ _ => cases hclose
      | opening _ _ _ => cases hclose
      | @closing _ cs _ _ h =>
        obtain ⟨cs₃, cs₄, q, ts₂, rfl, hderives, hrest⟩ := ih h hbehind hafter
        exact ⟨_, cs₄, q, ts₂, by simp, .slot hdigits hindex hvalue hinside hderives, hrest⟩

namespace Derives

variable {cs : List Char} {ps : List Piece}

/-- A text that derives pieces holds their tokens, in front of any text that ends its runs. -/
theorem lexes (h : Derives cs ps) : ∀ {p : Nat} {rest : List Char} {ts : List PlacedToken}
    {f : Option TemplateError}, Stops rest → Lexes (p + byteSize cs) rest ts f →
    ∃ us, us.map (·.token) = Piece.tokensAll ps ∧ Lexes p (cs ++ rest) (us ++ ts) f := by
  induction h with
  | nil =>
    intro p rest ts f _ hrest
    exact ⟨[], rfl, hrest⟩
  | @run chars cs ps hrun hne hstops _ ih =>
    intro p rest ts f hrestStops hrest
    obtain ⟨us, hus, hlexes⟩ := ih (p := p + byteSize chars) hrestStops
      (by simpa [Nat.add_assoc] using hrest)
    refine ⟨⟨.text (String.ofList chars), p⟩ :: us, by simp [hus, Piece.tokensAll, Piece.tokens], ?_⟩
    simpa using Lexes.text hrun hne (hstops.append hrestStops) hlexes
  | @slot digits inner cs ps qs hdigits _ hvalue _ _ ihInner ihAfter =>
    intro p rest ts f hrestStops hrest
    have hsize : p + byteSize ('[' :: digits ++ ':' :: inner ++ ']' :: cs) =
        p + byteSize digits + 2 + byteSize inner + 1 + byteSize cs := by
      rw [byteSize_append, byteSize_opening, byteSize_cons, show ']'.utf8Size = 1 from rfl]
      omega
    rw [hsize] at hrest
    obtain ⟨us, hus, hbehind⟩ := ihAfter hrestStops hrest
    obtain ⟨vs, hvs, hinside⟩ := ihInner (.closing _) (.closing hbehind)
    refine ⟨⟨.opening (value digits), p⟩ :: vs ++
        ⟨.closing, p + byteSize digits + 2 + byteSize inner⟩ :: us,
      by simp [hus, hvs, Piece.tokensAll, Piece.tokens], ?_⟩
    simpa using Lexes.opening hdigits hvalue hinside

/-- The tokenizer finds in a text the tokens of the pieces that the text derives. -/
theorem tokenize_eq {template : String} (h : Derives template.toList ps) :
    ∃ ts, ts.map (·.token) = Piece.tokensAll ps ∧ tokenize template = ⟨ts, none⟩ := by
  obtain ⟨ts, hts, hlexes⟩ := h.lexes (p := 0) .nil .done
  exact ⟨ts, hts, lexes_iff.1 (by simpa using hlexes)⟩

/-- The grammar is unambiguous. -/
theorem unique {qs : List Piece} (h : Derives cs ps) (h' : Derives cs qs) : ps = qs := by
  rw [← String.toList_ofList (l := cs)] at h h'
  obtain ⟨ts, hts, hps⟩ := h.tokenize_eq
  obtain ⟨us, hus, hqs⟩ := h'.tokenize_eq
  obtain ⟨rfl, -⟩ := Tokens.mk.inj (hps.symm.trans hqs)
  exact Piece.tokensAll_inj (hts.symm.trans hus)

/-- No slot inside a derived text is the root. -/
theorem indices_ne (h : Derives cs ps) : ∀ i ∈ Piece.indicesAll ps, i ≠ rootIndex := by
  induction h with
  | nil => simp [Piece.indicesAll]
  | run _ _ _ _ ih => simpa [Piece.indicesAll, Piece.indices] using ih
  | slot _ hindex _ _ _ ihInner ihAfter =>
    simp only [Piece.indicesAll, Piece.indices, List.cons_append, List.forall_mem_cons,
      List.forall_mem_append]
    exact ⟨hindex, ihInner, ihAfter⟩

end Derives

/-! ## The parser -/

theorem Builder.finish_addAll (ps : List Piece) :
    (({} : Builder).addAll ps).finish = .ok ⟨rootIndex, ps⟩ := by
  simp [Builder.finish]

/-- The tokens of an accepted sequence, found in a text, derive the text. -/
theorem Tokens.build_eq_ok {template : String} {tree : Tree}
    (h : (tokenize template).build = .ok tree) :
    tree.index = rootIndex ∧ Derives template.toList tree.pieces ∧
      Piece.depthAll tree.pieces ≤ maxDepth := by
  cases htokens : tokenize template with
  | mk ts f =>
    rw [htokens, Tokens.build] at h
    cases hrun : ({} : Builder).run ts with
    | error failure => simp [hrun, bind, Except.bind] at h
    | ok last =>
      cases f with
      | some failure => simp [hrun, bind, Except.bind] at h
      | none =>
        have hfinish : last.finish = .ok tree := by simpa [hrun, bind, Except.bind] using h
        obtain ⟨hroot, htree, hindices, hdepth⟩ := Builder.run_finish hrun hfinish
        have hts : ts.map (·.token) = Piece.tokensAll tree.pieces ++ [] := by simpa using htree
        obtain ⟨cs₁, cs₂, q, ts₂, hcs, hderives, hrest, hts₂⟩ :=
          derives_of_lexes (lexes_iff.2 htokens) hts hindices
        obtain rfl : ts₂ = [] := by simpa using hts₂
        cases hrest
        exact ⟨hroot, by simpa [hcs] using hderives, hdepth⟩

/-- Reading succeeds with exactly the pieces that the text derives, within the limits. -/
theorem parse_eq_ok_iff {template : String} {tree : Tree} :
    parse template = .ok tree ↔
      template.utf8ByteSize ≤ maxBytes ∧ tree.index = rootIndex ∧
        Derives template.toList tree.pieces ∧ Piece.depthAll tree.pieces ≤ maxDepth := by
  constructor
  · intro h
    unfold parse at h
    split at h
    · cases h
    rename_i hsize
    exact ⟨Nat.not_lt.1 hsize, Tokens.build_eq_ok h⟩
  · rintro ⟨hsize, hroot, hderives, hdepth⟩
    obtain ⟨ts, hts, htokens⟩ := hderives.tokenize_eq
    have hrun := Builder.run_tokensAll {} hts hderives.indices_ne
      (by simpa [Builder.depth] using hdepth)
    obtain ⟨index, pieces⟩ := tree
    obtain rfl : index = rootIndex := hroot
    simp only [parse, if_neg (Nat.not_lt.2 hsize), htokens, Tokens.build, hrun]
    exact Builder.finish_addAll pieces

/-! ## The shape of a tree that was read -/

/-- Pieces as reading leaves them: every text is a run that is not empty, and behind a text there
is no other text. -/
inductive Piece.Normal : List Piece → Prop where
  | nil : Normal []
  | text {run : String} {ps : List Piece} :
      RunText run.toList → run ≠ "" → (∀ run' qs, ps ≠ .text run' :: qs) → Normal ps →
      Normal (.text run :: ps)
  | slot {index : Nat} {inner ps : List Piece} :
      Normal inner → Normal ps → Normal (.slot index inner :: ps)

/-- A template without the zeros in front of its slot indices. `behind` says that an index may
start here. An escaped bracket starts none. -/
def withoutZeros (behind : Bool) : List Char → List Char
  | '\\' :: d :: cs => '\\' :: d :: withoutZeros false cs
  | c :: cs =>
    if behind && c == '0' then withoutZeros true cs else c :: withoutZeros (c == '[') cs
  | [] => []

theorem withoutZeros_cons {behind : Bool} {c : Char} (hc : c ≠ '\\') (cs : List Char) :
    withoutZeros behind (c :: cs) =
      if behind && c == '0' then withoutZeros true cs else c :: withoutZeros (c == '[') cs := by
  rw [withoutZeros]
  rintro d cs rfl
  exact absurd rfl hc

theorem withoutZeros_run {run rest : List Char} (h : RunText run) :
    withoutZeros false (run ++ rest) = run ++ withoutZeros false rest := by
  induction h with
  | nil => rfl
  | plain hc _ ih =>
    obtain ⟨hopening, -, hslash⟩ := isReserved_eq_false.1 hc
    simp [withoutZeros_cons hslash, beq_false_of_ne hopening, ih]
  | pair _ ih => simp [withoutZeros, ih]

theorem RunText.of_digits {digits : List Char} (h : ∀ d ∈ digits, d.isDigit = true) :
    RunText digits := by
  induction digits with
  | nil => exact .nil
  | cons d digits ih =>
    obtain ⟨hd, hrest⟩ := List.forall_mem_cons.1 h
    refine .plain (isReserved_eq_false.2 ⟨?_, ?_, ?_⟩) (ih hrest) <;> rintro rfl <;> simp at hd

theorem withoutZeros_digits {digits rest : List Char} (h : ∀ d ∈ digits, d.isDigit = true) :
    withoutZeros true (digits ++ ':' :: rest) =
      digits.dropWhile (· == '0') ++ ':' :: withoutZeros false rest := by
  have hcolon : ∀ behind, withoutZeros behind (':' :: rest) = ':' :: withoutZeros false rest :=
    fun behind => by simp [withoutZeros_cons (show ':' ≠ '\\' by decide)]
  induction digits with
  | nil => exact hcolon true
  | cons d digits ih =>
    obtain ⟨hd, hrest⟩ := List.forall_mem_cons.1 h
    have hslash : d ≠ '\\' := by rintro rfl; simp at hd
    have hopening : d ≠ '[' := by rintro rfl; simp at hd
    rw [List.cons_append, withoutZeros_cons hslash]
    by_cases hzero : d = '0'
    · subst hzero
      simpa using ih hrest
    · simp [hzero, beq_false_of_ne hopening, withoutZeros_run (RunText.of_digits hrest), hcolon]

namespace Derives

variable {cs : List Char} {ps : List Piece}

/-- Behind a run no text is derived, since the run was as long as it can be. -/
theorem not_text (h : Derives cs ps) (hstops : Stops cs) (run : String) (qs : List Piece) :
    ps ≠ .text run :: qs := by
  rintro rfl
  cases h with
  | @run chars _ _ hrun hne _ _ =>
    cases chars with
    | nil => exact hne rfl
    | cons c chars =>
      obtain ⟨hopening, hclosing⟩ := hrun.head_ne
      exact (hstops c rfl).elim hopening hclosing

theorem normal (h : Derives cs ps) : Piece.Normal ps := by
  induction h with
  | nil => exact .nil
  | run hrun hne hstops hrest ih =>
    exact .text (by simpa using hrun) (by simpa using hne) (hrest.not_text hstops) ih
  | slot _ _ _ _ _ ihInner ihAfter => exact .slot ihInner ihAfter

theorem indices_le (h : Derives cs ps) : ∀ i ∈ Piece.indicesAll ps, i ≤ nat64Max := by
  induction h with
  | nil => simp [Piece.indicesAll]
  | run _ _ _ _ ih => simpa [Piece.indicesAll, Piece.indices] using ih
  | slot _ _ hvalue _ _ ihInner ihAfter =>
    simp only [Piece.indicesAll, Piece.indices, List.cons_append, List.forall_mem_cons,
      List.forall_mem_append]
    exact ⟨hvalue, ihInner, ihAfter⟩

/-- Written out again, the pieces give the text back, but for leading zeros. -/
theorem withoutZeros_append (h : Derives cs ps) : ∀ rest : List Char,
    withoutZeros false (cs ++ rest) = (Piece.printAll ps).toList ++ withoutZeros false rest := by
  induction h with
  | nil => intro rest; rfl
  | run hrun _ _ _ ih =>
    intro rest
    simp [withoutZeros_run hrun, ih, Piece.printAll, Piece.print]
  | @slot digits inner cs ps qs hdigits hindex _ _ _ ihInner ihAfter =>
    intro rest
    have hall := (isNumeral_iff.1 hdigits).2
    have hclose : ∀ cs, withoutZeros false (']' :: cs) = ']' :: withoutZeros false cs :=
      withoutZeros_cons (by decide)
    have hopen : ∀ cs, withoutZeros false ('[' :: cs) = '[' :: withoutZeros true cs :=
      withoutZeros_cons (by decide)
    simp only [List.cons_append, List.append_assoc, hopen, withoutZeros_digits hall, ihInner,
      hclose, ihAfter, Piece.printAll, Piece.print, String.toList_append,
      toString_value hall hindex]
    simp

end Derives

/-- Reading is exact: it accepts the texts of at most 64 KiB that the grammar derives with at most
64 slots around each other, and gives the one tree that the grammar derives. -/
theorem parse_decides_grammar (template : String) :
    ((∃ tree, parse template = .ok tree) ↔
      template.utf8ByteSize ≤ 65536 ∧
        ∃ ps, Derives template.toList ps ∧ Piece.depthAll ps ≤ 64) ∧
    ∀ tree, parse template = .ok tree →
      tree.index = 0 ∧
      (∀ ps, Derives template.toList ps ↔ ps = tree.pieces) ∧
      (∀ i ∈ Piece.indicesAll tree.pieces, 1 ≤ i ∧ i ≤ nat64Max) ∧
      Piece.Normal tree.pieces ∧
      tree.print.toList = withoutZeros false template.toList := by
  refine ⟨⟨?_, ?_⟩, ?_⟩
  · rintro ⟨tree, h⟩
    obtain ⟨hsize, -, hderives, hdepth⟩ := parse_eq_ok_iff.1 h
    exact ⟨hsize, tree.pieces, hderives, hdepth⟩
  · rintro ⟨hsize, ps, hderives, hdepth⟩
    exact ⟨⟨rootIndex, ps⟩, parse_eq_ok_iff.2 ⟨hsize, rfl, hderives, hdepth⟩⟩
  · intro tree h
    obtain ⟨-, hroot, hderives, -⟩ := parse_eq_ok_iff.1 h
    refine ⟨hroot, fun ps => ⟨fun h' => h'.unique hderives, fun heq => heq ▸ hderives⟩, ?_,
      hderives.normal, ?_⟩
    · intro i hi
      exact ⟨Nat.one_le_iff_ne_zero.2 (hderives.indices_ne i hi), hderives.indices_le i hi⟩
    · simpa [Tree.print, withoutZeros] using (hderives.withoutZeros_append []).symm

end Phrasebook.Template
