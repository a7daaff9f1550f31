-- SUMMARY: Where a rejected template is at fault: what stands before the reported byte, and what stands there.
import Phrasebook.Proofs.Template.Grammar
import Phrasebook.Proofs.Template.Tiling

/-!
# Blame

The tokenizer fails at one place and the tree builder at another, and what is reported is the
earlier one. A text is cut in front of the token or the character at fault (`Lexes.before_token`,
`Lexes.before_failure`), and the builder reads what stands before it. Such a text is `Completable`:
closings behind it would make it a template. `parse_error_blames` says this of every template that
is rejected, and names the character at fault.
-/
namespace Phrasebook.Template

open Text.Numeral

/-! ## Beginnings of templates -/

/-- A text that could still become a template: it is cut into tokens, which close no slot that is
not open, open no root and never nest too deep, and `depth` closings behind it make it a template. -/
structure Completable (front : List Char) (ts : List PlacedToken) (depth : Nat) : Prop where
  tokenizes  : tokenize (String.ofList front) = ⟨ts, none⟩
  closes     : Token.nesting 0 (ts.map (·.token)) = some depth
  shallow    : ∀ us vs, ts = us ++ vs →
    ∃ n, Token.nesting 0 (us.map (·.token)) = some n ∧ n ≤ maxDepth
  unreserved : ∀ i ∈ (ts.map (·.token)).flatMap Token.opened, i ≠ rootIndex
  completes  : ∃ ps, Derives (front ++ List.replicate depth ']') ps ∧ Piece.depthAll ps ≤ maxDepth

section
variable {front : List Char} {ts : List PlacedToken} {builder : Builder}

/-- A text whose tokens the builder reads is a template when its slots are closed. -/
theorem exists_derives_closed (hlexes : Lexes 0 front ts none)
    (hrun : ({} : Builder).run ts = .ok builder) :
    ∃ ps, Derives (front ++ List.replicate builder.depth ']') ps ∧
      Piece.depthAll ps ≤ maxDepth := by
  obtain ⟨us, hclosings, hus⟩ := Lexes.replicate_closing (0 + byteSize front) builder.depth
  obtain ⟨last, hlast, hroot⟩ := Builder.run_closings hus
  have hstops : Stops (List.replicate builder.depth ']') := by
    cases builder.depth <;> simp [List.replicate_succ]
  have htokens : tokenize (String.ofList (front ++ List.replicate builder.depth ']')) =
      ⟨ts ++ us, none⟩ := by
    apply lexes_iff.1
    rw [String.toList_ofList]
    exact hlexes.append hstops hclosings
  have hbuild : (tokenize (String.ofList (front ++ List.replicate builder.depth ']'))).build =
      .ok ⟨last.current.index, last.current.pieces.reverse⟩ := by
    rw [htokens, Tokens.build, Builder.run_append, hrun]
    simp only [hlast, bind, Except.bind, Builder.finish, hroot]
  obtain ⟨-, hderives, hdepth⟩ := Tokens.build_eq_ok hbuild
  rw [String.toList_ofList] at hderives
  exact ⟨_, hderives, hdepth⟩

/-- A text whose tokens the builder reads could still become a template. -/
theorem Completable.of_run (hlexes : Lexes 0 front ts none)
    (hrun : ({} : Builder).run ts = .ok builder) : Completable front ts builder.depth where
  tokenizes := by
    apply lexes_iff.1
    rwa [String.toList_ofList]
  closes := (Builder.run_nesting hrun (Nat.zero_le _)).2.2
  shallow := by
    rintro us vs rfl
    obtain ⟨middle, hus, -⟩ := Builder.run_front hrun
    obtain ⟨-, hroom, hcount⟩ := Builder.run_nesting hus (Nat.zero_le _)
    exact ⟨middle.depth, hcount, hroom⟩
  unreserved := (Builder.run_nesting hrun (Nat.zero_le _)).1
  completes := exists_derives_closed hlexes hrun

end

/-! ## The blame for a failure -/

/-- The byte that a failure points at. -/
def bytePosition? : TemplateError → Option Nat
  | .malformed _ position => some position
  | .tooDeep _ _ position => some position
  | _ => none

/-- The text starts with a numeral of the index and a colon. -/
def IndexAt (index : Nat) (cs : List Char) : Prop :=
  ∃ digits rest, isNumeral digits = true ∧ value digits = index ∧ cs = digits ++ ':' :: rest

/-- The template is cut into tokens to its end, and the slot opened at byte `p` is the innermost one
that is open there: all that is opened behind it is closed, and nothing else. -/
def LeftOpen (template : String) (p : Nat) : Prop :=
  (tokenize template).failure = none ∧ ∃ ts index us,
    (tokenize template).tokens = ts ++ ⟨.opening index, p⟩ :: us ∧
      Token.nesting 0 (us.map (·.token)) = some 0

/-- The character `c`, in front of `back` and inside `depth` open slots, is what a failure to read
the template is about. -/
def Blames (template : String) (depth : Nat) (c : Char) (back : List Char) : TemplateError → Prop
  | .malformed .expectedElementIndex _ => c = '[' ∧ ∀ index, ¬ IndexAt index back
  | .malformed .elementIndexOverflow _ => c = '[' ∧ ∃ index, IndexAt index back ∧ nat64Max < index
  | .malformed .reservedElementIndex _ => c = '[' ∧ IndexAt rootIndex back
  | .malformed .danglingEscape _ => c = '\\' ∧ back = []
  | .malformed .unmatchedElements p =>
    (c = ']' ∧ depth = 0) ∨ (c = '[' ∧ LeftOpen template p)
  | .tooDeep limit found _ =>
    c = '[' ∧ (∃ index, IndexAt index back) ∧ depth = limit ∧ found = depth + 1 ∧ limit = maxDepth
  | _ => False

/-- A failure of the tokenizer points at the character at fault, and the tokens of the text in front
of it are those found before, perhaps with the run in which the fault was met. -/
theorem Lexes.before_failure {p : Nat} {cs : List Char} {ts : List PlacedToken}
    {failure : TemplateError} (h : Lexes p cs ts (some failure)) :
    ∃ front c back us, cs = front ++ c :: back ∧
      bytePosition? failure = some (p + byteSize front) ∧ Lexes p front (ts ++ us) none ∧
      (us = [] ∨ ∃ run q, us = [⟨.text run, q⟩]) ∧
      ∀ template depth, Blames template depth c back failure := by
  rw [← List.append_nil ts] at h
  obtain ⟨front, rest, rfl, hrest, hfront⟩ := h.split
  have hbefore : Lexes p front (ts ++ []) none := by
    simpa using hfront (fun _ => .nil) .done
  cases hrest with
  | @noIndex _ back hno =>
    refine ⟨front, '[', back, [], rfl, rfl, hbefore, .inl rfl, ?_⟩
    intro template depth
    refine ⟨rfl, ?_⟩
    rintro index ⟨digits, rest, hdigits, -, hback⟩
    exact hno digits rest hdigits hback
  | @overflow _ digits rest hdigits hvalue =>
    refine ⟨front, '[', digits ++ ':' :: rest, [], by simp, rfl, hbefore, .inl rfl, ?_⟩
    intro template depth
    exact ⟨rfl, value digits, ⟨digits, rest, hdigits, rfl, rfl⟩, hvalue⟩
  | @dangling _ run hrun =>
    by_cases hne : run = []
    · subst hne
      exact ⟨front, '\\', [], [], rfl, rfl, hbefore, .inl rfl, fun template depth => ⟨rfl, rfl⟩⟩
    · have hruns : Lexes p (front ++ run) (ts ++ [⟨.text (String.ofList run), p + byteSize front⟩])
          none := by
        have hlast := Lexes.text (p := p + byteSize front) hrun hne .nil .done
        exact hfront .of_append (by rwa [List.append_nil] at hlast)
      refine ⟨front ++ run, '\\', [], _, by simp, ?_, hruns, .inr ⟨_, _, rfl⟩,
        fun template depth => ⟨rfl, rfl⟩⟩
      rw [byteSize_append, ← Nat.add_assoc, bytePosition?]

/-- A token points at its first character, and the text in front of it holds the tokens before. -/
theorem Lexes.before_token {p : Nat} {cs : List Char} {ts us : List PlacedToken} {t : PlacedToken}
    {f : Option TemplateError} (h : Lexes p cs (ts ++ t :: us) f) :
    ∃ front c back, cs = front ++ c :: back ∧ t.position = p + byteSize front ∧
      Lexes p front ts none ∧ (t.token = .closing → c = ']') ∧
      ∀ index, t.token = .opening index → c = '[' ∧ IndexAt index back := by
  obtain ⟨front, rest, rfl, hrest, hfront⟩ := h.split
  have hbefore : Lexes p front ts none := by
    simpa using hfront (fun _ => .nil) .done
  cases hrest with
  | @closing _ back =>
    exact ⟨front, ']', back, rfl, rfl, hbefore, fun _ => rfl, nofun⟩
  | @opening _ digits rest _ _ hdigits _ _ =>
    refine ⟨front, '[', digits ++ ':' :: rest, by simp, rfl, hbefore, nofun, ?_⟩
    intro index hindex
    exact ⟨rfl, digits, rest, hdigits, Token.opening.inj hindex, rfl⟩
  | @text _ run rest _ _ _ hne _ _ =>
    obtain ⟨c, run, rfl⟩ := List.exists_cons_of_ne_nil hne
    exact ⟨front, c, run ++ rest, rfl, rfl, hbefore, nofun, nofun⟩

/-- The failure points at a character of the template that is to blame, and the builder reads the
tokens of the text in front of it. -/
def PointsAt (template : String) (failure : TemplateError) : Prop :=
  ∃ front c back ts builder, template.toList = front ++ c :: back ∧
    bytePosition? failure = some (byteSize front) ∧ Lexes 0 front ts none ∧
    ({} : Builder).run ts = .ok builder ∧ Blames template builder.depth c back failure

section
variable {template : String} {ts us : List PlacedToken} {builder : Builder}
  {failure : TemplateError}

/-- A token that the builder does not take is at fault itself. -/
theorem pointsAt_of_step {placed : PlacedToken} {f : Option TemplateError}
    (h : Lexes 0 template.toList (ts ++ placed :: us) f)
    (hrun : ({} : Builder).run ts = .ok builder) (hstep : builder.step placed = .error failure) :
    PointsAt template failure := by
  obtain ⟨front, c, back, htext, hposition, hfront, hclosing, hopening⟩ := h.before_token
  rw [Nat.zero_add] at hposition
  have hbyte : some placed.position = some (byteSize front) := congrArg some hposition
  obtain ⟨htoken, rfl⟩ | ⟨index, htoken, hdepth, rfl⟩ | ⟨htoken, hdepth, rfl⟩ :=
    Builder.step_error hstep
  · exact ⟨front, c, back, ts, builder, htext, hbyte, hfront, hrun, hopening rootIndex htoken⟩
  · obtain ⟨hc, hindex⟩ := hopening index htoken
    have hroom := (Builder.run_nesting hrun (Nat.zero_le _)).2.1
    exact ⟨front, c, back, ts, builder, htext, hbyte, hfront, hrun, hc, ⟨index, hindex⟩,
      Nat.le_antisymm hroom hdepth, rfl, rfl⟩
  · exact ⟨front, c, back, ts, builder, htext, hbyte, hfront, hrun,
      .inl ⟨hclosing htoken, hdepth⟩⟩

/-- Where the tokenizer fails, the builder reads the run before the fault, too. -/
theorem pointsAt_of_lexes (h : Lexes 0 template.toList ts (some failure))
    (hrun : ({} : Builder).run ts = .ok builder) : PointsAt template failure := by
  obtain ⟨front, c, back, us, htext, hposition, hfront, hus, hblames⟩ := h.before_failure
  rw [Nat.zero_add] at hposition
  have hread : ∃ last, ({} : Builder).run (ts ++ us) = .ok last := by
    rw [Builder.run_append, hrun]
    obtain rfl | ⟨run, q, rfl⟩ := hus
    · exact ⟨builder, rfl⟩
    · exact ⟨builder.add (.text run), rfl⟩
  obtain ⟨last, hlast⟩ := hread
  exact ⟨front, c, back, ts ++ us, last, htext, hposition, hfront, hlast,
    hblames template last.depth⟩

/-- A slot under way at the end is blamed on its opening. -/
theorem pointsAt_of_leftOpen {current parent : Frame} {outer : List Frame}
    (h : tokenize template = ⟨ts, none⟩)
    (hrun : ({} : Builder).run ts = .ok ⟨current, parent :: outer⟩) :
    PointsAt template (.malformed .unmatchedElements current.position) := by
  obtain ⟨us, vs, rfl, hus, hvs⟩ := Builder.run_leftOpen hrun
  obtain ⟨front, c, back, htext, hposition, hfront, -, hopening⟩ := (lexes_iff.2 h).before_token
  rw [Nat.zero_add] at hposition
  have hinside : Token.nesting 0 (vs.map (·.token)) = some 0 := by
    simpa [hvs, Token.nesting] using Token.nesting_tokensAll current.pieces.reverse 0 []
  refine ⟨front, c, back, us, _, htext, congrArg some hposition, hfront, hus, .inr ?_⟩
  exact ⟨(hopening current.index rfl).1, by rw [h], us, current.index, vs, by rw [h], hinside⟩

/-- Where the tokens of a template are no tree, those in front of the fault are read. -/
theorem Tokens.build_eq_error (h : (tokenize template).build = .error failure) :
    PointsAt template failure := by
  cases htokens : tokenize template with
  | mk ts f =>
    have hlexes := lexes_iff.2 htokens
    rw [htokens, Tokens.build] at h
    cases hrun : ({} : Builder).run ts with
    | error found =>
      obtain rfl : found = failure := by simpa [hrun, bind, Except.bind] using h
      obtain ⟨us, placed, vs, builder, rfl, hus, hstep⟩ := Builder.run_error hrun
      exact pointsAt_of_step hlexes hus hstep
    | ok last =>
      cases f with
      | some found =>
        obtain rfl : found = failure := by simpa [hrun, bind, Except.bind] using h
        exact pointsAt_of_lexes hlexes hrun
      | none =>
        have hfinish : last.finish = .error failure := by
          simpa [hrun, bind, Except.bind] using h
        obtain ⟨current, _ | ⟨parent, outer⟩⟩ := last
        · cases hfinish
        · obtain rfl := Except.error.inj hfinish
          exact pointsAt_of_leftOpen htokens hrun

end

/-- A failure to read a template points at the earliest place at which the template is wrong. What
stands in front of it could still become a template, in which `depth` slots are open, and the
character that stands there is at fault: a `[` without an index, with one that is too great or that
of the root, or nested too deep; a backslash at the end; a `]` where no slot is open; or, if nothing
else is wrong, the `[` of the innermost slot that is never closed. -/
theorem parse_error_blames {template : String} {failure : TemplateError}
    (hsize : template.utf8ByteSize ≤ 65536) (h : parse template = .error failure) :
    ∃ front c back ts depth,
      template.toList = front ++ c :: back ∧
      bytePosition? failure = some (byteSize front) ∧
      (⟨byteSize front⟩ : String.Pos.Raw).IsValid template ∧
      Completable front ts depth ∧
      Blames template depth c back failure := by
  have hfits : ¬ template.utf8ByteSize > maxBytes := Nat.not_lt.2 hsize
  rw [parse, if_neg hfits] at h
  obtain ⟨front, c, back, ts, builder, htext, hposition, hfront, hrun, hblames⟩ :=
    Tokens.build_eq_error h
  exact ⟨front, c, back, ts, builder.depth, htext, hposition, isValid_byteSize htext,
    .of_run hfront hrun, hblames⟩

/-- The closing too many is reported, not the backslash behind it. -/
theorem parse_error_blames_closing :
    "é[1:\\]]]x\\".utf8ByteSize ≤ 65536 ∧
    parse "é[1:\\]]]x\\" = .error (.malformed .unmatchedElements 8) ∧
    ∃ front c back ts depth,
      "é[1:\\]]]x\\".toList = front ++ c :: back ∧
      bytePosition? (.malformed .unmatchedElements 8) = some (byteSize front) ∧
      (⟨byteSize front⟩ : String.Pos.Raw).IsValid "é[1:\\]]]x\\" ∧
      Completable front ts depth ∧
      Blames "é[1:\\]]]x\\" depth c back (.malformed .unmatchedElements 8) :=
  ⟨by decide, rfl, parse_error_blames (by decide) rfl⟩

end Phrasebook.Template
