-- SUMMARY: Escaped text is read back, is a single token, and fills to what unescaping makes of it.
import Phrasebook.Proofs.Template.Segments

/-!
# Escaping

Escaped text has three readers: `unescape`, which takes the escapes out, the tokenizer, which looks
for the end of the text run, and filling, which looks for references as well. All of them read an
escape pair as a whole, from wherever they start. Escaped text is a run, so it makes one token
(`tokenize_runText`), and a run without references is read by filling as `unescape` reads it
(`ofRun_eq_unescape`), a lone backslash at the end included.
-/
namespace Phrasebook.Template

variable {cs : List Char}

/-- Escaping is undone. -/
theorem unescape_escape (s : List Char) : unescape (escape s) = s := by
  have hescape := unescape_escape_append s []
  rwa [List.append_nil, unescape, List.append_nil] at hescape

/-! ## Escaped text as a token -/

theorem RunText.escapeChar (c : Char) : RunText (escapeChar c) := by
  rw [Template.escapeChar]
  split
  · exact .pair .nil
  · rename_i hplain
    exact .plain (Bool.not_eq_true _ ▸ hplain) .nil

theorem RunText.escape (s : List Char) : RunText (escape s) := by
  induction s with
  | nil => exact .nil
  | cons c s ih => exact (RunText.escapeChar c).append ih

theorem escapeChar_ne_nil (c : Char) : escapeChar c ≠ [] := by
  rw [escapeChar]
  split <;> exact List.cons_ne_nil _ _

theorem escape_eq_nil_iff {s : List Char} : escape s = [] ↔ s = [] := by
  cases s with
  | nil => exact iff_of_true rfl rfl
  | cons c s =>
    refine iff_of_false ?_ (List.cons_ne_nil c s)
    intro h
    exact escapeChar_ne_nil c (List.append_eq_nil_iff.1 h).1

/-- A text run that is not empty is one token. -/
theorem tokenize_runText {run : List Char} (hrun : RunText run) (hne : run ≠ []) :
    tokenize (String.ofList run) = ⟨[⟨.text (String.ofList run), 0⟩], none⟩ := by
  apply lexes_iff.1
  rw [String.toList_ofList]
  have hlexes : Lexes 0 (run ++ []) [⟨.text (String.ofList run), 0⟩] none :=
    .text hrun hne .nil .done
  rwa [List.append_nil] at hlexes

/-! ## Filling without references -/

/-- Where no reference stands, filling reads what unescaping reads. -/
theorem ofRun_eq_unescape (h : referencesIn cs = []) :
    Segment.ofRun 0 cs = (unescape cs).map .literal := by
  fun_induction unescape cs with
  | case1 c cs ih =>
    rw [Segment.ofRun_pair, List.map_cons]
    exact congrArg _ (ih h)
  | case2 c cs hpair ih =>
    rw [List.map_cons]
    by_cases hslash : c = '\\'
    -- a backslash in front of nothing
    · subst hslash
      cases cs with
      | nil => rfl
      | cons d cs => exact absurd rfl (hpair d cs rfl)
    by_cases hbrace : c = '{'
    · subst hbrace
      cases hname : nameAt cs with
      | none =>
        rw [Segment.ofRun_brace hname]
        exact congrArg _ (ih (by simpa [referencesIn, hname] using h))
      | some name => simp [referencesIn, hname] at h
    · rw [Segment.ofRun_cons hslash hbrace]
      exact congrArg _ (ih (referencesIn_cons hslash hbrace ▸ h))
  | case3 => rfl

/-- A text fills to itself without its escapes, whatever the values are, exactly if there is no
reference in it. -/
theorem fillText_eq_unescape_iff {u : List Char} :
    (∀ resolve, fillText resolve (String.ofList u) = .ok (String.ofList (unescape u))) ↔
      referencesIn u = [] := by
  constructor
  · intro h
    have hfill := h fun _ => none
    rw [fillText_eq, String.toList_ofList] at hfill
    cases hnames : referencesIn u with
    | nil => rfl
    | cons name names =>
      rw [hnames] at hfill
      cases hfill
  · intro h resolve
    have hsegments : segments (String.ofList u) = (unescape u).map .literal ++ segments "" := by
      rw [segments, String.toList_ofList, ofRun_eq_unescape h]
      exact (List.append_nil _).symm
    rw [fillText_of_literals resolve hsegments]
    exact congrArg Except.ok String.append_empty

/-- Escaping is exact. Escaped text reads back in front of any other text, texts are escaped in
parts, and what is escaped is one text token, or none if it is empty. A text without references, and
no other, fills to itself without its escapes whatever the values are. -/
theorem escape_exact (s t : List Char) :
    unescape (escape s ++ t) = s ++ unescape t ∧
      unescape (escape s) = s ∧
      escape (s ++ t) = escape s ++ escape t ∧
      tokenize (String.ofList (escape s)) =
        ⟨if s = [] then [] else [⟨.text (String.ofList (escape s)), 0⟩], none⟩ ∧
      ∀ u, referencesIn u = [] ↔
        ∀ resolve, fillText resolve (String.ofList u) = .ok (String.ofList (unescape u)) := by
  refine ⟨unescape_escape_append s t, unescape_escape s, escape_append s t, ?_,
    fun u => fillText_eq_unescape_iff.symm⟩
  split
  · rename_i hempty
    subst hempty
    rfl
  · rename_i hne
    exact tokenize_runText (RunText.escape s) (mt escape_eq_nil_iff.1 hne)

end Phrasebook.Template
