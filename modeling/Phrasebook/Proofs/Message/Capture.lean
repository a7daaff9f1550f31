-- SUMMARY: Literal text captures nothing of what follows it, unless a reference could end there.
import Phrasebook.Proofs.Message.Plain

/-!
# What follows literal text

The brace of a literal reference is escaped by a look at the literal text alone, while filling looks
ahead to the next closing brace, wherever it stands. So a brace left open at the end of literal text
might capture what follows. It does so only if a reference begun before could end there: any other
text is read behind literal text as it is read alone (`segments_literalText_append`), and some literal
text captures each one in which a reference could end (`fillText_literalText_append_iff`). Nothing at
all and a further reference, which is what stands behind literal text in a template, are not of this
kind (`literalText_captures_nothing`).
-/
namespace Phrasebook.Template

variable {tail name : List Char}

/-! ## Literal text in front of a text -/

theorem RunText.literalText (cs : List Char) : RunText (literalText cs) :=
  literalText_eq cs ▸ RunText.written false false cs

theorem segments_literalText_append (s : String) {tail : String}
    (htail : ¬ EndsReference tail.toList) :
    segments (String.ofList (literalText s.toList) ++ tail) =
      s.toList.map .literal ++ segments tail := by
  rw [segments, String.toList_append, String.toList_ofList, literalText_eq]
  exact ofRun_written_append htail false s.toList

/-- In front of a text in which no reference ends, literal text is put in front of what the text
fills to. -/
theorem fillText_literalText_append (s : String) {tail : String}
    (htail : ¬ EndsReference tail.toList) (resolve : Resolver) :
    fillText resolve (String.ofList (literalText s.toList) ++ tail) =
      (fillText resolve tail).map (s ++ ·) := by
  have hfill := fillText_of_literals resolve (segments_literalText_append s htail)
  rwa [String.ofList_toList] at hfill

/-! ## Texts that are captured -/

/-- The characters of a name stand for themselves. -/
theorem ofRun_name_append (hname : ∀ c ∈ name, isNameChar c = true) :
    Segment.ofRun 0 (name ++ tail) = name.map .literal ++ Segment.ofRun 0 tail := by
  induction name with
  | nil => rfl
  | cons c name ih =>
    obtain ⟨hc, hrest⟩ := List.forall_mem_cons.1 hname
    obtain ⟨-, hreserved, hbrace, -⟩ := isNameChar_plain hc
    rw [List.cons_append, Segment.ofRun_cons (isReserved_eq_false.1 hreserved).2.2 hbrace, ih hrest]
    rfl

/-- Where every name has an empty value, a text fills to its literal characters. -/
theorem fillText_empty (run : String) :
    fillText (fun _ => some "") run = .ok (join (fun _ => "") (segments run)) := by
  rw [fillText_eq]
  have hnone : (referencesIn run.toList).find? (Resolver.lacks fun _ => some "") = none :=
    List.find?_eq_none.2 fun _ _ => Bool.false_ne_true
  rw [hnone]
  rfl

/-- A brace and a letter, both literal, capture a text in which a reference could end: where the
values are empty, nothing is left of them and of the text up to its closing brace. -/
theorem fillText_captured {tail : String} (htail : EndsReference tail.toList) :
    fillText (fun _ => some "") (String.ofList (literalText ['{', 'a']) ++ tail) ≠
      (fillText (fun _ => some "") tail).map (r"{a" ++ ·) := by
  obtain ⟨name, rest, hname, htail⟩ := htail
  have hisName : isName ('a' :: name) = true := by
    simpa [isName, List.all_eq_true] using ⟨by decide, hname⟩
  have hcaptured : segments (String.ofList (literalText ['{', 'a']) ++ tail) =
      .reference (String.ofList ('a' :: name)) :: Segment.ofRun 0 rest := by
    have hliteral : literalText ['{', 'a'] = ['{', 'a'] := rfl
    have hrun : (String.ofList (literalText ['{', 'a']) ++ tail).toList =
        reference ('a' :: name) ++ rest := by
      rw [String.toList_append, htail, String.toList_ofList, hliteral]
      simp [reference]
    rw [segments, hrun, Segment.ofRun_reference hisName]
  have halone : segments tail = (name ++ ['}']).map .literal ++ Segment.ofRun 0 rest := by
    rw [segments, htail, ofRun_name_append hname, Segment.ofRun_cons (by decide) (by decide)]
    simp
  rw [fillText_empty, fillText_empty, hcaptured, halone, join, join, List.flatMap_cons,
    List.flatMap_append, shown_literals]
  intro h
  generalize (Segment.ofRun 0 rest).flatMap (Segment.shown fun _ => "") = behind at h
  have hlonger : behind = '{' :: 'a' :: (name ++ '}' :: behind) := by
    simpa [Segment.shown] using congrArg String.toList (Except.ok.inj h)
  have hlength := congrArg List.length hlonger
  simp only [List.length_cons, List.length_append] at hlength
  omega

/-- Literal text captures nothing of a text, whatever the literal text and the values are, exactly if
no reference could end in it. -/
theorem fillText_literalText_append_iff {tail : String} :
    (∀ (s : String) (resolve : Resolver),
      fillText resolve (String.ofList (literalText s.toList) ++ tail) =
        (fillText resolve tail).map (s ++ ·)) ↔ ¬ EndsReference tail.toList := by
  constructor
  · intro h htail
    exact fillText_captured htail (h r"{a" fun _ => some "")
  · intro htail s resolve
    exact fillText_literalText_append s htail resolve

/-! ## What stands behind literal text in a template -/

/-- Literal text captures nothing of what follows it, be it nothing or a reference with any text
behind: both together fill to the literal text in front of what the rest fills to alone, with its
error if it has one, and no reference is read in or across the literal text. In the literal text
itself no bracket stands without its escape, and no backslash is left at its end. -/
theorem literalText_captures_nothing (s : String) (resolve : Resolver) {tail : String}
    (htail : tail = "" ∨ ∃ name, reference name <+: tail.toList) :
    let run := String.ofList (literalText s.toList)
    fillText resolve (run ++ tail) = (fillText resolve tail).map (s ++ ·) ∧
      segments (run ++ tail) = s.toList.map .literal ++ segments tail ∧
      referencesIn (run ++ tail).toList = referencesIn tail.toList ∧
      RunText run.toList := by
  intro run
  have hbreaks : Breaks tail.toList := by
    obtain rfl | ⟨name, rest, hrest⟩ := htail
    · exact .nil
    · exact hrest ▸ Breaks.reference name rest
  have hsegments := segments_literalText_append s hbreaks.not_endsReference
  refine ⟨fillText_literalText_append s hbreaks.not_endsReference resolve, hsegments, ?_, ?_⟩
  · rw [← names_segments, hsegments, List.filterMap_append, names_literals, List.nil_append,
      names_segments]
  · rw [String.toList_ofList]
    exact RunText.literalText s.toList

/-- A brace left open is not closed by the reference behind it. -/
theorem literalText_captures_nothing_unclosed :
    let resolve : Resolver := fun name => if name = "me" then some "Ada" else none
    let run := String.ofList (literalText r"\]{na".toList)
    reference "me".toList <+: "{me}!".toList ∧
      fillText resolve (run ++ "{me}!") = .ok r"\]{naAda!" ∧
      RunText run.toList := by
  intro resolve run
  have hbehind : reference "me".toList <+: "{me}!".toList := ⟨['!'], rfl⟩
  obtain ⟨hfill, -, -, hrun⟩ :=
    literalText_captures_nothing r"\]{na" resolve (.inr ⟨"me".toList, hbehind⟩)
  have halone : fillText resolve "{me}!" = .ok "Ada!" := by decide
  refine ⟨hbehind, ?_, hrun⟩
  rw [hfill, halone]
  decide

end Phrasebook.Template
