-- SUMMARY: A text run as literal characters and references, read once and whatever the values are.
import Mathlib.Data.List.Basic
import Phrasebook.Proofs.Template.Reference

/-!
# Segments of text runs

Filling reads a text run from left to right in one pass. How it reads the run does not depend on the
values: `segments` lists the literal characters and the references that it finds, and the run
fills to these characters and the values of these references (`fillText_eq`). The references are
those that `referencesIn` lists, though filling jumps over a reference and listing does not
(`names_segments`).
-/
namespace Phrasebook.Template

/-- A part of a text run. -/
inductive Segment where
  /-- A character that stands for itself. -/
  | literal (c : Char)
  /-- The place of a value. -/
  | reference (name : String)
deriving DecidableEq, Repr

namespace Segment

/-- The segments of a text run. The first `skip` characters belong to a reference already read. -/
def ofRun (skip : Nat) : List Char → List Segment
  | [] => []
  | c :: cs =>
    match skip with
    | skip + 1 => ofRun skip cs
    | 0 =>
      if c = '\\' then
        match cs with
        | [] => [.literal '\\']
        | d :: cs => .literal d :: ofRun 0 cs
      else if c = '{' then
        match nameAt cs with
        | none => .literal c :: ofRun 0 cs
        | some name => .reference (String.ofList name) :: ofRun (name.length + 1) cs
      else .literal c :: ofRun 0 cs

/-- The name that a segment refers to. -/
def name? : Segment → Option String
  | .literal _ => none
  | .reference name => some name

/-- What a segment is filled with. -/
def shown (value : String → String) : Segment → List Char
  | .literal c => [c]
  | .reference name => (value name).toList

end Segment

/-! ## Segments read off the front -/

namespace Segment

variable {c : Char} {cs tail name : List Char}

theorem ofRun_pair : ofRun 0 ('\\' :: c :: cs) = .literal c :: ofRun 0 cs := rfl

theorem ofRun_brace (h : nameAt cs = none) :
    ofRun 0 ('{' :: cs) = .literal '{' :: ofRun 0 cs := by
  rw [ofRun.eq_def]
  simp [h]

theorem ofRun_cons (hslash : c ≠ '\\') (hbrace : c ≠ '{') :
    ofRun 0 (c :: cs) = .literal c :: ofRun 0 cs := by
  rw [ofRun.eq_def]
  simp [hslash, hbrace]

theorem ofRun_skip (cs tail : List Char) : ofRun cs.length (cs ++ tail) = ofRun 0 tail := by
  induction cs with
  | nil => rfl
  | cons c cs ih => exact ih

/-- A reference is one segment. -/
theorem ofRun_reference (hname : isName name = true) :
    ofRun 0 (Template.reference name ++ tail) =
      .reference (String.ofList name) :: ofRun 0 tail := by
  have hskip := ofRun_skip (name ++ ['}']) tail
  rw [ofRun.eq_def]
  simpa [Template.reference, nameAt_name hname] using hskip

end Segment

open Segment

/-- The segments of a text run. -/
def segments (run : String) : List Segment := Segment.ofRun 0 run.toList

/-- Literal characters and values, one behind the other. -/
def join (value : String → String) (segments : List Segment) : String :=
  String.ofList (segments.flatMap (Segment.shown value))

/-- The placeholder has no value. -/
def Resolver.lacks (resolve : Resolver) (name : String) : Bool := (resolve name).isNone

/-- The values of the placeholders that have one. -/
def Resolver.value (resolve : Resolver) (name : String) : String := (resolve name).getD ""

/-! ## References found -/

/-- The characters of a reference already read hold no further one. -/
theorem names_ofRun (skip : Nat) (cs : List Char)
    (hskip : ∀ c ∈ cs.take skip, isNameChar c = true ∨ c = '}') :
    (Segment.ofRun skip cs).filterMap name? = referencesIn cs := by
  fun_induction Segment.ofRun skip cs with
  | case1 => rfl
  | case2 c cs skip ih =>
    obtain ⟨hc, hrest⟩ := List.forall_mem_cons.1 hskip
    have hplain : c ≠ '\\' ∧ c ≠ '{' := by
      obtain hc | rfl := hc
      · obtain ⟨-, hreserved, hbrace, -⟩ := isNameChar_plain hc
        exact ⟨(isReserved_eq_false.1 hreserved).2.2, hbrace⟩
      · decide
    rw [referencesIn_cons hplain.1 hplain.2]
    exact ih hrest
  | case3 => rfl
  | case4 d cs ih =>
    refine ih ?_
    simp
  | case5 cs hnone _ ih =>
    have hlisted : referencesIn ('{' :: cs) = referencesIn cs := by
      simp [referencesIn, hnone]
    rw [hlisted]
    refine ih ?_
    simp
  | case6 cs name hname _ ih =>
    have hlisted : referencesIn ('{' :: cs) = String.ofList name :: referencesIn cs := by
      simp [referencesIn, hname]
    obtain ⟨hisName, rest, rfl⟩ := nameAt_eq_some_iff.1 hname
    have htaken : (name ++ '}' :: rest).take (name.length + 1) = name ++ ['}'] := by
      rw [← List.singleton_append, ← List.append_assoc]
      exact List.take_left' (by simp)
    rw [hlisted]
    refine congrArg (String.ofList name :: ·) (ih ?_)
    rw [htaken]
    intro c hc
    rcases List.mem_append.1 hc with hc | hc
    · exact .inl (isNameChar_of_isName hisName c hc)
    · exact .inr (List.mem_singleton.1 hc)
  | case7 c cs hslash hbrace ih =>
    rw [referencesIn_cons hslash hbrace]
    refine ih ?_
    simp

/-- Filling refers to what is listed. -/
theorem names_segments (run : String) :
    (segments run).filterMap name? = referencesIn run.toList := by
  refine names_ofRun 0 run.toList ?_
  simp

/-! ## Filling -/

variable {resolve : Resolver}

/-- The values of the segments are filled in unless one is lacking, and then the first that is
lacking is reported. -/
theorem fillOnto_eq (resolve : Resolver) (out : List Char) (skip : Nat) (cs : List Char) :
    fillOnto resolve out skip cs =
      match ((Segment.ofRun skip cs).filterMap name?).find? resolve.lacks with
      | some name => .error (.missingExpression name)
      | none => .ok (((Segment.ofRun skip cs).flatMap (shown resolve.value)).reverse ++ out) := by
  fun_induction Segment.ofRun skip cs generalizing out with
  | case1 => rfl
  | case2 c cs skip ih => exact ih out
  | case3 => rfl
  | case4 d cs ih =>
    rw [fillOnto_pair, ih]
    simp [name?, shown]
  | case5 cs hnone _ ih =>
    rw [fillOnto_brace, hnone, ih]
    simp [name?, shown]
  | case6 cs name hname _ ih =>
    simp only [fillOnto_brace, hname]
    cases hvalue : resolve (String.ofList name) with
    | none => simp [name?, Resolver.lacks, hvalue]
    | some value => simp [ih, name?, shown, Resolver.lacks, Resolver.value, hvalue]
  | case7 c cs hslash hbrace ih =>
    rw [fillOnto_cons hslash hbrace, ih]
    simp [name?, shown]

/-- A text run fills to its literal characters and the values of its references, if all of these
have one. -/
theorem fillText_eq (resolve : Resolver) (run : String) :
    fillText resolve run =
      match (referencesIn run.toList).find? resolve.lacks with
      | some name => .error (.missingExpression name)
      | none => .ok (join resolve.value (segments run)) := by
  simp only [fillText, fillOnto_eq, ← names_segments, segments]
  cases ((ofRun 0 run.toList).filterMap name?).find? resolve.lacks with
  | some name => rfl
  | none => simp [join, bind, Except.bind, pure, Except.pure]

theorem names_literals (cs : List Char) : (cs.map Segment.literal).filterMap name? = [] := by
  rw [List.filterMap_map]
  exact List.filterMap_none cs

theorem shown_literals (value : String → String) (cs : List Char) :
    (cs.map Segment.literal).flatMap (shown value) = cs := by
  rw [List.flatMap_map]
  exact List.flatMap_singleton' cs

/-- Characters that stand for themselves in front of a text are put in front of what it fills to. -/
theorem fillText_of_literals (resolve : Resolver) {run tail : String} {cs : List Char}
    (h : segments run = cs.map .literal ++ segments tail) :
    fillText resolve run = (fillText resolve tail).map (String.ofList cs ++ ·) := by
  have hnames : referencesIn run.toList = referencesIn tail.toList := by
    rw [← names_segments, h, List.filterMap_append, names_literals, List.nil_append, names_segments]
  have hjoin : join resolve.value (segments run) =
      String.ofList cs ++ join resolve.value (segments tail) := by
    rw [join, h, List.flatMap_append, shown_literals, String.ofList_append]
    rfl
  rw [fillText_eq, fillText_eq, hnames, hjoin]
  cases (referencesIn tail.toList).find? resolve.lacks with
  | some name => rfl
  | none => rfl

theorem mem_filterMap_name? {name : String} {parts : List Segment} :
    name ∈ parts.filterMap name? ↔ Segment.reference name ∈ parts := by
  rw [List.mem_filterMap]
  constructor
  · rintro ⟨part, hpart, hname⟩
    cases part with
    | literal c => cases hname
    | reference other =>
      obtain rfl := Option.some.inj hname
      exact hpart
  · intro hpart
    exact ⟨.reference name, hpart, rfl⟩

/-- The references of a run are those among its segments. -/
theorem reference_mem_segments_iff {name run : String} :
    Segment.reference name ∈ segments run ↔ name ∈ referencesIn run.toList := by
  rw [← names_segments, mem_filterMap_name?]

/-- Only the values of the references are shown. -/
theorem join_congr {value value' : String → String} {parts : List Segment}
    (h : ∀ name, .reference name ∈ parts → value name = value' name) :
    join value parts = join value' parts := by
  refine congrArg String.ofList (List.flatMap_congr fun part hpart => ?_)
  cases part with
  | literal c => rfl
  | reference name => exact congrArg String.toList (h name hpart)

end Phrasebook.Template
