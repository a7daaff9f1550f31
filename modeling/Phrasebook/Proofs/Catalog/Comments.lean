-- SUMMARY: The comment of a merged catalog when distinct comments are kept: when it is all of them.
import Phrasebook.Proofs.Catalog.Reachable
import Phrasebook.Proofs.Text.Lines

/-!
# Merged comments

When distinct comments are kept, a further comment is added below the text so far unless it is this
text or one of its lines. Where the distinct comments seen so far stand one below the other, they
still do with one more comment exactly if the comment is `Recognised`
(`combine_stacked_eq_iff`). Comments in one line always are (`recognised_of_single_lines`); one that
spans lines is not when it comes again, and then is taken up twice.
-/
namespace Phrasebook

/-! ## Comments one below the other -/

namespace Comments

variable {seen comments : List String} {comment : String}

/-- Comments one below the other, if there are any. -/
def stacked : List String → Option String
  | [] => none
  | comments => some ("\n".intercalate comments)

/-- The lines of a comment. -/
def linesOf (comment : String) : List (List Char) := comment.toList.splitOn '\n'

theorem stacked_of_ne_nil (h : comments ≠ []) :
    stacked comments = some ("\n".intercalate comments) := by
  cases comments with
  | nil => exact absurd rfl h
  | cons first rest => rfl

theorem linesOf_intercalate (h : comments ≠ []) :
    linesOf ("\n".intercalate comments) = comments.flatMap linesOf := by
  have hmap : comments.map String.toList ≠ [] := by simpa using h
  rw [linesOf, String.toList_intercalate, show "\n".toList = ['\n'] from rfl,
    Text.splitOn_intercalate_eq_flatMap hmap, List.flatMap_map]
  rfl

theorem linesOf_of_not_mem (h : '\n' ∉ comment.toList) : linesOf comment = [comment.toList] :=
  List.splitOn_eq_singleton h

theorem eraseDups_concat :
    (seen ++ [comment]).eraseDups =
      if comment ∈ seen then seen.eraseDups else seen.eraseDups ++ [comment] := by
  rw [List.eraseDups_append]
  by_cases h : comment ∈ seen
  · simp [List.removeAll, h]
  · simp [List.removeAll, h, List.eraseDups_cons]

theorem eraseDups_ne_nil (h : seen ≠ []) : seen.eraseDups ≠ [] := by
  obtain ⟨first, rest, rfl⟩ := List.exists_cons_of_ne_nil h
  simp [List.eraseDups_cons]

theorem length_le_intercalate (h : comment ∈ comments) :
    comment.length ≤ ("\n".intercalate comments).length := by
  induction comments with
  | nil => cases h
  | cons first rest ih =>
    cases rest with
    | nil =>
      have hcomment := List.mem_singleton.1 h
      exact Nat.le_of_eq (by rw [hcomment, String.intercalate_singleton])
    | cons second rest =>
      rw [String.intercalate_cons_cons, String.length_append, String.length_append]
      rcases List.mem_cons.1 h with rfl | h
      · omega
      · have := ih h
        omega

/-- A comment above or below another one is not all of the text. -/
theorem eq_singleton_of_intercalate_eq (hmem : comment ∈ comments)
    (h : "\n".intercalate comments = comment) : comments = [comment] := by
  match comments with
  | [] => cases hmem
  | [first] => rw [List.mem_singleton.1 hmem]
  | first :: second :: rest =>
    have hlength := congrArg String.length h
    rw [String.intercalate_cons_cons, String.length_append, String.length_append,
      show "\n".length = 1 from rfl] at hlength
    rcases List.mem_cons.1 hmem with rfl | hmem
    · omega
    · have := length_le_intercalate hmem
      omega

/-! ## One more comment -/

/-- A comment that is not added below those seen: it is all of their text or one of the lines. -/
def Covered (seen : List String) (comment : String) : Prop :=
  stacked seen.eraseDups = some comment ∨ ∃ other ∈ seen, comment.toList ∈ linesOf other

/-- Behind the comments seen so far, a comment is told to be one of them or a new one: if it was
seen, it stands in one line or is the only one, and if it is new, it is neither one of their lines
nor all of their text. -/
def Recognised (seen : List String) (comment : String) : Prop :=
  if comment ∈ seen then '\n' ∉ comment.toList ∨ ∀ other ∈ seen, other = comment
  else ¬ Covered seen comment

theorem covered_iff (hne : seen ≠ []) :
    Covered seen comment ↔
      "\n".intercalate seen.eraseDups = comment ∨
        comment.toList ∈ linesOf ("\n".intercalate seen.eraseDups) := by
  have hdistinct := eraseDups_ne_nil hne
  rw [Covered, stacked_of_ne_nil hdistinct, Option.some.injEq, linesOf_intercalate hdistinct,
    List.mem_flatMap]
  simp only [List.mem_eraseDups]

theorem combine_of_covered (h : Covered seen comment) :
    CommentPolicy.concatenateDistinct.combine (stacked seen.eraseDups) (some comment) =
      stacked seen.eraseDups := by
  have hne : seen ≠ [] := by
    rintro rfl
    simp [Covered, stacked] at h
  rw [stacked_of_ne_nil (eraseDups_ne_nil hne)]
  exact if_pos ((covered_iff hne).1 h)

theorem combine_of_not_covered (h : ¬ Covered seen comment) :
    CommentPolicy.concatenateDistinct.combine (stacked seen.eraseDups) (some comment) =
      stacked (seen.eraseDups ++ [comment]) := by
  by_cases hne : seen = []
  · subst hne
    simp [stacked, CommentPolicy.combine]
  · have hdistinct := eraseDups_ne_nil hne
    have hstacked : stacked (seen.eraseDups ++ [comment]) =
        some ("\n".intercalate seen.eraseDups ++ "\n" ++ comment) := by
      rw [stacked_of_ne_nil (by simp),
        String.intercalate_append_of_ne_nil hdistinct (List.cons_ne_nil _ _),
        String.intercalate_singleton]
    rw [hstacked, stacked_of_ne_nil hdistinct]
    exact if_neg fun hcovered => h ((covered_iff hne).2 hcovered)

/-- Every comment that is added makes the text longer. -/
theorem stacked_concat_ne : stacked (comments ++ [comment]) ≠ stacked comments := by
  intro h
  cases comments with
  | nil => cases h
  | cons first rest =>
    rw [stacked_of_ne_nil (by simp), stacked_of_ne_nil (List.cons_ne_nil _ _), Option.some.injEq,
      String.intercalate_append_of_ne_nil (List.cons_ne_nil _ _) (List.cons_ne_nil _ _)] at h
    have hlength := congrArg String.length h
    rw [String.length_append, String.length_append, show "\n".length = 1 from rfl] at hlength
    omega

theorem eraseDups_of_forall_eq (hmem : comment ∈ seen) (honly : ∀ other ∈ seen, other = comment) :
    seen.eraseDups = [comment] := by
  obtain ⟨first, rest, rfl⟩ := List.exists_cons_of_ne_nil (List.ne_nil_of_mem hmem)
  obtain ⟨rfl, hrest⟩ := List.forall_mem_cons.1 honly
  have hothers : rest.filter (!· == first) = [] := by
    rw [List.filter_eq_nil_iff]
    intro other hother
    simp [hrest other hother]
  rw [List.eraseDups_cons, hothers, List.eraseDups_nil]

/-- A comment in one line that is all of the text is a line of it. -/
theorem exists_line_of_covered (hsingle : '\n' ∉ comment.toList) (h : Covered seen comment) :
    ∃ other ∈ seen, comment.toList ∈ linesOf other := by
  rcases h with hstacked | hline
  · have hne : seen ≠ [] := by
      rintro rfl
      cases hstacked
    rw [stacked_of_ne_nil (eraseDups_ne_nil hne), Option.some.injEq] at hstacked
    have hline : comment.toList ∈ linesOf ("\n".intercalate seen.eraseDups) := by
      rw [hstacked, linesOf_of_not_mem hsingle]
      exact List.mem_singleton_self _
    rw [linesOf_intercalate (eraseDups_ne_nil hne), List.mem_flatMap] at hline
    obtain ⟨other, hother, hline⟩ := hline
    exact ⟨other, List.mem_eraseDups.1 hother, hline⟩
  · exact hline

/-- A comment that was seen is covered unless it spans lines and has others beside it. -/
theorem covered_iff_of_mem (hmem : comment ∈ seen) :
    Covered seen comment ↔ '\n' ∉ comment.toList ∨ ∀ other ∈ seen, other = comment := by
  constructor
  · rintro (hstacked | ⟨other, -, hline⟩)
    · rw [stacked_of_ne_nil (eraseDups_ne_nil (List.ne_nil_of_mem hmem)),
        Option.some.injEq] at hstacked
      have honly := eq_singleton_of_intercalate_eq (List.mem_eraseDups.2 hmem) hstacked
      refine Or.inr fun other hother => ?_
      rw [← List.mem_eraseDups, honly] at hother
      exact List.mem_singleton.1 hother
    · exact Or.inl (Text.not_mem_of_mem_splitOn hline)
  · rintro (hsingle | honly)
    · refine Or.inr ⟨comment, hmem, ?_⟩
      rw [linesOf_of_not_mem hsingle]
      exact List.mem_singleton_self _
    · refine Or.inl ?_
      rw [eraseDups_of_forall_eq hmem honly, stacked, String.intercalate_singleton]
      exact List.cons_ne_nil _ _

/-- Where the distinct comments seen so far stand one below the other, they do with one more
comment exactly if it is recognised. -/
theorem combine_stacked_eq_iff :
    CommentPolicy.concatenateDistinct.combine (stacked seen.eraseDups) (some comment) =
        stacked (seen ++ [comment]).eraseDups ↔
      Recognised seen comment := by
  rw [eraseDups_concat]
  by_cases hmem : comment ∈ seen
  · rw [if_pos hmem, Recognised, if_pos hmem, ← covered_iff_of_mem hmem]
    constructor
    · intro hcombine
      refine Classical.byContradiction fun hcovered => ?_
      rw [combine_of_not_covered hcovered] at hcombine
      exact stacked_concat_ne hcombine
    · exact combine_of_covered
  · rw [if_neg hmem, Recognised, if_neg hmem]
    constructor
    · intro hcombine hcovered
      rw [combine_of_covered hcovered] at hcombine
      exact stacked_concat_ne hcombine.symm
    · exact combine_of_not_covered

theorem recognised_of_single_lines (hseen : ∀ other ∈ seen, '\n' ∉ other.toList)
    (hcomment : '\n' ∉ comment.toList) : Recognised seen comment := by
  unfold Recognised
  split
  · exact Or.inl hcomment
  · rename_i hnew
    intro hcovered
    obtain ⟨other, hother, hline⟩ := exists_line_of_covered hcomment hcovered
    rw [linesOf_of_not_mem (hseen other hother), List.mem_singleton, String.toList_inj] at hline
    exact hnew (hline ▸ hother)

/-! ## Comments in turn -/

/-- What is found behind comments that are combined in turn. -/
def combined (policy : CommentPolicy) (found : Option String) (comments : List String) :
    Option String :=
  comments.foldl (fun found comment => policy.combine found (some comment)) found

theorem combined_concat (policy : CommentPolicy) (found : Option String) (comments : List String)
    (comment : String) :
    combined policy found (comments ++ [comment]) =
      policy.combine (combined policy found comments) (some comment) :=
  List.foldl_append

/-- A comment never disappears. -/
theorem combined_eq_none_iff (policy : CommentPolicy) (found : Option String) :
    combined policy found comments = none ↔ found = none ∧ comments = [] := by
  induction comments generalizing found with
  | nil => simp [combined]
  | cons first rest ih =>
    have hsome : policy.combine found (some first) ≠ none := by
      cases found with
      | none => exact Option.some_ne_none first
      | some current =>
        cases policy with
        | keepFirst => exact Option.some_ne_none current
        | concatenateDistinct =>
          simp only [CommentPolicy.combine]
          split <;> exact Option.some_ne_none _
    rw [combined, List.foldl_cons, ← combined, ih]
    simp [hsome]

theorem combined_stacked (h : ∀ before comment, before ++ [comment] <+: comments →
      Recognised (seen ++ before) comment) :
    combined .concatenateDistinct (stacked seen.eraseDups) comments =
      stacked (seen ++ comments).eraseDups := by
  induction comments generalizing seen with
  | nil => rw [List.append_nil]; rfl
  | cons first rest ih =>
    have hfirst : Recognised seen first := by
      have hinit := h [] first (List.prefix_append [first] rest)
      rwa [List.append_nil] at hinit
    have hrest : ∀ before comment, before ++ [comment] <+: rest →
        Recognised (seen ++ [first] ++ before) comment := by
      intro before comment hinit
      rw [List.append_assoc]
      exact h (first :: before) comment ((List.prefix_cons_inj first).2 hinit)
    rw [combined, List.foldl_cons, combine_stacked_eq_iff.2 hfirst, ← combined, ih hrest,
      List.append_assoc, List.singleton_append]

/-- The distinct comments stand below each other all along exactly if each comment is
recognised. -/
theorem combined_eq_stacked_iff :
    (∀ seen, seen <+: comments →
        combined .concatenateDistinct none seen = stacked seen.eraseDups) ↔
      ∀ seen comment, seen ++ [comment] <+: comments → Recognised seen comment := by
  constructor
  · intro h seen comment hinit
    have hboth := h (seen ++ [comment]) hinit
    rw [combined_concat, h seen ((List.prefix_append seen [comment]).trans hinit)] at hboth
    exact combine_stacked_eq_iff.1 hboth
  · intro h seen hseen
    have hrecognised : ∀ before comment, before ++ [comment] <+: seen →
        Recognised ([] ++ before) comment := fun before comment hinit =>
      h before comment (hinit.trans hseen)
    exact combined_stacked hrecognised

end Comments

/-! ## The comments of catalogs -/

namespace Catalog

variable {catalog : Catalog} {catalogs : List Catalog} {id : String}

open Comments

/-- The comment of a message. -/
def comment? (catalog : Catalog) (id : String) : Option String :=
  (catalog.get? id).bind Entry.comment

/-- The comments of a message in several catalogs. -/
def comments (catalogs : List Catalog) (id : String) : List String :=
  catalogs.filterMap (·.comment? id)

theorem comment_foldl_absorbInto (policy : CommentPolicy) (entries : List Entry)
    (found : Option Entry) :
    (entries.foldl (Entry.absorbInto policy id) found).bind Entry.comment =
      combined policy (found.bind Entry.comment) (entries.filterMap Entry.comment) := by
  induction entries generalizing found with
  | nil => rfl
  | cons entry entries ih =>
    have hcomment : (Entry.absorbInto policy id found entry).bind Entry.comment =
        policy.combine (found.bind Entry.comment) entry.comment := by
      rw [Entry.absorbInto, Entry.absorb_eq]
      cases found <;> rfl
    rw [List.foldl_cons, ih, hcomment, List.filterMap_cons]
    cases entry.comment with
    | none => rw [CommentPolicy.combine_none]
    | some comment => rfl

theorem filterMap_comment_flatMap (h : ∀ catalog ∈ catalogs, catalog.Lawful) (id : String) :
    ((catalogs.flatMap toList).filter (·.id == id)).filterMap Entry.comment =
      comments catalogs id := by
  induction catalogs with
  | nil => rfl
  | cons first rest ih =>
    obtain ⟨hfirst, hrest⟩ := List.forall_mem_cons.1 h
    rw [List.flatMap_cons, List.filter_append, List.filterMap_append, hfirst.filter_toList,
      ih hrest, comments, comments, List.filterMap_cons, comment?]
    cases first.get? id with
    | none => rfl
    | some entry =>
      cases hcomment : entry.comment <;> simp [hcomment]

/-- The comment of a merged message is made of its comments in the catalogs in turn. -/
theorem comment?_mergeAll (policy : CommentPolicy) (h : ∀ catalog ∈ catalogs, catalog.Lawful)
    (id : String) :
    (mergeAll policy catalogs).comment? id = combined policy none (comments catalogs id) := by
  rw [mergeAll_eq_mergeEntries, comment?, lawful_empty.get?_mergeEntries,
    comment_foldl_absorbInto, get?_empty, filterMap_comment_flatMap h]
  rfl

/-- The prefixes of the comments are the comments of the first few catalogs. -/
theorem exists_prefix_comments {seen : List String} (h : seen <+: comments catalogs id) :
    ∃ merged, merged <+: catalogs ∧ comments merged id = seen := by
  obtain ⟨rest, hrest⟩ := h
  obtain ⟨merged, others, rfl, hmerged, -⟩ := List.filterMap_eq_append_iff.1 hrest.symm
  exact ⟨merged, List.prefix_append merged others, hmerged⟩

/-- Keeping distinct comments, a merged message has a comment exactly if a catalog has one. Its
comment is all along the distinct comments of the catalogs in order, one below the other, exactly
if each of them is recognised behind those before it, and so it is if each stands in one line. Units
are merged as their catalogs are in the order of their names. -/
theorem comment?_mergeAll_distinct (h : ∀ catalog ∈ catalogs, catalog.Reachable) (id : String) :
    ((mergeAll .concatenateDistinct catalogs).comment? id = none ↔ comments catalogs id = []) ∧
      ((∀ merged, merged <+: catalogs →
          (mergeAll .concatenateDistinct merged).comment? id =
            stacked (comments merged id).eraseDups) ↔
        ∀ seen comment, seen ++ [comment] <+: comments catalogs id → Recognised seen comment) ∧
      ((∀ comment ∈ comments catalogs id, '\n' ∉ comment.toList) →
        (mergeAll .concatenateDistinct catalogs).comment? id =
          stacked (comments catalogs id).eraseDups) ∧
      ∀ units : List UnitCatalog,
        (units.mergeSort UnitCatalog.le).map UnitCatalog.catalog = catalogs →
        mergeUnits .concatenateDistinct units = mergeAll .concatenateDistinct catalogs := by
  have hlawful : ∀ catalog ∈ catalogs, catalog.Lawful := fun catalog hmem =>
    (h catalog hmem).lawful
  have hcombined : ∀ merged, merged <+: catalogs →
      (mergeAll .concatenateDistinct merged).comment? id =
        combined .concatenateDistinct none (comments merged id) := by
    intro merged hinit
    exact comment?_mergeAll _ (fun catalog hmem => hlawful catalog (hinit.subset hmem)) id
  have hall := hcombined catalogs (List.prefix_refl catalogs)
  refine ⟨?_, ?_, ?_, ?_⟩
  · rw [hall, combined_eq_none_iff]
    simp
  · rw [← combined_eq_stacked_iff]
    constructor
    · intro hmerged seen hseen
      obtain ⟨merged, hinit, rfl⟩ := exists_prefix_comments hseen
      rw [← hcombined merged hinit]
      exact hmerged merged hinit
    · intro hseen merged hinit
      rw [hcombined merged hinit]
      exact hseen _ (hinit.filterMap _)
  · intro hsingle
    rw [hall]
    refine combined_eq_stacked_iff.2 ?_ _ (List.prefix_refl _)
    intro seen comment hinit
    have hlines : ∀ other ∈ seen ++ [comment], '\n' ∉ other.toList := fun other hother =>
      hsingle other (hinit.subset hother)
    refine recognised_of_single_lines ?_ (hlines comment (by simp))
    exact fun other hother => hlines other (List.mem_append_left _ hother)
  · rintro units rfl
    rfl

theorem comment?_add_empty (location : Location) (comment : String) :
    (empty.add id location comment).2.comment? id = some comment := by
  rw [add_eq_mergeEntry, comment?, lawful_empty.get?_mergeEntry, if_pos rfl, get?_empty,
    Entry.absorbInto, Entry.absorb_eq]
  rfl

/-- Catalogs of one message, each with a comment. -/
def commented (comments : List String) : List Catalog :=
  comments.map fun comment => (empty.add "Save" { file := "a.jsx" } (some comment)).2

theorem reachable_of_mem_commented {comments : List String} :
    ∀ catalog ∈ commented comments, catalog.Reachable := by
  intro catalog hmem
  obtain ⟨comment, -, rfl⟩ := List.mem_map.1 hmem
  exact .add _ _ _ .empty

theorem comments_commented (list : List String) : comments (commented list) "Save" = list := by
  have hcomment : ((Catalog.comment? · "Save") ∘ fun comment =>
      (empty.add "Save" { file := "a.jsx" } (some comment)).2) = some := by
    funext comment
    exact comment?_add_empty _ comment
  rw [comments, commented, List.filterMap_map, hcomment, List.filterMap_some]

theorem comment?_mergeAll_buttons :
    (∀ comment ∈ comments (commented ["Button", "Menu", "Button"]) "Save", '\n' ∉ comment.toList) ∧
      (mergeAll .concatenateDistinct (commented ["Button", "Menu", "Button"])).comment? "Save" =
        stacked ["Button", "Menu"] := by
  have hlines : ∀ comment ∈ comments (commented ["Button", "Menu", "Button"]) "Save",
      '\n' ∉ comment.toList := by
    rw [comments_commented]
    decide
  have hreachable : ∀ catalog ∈ commented ["Button", "Menu", "Button"], catalog.Reachable :=
    reachable_of_mem_commented
  obtain ⟨-, -, hsingle, -⟩ := comment?_mergeAll_distinct hreachable "Save"
  refine ⟨hlines, ?_⟩
  rw [hsingle hlines, comments_commented]
  decide

/-- Catalogs with a comment that spans lines and comes twice, and one that is a line of it. -/
def spanning : List Catalog := commented ["Button", "Menu\nentry", "Menu\nentry", "entry"]

/-- The comment that spans lines is taken up twice, and the one that is a line of it is lost. -/
theorem comment?_mergeAll_spanning :
    (∀ catalog ∈ spanning, catalog.Reachable) ∧
      (mergeAll .concatenateDistinct spanning).comment? "Save" =
        some "Button\nMenu\nentry\nMenu\nentry" ∧
      stacked (comments spanning "Save").eraseDups = some "Button\nMenu\nentry\nentry" := by
  refine ⟨reachable_of_mem_commented, ?_⟩
  rw [spanning, comment?_mergeAll _ fun catalog hmem =>
    (reachable_of_mem_commented catalog hmem).lawful, comments_commented]
  decide

end Catalog

end Phrasebook
