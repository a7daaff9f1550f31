-- SUMMARY: What merged catalogs say of each message: the parts of its entries, collected.
import Mathlib.Data.List.Permutation
import Phrasebook.Proofs.Catalog.Comments

/-!
# Collecting entries

An entry that absorbs others in turn ends up with the parts of all of them, and each part is
collected by a rule of its own (`Entry.foldl_absorb`). Catalogs merged in the order given
therefore have the messages of all of them as they first appear, and say of each message what the
catalogs say of it together (`mergeAll_collects`).
-/
namespace Phrasebook

/-! ## Lists in first-seen order -/

namespace FirstSeen

variable {α : Type} [DecidableEq α]

/-- The members that are appended are the new ones, without later repetitions. -/
theorem union_eq_append (seen xs : List α) :
    union seen xs = seen ++ (xs.removeAll seen).eraseDups := by
  induction xs generalizing seen with
  | nil => simp [List.removeAll]
  | cons x xs ih =>
    by_cases hx : x ∈ seen
    · have hremoved : (x :: xs).removeAll seen = xs.removeAll seen := by simp [List.removeAll, hx]
      rw [union_cons, add_of_mem hx, ih, hremoved]
    · have hkept : (x :: xs).removeAll seen = x :: xs.removeAll seen := by
        simp [List.removeAll, hx]
      have hothers : xs.removeAll (seen ++ [x]) = (xs.removeAll seen).filter (!· == x) := by
        simp only [List.removeAll, List.filter_filter]
        refine List.filter_congr fun y _ => ?_
        by_cases hy : y = x <;> simp [hy]
      rw [union_cons, add_of_not_mem hx, ih, hkept, hothers, List.eraseDups_cons,
        List.append_assoc, List.singleton_append]

theorem union_nil_left (xs : List α) : union [] xs = xs.eraseDups := by
  have hall : xs.removeAll [] = xs := List.filter_eq_self.2 fun _ _ => rfl
  rw [union_eq_append, hall, List.nil_append]

end FirstSeen

/-! ## Entries of one message -/

namespace Entry

/-- The first list that is not empty; empty if all are. -/
def firstNonempty (lists : List (List String)) : List String :=
  (lists.find? fun list => !list.isEmpty).getD []

theorem firstNonempty_cons (list : List String) (lists : List (List String)) :
    firstNonempty (list :: lists) = firstTranslated list (firstNonempty lists) := by
  cases list <;> rfl

/-- What an entry becomes when it absorbs others in turn. -/
theorem foldl_absorb (policy : CommentPolicy) (entry : Entry) (others : List Entry) :
    others.foldl (·.absorb policy ·) entry =
      { id           := entry.id
        translations := firstTranslated entry.translations
          (firstNonempty (others.map Entry.translations))
        references   := FirstSeen.union entry.references (others.flatMap Entry.references)
        comment      := Comments.combined policy entry.comment
          (others.filterMap Entry.comment) } := by
  induction others generalizing entry with
  | nil => exact congrArg (Entry.mk _ · _ _) (firstTranslated_nil entry.translations).symm
  | cons other others ih =>
    have hcomment : Comments.combined policy (policy.combine entry.comment other.comment)
        (others.filterMap Entry.comment) =
        Comments.combined policy entry.comment ((other :: others).filterMap Entry.comment) := by
      rw [List.filterMap_cons]
      cases other.comment with
      | none => rw [CommentPolicy.combine_none]
      | some comment => rfl
    rw [List.foldl_cons, ih, absorb_eq, ← hcomment, List.map_cons, firstNonempty_cons,
      firstTranslated_assoc, List.flatMap_cons, FirstSeen.union_append]

/-- What is found for an id behind entries that are folded in for it. -/
theorem foldl_absorbInto (policy : CommentPolicy) (id : String) (found : Option Entry)
    {entries : List Entry} (h : entries ≠ []) :
    entries.foldl (absorbInto policy id) found =
      some (entries.foldl (·.absorb policy ·) (found.getD { id })) := by
  induction entries generalizing found with
  | nil => exact absurd rfl h
  | cons entry entries ih =>
    cases entries with
    | nil => rfl
    | cons next entries => exact ih (absorbInto policy id found entry) (List.cons_ne_nil _ _)

end Entry

namespace Catalog

variable {catalogs : List Catalog}

/-! ## Messages in several catalogs -/

/-- The entries of a message in several catalogs. -/
def entriesOf (catalogs : List Catalog) (id : String) : List Entry :=
  catalogs.filterMap (·.get? id)

/-- What several catalogs say of a message together: all references, none of them twice, the first
translations, and the comments combined in turn. -/
def collected (policy : CommentPolicy) (catalogs : List Catalog) (id : String) : Entry where
  id           := id
  translations := Entry.firstNonempty ((entriesOf catalogs id).map Entry.translations)
  references   := ((entriesOf catalogs id).flatMap Entry.references).eraseDups
  comment      := Comments.combined policy none ((entriesOf catalogs id).filterMap Entry.comment)

theorem combined_keepFirst (found : Option String) (comments : List String) :
    Comments.combined .keepFirst found comments = found.or comments.head? := by
  induction comments generalizing found with
  | nil => exact (Option.or_none).symm
  | cons comment comments ih =>
    rw [Comments.combined, List.foldl_cons, ← Comments.combined, ih,
      CommentPolicy.combine_keepFirst]
    cases found <;> rfl

theorem filter_flatMap_toList (h : ∀ catalog ∈ catalogs, catalog.Lawful) (id : String) :
    (catalogs.flatMap toList).filter (·.id == id) = entriesOf catalogs id := by
  induction catalogs with
  | nil => rfl
  | cons first rest ih =>
    obtain ⟨hfirst, hrest⟩ := List.forall_mem_cons.1 h
    rw [List.flatMap_cons, List.filter_append, hfirst.filter_toList, ih hrest, entriesOf,
      entriesOf, List.filterMap_cons]
    cases first.get? id <;> rfl

/-- A message has no entry in catalogs exactly if it is none of their messages. -/
theorem entriesOf_eq_nil_iff (h : ∀ catalog ∈ catalogs, catalog.Lawful) (id : String) :
    entriesOf catalogs id = [] ↔ id ∉ catalogs.flatMap ids := by
  simp only [entriesOf, List.filterMap_eq_nil_iff, List.mem_flatMap, not_exists, not_and]
  constructor
  · intro hnone catalog hmem
    exact ((h catalog hmem).get?_eq_none_iff id).1 (hnone catalog hmem)
  · intro hnot catalog hmem
    exact ((h catalog hmem).get?_eq_none_iff id).2 (hnot catalog hmem)

theorem ids_mergeAll (policy : CommentPolicy) (catalogs : List Catalog) :
    (mergeAll policy catalogs).ids = (catalogs.flatMap ids).eraseDups := by
  have hids : (catalogs.flatMap toList).map Entry.id = catalogs.flatMap ids := List.map_flatMap
  rw [mergeAll_eq_mergeEntries, lawful_empty.ids_mergeEntries, hids]
  exact FirstSeen.union_nil_left _

/-- What is found for a message of merged catalogs. -/
theorem get?_mergeAll (policy : CommentPolicy) (h : ∀ catalog ∈ catalogs, catalog.Lawful)
    (id : String) :
    (mergeAll policy catalogs).get? id =
      if id ∈ catalogs.flatMap ids then some (collected policy catalogs id) else none := by
  rw [mergeAll_eq_mergeEntries, lawful_empty.get?_mergeEntries, filter_flatMap_toList h]
  by_cases hid : id ∈ catalogs.flatMap ids
  · have hne : entriesOf catalogs id ≠ [] := fun hnil => (entriesOf_eq_nil_iff h id).1 hnil hid
    rw [if_pos hid, Entry.foldl_absorbInto policy id _ hne, Entry.foldl_absorb, get?_empty,
      collected, ← FirstSeen.union_nil_left]
    rfl
  · rw [if_neg hid, (entriesOf_eq_nil_iff h id).2 hid]
    exact get?_empty id

/-- The first comment is kept, of whichever entry it is. -/
theorem comment_collected_keepFirst (catalogs : List Catalog) (id : String) :
    (collected .keepFirst catalogs id).comment =
      (entriesOf catalogs id).findSome? Entry.comment := by
  rw [collected, combined_keepFirst, Option.none_or, List.head?_filterMap]

/-- Merged catalogs have the messages of all of them, each once and in the order in which they first
appear, and their entries are what the catalogs say of these messages together: the references of
all entries without later repetitions, the first translations, and the first comment if the first is
to be kept. -/
theorem mergeAll_collects (policy : CommentPolicy) (h : ∀ catalog ∈ catalogs, catalog.Reachable) :
    (mergeAll policy catalogs).ids = (catalogs.flatMap ids).eraseDups ∧
      (mergeAll policy catalogs).toList =
        (catalogs.flatMap ids).eraseDups.map (collected policy catalogs) ∧
      (∀ id ∈ catalogs.flatMap ids,
        (mergeAll policy catalogs).get? id = some (collected policy catalogs id)) ∧
      ∀ id, (collected .keepFirst catalogs id).comment =
        (entriesOf catalogs id).findSome? Entry.comment := by
  have hlawful : ∀ catalog ∈ catalogs, catalog.Lawful := fun catalog hmem =>
    (h catalog hmem).lawful
  have hmerged : (mergeAll policy catalogs).Lawful := (Reachable.mergeAll policy h).lawful
  have hget : ∀ id ∈ catalogs.flatMap ids,
      (mergeAll policy catalogs).get? id = some (collected policy catalogs id) := by
    intro id hid
    rw [get?_mergeAll policy hlawful, if_pos hid]
  refine ⟨ids_mergeAll policy catalogs, ?_, hget, comment_collected_keepFirst catalogs⟩
  rw [hmerged.toList_eq, ids_mergeAll, List.filterMap_eq_map_iff_forall_eq_some]
  intro id hid
  exact hget id (List.mem_eraseDups.1 hid)

/-- A catalog with a message of `toolbar` and one of its own. -/
def menu : Catalog :=
  (empty.add "Open" { file := "m.jsx" } none).2.mergeEntry .keepFirst
    { id           := "Save"
      translations := ["Speichern"]
      references   := [{ file := "m.jsx" }, { file := "b.jsx" }]
      comment      := "Menu" }

theorem mergeAll_toolbar_menu :
    (∀ catalog ∈ [menu, toolbar, menu], catalog.Reachable) ∧
      (mergeAll .keepFirst [menu, toolbar, menu]).toList =
        [{ id := "Open", references := [{ file := "m.jsx" }] },
         { id           := "Save"
           translations := ["Speichern"]
           references   := [{ file := "m.jsx" }, { file := "b.jsx" },
             { file := "a.jsx", line := some 3 }]
           comment      := "Menu" }] := by
  have hmenu : menu.Reachable := .mergeEntry _ _ (.add _ _ _ .empty)
  have htoolbar : toolbar.Reachable := .mergeEntry _ _ (.add _ _ _ .empty)
  have hreachable : ∀ catalog ∈ [menu, toolbar, menu], catalog.Reachable := by
    simp [hmenu, htoolbar]
  obtain ⟨-, hentries, -, -⟩ := mergeAll_collects .keepFirst hreachable
  refine ⟨hreachable, hentries.trans ?_⟩
  cbv

end Catalog

end Phrasebook
