-- SUMMARY: Merging catalogs in steps, in batches and over again, where the first comment is kept.
import Phrasebook.Proofs.Catalog.Records

/-!
# Accumulating catalogs

Where the first comment is kept, merging two catalogs (`Catalog.join`) is gathering their entries
(`join_eq_ofEntries`), and what is gathered on the way makes no difference. So it does not matter
how catalogs are put together, as long as they stay in order (`join_assoc`, `mergeAll_batches`). An
entry that was absorbed before adds nothing, whatever was absorbed since (`Entry.absorb_again`), and
neither does a catalog that was merged before (`Lawful.join_again`, `Lawful.mergeAll_again`).
-/
namespace Phrasebook

/-- What was absorbed before is not absorbed again. -/
theorem Entry.absorb_again (x y z : Entry) :
    ((x.absorb .keepFirst y).absorb .keepFirst z).absorb .keepFirst y =
      (x.absorb .keepFirst y).absorb .keepFirst z := by
  have htranslations : firstTranslated (firstTranslated (firstTranslated x.translations
      y.translations) z.translations) y.translations =
      firstTranslated (firstTranslated x.translations y.translations) z.translations := by
    cases x.translations with
    | nil => cases y.translations <;> cases z.translations <;> rfl
    | cons translation translations => rfl
  have hreferences : FirstSeen.union (FirstSeen.union (FirstSeen.union x.references y.references)
      z.references) y.references =
      FirstSeen.union (FirstSeen.union x.references y.references) z.references := by
    apply FirstSeen.union_of_subset
    intro location hlocation
    exact FirstSeen.mem_union.2 (.inl (FirstSeen.mem_union.2 (.inr hlocation)))
  have hcomment : ((x.comment.or y.comment).or z.comment).or y.comment =
      (x.comment.or y.comment).or z.comment := by
    cases x.comment <;> cases y.comment <;> cases z.comment <;> rfl
  simp only [absorb_eq, CommentPolicy.combine_keepFirst, htranslations, hreferences, hcomment]

namespace Catalog

variable {x y : Catalog}

/-! ## Two catalogs -/

/-- Two catalogs merged, with the first comment kept. -/
def join (x y : Catalog) : Catalog := mergeAll .keepFirst [x, y]

theorem join_eq_ofEntries (x y : Catalog) : x.join y = ofEntries (x.toList ++ y.toList) := by
  rw [join, mergeAll_eq_ofEntries]
  simp

theorem join_assoc (x y z : Catalog) : (x.join y).join z = x.join (y.join z) := by
  simp only [join_eq_ofEntries]
  rw [ofEntries_toList_append, ofEntries_append_toList, List.append_assoc]

theorem Reachable.empty_join (h : x.Reachable) : Catalog.empty.join x = x := by
  rw [join_eq_ofEntries]
  exact h.mergeEntries_toList .keepFirst

theorem Reachable.join_empty (h : x.Reachable) : x.join Catalog.empty = x := by
  have hnil : Catalog.empty.toList = [] := rfl
  rw [join_eq_ofEntries, hnil, List.append_nil]
  exact h.mergeEntries_toList .keepFirst

/-- A catalog that was merged before adds nothing. -/
theorem Lawful.join_again (hx : x.Lawful) (hy : y.Lawful) : (x.join y).join x = x.join y := by
  simp only [join_eq_ofEntries]
  rw [ofEntries_toList_append]
  apply (lawful_ofEntries _).ext (lawful_ofEntries _)
  · rw [ofEntries, ofEntries, lawful_empty.ids_mergeEntries, lawful_empty.ids_mergeEntries,
      List.map_append, FirstSeen.union_append]
    apply FirstSeen.union_of_subset
    intro id hid
    have hids : id ∈ (x.toList ++ y.toList).map Entry.id := by
      rw [List.map_append]
      exact List.mem_append_left _ hid
    exact FirstSeen.mem_union.2 (.inr hids)
  · intro id
    rw [ofEntries, ofEntries, lawful_empty.get?_mergeEntries, lawful_empty.get?_mergeEntries,
      get?_empty]
    simp only [List.filter_append, hx.filter_toList, hy.filter_toList]
    cases x.get? id with
    | none => simp
    | some a =>
      cases y.get? id with
      | none =>
        have h := Entry.absorb_again { id } a { id }
        rw [Entry.absorb_new] at h
        exact congrArg some h
      | some b => exact congrArg some (Entry.absorb_again { id } a b)

/-! ## Many catalogs -/

theorem mergeAll_cons (x : Catalog) (catalogs : List Catalog) :
    mergeAll .keepFirst (x :: catalogs) = x.join (mergeAll .keepFirst catalogs) := by
  rw [join_eq_ofEntries, mergeAll_eq_ofEntries, mergeAll_eq_ofEntries, ofEntries_append_toList,
    List.flatMap_cons]

theorem mergeAll_append (xs ys : List Catalog) :
    mergeAll .keepFirst (xs ++ ys) = (mergeAll .keepFirst xs).join (mergeAll .keepFirst ys) := by
  simp only [mergeAll_eq_ofEntries, List.flatMap_append]
  exact ofEntries_append _ _

/-- Catalogs may be merged in batches first. -/
theorem mergeAll_batches (batches : List (List Catalog)) :
    mergeAll .keepFirst (batches.map (mergeAll .keepFirst)) =
      mergeAll .keepFirst batches.flatten := by
  induction batches with
  | nil => rfl
  | cons batch batches ih =>
    rw [List.map_cons, mergeAll_cons, ih, List.flatten_cons, mergeAll_append]

theorem lawful_mergeAll (policy : CommentPolicy) (catalogs : List Catalog) :
    (mergeAll policy catalogs).Lawful := by
  rw [mergeAll_eq_mergeEntries]
  exact lawful_empty.mergeEntries policy _

/-- A catalog that is among those before adds nothing. -/
theorem Lawful.mergeAll_again (hx : x.Lawful) {front : List Catalog} (hmem : x ∈ front)
    (back : List Catalog) :
    mergeAll .keepFirst (front ++ x :: back) = mergeAll .keepFirst (front ++ back) := by
  obtain ⟨before, after, rfl⟩ := List.append_of_mem hmem
  have hagain := hx.join_again (lawful_mergeAll .keepFirst after)
  calc mergeAll .keepFirst (before ++ x :: after ++ x :: back)
      = (mergeAll .keepFirst before).join (((x.join (mergeAll .keepFirst after)).join x).join
          (mergeAll .keepFirst back)) := by
        simp only [mergeAll_append, mergeAll_cons, join_assoc]
    _ = (mergeAll .keepFirst before).join ((x.join (mergeAll .keepFirst after)).join
          (mergeAll .keepFirst back)) := by rw [hagain]
    _ = mergeAll .keepFirst (before ++ x :: after ++ back) := by
        simp only [mergeAll_append, mergeAll_cons, join_assoc]

/-- Merging accumulates, where the first comment is kept: catalogs may be put together in any way
that keeps their order, the empty catalog adds nothing, and neither does one that was merged before.
-/
theorem Reachable.accumulates (hx : x.Reachable) (hy : y.Reachable) (z : Catalog) :
    (x.join y).join z = x.join (y.join z) ∧
      Catalog.empty.join x = x ∧ x.join Catalog.empty = x ∧
      x.join x = x ∧ (x.join y).join x = x.join y ∧
      (∀ batches : List (List Catalog),
        Catalog.mergeAll .keepFirst (batches.map (Catalog.mergeAll .keepFirst)) =
          Catalog.mergeAll .keepFirst batches.flatten) ∧
      ∀ front back : List Catalog, x ∈ front →
        Catalog.mergeAll .keepFirst (front ++ x :: back) =
          Catalog.mergeAll .keepFirst (front ++ back) := by
  have hself := hx.lawful.join_again lawful_empty
  rw [hx.join_empty] at hself
  refine ⟨join_assoc x y z, hx.empty_join, hx.join_empty, hself, hx.lawful.join_again hy.lawful,
    mergeAll_batches, ?_⟩
  intro front back hmem
  exact hx.lawful.mergeAll_again hmem back

theorem accumulates_toolbar_menu :
    toolbar.Reachable ∧ menu.Reachable ∧
      toolbar.join toolbar = toolbar ∧ (toolbar.join menu).join toolbar = toolbar.join menu ∧
      mergeAll .keepFirst [menu, toolbar, menu] = mergeAll .keepFirst [menu, toolbar] := by
  have htoolbar : toolbar.Reachable := .mergeEntry _ _ (.add _ _ _ .empty)
  have hmenu : menu.Reachable := .mergeEntry _ _ (.add _ _ _ .empty)
  obtain ⟨-, -, -, hself, hjoin, -, -⟩ := htoolbar.accumulates hmenu empty
  obtain ⟨-, -, -, -, -, -, hagain⟩ := hmenu.accumulates htoolbar empty
  exact ⟨htoolbar, hmenu, hself, hjoin, hagain [menu, toolbar] [] List.mem_cons_self⟩

end Catalog

end Phrasebook
