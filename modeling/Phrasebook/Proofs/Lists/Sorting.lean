-- SUMMARY: A stable sort keeps the order of members among which the sort does not choose.

/-!
# Stable sorting

Members that may stand in any order to one another keep the order in which they are given
(`filter_mergeSort`), so the first one given stays the first (`find?_mergeSort`).
-/
namespace Phrasebook

variable {α : Type} {le : α → α → Bool} {p : α → Bool}

theorem filter_mergeSort (trans : ∀ a b c, le a b = true → le b c = true → le a c = true)
    (total : ∀ a b, (le a b || le b a) = true)
    (alike : ∀ a b, p a = true → p b = true → le a b = true) (xs : List α) :
    (xs.mergeSort le).filter p = xs.filter p := by
  have hsorted : (xs.filter p).Pairwise fun a b => le a b = true := by
    apply List.pairwise_of_forall_mem_list
    intro a ha b hb
    exact alike a b (List.mem_filter.1 ha).2 (List.mem_filter.1 hb).2
  have hsub : (xs.filter p).Sublist (xs.mergeSort le) :=
    List.sublist_mergeSort trans total hsorted List.filter_sublist
  have hfiltered : (xs.filter p).Sublist ((xs.mergeSort le).filter p) := by
    have hfilter := hsub.filter p
    simpa only [List.filter_filter, Bool.and_self] using hfilter
  have hlength := ((List.mergeSort_perm xs le).filter p).length_eq
  exact (hfiltered.eq_of_length hlength.symm).symm

theorem find?_mergeSort (trans : ∀ a b c, le a b = true → le b c = true → le a c = true)
    (total : ∀ a b, (le a b || le b a) = true)
    (alike : ∀ a b, p a = true → p b = true → le a b = true) (xs : List α) :
    (xs.mergeSort le).find? p = xs.find? p := by
  rw [← List.head?_filter, filter_mergeSort trans total alike, List.head?_filter]

end Phrasebook
