-- SUMMARY: The merged catalog does not depend on the order in which the units are delivered.
import Phrasebook.Catalog.Merge
import Phrasebook.Catalog.Po
import Phrasebook.Proofs.Lists.Sorting

/-!
# Delivery of units

Units are sorted by name before they are merged. The sort keeps the catalogs of one unit in their
order (`ofUnit_mergeSort`), and a sorted list is given by the catalogs of each unit
(`eq_of_ofUnit_eq`). The order of delivery therefore counts among catalogs of one unit only
(`mergeUnits_eq_of_perm`).
-/
namespace Phrasebook

namespace UnitCatalog

variable {us vs : List UnitCatalog}

/-! ## The order of units -/

theorem le_iff {a b : UnitCatalog} : a.le b = true ↔ a.unit ≤ b.unit := decide_eq_true_iff

theorem le_trans (a b c : UnitCatalog) (hab : a.le b = true) (hbc : b.le c = true) :
    a.le c = true :=
  le_iff.2 (String.le_trans (le_iff.1 hab) (le_iff.1 hbc))

theorem le_total (a b : UnitCatalog) : (a.le b || b.le a) = true := by
  rw [Bool.or_eq_true, le_iff, le_iff]
  exact String.le_total a.unit b.unit

/-! ## The catalogs of each unit -/

/-- The catalogs of a unit in the order in which they stand. -/
def ofUnit (units : List UnitCatalog) (unit : String) : List UnitCatalog :=
  units.filter (·.unit == unit)

/-- The catalogs of each unit stand in the same order. -/
def SameByUnit (us vs : List UnitCatalog) : Prop := ∀ unit, ofUnit us unit = ofUnit vs unit

theorem ofUnit_cons_self (u : UnitCatalog) : ofUnit (u :: us) u.unit = u :: ofUnit us u.unit := by
  simp [ofUnit]

theorem ofUnit_cons_of_ne {u : UnitCatalog} {unit : String} (h : u.unit ≠ unit) :
    ofUnit (u :: us) unit = ofUnit us unit := by
  simp [ofUnit, h]

theorem mem_ofUnit {u : UnitCatalog} {unit : String} :
    u ∈ ofUnit us unit ↔ u ∈ us ∧ u.unit = unit := by
  simp [ofUnit]

theorem SameByUnit.mem_iff (h : SameByUnit us vs) (u : UnitCatalog) : u ∈ us ↔ u ∈ vs := by
  have hunit := congrArg (u ∈ ·) (h u.unit)
  simpa [mem_ofUnit] using hunit

/-- Where no unit has two catalogs, any order is the order of each unit. -/
theorem sameByUnit_of_nodup (hperm : us.Perm vs) (hnodup : (us.map UnitCatalog.unit).Nodup) :
    SameByUnit us vs := by
  intro unit
  have hdistinct {ws : List UnitCatalog} (h : (ws.map UnitCatalog.unit).Nodup) :
      (ofUnit ws unit).Pairwise (·.unit ≠ ·.unit) :=
    (List.pairwise_map.1 h).filter _
  have hvs : (vs.map UnitCatalog.unit).Nodup := (hperm.map _).nodup_iff.1 hnodup
  apply List.Perm.eq_of_pairwise _ (hdistinct hnodup) (hdistinct hvs) (hperm.filter _)
  intro u v hu hv hne
  exact absurd ((mem_ofUnit.1 hu).2.trans (mem_ofUnit.1 hv).2.symm) hne

/-! ## Sorting -/

/-- The sort does not reorder the catalogs of a unit. -/
theorem ofUnit_mergeSort (us : List UnitCatalog) (unit : String) :
    ofUnit (us.mergeSort le) unit = ofUnit us unit := by
  refine filter_mergeSort le_trans le_total (fun u v hu hv => ?_) us
  have hunit : u.unit = v.unit := (eq_of_beq hu).trans (eq_of_beq hv).symm
  exact le_iff.2 (hunit ▸ String.le_refl u.unit)

/-- Sorted lists with the same catalogs of each unit are the same. -/
theorem eq_of_ofUnit_eq (hus : us.Pairwise fun u v => u.le v = true)
    (hvs : vs.Pairwise fun u v => u.le v = true) (h : SameByUnit us vs) : us = vs := by
  induction us generalizing vs with
  | nil =>
    cases vs with
    | nil => rfl
    | cons v vs => cases (h.mem_iff v).2 List.mem_cons_self
  | cons u us ih =>
    cases vs with
    | nil => cases (h.mem_iff u).1 List.mem_cons_self
    | cons v vs =>
      obtain ⟨hu, husRest⟩ := List.pairwise_cons.1 hus
      obtain ⟨hv, hvsRest⟩ := List.pairwise_cons.1 hvs
      -- each head stands in the other list too, so neither unit is behind the other
      have huv : u.unit ≤ v.unit := by
        rcases List.mem_cons.1 ((h.mem_iff v).2 List.mem_cons_self) with rfl | hmem
        · exact String.le_refl _
        · exact le_iff.1 (hu v hmem)
      have hvu : v.unit ≤ u.unit := by
        rcases List.mem_cons.1 ((h.mem_iff u).1 List.mem_cons_self) with rfl | hmem
        · exact String.le_refl _
        · exact le_iff.1 (hv u hmem)
      have hunit : u.unit = v.unit := String.le_antisymm huv hvu
      have hheads := h u.unit
      rw [ofUnit_cons_self, hunit, ofUnit_cons_self] at hheads
      obtain ⟨rfl, htails⟩ := List.cons.inj hheads
      congr 1
      apply ih husRest hvsRest
      intro unit
      by_cases hne : u.unit = unit
      · exact hne ▸ htails
      · have hrest := h unit
        rwa [ofUnit_cons_of_ne hne, ofUnit_cons_of_ne hne] at hrest

theorem SameByUnit.mergeSort_eq (h : SameByUnit us vs) : us.mergeSort le = vs.mergeSort le := by
  apply eq_of_ofUnit_eq (List.pairwise_mergeSort le_trans le_total us)
    (List.pairwise_mergeSort le_trans le_total vs)
  intro unit
  rw [ofUnit_mergeSort, ofUnit_mergeSort, h unit]

end UnitCatalog

/-! ## Merging -/

open UnitCatalog

/-- The order in which units are delivered does not count, if the catalogs of each unit keep their
order. They do when no unit has two catalogs. -/
theorem mergeUnits_eq_of_perm (policy : CommentPolicy) {us vs : List UnitCatalog}
    (hperm : us.Perm vs) (h : SameByUnit us vs ∨ (us.map UnitCatalog.unit).Nodup) :
    mergeUnits policy us = mergeUnits policy vs ∧
      ∀ header seed, ((mergeUnits policy us).document header seed).toPo =
        ((mergeUnits policy vs).document header seed).toPo := by
  have hsame : SameByUnit us vs := by
    rcases h with h | hnodup
    · exact h
    · exact sameByUnit_of_nodup hperm hnodup
  have hmerged : mergeUnits policy us = mergeUnits policy vs := by
    rw [mergeUnits, mergeUnits, hsame.mergeSort_eq]
  refine ⟨hmerged, ?_⟩
  intro header seed
  rw [hmerged]

/-- The catalog of a unit with one message. -/
def UnitCatalog.single (unit id comment : String) : UnitCatalog :=
  { unit, catalog := (Catalog.empty.add id { file := unit } comment).2 }

/-- Two catalogs of the unit `a.jsx` behind one of `b.jsx`. -/
def UnitCatalog.late : List UnitCatalog :=
  [single "b.jsx" "Save" "Menu", single "a.jsx" "Save" "Button", single "a.jsx" "Open" "Menu"]

/-- The same catalogs, with `b.jsx` between the two. -/
def UnitCatalog.between : List UnitCatalog :=
  [single "a.jsx" "Save" "Button", single "b.jsx" "Save" "Menu", single "a.jsx" "Open" "Menu"]

theorem mergeUnits_late_eq_between :
    late.Perm between ∧ SameByUnit late between ∧
      mergeUnits .concatenateDistinct late = mergeUnits .concatenateDistinct between := by
  have hperm : late.Perm between := .swap _ _ _
  have hsame : SameByUnit late between := by
    intro unit
    by_cases ha : "a.jsx" = unit
    · subst ha
      rfl
    · simp [late, between, ofUnit, single, ha, List.filter_cons]
  exact ⟨hperm, hsame, (mergeUnits_eq_of_perm .concatenateDistinct hperm (.inl hsame)).1⟩

end Phrasebook
