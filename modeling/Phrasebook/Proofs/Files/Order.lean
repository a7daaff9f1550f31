-- SUMMARY: The order of paths, and what a sorted list of paths without repetition holds.
import Phrasebook.Files.Path
import Phrasebook.Proofs.Lists.Sorting

/-!
# The order of paths

Paths are in a linear order but for their spelling (`Path.le_trans`, `Path.le_total`,
`Path.same_of_le_of_le`). A sorted list without repetition is strictly sorted
(`Path.pairwise_sortedDistinct`) and holds, of the paths that are the same, the one given first
(`Path.mem_sortedDistinct`). Two lists of paths therefore sort to the same list exactly if they give
every path in the same spelling first (`Path.sortedDistinct_eq_iff`).
-/
namespace Phrasebook.Path

/-! ## Components -/

namespace Component

variable {a b c : Component}

theorem name_lt_iff {s t : String} : (name s).lt (name t) = true ↔ s < t := decide_eq_true_iff

theorem lt_irrefl (a : Component) : a.lt a = false := by
  cases a <;> simp [lt, rank]

theorem lt_trans (hab : a.lt b = true) (hbc : b.lt c = true) : a.lt c = true := by
  cases a <;> cases b <;> cases c
  case name.name.name s t u =>
    exact name_lt_iff.2 (String.lt_trans (name_lt_iff.1 hab) (name_lt_iff.1 hbc))
  all_goals simp_all [lt, rank]

theorem lt_or_eq_or_lt (a b : Component) : a.lt b = true ∨ a = b ∨ b.lt a = true := by
  cases a <;> cases b
  case name.name s t =>
    rw [name_lt_iff, name_lt_iff]
    by_cases hst : s < t
    · exact .inl hst
    · by_cases hts : t < s
      · exact .inr (.inr hts)
      · exact .inr (.inl (congrArg name
          (String.le_antisymm (String.not_lt.1 hts) (String.not_lt.1 hst))))
  all_goals simp [lt, rank]

end Component

/-! ## The order -/

variable {a b c : Path}

theorem componentsLe_total (as bs : List Component) :
    componentsLe as bs = true ∨ componentsLe bs as = true := by
  induction as generalizing bs with
  | nil => exact .inl rfl
  | cons a as ih =>
    cases bs with
    | nil => exact .inr rfl
    | cons b bs =>
      rw [componentsLe, componentsLe]
      rcases Component.lt_or_eq_or_lt a b with h | rfl | h
      · have hne : a ≠ b := by rintro rfl; simp [Component.lt_irrefl] at h
        exact .inl (by rw [if_neg hne, h])
      · simpa using ih bs
      · have hne : b ≠ a := by rintro rfl; simp [Component.lt_irrefl] at h
        exact .inr (by rw [if_neg hne, h])

theorem componentsLe_trans {as bs cs : List Component} (hab : componentsLe as bs = true)
    (hbc : componentsLe bs cs = true) : componentsLe as cs = true := by
  induction as generalizing bs cs with
  | nil => rfl
  | cons a as ih =>
    cases bs with
    | nil => cases hab
    | cons b bs =>
      cases cs with
      | nil => cases hbc
      | cons c cs =>
        rw [componentsLe] at hab hbc ⊢
        by_cases h : a = b
        · subst h
          rw [if_pos rfl] at hab
          by_cases h' : a = c
          · rw [if_pos h'] at hbc ⊢
            exact ih hab hbc
          · rwa [if_neg h'] at hbc ⊢
        · rw [if_neg h] at hab
          by_cases h' : b = c
          · rwa [← h', if_neg h]
          · rw [if_neg h'] at hbc
            have hac := Component.lt_trans hab hbc
            have hne : a ≠ c := by rintro rfl; simp [Component.lt_irrefl] at hac
            rwa [if_neg hne]

theorem componentsLe_antisymm {as bs : List Component} (hab : componentsLe as bs = true)
    (hba : componentsLe bs as = true) : as = bs := by
  induction as generalizing bs with
  | nil =>
    cases bs with
    | nil => rfl
    | cons b bs => cases hba
  | cons a as ih =>
    cases bs with
    | nil => cases hab
    | cons b bs =>
      rw [componentsLe] at hab hba
      by_cases h : a = b
      · subst h
        rw [if_pos rfl] at hab hba
        rw [ih hab hba]
      · rw [if_neg h] at hab
        rw [if_neg (Ne.symm h)] at hba
        simpa [Component.lt_irrefl] using Component.lt_trans hab hba

theorem le_total (a b : Path) : (a.le b || b.le a) = true := by
  simpa [le] using componentsLe_total a.components b.components

theorem le_trans (a b c : Path) (hab : a.le b = true) (hbc : b.le c = true) : a.le c = true :=
  componentsLe_trans hab hbc

theorem same_iff : a.same b = true ↔ a.components = b.components := beq_iff_eq

theorem same_refl (a : Path) : a.same a = true := same_iff.2 rfl

/-- Paths of the same components stand in one place of the order. -/
theorem le_of_same (h : a.same b = true) : a.le b = true := by
  have hself := le_total a a
  rw [Bool.or_self] at hself
  rwa [le, ← same_iff.1 h]

theorem same_of_le_of_le (hab : a.le b = true) (hba : b.le a = true) : a.same b = true :=
  same_iff.2 (componentsLe_antisymm hab hba)

/-- The path comes before the other and is not the same. -/
def Before (a b : Path) : Prop := a.le b = true ∧ a.same b = false

/-! ## Sorted lists without repetition -/

theorem dropSame_sublist (kept : Path) (paths : List Path) :
    (dropSame kept paths).Sublist paths := by
  induction paths generalizing kept with
  | nil => exact .slnil
  | cons path paths ih =>
    rw [dropSame]
    split
    · exact (ih kept).cons path
    · exact (ih path).cons_cons path

/-- Of paths in order, those that are kept are strictly in order. -/
theorem pairwise_dropSame {kept : Path} {paths : List Path}
    (h : (kept :: paths).Pairwise fun a b => a.le b = true) :
    (kept :: dropSame kept paths).Pairwise Before := by
  induction paths generalizing kept with
  | nil => exact List.pairwise_singleton ..
  | cons path paths ih =>
    obtain ⟨hkept, hpaths⟩ := List.pairwise_cons.1 h
    rw [dropSame]
    split
    · refine ih (List.pairwise_cons.2 ⟨fun other hother => ?_, (List.pairwise_cons.1 hpaths).2⟩)
      exact hkept other (List.mem_cons_of_mem _ hother)
    · rename_i hdiffer
      refine List.pairwise_cons.2 ⟨fun other hother => ?_, ih hpaths⟩
      have hmem : other ∈ path :: paths :=
        ((dropSame_sublist path paths).cons_cons path).subset hother
      refine ⟨hkept other hmem, ?_⟩
      -- a later path that were the same as the kept one would make the one between them the same
      rw [Bool.eq_false_iff]
      intro hsame
      have hother : path.le other = true := by
        rcases List.mem_cons.1 hmem with rfl | hlater
        · exact le_of_same (same_refl other)
        · exact (List.pairwise_cons.1 hpaths).1 other hlater
      have hback : path.le kept = true := by
        refine le_trans _ _ _ hother (le_of_same ?_)
        rw [same_iff, same_iff.1 hsame]
      exact hdiffer (same_of_le_of_le (hkept path List.mem_cons_self) hback)

/-- The first of the paths that are the same is kept. -/
theorem find?_dropSame (path kept : Path) (paths : List Path) :
    (kept :: dropSame kept paths).find? path.same = (kept :: paths).find? path.same := by
  induction paths generalizing kept with
  | nil => rfl
  | cons first paths ih =>
    rw [dropSame]
    by_cases hkept : path.same kept = true
    · rw [List.find?_cons_of_pos hkept, List.find?_cons_of_pos hkept]
    · split
      · rename_i hsame
        have hfirst : ¬path.same first = true := by
          rwa [same_iff, ← same_iff.1 hsame, ← same_iff]
        rw [ih kept, List.find?_cons_of_neg hkept, List.find?_cons_of_neg hkept,
          List.find?_cons_of_neg hfirst]
      · rw [List.find?_cons_of_neg hkept, List.find?_cons_of_neg hkept, ih first]

/-- The sorted list is strictly in order. -/
theorem pairwise_sortedDistinct (paths : List Path) : (sortedDistinct paths).Pairwise Before := by
  have hsorted := List.pairwise_mergeSort le_trans le_total paths
  rw [sortedDistinct]
  cases hpaths : paths.mergeSort le with
  | nil => exact .nil
  | cons first rest => exact pairwise_dropSame (hpaths ▸ hsorted)

theorem find?_sortedDistinct (path : Path) (paths : List Path) :
    (sortedDistinct paths).find? path.same = paths.find? path.same := by
  have halike (a b : Path) (ha : path.same a = true) (hb : path.same b = true) :
      a.le b = true := by
    refine le_of_same ?_
    rw [same_iff, ← same_iff.1 ha, same_iff.1 hb]
  rw [← find?_mergeSort le_trans le_total halike paths, sortedDistinct]
  cases paths.mergeSort le with
  | nil => rfl
  | cons first rest => exact find?_dropSame path first rest

theorem find?_same_eq_self {path : Path} {paths : List Path} (hordered : paths.Pairwise Before)
    (h : path ∈ paths) : paths.find? path.same = some path := by
  induction paths with
  | nil => cases h
  | cons first paths ih =>
    obtain ⟨hfirst, hrest⟩ := List.pairwise_cons.1 hordered
    rcases List.mem_cons.1 h with rfl | h
    · exact List.find?_cons_of_pos (same_refl path)
    · have hdiffer : ¬path.same first = true := by
        intro hsame
        have hback : first.same path = true := same_iff.2 (same_iff.1 hsame).symm
        rw [(hfirst path h).2] at hback
        cases hback
      rw [List.find?_cons_of_neg hdiffer, ih hrest h]

/-- The sorted list holds the path that is given first among those that are the same. -/
theorem mem_sortedDistinct {path : Path} {paths : List Path} :
    path ∈ sortedDistinct paths ↔ paths.find? path.same = some path := by
  rw [← find?_sortedDistinct]
  exact ⟨find?_same_eq_self (pairwise_sortedDistinct paths), List.mem_of_find?_eq_some⟩

theorem Before.ne (h : a.Before b) : a ≠ b := by
  rintro rfl
  have hself := h.2
  rw [same_refl] at hself
  cases hself

/-- Both lists give every path in the same spelling first, or not at all. -/
def SpelledAlike (ps qs : List Path) : Prop :=
  ∀ path : Path, ps.find? path.same = qs.find? path.same

/-- Lists of paths sort to one list exactly if they give every path in one spelling first. -/
theorem sortedDistinct_eq_iff {ps qs : List Path} :
    sortedDistinct ps = sortedDistinct qs ↔ SpelledAlike ps qs := by
  constructor
  · intro h path
    rw [← find?_sortedDistinct, h, find?_sortedDistinct]
  · intro h
    have hmem (path : Path) : path ∈ sortedDistinct ps ↔ path ∈ sortedDistinct qs := by
      rw [mem_sortedDistinct, mem_sortedDistinct, h path]
    have hnodup (paths : List Path) : (sortedDistinct paths).Nodup :=
      (pairwise_sortedDistinct paths).imp Before.ne
    have hperm := (List.perm_ext_iff_of_nodup (hnodup ps) (hnodup qs)).2 hmem
    refine List.Perm.eq_of_pairwise (fun a b _ _ hab hba => ?_) (pairwise_sortedDistinct ps)
      (pairwise_sortedDistinct qs) hperm
    have hsame := same_of_le_of_le hab.1 hba.1
    rw [hab.2] at hsame
    cases hsame

/-- Every path is in the sorted list in some spelling. -/
theorem mem_components_sortedDistinct {paths : List Path} {components : List Component} :
    components ∈ (sortedDistinct paths).map Path.components ↔
      components ∈ paths.map Path.components := by
  simp only [List.mem_map]
  constructor
  · rintro ⟨path, hpath, rfl⟩
    exact ⟨path, List.mem_of_find?_eq_some (mem_sortedDistinct.1 hpath), rfl⟩
  · rintro ⟨path, hpath, rfl⟩
    obtain ⟨first, hfirst⟩ := Option.isSome_iff_exists.1
      (List.find?_isSome.2 ⟨path, hpath, same_refl path⟩)
    have hsame : path.same first = true := List.find?_some hfirst
    rw [← find?_sortedDistinct] at hfirst
    exact ⟨first, List.mem_of_find?_eq_some hfirst, (same_iff.1 hsame).symm⟩

/-- Paths given in another order are the same paths, perhaps in other spellings. -/
theorem components_sortedDistinct_of_perm {ps qs : List Path} (h : ps.Perm qs) :
    (sortedDistinct ps).map components = (sortedDistinct qs).map components := by
  have hordered (paths : List Path) :
      ((sortedDistinct paths).map components).Pairwise fun as bs =>
        componentsLe as bs = true ∧ as ≠ bs := by
    refine List.pairwise_map.2 ((pairwise_sortedDistinct paths).imp fun hbefore => ?_)
    refine ⟨hbefore.1, fun heq => ?_⟩
    have hsame := same_iff.2 heq
    rw [hbefore.2] at hsame
    cases hsame
  have hmem (components : List Component) :
      components ∈ (sortedDistinct ps).map Path.components ↔
        components ∈ (sortedDistinct qs).map Path.components := by
    rw [mem_components_sortedDistinct, mem_components_sortedDistinct, (h.map _).mem_iff]
  have hperm := (List.perm_ext_iff_of_nodup ((hordered ps).imp And.right)
    ((hordered qs).imp And.right)).2 hmem
  exact List.Perm.eq_of_pairwise (fun _ _ _ _ hab hba => componentsLe_antisymm hab.1 hba.1)
    (hordered ps) (hordered qs) hperm

/-- Where no path is given in two spellings, the order of the paths does not count. -/
theorem spelledAlike_of_perm {ps qs : List Path} (hperm : ps.Perm qs)
    (hspelled : ∀ a ∈ ps, ∀ b ∈ ps, a.same b = true → a = b) : SpelledAlike ps qs := by
  intro path
  cases hps : ps.find? path.same with
  | none =>
    rw [eq_comm, List.find?_eq_none]
    intro other hother
    exact List.find?_eq_none.1 hps other (hperm.mem_iff.2 hother)
  | some found =>
    have hfound : path.same found = true := List.find?_some hps
    have hmem : found ∈ ps := List.mem_of_find?_eq_some hps
    obtain ⟨other, hother⟩ := Option.isSome_iff_exists.1
      (List.find?_isSome.2 ⟨found, hperm.mem_iff.1 hmem, hfound⟩)
    have hsame : found.same other = true := by
      rw [same_iff, ← same_iff.1 hfound, same_iff.1 (List.find?_some hother)]
    have heq := hspelled found hmem other
      (hperm.mem_iff.2 (List.mem_of_find?_eq_some hother)) hsame
    rw [hother, heq]

end Phrasebook.Path
