-- SUMMARY: What holds of every catalog that can be built, and what each operation leaves as it was.
import Phrasebook.Proofs.Catalog.Merging

/-!
# Reachable catalogs

A catalog is built by recording occurrences, folding in entries and merging (`Catalog.Reachable`).
All of this folds in entries one after the other, so a property of the empty catalog that
`mergeEntry` keeps holds of every such catalog (`Reachable.of_mergeEntry`). The entries and the
index then say the same (`Coherent`), and an operation on one id only extends the entry of this id
(`Catalog.Extends`).
-/
namespace Phrasebook

/-! ## Extended entries -/

/-- What an entry keeps when its message is seen again. -/
structure Entry.Extends (before after : Entry) : Prop where
  id_eq        : after.id = before.id
  /-- The references stay, in their order, in front of the new ones. -/
  references   : before.references <+: after.references
  /-- Translations are only taken over where there were none. -/
  translations : before.translations ≠ [] → after.translations = before.translations

theorem Entry.extends_absorb (policy : CommentPolicy) (x y : Entry) :
    x.Extends (x.absorb policy y) := by
  rw [Entry.absorb_eq]
  refine ⟨rfl, FirstSeen.prefix_union, ?_⟩
  intro htranslated
  exact if_neg (by simpa using htranslated)

namespace Catalog

variable {catalog : Catalog} {id : String} {change : Entry → Entry}

/-! ## Extended catalogs -/

/-- What a catalog keeps in an operation on one id. -/
structure Extends (id : String) (before after : Catalog) : Prop where
  /-- The id has an entry afterwards. -/
  mem    : id ∈ after.ids
  /-- Every other id has the same entry at the same position. -/
  others : ∀ (position : Nat) (entry : Entry), entry.id ≠ id →
    (before.entries[position]? = some entry ↔ after.entries[position]? = some entry)
  /-- The entry of the id keeps its position. -/
  own    : ∀ (position : Nat) (entry : Entry), entry.id = id →
    before.entries[position]? = some entry →
    ∃ extended, after.entries[position]? = some extended ∧ entry.Extends extended

theorem Lawful.fst_update (h : catalog.Lawful) (id : String) (change : Entry → Entry) :
    (catalog.update id change).1 = true ↔ id ∉ catalog.ids := by
  by_cases hid : id ∈ catalog.ids
  · obtain ⟨position, -, hupdate⟩ := h.update_of_mem hid change
    simp [hupdate, hid]
  · simp [h.update_of_not_mem hid, hid]

theorem mem_ids_of_getElem? {position : Nat} {entry : Entry}
    (h : catalog.entries[position]? = some entry) : entry.id ∈ catalog.ids := by
  apply List.mem_map_of_mem
  exact Array.mem_toList_iff.2 (Array.mem_of_getElem? h)

/-- The entry of the id is changed where it stands, or stands behind all others if it is new. -/
theorem Lawful.getElem?_update (h : catalog.Lawful) (id : String) (change : Entry → Entry)
    (position : Nat) :
    (catalog.update id change).2.entries[position]? =
      if id ∈ catalog.ids then catalog.entries[position]?.map (Entry.changeAt id change)
      else (catalog.entries.push (change { id }))[position]? := by
  by_cases hid : id ∈ catalog.ids
  · have hafter := h.toList_update id change
    rw [if_pos hid] at hafter ⊢
    rw [← Array.getElem?_toList, ← Array.getElem?_toList, ← List.getElem?_map]
    exact congrArg (·[position]?) hafter
  · rw [if_neg hid, h.update_of_not_mem hid]

theorem Lawful.extends_update (h : catalog.Lawful) (id : String)
    (hchange : ∀ entry : Entry, entry.Extends (change entry)) :
    Extends id catalog (catalog.update id change).2 := by
  have hkept : ∀ entry : Entry, (change entry).id = entry.id := fun entry => (hchange entry).id_eq
  refine ⟨?_, ?_, ?_⟩
  · rw [h.ids_update hkept, FirstSeen.mem_add]
    exact Or.inr rfl
  · intro position entry hother
    rw [h.getElem?_update]
    by_cases hid : id ∈ catalog.ids
    · rw [if_pos hid, Option.map_eq_some_iff]
      constructor
      · intro hentry
        exact ⟨entry, hentry, if_neg hother⟩
      · rintro ⟨found, hfound, rfl⟩
        have hne : found.id ≠ id := Entry.id_changeAt hkept found ▸ hother
        rwa [Entry.changeAt, if_neg hne]
    · rw [if_neg hid, Array.getElem?_push]
      split
      · rename_i hlast
        have hnew : change { id } ≠ entry := fun heq => hother (heq ▸ hkept { id })
        simp [hlast, hnew]
      · rfl
  · intro position entry hown hentry
    have hid : id ∈ catalog.ids := hown ▸ mem_ids_of_getElem? hentry
    refine ⟨change entry, ?_, hchange entry⟩
    rw [h.getElem?_update, if_pos hid, hentry, Option.map_some, Entry.changeAt, if_pos hown]

theorem Lawful.extends_mergeEntry (h : catalog.Lawful) (policy : CommentPolicy)
    (incoming : Entry) : Extends incoming.id catalog (catalog.mergeEntry policy incoming) :=
  h.extends_update incoming.id fun entry => entry.extends_absorb policy incoming

/-! ## Coherent catalogs -/

/-- The entries have distinct ids, the index tells the position of each, and no entry refers to a
location twice. -/
structure Coherent (catalog : Catalog) : Prop where
  ids_nodup        : catalog.ids.Nodup
  /-- A position in the index is one of the entries, and the entry there has the id. -/
  index_iff        : ∀ (id : String) (position : Nat), catalog.index[id]? = some position ↔
    ∃ entry, catalog.entries[position]? = some entry ∧ entry.id = id
  get?_iff         : ∀ (id : String) (entry : Entry), catalog.get? id = some entry ↔
    entry ∈ catalog.toList ∧ entry.id = id
  get?_eq_none_iff : ∀ id : String, catalog.get? id = none ↔ id ∉ catalog.ids
  references_nodup : ∀ entry ∈ catalog.toList, entry.references.Nodup

theorem idxOf?_eq_some_iff {ids : List String} (hnodup : ids.Nodup) {position : Nat} :
    ids.idxOf? id = some position ↔ ids[position]? = some id := by
  rw [List.idxOf?_eq_some_iff, List.getElem?_eq_some_iff]
  constructor
  · rintro ⟨hlt, hid, -⟩
    exact ⟨hlt, hid⟩
  · rintro ⟨hlt, hid⟩
    refine ⟨hlt, hid, ?_⟩
    intro earlier hearlier heq
    have hne := List.pairwise_iff_getElem.1 hnodup earlier position (by omega) hlt hearlier
    exact hne (heq.trans hid.symm)

theorem Lawful.index_iff (h : catalog.Lawful) (id : String) (position : Nat) :
    catalog.index[id]? = some position ↔
      ∃ entry, catalog.entries[position]? = some entry ∧ entry.id = id := by
  rw [h.index_eq, getElem?_indexOf h.nodup, idxOf?_eq_some_iff h.nodup, ids, List.getElem?_map,
    toList, Array.getElem?_toList, Option.map_eq_some_iff]

theorem Lawful.get?_iff (h : catalog.Lawful) (id : String) (entry : Entry) :
    catalog.get? id = some entry ↔ entry ∈ catalog.toList ∧ entry.id = id := by
  constructor
  · intro hget
    obtain rfl := h.id_of_get? hget
    exact ⟨h.mem_toList_iff.2 hget, rfl⟩
  · rintro ⟨hmem, rfl⟩
    exact h.mem_toList_iff.1 hmem

theorem Lawful.get?_eq_none_iff (h : catalog.Lawful) (id : String) :
    catalog.get? id = none ↔ id ∉ catalog.ids := by
  rw [← h.isSome_get?_iff, Option.not_isSome_iff_eq_none]

/-- No entry refers to a location twice. -/
def Distinct (catalog : Catalog) : Prop :=
  ∀ id entry, catalog.get? id = some entry → entry.references.Nodup

theorem distinct_empty : empty.Distinct := by
  intro id entry hget
  rw [get?_empty] at hget
  cases hget

theorem Lawful.distinct_mergeEntry (h : catalog.Lawful) (hdistinct : catalog.Distinct)
    (policy : CommentPolicy) (incoming : Entry) :
    (catalog.mergeEntry policy incoming).Distinct := by
  intro id entry hget
  rw [h.get?_mergeEntry] at hget
  split at hget
  · rw [Entry.absorbInto, Option.some.injEq] at hget
    rw [← hget, Entry.absorb_eq]
    apply FirstSeen.nodup_union
    cases hfound : catalog.get? id with
    | none => exact List.nodup_nil
    | some found => exact hdistinct id found hfound
  · exact hdistinct id entry hget

theorem Lawful.coherent (h : catalog.Lawful) (hdistinct : catalog.Distinct) :
    catalog.Coherent where
  ids_nodup        := h.nodup
  index_iff        := h.index_iff
  get?_iff         := h.get?_iff
  get?_eq_none_iff := h.get?_eq_none_iff
  references_nodup := fun entry hentry =>
    hdistinct entry.id entry (h.mem_toList_iff.1 hentry)

/-! ## Reachable catalogs -/

/-- The catalogs that can be built. -/
inductive Reachable : Catalog → Prop
  | empty : Reachable Catalog.empty
  | add {catalog : Catalog} (id : String) (location : Location) (comment : Option String)
      (h : Reachable catalog) : Reachable (catalog.add id location comment).2
  | mergeEntry {catalog : Catalog} (policy : CommentPolicy) (incoming : Entry)
      (h : Reachable catalog) : Reachable (catalog.mergeEntry policy incoming)
  | mergeAll {catalogs : List Catalog} (policy : CommentPolicy)
      (h : ∀ catalog ∈ catalogs, Reachable catalog) : Reachable (Catalog.mergeAll policy catalogs)
  | mergeUnits {units : List UnitCatalog} (policy : CommentPolicy)
      (h : ∀ unit ∈ units, Reachable unit.catalog) : Reachable (Phrasebook.mergeUnits policy units)

section Induction

variable {P : Catalog → Prop}
  (hmerge : ∀ policy catalog incoming, P catalog → P (catalog.mergeEntry policy incoming))
include hmerge

theorem mergeEntries_of_mergeEntry (policy : CommentPolicy) (entries : List Entry)
    (h : P catalog) : P (catalog.mergeEntries policy entries) := by
  induction entries generalizing catalog with
  | nil => exact h
  | cons entry entries ih => exact ih (hmerge policy catalog entry h)

theorem mergeAll_of_mergeEntry (policy : CommentPolicy) (catalogs : List Catalog)
    (hempty : P empty) : P (mergeAll policy catalogs) := by
  rw [mergeAll_eq_mergeEntries]
  exact mergeEntries_of_mergeEntry hmerge policy _ hempty

/-- What the empty catalog has and folding in an entry keeps, every reachable catalog has. -/
theorem Reachable.of_mergeEntry (hempty : P Catalog.empty) (h : catalog.Reachable) : P catalog := by
  induction h with
  | empty => exact hempty
  | add id location comment _ ih =>
    rw [add_eq_mergeEntry]
    exact hmerge _ _ _ ih
  | mergeEntry policy incoming _ ih => exact hmerge policy _ incoming ih
  | mergeAll policy _ _ => exact mergeAll_of_mergeEntry hmerge policy _ hempty
  | mergeUnits policy _ _ => exact mergeAll_of_mergeEntry hmerge policy _ hempty

end Induction

theorem Reachable.lawful_distinct (h : catalog.Reachable) :
    catalog.Lawful ∧ catalog.Distinct := by
  apply h.of_mergeEntry (P := fun catalog => catalog.Lawful ∧ catalog.Distinct)
  · intro policy catalog incoming ⟨hlawful, hdistinct⟩
    exact ⟨hlawful.mergeEntry policy incoming,
      hlawful.distinct_mergeEntry hdistinct policy incoming⟩
  · exact ⟨lawful_empty, distinct_empty⟩

theorem Reachable.lawful (h : catalog.Reachable) : catalog.Lawful := h.lawful_distinct.1

/-- Every catalog that can be built is coherent. Recording an occurrence tells whether the id is
new, and recording and folding in extend the entry of their id and leave the others. -/
theorem Reachable.coherent_and_extends (h : catalog.Reachable) :
    catalog.Coherent ∧
      (∀ id location comment,
        ((catalog.add id location comment).1 = true ↔ id ∉ catalog.ids) ∧
        Extends id catalog (catalog.add id location comment).2) ∧
      ∀ policy incoming, Extends incoming.id catalog (catalog.mergeEntry policy incoming) := by
  obtain ⟨hlawful, hdistinct⟩ := h.lawful_distinct
  refine ⟨hlawful.coherent hdistinct, ?_, hlawful.extends_mergeEntry⟩
  intro id location comment
  refine ⟨hlawful.fst_update id _, ?_⟩
  rw [add_eq_mergeEntry]
  exact hlawful.extends_mergeEntry .keepFirst { id, references := [location], comment }

/-- A message that is recorded, and then folded in with a translation and a repeated reference. -/
def toolbar : Catalog :=
  (empty.add "Save" { file := "a.jsx", line := some 3 } "Button").2.mergeEntry .keepFirst
    { id           := "Save"
      translations := ["Sichern"]
      references   := [{ file := "b.jsx" }, { file := "b.jsx" }] }

theorem coherent_toolbar :
    toolbar.Reachable ∧ toolbar.Coherent ∧
      Extends "Save" toolbar (toolbar.add "Save" { file := "c.jsx" } "Menu").2 := by
  have hreachable : toolbar.Reachable := .mergeEntry _ _ (.add _ _ _ .empty)
  obtain ⟨hcoherent, hadd, -⟩ := hreachable.coherent_and_extends
  exact ⟨hreachable, hcoherent, (hadd "Save" { file := "c.jsx" } "Menu").2⟩

end Catalog

end Phrasebook
