-- SUMMARY: The records of a document are the catalog: folded into the empty catalog they give it back.
import Phrasebook.Catalog.Document
import Phrasebook.Proofs.Catalog.Collecting

/-!
# Documents and catalogs

An entry of an id that the catalog lacks is taken over as it is, provided that it refers to no
location twice (`Entry.absorb_own`). Entries of distinct ids are therefore the entries of the
catalog that they are folded into, whatever becomes of comments (`toList_mergeEntries`), and the
records of a document make its catalog again, with the translations that the document was given
(`Reachable.catalog_document`).
-/
namespace Phrasebook

/-! ## Entries taken over -/

namespace Entry

/-- A new entry of the id becomes the entry that it absorbs. -/
theorem absorb_own (policy : CommentPolicy) {entry : Entry} (h : entry.references.Nodup) :
    absorb { id := entry.id } policy entry = entry := by
  have hreferences : FirstSeen.union [] entry.references = entry.references :=
    FirstSeen.union_of_nodup h
  rw [absorb_eq, hreferences, CommentPolicy.none_combine]
  rfl

@[simp] theorem id_seeded (seed : TranslationSeed) (entry : Entry) :
    (entry.seeded seed).id = entry.id := by
  cases seed with
  | empty => rfl
  | sourceText => rw [seeded]; split <;> rfl

@[simp] theorem references_seeded (seed : TranslationSeed) (entry : Entry) :
    (entry.seeded seed).references = entry.references := by
  cases seed with
  | empty => rfl
  | sourceText => rw [seeded]; split <;> rfl

/-- An entry that has its first translation needs none. -/
theorem seeded_sourceText (seed : TranslationSeed) (entry : Entry) :
    (entry.seeded .sourceText).seeded seed = entry.seeded .sourceText := by
  cases seed with
  | empty => rfl
  | sourceText =>
    cases h : entry.translations.isEmpty <;> simp [seeded, h]

end Entry

/-- The catalog that the records of a document make when they are read as entries. -/
def CatalogDocument.catalog (document : CatalogDocument) (policy : CommentPolicy) : Catalog :=
  Catalog.empty.mergeEntries policy document.records

namespace Catalog

variable {catalog : Catalog} {entries : List Entry}

/-- Entries of new, distinct ids are appended. -/
theorem Lawful.toList_mergeEntries (h : catalog.Lawful) (policy : CommentPolicy)
    (hids : (catalog.ids ++ entries.map Entry.id).Nodup)
    (hreferences : ∀ entry ∈ entries, entry.references.Nodup) :
    (catalog.mergeEntries policy entries).toList = catalog.toList ++ entries := by
  induction entries generalizing catalog with
  | nil => exact catalog.toList.append_nil.symm
  | cons entry entries ih =>
    obtain ⟨hentry, hentries⟩ := List.forall_mem_cons.1 hreferences
    have hnew : entry.id ∉ catalog.ids := fun hmem =>
      (List.nodup_append.1 hids).2.2 entry.id hmem entry.id List.mem_cons_self rfl
    have hmerged : (catalog.mergeEntry policy entry).toList = catalog.toList ++ [entry] := by
      rw [Catalog.mergeEntry, h.toList_update, if_neg hnew, Entry.absorb_own policy hentry]
    have hids' : ((catalog.mergeEntry policy entry).ids ++ entries.map Entry.id).Nodup := by
      rw [h.ids_mergeEntry, FirstSeen.add_of_not_mem hnew, ← List.append_cons]
      exact hids
    rw [mergeEntries_cons, ih (h.mergeEntry policy entry) hids' hentries, hmerged,
      ← List.append_cons]

/-- The catalog with its entries changed, ids apart. -/
theorem Lawful.map_entries (h : catalog.Lawful) {change : Entry → Entry}
    (hid : ∀ entry, (change entry).id = entry.id) :
    ({ catalog with entries := catalog.entries.map change } : Catalog).Lawful := by
  have hids : ({ catalog with entries := catalog.entries.map change } : Catalog).ids =
      catalog.ids := by
    simp [ids, toList, hid]
  constructor
  · rw [hids]
    exact h.nodup
  · rw [hids]
    exact h.index_eq

/-- Entries that differ from those of a catalog in translations and comments only make the catalog
with its entries changed like this. -/
theorem Reachable.mergeEntries_map (h : catalog.Reachable) (policy : CommentPolicy)
    (change : Entry → Entry) (hid : ∀ entry, (change entry).id = entry.id)
    (hreferences : ∀ entry, (change entry).references = entry.references) :
    Catalog.empty.mergeEntries policy (catalog.toList.map change) =
      { catalog with entries := catalog.entries.map change } := by
  obtain ⟨hlawful, hdistinct⟩ := h.lawful_distinct
  apply (lawful_empty.mergeEntries _ _).eq_of_toList_eq (hlawful.map_entries hid)
  rw [lawful_empty.toList_mergeEntries policy]
  · simp [toList, Catalog.empty]
  · simpa [ids, Catalog.empty, toList, hid, Function.comp_def] using hlawful.nodup
  · simp only [List.forall_mem_map, hreferences]
    exact (hlawful.coherent hdistinct).references_nodup

/-- The entries of a catalog make the catalog. -/
theorem Reachable.mergeEntries_toList (h : catalog.Reachable) (policy : CommentPolicy) :
    Catalog.empty.mergeEntries policy catalog.toList = catalog := by
  simpa using h.mergeEntries_map policy id (fun _ => rfl) fun _ => rfl

/-- The records of a document make its catalog again. With the source text for translations, they
make the catalog in which it is the translation of every message that has none, and that has the
same document with either seed. -/
theorem Reachable.catalog_document (h : catalog.Reachable) (header : Header)
    (policy : CommentPolicy) :
    (catalog.document header .empty).catalog policy = catalog ∧
      (catalog.document header .sourceText).catalog policy =
        { catalog with
          entries := catalog.entries.map fun entry =>
            if entry.translations = [] then { entry with translations := [entry.id] } else entry } ∧
      ∀ seed, ((catalog.document header .sourceText).catalog policy).document header seed =
        catalog.document header .sourceText := by
  have hseeded : Entry.seeded .sourceText = fun entry =>
      if entry.translations = [] then { entry with translations := [entry.id] } else entry := by
    funext entry
    simp [Entry.seeded]
  have hsource : (catalog.document header .sourceText).catalog policy =
      { catalog with entries := catalog.entries.map (Entry.seeded .sourceText) } :=
    h.mergeEntries_map policy _ (Entry.id_seeded _) (Entry.references_seeded _)
  refine ⟨?_, ?_, ?_⟩
  · have hrecords : (catalog.document header .empty).records = catalog.toList := List.map_id _
    rw [CatalogDocument.catalog, hrecords, h.mergeEntries_toList]
  · rw [hsource, hseeded]
  · intro seed
    rw [hsource]
    simp [document, toList, Entry.seeded_sourceText]

theorem catalog_document_menu :
    menu.Reachable ∧
      (menu.document (.stamped "2024-05-01 00:00+0000") .empty).catalog .concatenateDistinct =
        menu ∧
      ((menu.document (.stamped "2024-05-01 00:00+0000") .sourceText).catalog
        .concatenateDistinct).toList.map Entry.translations = [["Open"], ["Speichern"]] := by
  have hmenu : menu.Reachable := .mergeEntry _ _ (.add _ _ _ .empty)
  obtain ⟨hempty, hsource, -⟩ :=
    hmenu.catalog_document (.stamped "2024-05-01 00:00+0000") .concatenateDistinct
  refine ⟨hmenu, hempty, ?_⟩
  rw [hsource]
  cbv

end Catalog

end Phrasebook
