-- SUMMARY: Folding entries into a catalog, id by id, and why entries may be gathered before.
import Phrasebook.Catalog.Merge
import Phrasebook.Proofs.Catalog.Entries

/-!
# Merging entries

Entries are folded into a catalog one after the other. What is found for an id afterwards depends
only on the entries of this id (`Lawful.get?_mergeEntries`), and the ids stand in the order in which
they were first seen (`Lawful.ids_mergeEntries`). Keeping the first comment, absorbing entries is
associative (`Entry.absorb_assoc`), so entries may be gathered in a catalog of their own first
(`Lawful.mergeEntries_ofEntries`).
-/
namespace Phrasebook

/-! ## Comments -/

theorem CommentPolicy.combine_none (policy : CommentPolicy) (comment : Option String) :
    policy.combine comment none = comment := by
  cases comment <;> rfl

theorem CommentPolicy.none_combine (policy : CommentPolicy) (comment : Option String) :
    policy.combine none comment = comment := by
  cases comment <;> rfl

theorem CommentPolicy.combine_keepFirst (existing incoming : Option String) :
    CommentPolicy.keepFirst.combine existing incoming = existing.or incoming := by
  cases existing <;> cases incoming <;> rfl

/-! ## Absorbing an entry -/

namespace Entry

variable (policy : CommentPolicy) (x y z : Entry)

theorem addReference_eq (location : Location) :
    x.addReference location =
      { x with references := FirstSeen.add x.references location } := by
  unfold addReference FirstSeen.add
  split <;> rfl

theorem addReferences_eq (locations : List Location) :
    x.addReferences locations =
      { x with references := FirstSeen.union x.references locations } := by
  unfold addReferences
  induction locations generalizing x with
  | nil => rfl
  | cons location locations ih =>
    rw [List.foldl_cons, ih, addReference_eq]
    rfl

/-- The translations that an entry ends up with. -/
def firstTranslated (existing incoming : List String) : List String :=
  if existing.isEmpty then incoming else existing

theorem firstTranslated_nil (existing : List String) : firstTranslated existing [] = existing := by
  cases existing <;> rfl

theorem firstTranslated_assoc (us vs ws : List String) :
    firstTranslated us (firstTranslated vs ws) = firstTranslated (firstTranslated us vs) ws := by
  cases us <;> rfl

theorem addTranslations_eq (translations : List String) :
    x.addTranslations translations =
      { x with translations := firstTranslated x.translations translations } := by
  unfold addTranslations firstTranslated
  split <;> rfl

theorem absorb_eq :
    x.absorb policy y =
      { id           := x.id
        translations := firstTranslated x.translations y.translations
        references   := FirstSeen.union x.references y.references
        comment      := policy.combine x.comment y.comment } := by
  rw [absorb, addTranslations_eq, addComment, addReferences_eq]

@[simp] theorem id_absorb : (x.absorb policy y).id = x.id := by rw [absorb_eq]

/-- A new entry has nothing to absorb. -/
theorem absorb_new (id : String) : x.absorb policy { id } = x := by
  rw [absorb_eq, CommentPolicy.combine_none, FirstSeen.union_nil, firstTranslated_nil]

/-- It does not matter whether `z` is absorbed by `y` before or by `x` behind `y`. -/
theorem absorb_assoc :
    x.absorb .keepFirst (y.absorb .keepFirst z) = (x.absorb .keepFirst y).absorb .keepFirst z := by
  simp only [absorb_eq, CommentPolicy.combine_keepFirst, FirstSeen.union_assoc, Option.or_assoc,
    firstTranslated_assoc]

/-- An entry is the same to absorb once a new entry has absorbed it. -/
theorem absorb_absorb_new (id : String) :
    x.absorb .keepFirst (absorb { id } .keepFirst y) = x.absorb .keepFirst y := by
  rw [absorb_assoc, absorb_new]

/-- Fold an entry into what was found for an id. -/
def absorbInto (id : String) (found : Option Entry) (incoming : Entry) : Option Entry :=
  some ((found.getD { id }).absorb policy incoming)

/-- What was found for an id absorbs entries in turn or gathered before. -/
theorem foldl_absorbInto_assoc (id : String) (entries : List Entry)
    (found gathered : Option Entry) :
    (entries.foldl (absorbInto .keepFirst id) gathered).toList.foldl
        (absorbInto .keepFirst id) found =
      entries.foldl (absorbInto .keepFirst id)
        (gathered.toList.foldl (absorbInto .keepFirst id) found) := by
  induction entries generalizing gathered with
  | nil => rfl
  | cons entry entries ih =>
    rw [List.foldl_cons, List.foldl_cons, ih]
    congr 1
    cases gathered with
    | none => exact congrArg some (absorb_absorb_new _ _ id)
    | some old => exact congrArg some (absorb_assoc _ old entry)

end Entry

namespace Catalog

variable {catalog : Catalog} {entries : List Entry} (policy : CommentPolicy)

/-- Recording an occurrence is merging an entry that refers to it. -/
theorem add_eq_mergeEntry (id : String) (location : Location) (comment : Option String) :
    (catalog.add id location comment).2 =
      catalog.mergeEntry .keepFirst { id, references := [location], comment } := by
  have hchange :
      (fun entry : Entry => (entry.addReference location).addComment .keepFirst comment) =
        fun entry => entry.absorb .keepFirst { id, references := [location], comment } := by
    funext entry
    rw [Entry.absorb_eq, Entry.addReference_eq, Entry.addComment, Entry.firstTranslated_nil]
    rfl
  rw [add, mergeEntry, hchange]

/-! ## Merging entries -/

theorem Lawful.mergeEntry (h : catalog.Lawful) (incoming : Entry) :
    (catalog.mergeEntry policy incoming).Lawful :=
  h.update (fun entry => entry.id_absorb policy incoming) incoming.id

theorem Lawful.ids_mergeEntry (h : catalog.Lawful) (incoming : Entry) :
    (catalog.mergeEntry policy incoming).ids = FirstSeen.add catalog.ids incoming.id :=
  h.ids_update (fun entry => entry.id_absorb policy incoming) incoming.id

theorem Lawful.get?_mergeEntry (h : catalog.Lawful) (incoming : Entry) (id : String) :
    (catalog.mergeEntry policy incoming).get? id =
      if id = incoming.id then Entry.absorbInto policy id (catalog.get? id) incoming
      else catalog.get? id := by
  rw [Catalog.mergeEntry, h.get?_update fun entry => entry.id_absorb policy incoming]
  split
  · rename_i hid
    rw [hid, Entry.absorbInto]
  · rfl

theorem mergeEntries_cons (entry : Entry) (entries : List Entry) :
    catalog.mergeEntries policy (entry :: entries) =
      (catalog.mergeEntry policy entry).mergeEntries policy entries := rfl

theorem mergeEntries_append (xs ys : List Entry) :
    catalog.mergeEntries policy (xs ++ ys) =
      (catalog.mergeEntries policy xs).mergeEntries policy ys :=
  List.foldl_append

theorem Lawful.mergeEntries (h : catalog.Lawful) (entries : List Entry) :
    (catalog.mergeEntries policy entries).Lawful := by
  induction entries generalizing catalog with
  | nil => exact h
  | cons entry entries ih => exact ih (h.mergeEntry policy entry)

/-- The ids stand as they were first seen. -/
theorem Lawful.ids_mergeEntries (h : catalog.Lawful) (entries : List Entry) :
    (catalog.mergeEntries policy entries).ids =
      FirstSeen.union catalog.ids (entries.map Entry.id) := by
  induction entries generalizing catalog with
  | nil => rfl
  | cons entry entries ih =>
    rw [mergeEntries_cons, ih (h.mergeEntry policy entry), h.ids_mergeEntry]
    rfl

/-- An id absorbs its own entries and no others. -/
theorem Lawful.get?_mergeEntries (h : catalog.Lawful) (entries : List Entry) (id : String) :
    (catalog.mergeEntries policy entries).get? id =
      (entries.filter (·.id == id)).foldl (Entry.absorbInto policy id) (catalog.get? id) := by
  induction entries generalizing catalog with
  | nil => rfl
  | cons entry entries ih =>
    rw [mergeEntries_cons, ih (h.mergeEntry policy entry), h.get?_mergeEntry]
    by_cases hid : id = entry.id
    · simp [hid]
    · simp [hid, Ne.symm hid]

theorem foldl_merge (policy : CommentPolicy) (catalogs : List Catalog) :
    catalogs.foldl (merge policy) catalog =
      catalog.mergeEntries policy (catalogs.flatMap toList) := by
  induction catalogs generalizing catalog with
  | nil => rfl
  | cons first rest ih => rw [List.foldl_cons, ih, List.flatMap_cons, mergeEntries_append, merge]

/-- Merging catalogs is folding in their entries, catalog by catalog. -/
theorem mergeAll_eq_mergeEntries (policy : CommentPolicy) (catalogs : List Catalog) :
    mergeAll policy catalogs = empty.mergeEntries policy (catalogs.flatMap toList) :=
  foldl_merge policy catalogs

/-! ## Gathering entries -/

theorem lawful_ofEntries (entries : List Entry) : (ofEntries entries).Lawful :=
  lawful_empty.mergeEntries .keepFirst entries

/-- A catalog has at most one entry of an id. -/
theorem Lawful.filter_toList (h : catalog.Lawful) (id : String) :
    catalog.toList.filter (·.id == id) = (catalog.get? id).toList := by
  rw [h.get?_eq_find?]
  exact Entry.filter_eq_find? h.nodup id

/-- Entries that were gathered in a catalog merge as they would have merged by themselves. -/
theorem Lawful.mergeEntries_ofEntries (h : catalog.Lawful) (entries : List Entry) :
    catalog.mergeEntries .keepFirst (ofEntries entries).toList =
      catalog.mergeEntries .keepFirst entries := by
  have hgathered := lawful_ofEntries entries
  apply (h.mergeEntries _ _).ext (h.mergeEntries _ _)
  · calc (catalog.mergeEntries .keepFirst (ofEntries entries).toList).ids
        = FirstSeen.union catalog.ids (ofEntries entries).ids := h.ids_mergeEntries _ _
      _ = FirstSeen.union catalog.ids (FirstSeen.union [] (entries.map Entry.id)) := by
          rw [ofEntries, lawful_empty.ids_mergeEntries]
          rfl
      _ = FirstSeen.union catalog.ids (entries.map Entry.id) := FirstSeen.union_assoc
      _ = (catalog.mergeEntries .keepFirst entries).ids := (h.ids_mergeEntries _ _).symm
  · intro id
    rw [h.get?_mergeEntries, hgathered.filter_toList, ofEntries, lawful_empty.get?_mergeEntries,
      h.get?_mergeEntries, Entry.foldl_absorbInto_assoc, get?_empty]
    rfl

/-- What is gathered on the way makes no difference in front of other entries, nor behind them. -/
theorem ofEntries_toList_append (xs ys : List Entry) :
    ofEntries ((ofEntries xs).toList ++ ys) = ofEntries (xs ++ ys) := by
  have hxs : ofEntries (ofEntries xs).toList = ofEntries xs :=
    lawful_empty.mergeEntries_ofEntries xs
  calc ofEntries ((ofEntries xs).toList ++ ys)
      = (ofEntries (ofEntries xs).toList).mergeEntries .keepFirst ys :=
        mergeEntries_append .keepFirst _ ys
    _ = (ofEntries xs).mergeEntries .keepFirst ys := by rw [hxs]
    _ = ofEntries (xs ++ ys) := (mergeEntries_append .keepFirst xs ys).symm

theorem ofEntries_append_toList (xs ys : List Entry) :
    ofEntries (xs ++ (ofEntries ys).toList) = ofEntries (xs ++ ys) :=
  calc ofEntries (xs ++ (ofEntries ys).toList)
      = (ofEntries xs).mergeEntries .keepFirst (ofEntries ys).toList :=
        mergeEntries_append .keepFirst xs _
    _ = (ofEntries xs).mergeEntries .keepFirst ys := (lawful_ofEntries xs).mergeEntries_ofEntries ys
    _ = ofEntries (xs ++ ys) := (mergeEntries_append .keepFirst xs ys).symm

theorem mergeAll_eq_ofEntries (catalogs : List Catalog) :
    mergeAll .keepFirst catalogs = ofEntries (catalogs.flatMap toList) :=
  mergeAll_eq_mergeEntries .keepFirst catalogs

/-- The catalog of two lists of entries is what their catalogs merge into. -/
theorem ofEntries_append (xs ys : List Entry) :
    ofEntries (xs ++ ys) = mergeAll .keepFirst [ofEntries xs, ofEntries ys] := by
  have hflat : [ofEntries xs, ofEntries ys].flatMap toList =
      (ofEntries xs).toList ++ (ofEntries ys).toList := by
    simp
  rw [mergeAll_eq_ofEntries, hflat, ofEntries_toList_append, ofEntries_append_toList]

/-! ## References -/

/-- The ids of a catalog, each with the locations that are recorded for it. -/
def references (catalog : Catalog) : List (String × Location) :=
  catalog.toList.flatMap fun entry => entry.references.map (entry.id, ·)

theorem Lawful.mem_references_iff (h : catalog.Lawful) (id : String) (location : Location) :
    (id, location) ∈ catalog.references ↔
      ∃ entry, catalog.get? id = some entry ∧ location ∈ entry.references := by
  simp only [references, List.mem_flatMap, List.mem_map, Prod.mk.injEq]
  constructor
  · rintro ⟨entry, hentry, _, hlocation, rfl, rfl⟩
    exact ⟨entry, h.mem_toList_iff.1 hentry, hlocation⟩
  · rintro ⟨entry, hget, hlocation⟩
    obtain rfl := h.id_of_get? hget
    exact ⟨entry, h.mem_toList_iff.2 hget, location, hlocation, rfl, rfl⟩

theorem Lawful.mem_references_mergeEntry (h : catalog.Lawful) (incoming : Entry) (id : String)
    (location : Location) :
    (id, location) ∈ (catalog.mergeEntry policy incoming).references ↔
      (id, location) ∈ catalog.references ∨ incoming.id = id ∧ location ∈ incoming.references := by
  rw [(h.mergeEntry policy incoming).mem_references_iff, h.mem_references_iff,
    h.get?_mergeEntry]
  by_cases hid : id = incoming.id
  · rw [if_pos hid, Entry.absorbInto, Entry.absorb_eq]
    cases catalog.get? id <;> simp [FirstSeen.mem_union, hid]
  · simp [hid, Ne.symm hid]

/-- Merging entries keeps all references and adds those of the entries. -/
theorem Lawful.mem_references_mergeEntries (h : catalog.Lawful) (entries : List Entry) (id : String)
    (location : Location) :
    (id, location) ∈ (catalog.mergeEntries policy entries).references ↔
      (id, location) ∈ catalog.references ∨
        ∃ entry ∈ entries, entry.id = id ∧ location ∈ entry.references := by
  induction entries generalizing catalog with
  | nil => simp [Catalog.mergeEntries]
  | cons entry entries ih =>
    rw [mergeEntries_cons, ih (h.mergeEntry policy entry), h.mem_references_mergeEntry, or_assoc]
    simp

end Catalog

end Phrasebook
