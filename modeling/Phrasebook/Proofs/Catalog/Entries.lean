-- SUMMARY: A catalog is its list of entries: what changing an entry does to the ids and to lookups.
import Std.Data.HashMap.Lemmas
import Phrasebook.Catalog.Basic

/-!
# Catalogs as lists of entries

The index of a catalog only repeats what its entries say (`Catalog.Lawful`), and every change keeps
it so (`Lawful.update`). Such a catalog is given by its ids in first-seen order and by what is found
for each of them (`Lawful.ext`). Statements about catalogs are therefore made of `Catalog.ids` and
`Catalog.get?`, each with one equation for a change: `Lawful.ids_update` and `Lawful.get?_update`.
-/
namespace Phrasebook

/-! ## Lists in first-seen order -/

namespace FirstSeen

variable {α : Type} [DecidableEq α] {x y : α} {xs ys zs : List α}

/-- Append a member unless the list has it. -/
def add (xs : List α) (x : α) : List α := if x ∈ xs then xs else xs ++ [x]

/-- Append members in order, none of them twice. -/
def union (xs ys : List α) : List α := ys.foldl add xs

theorem add_of_mem (h : x ∈ xs) : add xs x = xs := if_pos h

theorem add_of_not_mem (h : x ∉ xs) : add xs x = xs ++ [x] := if_neg h

theorem mem_add : y ∈ add xs x ↔ y ∈ xs ∨ y = x := by
  by_cases h : x ∈ xs
  · rw [add_of_mem h]
    constructor
    · exact Or.inl
    · rintro (hy | rfl)
      · exact hy
      · exact h
  · simp [add_of_not_mem h]

theorem nodup_add (h : xs.Nodup) : (add xs x).Nodup := by
  by_cases hx : x ∈ xs
  · rwa [add_of_mem hx]
  · rw [add_of_not_mem hx, List.nodup_append]
    refine ⟨h, by simp, ?_⟩
    rintro y hy _ hx' rfl
    exact hx (List.mem_singleton.1 hx' ▸ hy)

theorem prefix_add : xs <+: add xs x := by
  by_cases h : x ∈ xs
  · exact ⟨[], by rw [add_of_mem h, List.append_nil]⟩
  · exact ⟨[x], (add_of_not_mem h).symm⟩

@[simp] theorem union_nil : union xs [] = xs := rfl

@[simp] theorem union_cons : union xs (y :: ys) = union (add xs y) ys := rfl

theorem union_append : union xs (ys ++ zs) = union (union xs ys) zs := List.foldl_append

theorem mem_union : y ∈ union xs ys ↔ y ∈ xs ∨ y ∈ ys := by
  induction ys generalizing xs with
  | nil => simp
  | cons z zs ih => rw [union_cons, ih, mem_add, List.mem_cons, or_assoc]

theorem nodup_union (h : xs.Nodup) : (union xs ys).Nodup := by
  induction ys generalizing xs with
  | nil => exact h
  | cons y ys ih => exact ih (nodup_add h)

theorem prefix_union : xs <+: union xs ys := by
  induction ys generalizing xs with
  | nil => exact List.prefix_refl xs
  | cons y ys ih => exact prefix_add.trans ih

/-- Members that are all new, each once, are appended as they are. -/
theorem union_of_nodup (h : (xs ++ ys).Nodup) : union xs ys = xs ++ ys := by
  induction ys generalizing xs with
  | nil => exact xs.append_nil.symm
  | cons y ys ih =>
    have hnew : y ∉ xs := fun hy =>
      (List.nodup_append.1 h).2.2 y hy y List.mem_cons_self rfl
    rw [List.append_cons] at h
    rw [union_cons, add_of_not_mem hnew, ih h, ← List.append_cons]

/-- Members that the list has are not appended. -/
theorem union_of_subset (h : ys ⊆ xs) : union xs ys = xs := by
  induction ys with
  | nil => rfl
  | cons y ys ih =>
    obtain ⟨hy, hys⟩ := List.cons_subset.1 h
    rw [union_cons, add_of_mem hy, ih hys]

/-- A member that is appended to one list is new or not for the other list in the end. -/
theorem union_add : union xs (add ys y) = add (union xs ys) y := by
  by_cases h : y ∈ ys
  · rw [add_of_mem h, add_of_mem (mem_union.2 (Or.inr h))]
  · rw [add_of_not_mem h, union_append]
    rfl

theorem union_assoc : union xs (union ys zs) = union (union xs ys) zs := by
  induction zs generalizing ys with
  | nil => rfl
  | cons z zs ih => rw [union_cons, ih, union_add, union_cons]

end FirstSeen

/-! ## Entries of distinct ids -/

namespace Entry

variable {entry : Entry} {entries : List Entry} {id : String} {change : Entry → Entry}

/-- Change an entry if it is the one of the id. -/
def changeAt (id : String) (change : Entry → Entry) (entry : Entry) : Entry :=
  if entry.id = id then change entry else entry

theorem id_changeAt (hchange : ∀ entry, (change entry).id = entry.id) (entry : Entry) :
    (changeAt id change entry).id = entry.id := by
  unfold changeAt
  split
  · exact hchange entry
  · rfl

theorem id_ne_of_mem {first : Entry} (hnodup : ((first :: entries).map Entry.id).Nodup)
    (h : entry ∈ entries) : entry.id ≠ first.id := by
  intro heq
  exact (List.nodup_cons.1 hnodup).1 (heq ▸ List.mem_map_of_mem h)

/-- The entry at the place of an id is the only one of this id. -/
theorem modify_findIdx? (hnodup : (entries.map Entry.id).Nodup) {position : Nat}
    (h : entries.findIdx? (·.id == id) = some position) :
    entries.modify position change = entries.map (changeAt id change) := by
  induction entries generalizing position with
  | nil => cases h
  | cons first rest ih =>
    rw [List.findIdx?_cons] at h
    by_cases hid : first.id = id
    · have hothers : rest.map (changeAt id change) = rest := by
        refine (List.map_congr_left fun entry hentry => ?_).trans rest.map_id
        exact if_neg (hid ▸ id_ne_of_mem hnodup hentry)
      obtain rfl : 0 = position := by simpa [hid] using h
      rw [List.map_cons, hothers, changeAt, if_pos hid]
      rfl
    · obtain ⟨n, hn, rfl⟩ : ∃ n, rest.findIdx? (·.id == id) = some n ∧ n + 1 = position := by
        simpa [hid] using h
      rw [List.map_cons, changeAt, if_neg hid, ← ih (List.nodup_cons.1 hnodup).2 hn]
      rfl

theorem find?_eq_some_of_mem (hnodup : (entries.map Entry.id).Nodup) (h : entry ∈ entries) :
    entries.find? (·.id == entry.id) = some entry := by
  induction entries with
  | nil => cases h
  | cons first rest ih =>
    rcases List.mem_cons.1 h with rfl | h
    · simp
    · have hne : first.id ≠ entry.id := (id_ne_of_mem hnodup h).symm
      rw [List.find?_cons_of_neg (by simpa using hne)]
      exact ih (List.nodup_cons.1 hnodup).2 h

theorem filter_eq_find? (hnodup : (entries.map Entry.id).Nodup) (id : String) :
    entries.filter (·.id == id) = (entries.find? (·.id == id)).toList := by
  induction entries with
  | nil => rfl
  | cons first rest ih =>
    by_cases hid : first.id = id
    · have hothers : rest.filter (·.id == id) = [] := by
        rw [List.filter_eq_nil_iff]
        intro entry hentry heq
        exact id_ne_of_mem hnodup hentry ((eq_of_beq heq).trans hid.symm)
      simp [hid, hothers]
    · simpa [hid] using ih (List.nodup_cons.1 hnodup).2

theorem find?_map_changeAt (hchange : ∀ entry, (change entry).id = entry.id) (other : String) :
    (entries.map (changeAt id change)).find? (·.id == other) =
      (entries.find? (·.id == other)).map (changeAt id change) := by
  rw [List.find?_map]
  simp only [Function.comp_def, id_changeAt hchange]

end Entry

namespace Catalog

/-! ## The index -/

/-- The index of ids in first-seen order. -/
def indexOf (ids : List String) : Std.HashMap String Nat :=
  ids.zipIdx.foldl (fun index (id, position) => index.insert id position) {}

theorem indexOf_append_singleton (ids : List String) (id : String) :
    indexOf (ids ++ [id]) = (indexOf ids).insert id ids.length := by
  simp [indexOf, List.zipIdx_append]

/-- Indexing ids from a position on. -/
theorem getElem?_foldl_insert {ids : List String} (hnodup : ids.Nodup) (start : Nat)
    (index : Std.HashMap String Nat) (id : String) :
    ((ids.zipIdx start).foldl (fun index (id, position) => index.insert id position) index)[id]? =
      ((ids.idxOf? id).map (· + start)).or index[id]? := by
  induction ids generalizing start index with
  | nil => simp
  | cons first rest ih =>
    obtain ⟨hfirst, hrest⟩ := List.nodup_cons.1 hnodup
    rw [List.zipIdx_cons, List.foldl_cons, ih hrest, Std.HashMap.getElem?_insert, List.idxOf?_cons]
    by_cases hid : first = id
    · have hnone : rest.idxOf? id = none := List.idxOf?_eq_none_iff.2 (hid ▸ hfirst)
      simp [hid, hnone]
    · cases rest.idxOf? id with
      | none => simp [hid]
      | some n => simp [hid]; omega

theorem getElem?_indexOf {ids : List String} (hnodup : ids.Nodup) (id : String) :
    (indexOf ids)[id]? = ids.idxOf? id := by
  simpa [indexOf] using getElem?_foldl_insert hnodup 0 {} id

/-! ## Lawful catalogs -/

/-- No id has two entries, and the index is the index of the ids. -/
structure Lawful (catalog : Catalog) : Prop where
  nodup    : catalog.ids.Nodup
  index_eq : catalog.index = indexOf catalog.ids

variable {catalog a b : Catalog} {entry : Entry} {id : String} {change : Entry → Entry}

theorem lawful_empty : empty.Lawful := ⟨List.nodup_nil, rfl⟩

theorem get?_empty (id : String) : empty.get? id = none := by simp [get?, empty]

/-- The index tells the place of the entry of an id. -/
theorem Lawful.getElem?_index (h : catalog.Lawful) (id : String) :
    catalog.index[id]? = catalog.toList.findIdx? (·.id == id) := by
  rw [h.index_eq, getElem?_indexOf h.nodup, List.idxOf?, ids, List.findIdx?_map]
  rfl

theorem Lawful.get?_eq_find? (h : catalog.Lawful) (id : String) :
    catalog.get? id = catalog.toList.find? (·.id == id) := by
  rw [get?, h.getElem?_index, List.find?_eq_bind_findIdx?_getElem?]
  cases catalog.toList.findIdx? (·.id == id) with
  | none => rfl
  | some position => simp [toList]

theorem Lawful.mem_toList_iff (h : catalog.Lawful) :
    entry ∈ catalog.toList ↔ catalog.get? entry.id = some entry := by
  rw [h.get?_eq_find?]
  constructor
  · exact Entry.find?_eq_some_of_mem h.nodup
  · exact List.mem_of_find?_eq_some

theorem Lawful.id_of_get? (h : catalog.Lawful) (hget : catalog.get? id = some entry) :
    entry.id = id := by
  rw [h.get?_eq_find?] at hget
  simpa using List.find?_some hget

theorem Lawful.isSome_get?_iff (h : catalog.Lawful) (id : String) :
    (catalog.get? id).isSome ↔ id ∈ catalog.ids := by
  rw [h.get?_eq_find?, List.find?_isSome]
  simp [ids]

theorem Lawful.toList_eq (h : catalog.Lawful) :
    catalog.toList = catalog.ids.filterMap catalog.get? := by
  have hfind : ∀ entries : List Entry, (∀ entry ∈ entries, entry ∈ catalog.toList) →
      (entries.map Entry.id).filterMap catalog.get? = entries := by
    intro entries
    induction entries with
    | nil => intro _; rfl
    | cons first rest ih =>
      intro hentries
      obtain ⟨hfirst, hrest⟩ := List.forall_mem_cons.1 hentries
      rw [List.map_cons, List.filterMap_cons, h.mem_toList_iff.1 hfirst, ih hrest]
  exact (hfind catalog.toList fun _ hentry => hentry).symm

theorem Lawful.eq_of_toList_eq (ha : a.Lawful) (hb : b.Lawful) (h : a.toList = b.toList) :
    a = b := by
  have hentries : a.entries = b.entries := Array.toList_inj.1 h
  have hindex : a.index = b.index := by rw [ha.index_eq, hb.index_eq, ids, ids, h]
  cases a
  cases b
  cases hentries
  cases hindex
  rfl

/-- A catalog is its ids and what is found for them. -/
theorem Lawful.ext (ha : a.Lawful) (hb : b.Lawful) (hids : a.ids = b.ids)
    (hget : ∀ id, a.get? id = b.get? id) : a = b := by
  apply ha.eq_of_toList_eq hb
  rw [ha.toList_eq, hb.toList_eq, hids, funext hget]

/-! ## Changing an entry -/

theorem Lawful.update_of_mem (h : catalog.Lawful) (hid : id ∈ catalog.ids)
    (change : Entry → Entry) :
    ∃ position, catalog.toList.findIdx? (·.id == id) = some position ∧
      catalog.update id change =
        (false, { catalog with entries := catalog.entries.modify position change }) := by
  obtain ⟨position, hposition⟩ : ∃ position, catalog.index[id]? = some position := by
    rw [← Option.isSome_iff_exists, h.index_eq, getElem?_indexOf h.nodup, List.isSome_idxOf?]
    exact hid
  refine ⟨position, ?_, ?_⟩
  · rw [← h.getElem?_index, hposition]
  · rw [Catalog.update, hposition]

theorem Lawful.update_of_not_mem (h : catalog.Lawful) (hid : id ∉ catalog.ids)
    (change : Entry → Entry) :
    catalog.update id change =
      (true, { entries := catalog.entries.push (change { id })
               index   := catalog.index.insert id catalog.entries.size }) := by
  have hnone : catalog.index[id]? = none := by
    rw [h.index_eq, getElem?_indexOf h.nodup, List.idxOf?_eq_none_iff]
    exact hid
  rw [Catalog.update, hnone]

/-- A change rewrites the entry of the id where it stands; a new entry comes last. -/
theorem Lawful.toList_update (h : catalog.Lawful) (id : String) (change : Entry → Entry) :
    (catalog.update id change).2.toList =
      if id ∈ catalog.ids then catalog.toList.map (Entry.changeAt id change)
      else catalog.toList ++ [change { id }] := by
  by_cases hid : id ∈ catalog.ids
  · obtain ⟨position, hposition, hupdate⟩ := h.update_of_mem hid change
    rw [if_pos hid, hupdate, ← Entry.modify_findIdx? h.nodup hposition]
    exact Array.toList_modify
  · rw [if_neg hid, h.update_of_not_mem hid]
    exact Array.toList_push

variable (hchange : ∀ entry, (change entry).id = entry.id)
include hchange

theorem Lawful.ids_update (h : catalog.Lawful) (id : String) :
    (catalog.update id change).2.ids = FirstSeen.add catalog.ids id := by
  rw [ids, h.toList_update]
  by_cases hid : id ∈ catalog.ids
  · rw [if_pos hid, FirstSeen.add_of_mem hid, List.map_map]
    exact List.map_congr_left fun entry _ => Entry.id_changeAt hchange entry
  · rw [if_neg hid, FirstSeen.add_of_not_mem hid, List.map_append, List.map_singleton, hchange]
    rfl

theorem Lawful.update (h : catalog.Lawful) (id : String) :
    (catalog.update id change).2.Lawful := by
  refine ⟨?_, ?_⟩
  · rw [h.ids_update hchange]
    exact FirstSeen.nodup_add h.nodup
  · rw [h.ids_update hchange]
    by_cases hid : id ∈ catalog.ids
    · obtain ⟨position, -, hupdate⟩ := h.update_of_mem hid change
      rw [FirstSeen.add_of_mem hid, hupdate]
      exact h.index_eq
    · have hlength : catalog.ids.length = catalog.entries.size := List.length_map Entry.id
      rw [FirstSeen.add_of_not_mem hid, indexOf_append_singleton, ← h.index_eq, hlength,
        h.update_of_not_mem hid]

/-- Only what is found for the id of the entry changes. -/
theorem Lawful.get?_update (h : catalog.Lawful) (id other : String) :
    (catalog.update id change).2.get? other =
      if other = id then some (change ((catalog.get? id).getD { id })) else catalog.get? other := by
  have hsome := h.isSome_get?_iff id
  rw [(h.update hchange id).get?_eq_find?, h.toList_update]
  by_cases hid : id ∈ catalog.ids
  · obtain ⟨entry, hentry⟩ := Option.isSome_iff_exists.1 (hsome.2 hid)
    rw [if_pos hid, Entry.find?_map_changeAt hchange, ← h.get?_eq_find?]
    by_cases hother : other = id
    · simp [hother, hentry, Entry.changeAt, h.id_of_get? hentry]
    · have hsame : (catalog.get? other).map (Entry.changeAt id change) = catalog.get? other := by
        cases hget : catalog.get? other with
        | none => rfl
        | some found =>
          have hne : found.id ≠ id := h.id_of_get? hget ▸ hother
          rw [Option.map_some, Entry.changeAt, if_neg hne]
      rw [hsame, if_neg hother]
  · have hnone : catalog.get? id = none := by
      rw [← Option.not_isSome_iff_eq_none, hsome]
      exact hid
    rw [if_neg hid, List.find?_append, ← h.get?_eq_find?, List.find?_singleton, hchange]
    by_cases hother : other = id
    · simp [hother, hnone]
    · simp [hother, Ne.symm hother]

end Catalog

end Phrasebook
