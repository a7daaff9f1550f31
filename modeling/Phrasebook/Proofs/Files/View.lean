-- SUMMARY: What is seen of a file tree at a place, and what writing a file does to it.
import Phrasebook.Files.Tree

/-!
# Views of file trees

All that reading and writing ask of a tree is what stands at a place: nothing, a directory, or a
file with its content (`FileTree.view`). Putting a file where a directory has room for it changes the
view there and nowhere else (`FileTree.view_put`). A path that leads to a file still does in any tree
that keeps the directories and the places (`FileTree.Grown`), and so does the place a path denotes for
writing (`FileTree.Grown.target`).
-/
namespace Phrasebook.FileTree

/-! ## Views -/

/-- The content of a file; a directory has none. -/
def content? : FileTree → Option ByteArray
  | .file content => some content
  | .directory _ => none

/-- What stands at a place: nothing, a directory, or a file with its content. -/
def view (tree : FileTree) (names : List String) : Option (Option ByteArray) :=
  (tree.node? names).map content?

variable {tree : FileTree} {names : List String}

theorem view_eq_directory_iff :
    tree.view names = some none ↔ ∃ entries, tree.node? names = some (.directory entries) := by
  unfold view
  cases tree.node? names with
  | none => simp
  | some node => cases node <;> simp [content?]

theorem view_eq_file_iff {content : ByteArray} :
    tree.view names = some (some content) ↔ tree.node? names = some (.file content) := by
  unfold view
  cases tree.node? names with
  | none => simp
  | some node => cases node <;> simp [content?]

theorem isSome_view : (tree.view names).isSome = (tree.node? names).isSome := Option.isSome_map

theorem view_directory_cons (entries : List (String × FileTree)) (name : String) :
    (directory entries).view (name :: names) =
      (entries.lookup name).bind fun entry => entry.view names := by
  rw [view, node?]
  cases entries.lookup name <;> rfl

/-! ## Putting a file -/

/-- Looking up a name compares it with the first one. -/
theorem lookup_cons (key : String) (entry : FileTree) (entries : List (String × FileTree))
    (name : String) :
    ((key, entry) :: entries).lookup name =
      if name = key then some entry else entries.lookup name := by
  rw [List.lookup_cons]
  by_cases h : name = key
  · simp [h]
  · rw [beq_false_of_ne h, if_neg h]

theorem lookup_putEntry (name : String) (new : FileTree) (entries : List (String × FileTree))
    (other : String) :
    (putEntry name new entries).lookup other =
      if other = name then some new else entries.lookup other := by
  induction entries with
  | nil => rw [putEntry, lookup_cons]
  | cons first entries ih =>
    obtain ⟨key, entry⟩ := first
    rw [putEntry]
    by_cases hkey : key = name
    · subst hkey
      rw [if_pos rfl, lookup_cons, lookup_cons]
      split <;> rfl
    · rw [if_neg hkey, lookup_cons, lookup_cons, ih]
      by_cases h : other = key
      · subst h
        rw [if_pos rfl, if_neg hkey, if_pos rfl]
      · rw [if_neg h, if_neg h]

/-- The names lead into a directory in which a file of the last name may be put. -/
def HasRoom (tree : FileTree) (names : List String) : Prop :=
  ∃ parent name, names = parent ++ [name] ∧ tree.view parent = some none ∧
    tree.view names ≠ some none

/-- Nothing stands inside what is no directory. -/
theorem view_append_eq_none {inside : List String} (h : tree.view names ≠ some none)
    (hinside : inside ≠ []) : tree.view (names ++ inside) = none := by
  induction names generalizing tree with
  | nil =>
    obtain ⟨first, rest, rfl⟩ := List.exists_cons_of_ne_nil hinside
    cases tree with
    | file content => rfl
    | directory entries => exact absurd rfl h
  | cons name names ih =>
    cases tree with
    | file content => rfl
    | directory entries =>
      rw [view_directory_cons] at h
      rw [List.cons_append, view_directory_cons]
      cases hentry : entries.lookup name with
      | none => rfl
      | some entry =>
        rw [hentry] at h
        exact ih h

/-- A file that is put into a directory is seen at its place; all else is seen as before. -/
theorem view_put (h : tree.HasRoom names) (content : ByteArray) (others : List String) :
    (tree.put (.file content) names).view others =
      if others = names then some (some content) else tree.view others := by
  obtain ⟨parent, name, rfl, hparent, hname⟩ := h
  induction parent generalizing tree others with
  | nil =>
    obtain ⟨entries, htree⟩ := view_eq_directory_iff.1 hparent
    obtain rfl : tree = .directory entries := Option.some.inj htree
    rw [List.nil_append, put]
    cases others with
    | nil => rfl
    | cons other others =>
      rw [view_directory_cons, lookup_putEntry]
      by_cases h : other = name
      · subst h
        rw [if_pos rfl]
        cases others with
        | nil =>
          rw [if_pos rfl]
          rfl
        | cons next others =>
          rw [if_neg (by simp)]
          exact (view_append_eq_none hname (List.cons_ne_nil next others)).symm
      · rw [if_neg h, if_neg (by simp [h]), view_directory_cons]
  | cons first parent ih =>
    cases tree with
    | file content => cases hparent
    | directory entries =>
      rw [view_directory_cons] at hparent
      obtain ⟨entry, hentry, hentryParent⟩ := Option.bind_eq_some_iff.1 hparent
      rw [List.cons_append, view_directory_cons, hentry, Option.bind_some] at hname
      rw [List.cons_append, put]
      cases others with
      | nil => rfl
      | cons other others =>
        rw [view_directory_cons, lookup_putEntry, view_directory_cons]
        by_cases h : other = first
        · subst h
          simp only [hentry, Option.getD_some, if_pos, Option.bind_some, List.cons.injEq, true_and]
          exact ih others hentryParent hname
        · rw [if_neg h, if_neg (by simp [h])]

/-! ## Trees that grow -/

/-- Directories are the same, and no place is lost. -/
structure Grown (before after : FileTree) : Prop where
  directory_iff : ∀ names, after.view names = some none ↔ before.view names = some none
  isSome        : ∀ names, (before.view names).isSome = true → (after.view names).isSome = true

/-! ## Paths -/

variable {workingDirectory : List String} {path : Path} {before after : FileTree}

/-- A path that can be followed can be followed in a tree that has grown. -/
theorem Grown.walk (h : Grown before after) {place : List String} {parts : List (List Char)}
    {found : List String} (hwalk : before.walk place parts = .ok found) :
    after.walk place parts = .ok found := by
  induction parts generalizing place with
  | nil => exact hwalk
  | cons part parts ih =>
    rw [FileTree.walk] at hwalk ⊢
    cases hnode : before.node? place.reverse with
    | none => simp [hnode] at hwalk
    | some node =>
      cases node with
      | file content => simp [hnode] at hwalk
      | directory entries =>
        obtain ⟨entries', hnode'⟩ := view_eq_directory_iff.1
          ((h.directory_iff _).2 (view_eq_directory_iff.2 ⟨entries, hnode⟩))
        simp only [hnode] at hwalk
        simp only [hnode']
        split at hwalk
        · exact ih hwalk
        · exact ih hwalk
        · split at hwalk
          · cases hwalk
          · rename_i hsize
            rw [if_neg hsize]
            split at hwalk
            · rename_i hsome
              have hsome' := h.isSome _ (isSome_view.trans hsome)
              rw [if_pos (isSome_view.symm.trans hsome')]
              exact ih hwalk
            · cases hwalk

/-- What a path must be to denote a place to write to. -/
theorem target_eq_ok_iff :
    tree.target workingDirectory path = .ok names ↔
      checkSpelling path = .ok () ∧ ∃ last parents place name,
        path.parts.reverse.dropWhile List.isEmpty = last :: parents ∧
        tree.walk (origin path workingDirectory) parents.reverse = .ok place ∧
        tree.view place.reverse = some none ∧
        Path.component? last = some (.name name) ∧
        path.parts.getLast? ≠ some [] ∧ name.utf8ByteSize ≤ Path.maxComponentSize ∧
        tree.view (name :: place).reverse ≠ some none ∧ names = (name :: place).reverse := by
  rw [target]
  cases checkSpelling path with
  | error failure => simp [bind, Except.bind]
  | ok =>
    simp only [bind, Except.bind, throw, throwThe, MonadExceptOf.throw, pure, Except.pure, true_and]
    constructor
    · intro h
      split at h
      case h_1 => cases h
      rename_i last parents hparts
      cases hwalk : tree.walk (origin path workingDirectory) parents.reverse with
      | error failure => simp [hwalk] at h
      | ok place =>
        simp only [hwalk] at h
        split at h
        case h_2 => cases h
        rename_i hparent
        split at h
        case h_2 => cases h
        rename_i name hname
        split at h
        case isTrue => cases h
        rename_i hlast
        split at h
        case isTrue => cases h
        rename_i hsize
        split at h
        case h_1 => cases h
        rename_i hfree
        have hview : tree.view (name :: place).reverse ≠ some none := by
          intro hview
          obtain ⟨entries, hentries⟩ := view_eq_directory_iff.1 hview
          exact hfree entries hentries
        cases h
        exact ⟨last, parents, place, name, hparts, hwalk, view_eq_directory_iff.2 ⟨_, hparent⟩,
          hname, hlast, Nat.not_lt.1 hsize, hview, rfl⟩
    · rintro ⟨last, parents, place, name, hparts, hwalk, hparent, hname, hlast, hsize, hfree, rfl⟩
      obtain ⟨entries, hentries⟩ := view_eq_directory_iff.1 hparent
      simp only [hparts, hwalk, hentries, hname, if_neg hlast, if_neg (Nat.not_lt.2 hsize)]
      split
      · rename_i hnode
        exact absurd (view_eq_directory_iff.2 ⟨_, hnode⟩) hfree
      · rfl

/-- The place that a path denotes stays the same. -/
theorem Grown.target (h : Grown before after)
    (htarget : before.target workingDirectory path = .ok names) :
    after.target workingDirectory path = .ok names := by
  obtain ⟨hspelling, last, parents, place, name, hparts, hwalk, hparent, hname, hlast, hsize,
    hfree, rfl⟩ := target_eq_ok_iff.1 htarget
  refine target_eq_ok_iff.2 ⟨hspelling, last, parents, place, name, hparts, h.walk hwalk,
    (h.directory_iff _).2 hparent, hname, hlast, hsize, ?_, rfl⟩
  rwa [Ne, h.directory_iff]

/-- A path denotes a place that has room for a file. -/
theorem hasRoom_of_target (h : tree.target workingDirectory path = .ok names) :
    tree.HasRoom names := by
  obtain ⟨-, -, -, place, name, -, -, hparent, -, -, -, hfree, rfl⟩ := target_eq_ok_iff.1 h
  exact ⟨place.reverse, name, List.reverse_cons, hparent, hfree⟩

/-- A change is made to what the file at the place holds, if there is one. -/
theorem update_eq (h : tree.target workingDirectory path = .ok names)
    (change : ByteArray → ByteArray) :
    tree.update workingDirectory path change =
      .ok (tree.put (.file (change (((tree.view names).join).getD .empty))) names) := by
  rw [update, h]
  simp only [bind, Except.bind, pure, Except.pure, view]
  cases tree.node? names with
  | none => rfl
  | some node => cases node <;> rfl

theorem resolve_eq_ok_iff {node : FileTree} :
    tree.resolve workingDirectory path = .ok (names, node) ↔
      checkSpelling path = .ok () ∧ ∃ place,
        tree.walk (origin path workingDirectory) path.parts = .ok place ∧
        tree.node? place.reverse = some node ∧ names = place.reverse := by
  rw [resolve]
  cases checkSpelling path with
  | error failure => simp [bind, Except.bind]
  | ok =>
    cases tree.walk (origin path workingDirectory) path.parts with
    | error failure => simp [bind, Except.bind]
    | ok place =>
      simp only [bind, Except.bind, true_and, Except.ok.injEq]
      cases hnode : tree.node? place.reverse with
      | none => simp [throw, throwThe, MonadExceptOf.throw, hnode]
      | some found =>
        simp only [pure, Except.pure, Except.ok.injEq, Prod.mk.injEq]
        constructor
        · rintro ⟨rfl, rfl⟩
          exact ⟨place, rfl, hnode, rfl⟩
        · rintro ⟨_, rfl, hnode', rfl⟩
          rw [hnode] at hnode'
          exact ⟨rfl, Option.some.inj hnode'⟩

/-- The file at a place is read in a tree that has grown elsewhere. -/
theorem Grown.read (h : Grown before after) {content : ByteArray}
    (hresolve : before.resolve workingDirectory path = .ok (names, .file content))
    (hview : after.view names = before.view names) :
    after.read workingDirectory path = .ok content := by
  obtain ⟨hspelling, place, hwalk, hnode, rfl⟩ := resolve_eq_ok_iff.1 hresolve
  have hfile : after.node? place.reverse = some (.file content) := by
    rw [← view_eq_file_iff, hview, view_eq_file_iff, hnode]
  have hresolve' : after.resolve workingDirectory path = .ok (place.reverse, .file content) :=
    resolve_eq_ok_iff.2 ⟨hspelling, place, h.walk hwalk, hfile, rfl⟩
  rw [FileTree.read, hresolve']
  rfl

end Phrasebook.FileTree
