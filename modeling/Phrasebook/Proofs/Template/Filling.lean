-- SUMMARY: When a template tree can be filled, what it fills to, and which error there is otherwise.
import Mathlib.Data.List.Find
import Phrasebook.Proofs.Template.Building
import Phrasebook.Proofs.Template.Segments

/-!
# Filling trees

Once every index has a slot, only the values decide: pieces fill to `Piece.filledAll` if all their
references have values, and the first reference that lacks one is the error (`Piece.fillAll_eq`).
Listing the placeholders of a tree drops repetitions, which does not change the first one of a kind
(`Piece.find?_addNamesAll`), so the listed placeholders decide in the same way (`render_eq`).
-/
namespace Phrasebook.Template

open Markup

/-! ## Values that may be lacking -/

/-- A result that needs the values of placeholders; the first one that lacks a value is the error. -/
def Resolver.providing {α : Type} (resolve : Resolver) (names : List String) (result : α) :
    Except TemplateError α :=
  match names.find? resolve.lacks with
  | some name => .error (.missingExpression name)
  | none => .ok result

namespace Resolver

variable {α β γ : Type} (resolve : Resolver) {names : List String} {result : α}

theorem providing_map (f : α → β) :
    (resolve.providing names result >>= fun a => pure (f a)) =
      resolve.providing names (f result) := by
  unfold providing
  cases names.find? resolve.lacks <;> rfl

/-- Two results need what each of them needs, the first one first. -/
theorem providing_both (xs ys : List String) (a : α) (b : β) (f : α → β → γ) :
    (resolve.providing xs a >>= fun a => resolve.providing ys b >>= fun b => pure (f a b)) =
      resolve.providing (xs ++ ys) (f a b) := by
  simp only [providing, List.find?_append]
  cases xs.find? resolve.lacks with
  | some name => rfl
  | none => cases ys.find? resolve.lacks <;> rfl

theorem providing_of_find? {name : String} (h : names.find? resolve.lacks = some name) :
    resolve.providing names result = .error (.missingExpression name) := by
  rw [providing, h]

theorem find?_lacks_eq_none_iff :
    names.find? resolve.lacks = none ↔ ∀ name ∈ names, (resolve name).isSome := by
  simp [lacks, Option.isSome_iff_ne_none]

theorem providing_of_forall (h : ∀ name ∈ names, (resolve name).isSome) :
    resolve.providing names result = .ok result := by
  rw [providing, resolve.find?_lacks_eq_none_iff.2 h]

/-- A result that needs values is there exactly if all of them are. -/
theorem exists_providing_iff :
    (∃ a, resolve.providing names result = .ok a) ↔ ∀ name ∈ names, (resolve name).isSome := by
  constructor
  · rintro ⟨a, ha⟩
    rw [← find?_lacks_eq_none_iff]
    cases hfound : names.find? resolve.lacks with
    | none => rfl
    | some name =>
      rw [resolve.providing_of_find? hfound] at ha
      cases ha
  · intro h
    exact ⟨result, resolve.providing_of_forall h⟩

theorem eq_some_value {name : String} (h : (resolve name).isSome) :
    resolve name = some (resolve.value name) := by
  obtain ⟨value, hvalue⟩ := Option.isSome_iff_exists.1 h
  rw [Resolver.value, hvalue]
  rfl

/-- Lacking values are the only error. -/
theorem providing_ne_indexOutOfRange (index available : Nat) :
    resolve.providing names result ≠ .error (.indexOutOfRange index available) := by
  unfold providing
  split <;> simp

end Resolver

/-! ## Filled pieces -/

/-- The tag of a slot. A slot that is missing has no name. -/
def tagAt (slots : List Element) (index : Nat) : Tag :=
  (slots[index]?.map Element.tag).getD { name := "" }

mutual
/-- What a piece fills to if every index has a slot. -/
def Piece.filled (slots : List Element) (value : String → String) : Piece → Node
  | .text run => .text (join value (segments run)) none
  | .slot index inner => .element (tagAt slots index) (Piece.filledAll slots value inner)
def Piece.filledAll (slots : List Element) (value : String → String) : List Piece → List Node
  | [] => []
  | piece :: pieces => piece.filled slots value :: Piece.filledAll slots value pieces
end

/-- What a tree fills to if every index has a slot. -/
def Tree.filled (tree : Tree) (slots : List Element) (value : String → String) : Element where
  tag      := tagAt slots tree.index
  children := Piece.filledAll slots value tree.pieces

mutual
/-- The placeholders that a piece refers to, in document order and with repetitions. -/
def Piece.references : Piece → List String
  | .text run => referencesIn run.toList
  | .slot _ inner => Piece.referencesAll inner
def Piece.referencesAll : List Piece → List String
  | [] => []
  | piece :: pieces => piece.references ++ Piece.referencesAll pieces
end

variable {slots : List Element}

theorem withChildren_toNode {index : Nat} {element : Element} (h : slots[index]? = some element)
    (children : List Node) :
    (element.withChildren children).toNode = .element (tagAt slots index) children := by
  rw [tagAt, h]
  rfl

/-- Pieces whose indices all have a slot need nothing but the values of their references. -/
theorem Piece.fillAll_eq {ps : List Piece} (resolve : Resolver)
    (hslots : ∀ i ∈ Piece.indicesAll ps, i < slots.length) :
    Piece.fillAll slots resolve ps =
      resolve.providing (Piece.referencesAll ps) (Piece.filledAll slots resolve.value ps) := by
  induction ps using Piece.inductionAll with
  | nil => rfl
  | text run ps ih =>
    have hrun : fillText resolve run =
        resolve.providing (referencesIn run.toList) (join resolve.value (segments run)) :=
      fillText_eq resolve run
    simp only [fillAll, fill, bind_assoc, pure_bind, hrun, ih hslots]
    exact resolve.providing_both _ _ _ _ _
  | slot index inner ps ihInner ih =>
    simp only [indicesAll, indices, List.cons_append, List.forall_mem_cons,
      List.forall_mem_append] at hslots
    obtain ⟨hindex, hinner, hafter⟩ := hslots
    have hslot : slots[index]? = some slots[index] := List.getElem?_eq_getElem hindex
    simp only [fillAll, fill, hslot, bind_assoc, pure_bind, ihInner hinner, ih hafter,
      withChildren_toNode hslot]
    exact resolve.providing_both _ _ _ _ _

/-! ## Indices of a tree -/

theorem foldl_max_lt_iff {least n : Nat} {indices : List Nat} :
    indices.foldl max least < n ↔ least < n ∧ ∀ i ∈ indices, i < n := by
  induction indices generalizing least with
  | nil => simp
  | cons i indices ih =>
    rw [List.foldl_cons, ih, Nat.max_lt, List.forall_mem_cons, and_assoc]

/-- The greatest index is in range exactly if all indices are. -/
theorem Tree.maxIndex_lt_iff {tree : Tree} {n : Nat} :
    tree.maxIndex < n ↔ ∀ i ∈ tree.indices, i < n := by
  rw [maxIndex, Piece.maxIndexAll_eq_foldl, foldl_max_lt_iff, indices, List.forall_mem_cons]

/-! ## Placeholders of a tree -/

/-- The first known or new name of a kind is found among the names listed. -/
theorem find?_addNames (p : String → Bool) (known names : List String) :
    (addNames known names).find? p = (known ++ names).find? p := by
  induction names generalizing known with
  | nil => rw [addNames, List.append_nil]
  | cons name names ih =>
    rw [addNames, ih]
    split
    · rename_i hknown
      have hmem : name ∈ known := List.contains_iff_mem.1 hknown
      rw [List.find?_append, List.find?_append]
      cases hfound : known.find? p with
      | some found => rfl
      | none =>
        have hname : ¬ p name = true := List.find?_eq_none.1 hfound name hmem
        rw [List.find?_cons_of_neg hname]
    · rw [List.append_assoc, List.singleton_append]

theorem Piece.find?_addNamesAll (p : String → Bool) (known : List String) (ps : List Piece) :
    (Piece.addNamesAll known ps).find? p = (known ++ Piece.referencesAll ps).find? p := by
  induction ps using Piece.inductionAll generalizing known with
  | nil => rw [addNamesAll, referencesAll, List.append_nil]
  | text run ps ih =>
    simp only [addNamesAll, addNames, referencesAll, references, ih, List.find?_append,
      find?_addNames, Option.or_assoc]
  | slot index inner ps ihInner ih =>
    simp only [addNamesAll, addNames, referencesAll, references, ih, List.find?_append, ihInner,
      Option.or_assoc]

/-- Repetitions do not change which value is lacking first. -/
theorem Tree.providing_names {α : Type} (resolve : Resolver) (tree : Tree) (result : α) :
    resolve.providing (Piece.referencesAll tree.pieces) result =
      resolve.providing tree.names result := by
  rw [Resolver.providing, Resolver.providing, names, Piece.find?_addNamesAll, List.nil_append]

/-! ## Rendering -/

theorem Tree.fill_eq (tree : Tree) (resolve : Resolver) (h : tree.maxIndex < slots.length) :
    tree.fill slots resolve =
      resolve.providing tree.names (tree.filled slots resolve.value) := by
  obtain ⟨hroot, hslots⟩ := List.forall_mem_cons.1 (Tree.maxIndex_lt_iff.1 h)
  have hslot : slots[tree.index]? = some slots[tree.index] := List.getElem?_eq_getElem hroot
  simp only [fill, hslot, Piece.fillAll_eq resolve hslots, resolve.providing_map]
  rw [providing_names, filled, tagAt, hslot]
  rfl

/-- Rendering looks at the greatest index and then at the values of the placeholders. -/
theorem render_eq (tree : Tree) (slots : List Element) (resolve : Resolver) :
    render tree slots resolve =
      if slots.length ≤ tree.maxIndex then
        .error (.indexOutOfRange tree.maxIndex slots.length)
      else resolve.providing tree.names (tree.filled slots resolve.value) := by
  unfold render
  split
  · rfl
  · rename_i h
    exact tree.fill_eq resolve (Nat.not_le.1 h)

/-! ## What rendering depends on -/

/-- The outcome depends on the value of a name: two resolvers that differ on this name alone have
different outcomes. -/
def DependsOn (tree : Tree) (slots : List Element) (name : String) : Prop :=
  ∃ first second : Resolver, (∀ other, other ≠ name → first other = second other) ∧
    render tree slots first ≠ render tree slots second

theorem Piece.filledAll_congr {ps : List Piece} {value value' : String → String}
    (h : ∀ name ∈ Piece.referencesAll ps, value name = value' name) :
    Piece.filledAll slots value ps = Piece.filledAll slots value' ps := by
  induction ps using Piece.inductionAll with
  | nil => rfl
  | text run ps ih =>
    obtain ⟨hrun, hrest⟩ := List.forall_mem_append.1 h
    have hjoin : join value (segments run) = join value' (segments run) :=
      join_congr fun name hname => hrun name (reference_mem_segments_iff.1 hname)
    simp only [filledAll, filled, hjoin, ih hrest]
  | slot index inner ps ihInner ih =>
    obtain ⟨hinner, hrest⟩ := List.forall_mem_append.1 h
    simp only [filledAll, filled, ihInner hinner, ih hrest]

theorem Tree.mem_names_iff {tree : Tree} {name : String} :
    name ∈ tree.names ↔ name ∈ Piece.referencesAll tree.pieces := by
  have hfind : (tree.names.find? (· == name)).isSome =
      ((Piece.referencesAll tree.pieces).find? (· == name)).isSome :=
    congrArg Option.isSome (Piece.find?_addNamesAll (· == name) [] tree.pieces)
  rw [Bool.eq_iff_iff, List.find?_isSome, List.find?_isSome] at hfind
  simpa using hfind

/-- Resolvers that agree on the placeholders of a tree have the same outcome. -/
theorem render_congr (tree : Tree) (slots : List Element) {resolve other : Resolver}
    (h : ∀ name ∈ tree.names, other name = resolve name) :
    render tree slots other = render tree slots resolve := by
  have hlacks : tree.names.find? other.lacks = tree.names.find? resolve.lacks := by
    refine List.find?_congr fun name hname => ?_
    rw [Resolver.lacks, Resolver.lacks, h name hname]
  have hfilled : tree.filled slots other.value = tree.filled slots resolve.value := by
    refine congrArg (Element.mk _) (Piece.filledAll_congr fun name hname => ?_)
    rw [Resolver.value, Resolver.value, h name (Tree.mem_names_iff.2 hname)]
  rw [render_eq, render_eq, Resolver.providing, Resolver.providing, hlacks, hfilled]

theorem exists_render_iff (tree : Tree) (slots : List Element) (resolve : Resolver) :
    (∃ element, render tree slots resolve = .ok element) ↔
      (∀ i ∈ tree.indices, i < slots.length) ∧ ∀ name ∈ tree.names, (resolve name).isSome := by
  rw [render_eq, ← Tree.maxIndex_lt_iff]
  split
  · rename_i hshort
    simp [Nat.not_lt.2 hshort]
  · rename_i hroom
    rw [resolve.exists_providing_iff]
    simp [Nat.not_le.1 hroom]

/-- The outcome depends on the placeholders of the tree and on no other name, and on none at all
where a slot is missing. -/
theorem dependsOn_iff (tree : Tree) (slots : List Element) (name : String) :
    DependsOn tree slots name ↔ tree.maxIndex < slots.length ∧ name ∈ tree.names := by
  constructor
  · rintro ⟨first, second, hothers, hdiffer⟩
    refine ⟨Nat.not_le.1 fun hshort => hdiffer ?_, Classical.byContradiction fun hname => hdiffer ?_⟩
    · rw [render_eq, render_eq, if_pos hshort, if_pos hshort]
    · refine render_congr tree slots fun other hother => hothers other ?_
      rintro rfl
      exact hname hother
  · rintro ⟨hroom, hname⟩
    -- one resolver has all values, the other all but this one
    let first : Resolver := fun _ => some ""
    let second : Resolver := fun other => if other = name then none else some ""
    refine ⟨first, second, ?_, ?_⟩
    · intro other hother
      exact (if_neg hother).symm
    · intro hsame
      obtain ⟨element, hfirst⟩ := (exists_render_iff tree slots first).2
        ⟨Tree.maxIndex_lt_iff.1 hroom, fun _ _ => rfl⟩
      rw [hsame] at hfirst
      have hvalue := ((exists_render_iff tree slots second).1 ⟨element, hfirst⟩).2 name hname
      simp [second] at hvalue

/-- Rendering succeeds exactly if every index has a slot and every placeholder a value. The greatest
index is checked first, and the outcome is then the same whatever the values are; otherwise the
first placeholder that lacks a value is reported. Behind the check no slot is missing, and the
outcome depends on the placeholders that the tree lists and on nothing else. -/
theorem render_covers (tree : Tree) (slots : List Element) (resolve : Resolver) :
    ((∃ element, render tree slots resolve = .ok element) ↔
        (∀ i ∈ tree.indices, i < slots.length) ∧ ∀ name ∈ tree.names, (resolve name).isSome) ∧
      render tree slots resolve =
        (if slots.length ≤ tree.maxIndex then
          .error (.indexOutOfRange tree.maxIndex slots.length)
        else
          match tree.names.find? fun name => (resolve name).isNone with
          | some name => .error (.missingExpression name)
          | none => .ok (tree.filled slots resolve.value)) ∧
      (slots.length ≤ tree.maxIndex ∨
        (∀ i ∈ tree.indices, (slots[i]?).isSome) ∧
          ∀ index available, tree.fill slots resolve ≠ .error (.indexOutOfRange index available)) ∧
      (∀ other : Resolver, (∀ name ∈ tree.names, other name = resolve name) →
        render tree slots other = render tree slots resolve) ∧
      ∀ name, DependsOn tree slots name ↔ tree.maxIndex < slots.length ∧ name ∈ tree.names := by
  refine ⟨exists_render_iff tree slots resolve, render_eq tree slots resolve, ?_,
    fun _ => render_congr tree slots, dependsOn_iff tree slots⟩
  by_cases hroom : tree.maxIndex < slots.length
  · refine .inr ⟨?_, ?_⟩
    · intro i hi
      simpa using Tree.maxIndex_lt_iff.1 hroom i hi
    · intro index available
      rw [tree.fill_eq resolve hroom]
      exact resolve.providing_ne_indexOutOfRange index available
  · exact .inl (Nat.not_lt.1 hroom)

end Phrasebook.Template
