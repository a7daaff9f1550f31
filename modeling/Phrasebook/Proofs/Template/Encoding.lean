-- SUMMARY: Encoded template trees are decoded as themselves if their indices fit into 64 bits.
import Phrasebook.Proofs.Json.Decoding
import Phrasebook.Proofs.Template.Building
import Phrasebook.Template.Json

/-!
# Encoded template trees

Decoding an encoded tree gives the tree back if its indices fit into 64 bits
(`Tree.ofJson?_toJson`). A piece that may nest as many levels as its encoded form is decoded whether
it is set aside or not (`Piece.decode_toJsonAll`).
-/
namespace Phrasebook.Template

open Json Decode Text.Numeral

/-! ## The record of a tree -/

section
variable {index : Nat} {values : List Value}

theorem plain_treeRecord (hindex : index ≤ nat64Max) (h : ∀ value ∈ values, value.Plain) :
    (treeRecord index values).Plain := by
  refine Value.plain_record (List.forall_mem_cons.2 ⟨?_, List.forall_mem_cons.2 ⟨?_, nofun⟩⟩)
  · simpa using Value.plain_ofNat hindex
  · simpa using h

/-- What stands inside a tree nests less deep than its record. -/
theorem depth_lt_treeRecord {value : Value} (h : value ∈ values) :
    value.depth + 1 < (treeRecord index values).depth := by
  have hlist : (Value.array values).depth < (treeRecord index values).depth := by
    refine @Value.depth_lt_record _ "children" _ ?_
    simp
  have hvalue := Value.depth_lt_array h
  omega

end

/-- A tree is decoded if the pieces inside are. -/
theorem Tree.decode_treeRecord {levels index : Nat} {held : Bool} {ps : List Piece}
    (hindex : index ≤ nat64Max) (h : ∀ p ∈ ps, decode.piece held levels p.toJson = some p) :
    decode (levels + 1) held (treeRecord index (ps.map Piece.toJson)) = some ⟨index, ps⟩ := by
  obtain ⟨fields, hrecord, hfields⟩ : ∃ fields,
      record ["index", "children"] (treeRecord index (ps.map Piece.toJson)) = some fields ∧
        FieldsOf _ fields := record_record rfl (by decide)
  unfold decode
  simp only [hrecord, Option.bind_eq_bind, Option.bind_some]
  rw [hfields.required rfl (nat nat64Max), nat_ofNat hindex, hfields.required rfl, list_array h]
  rfl

/-! ## Pieces -/

namespace Piece

theorem toJsonAll_eq_map (ps : List Piece) : Piece.toJsonAll ps = ps.map Piece.toJson := by
  induction ps with
  | nil => rfl
  | cons p ps ih => rw [Piece.toJsonAll, ih, List.map_cons]

theorem plain_toJsonAll (ps : List Piece) (h : ∀ i ∈ indicesAll ps, i ≤ nat64Max) :
    ∀ p ∈ ps, p.toJson.Plain := by
  induction ps using Piece.inductionAll with
  | nil => nofun
  | text run ps ih =>
    exact List.forall_mem_cons.2 ⟨Value.plain_tagged (by simp), ih h⟩
  | slot index inner ps ihInner ih =>
    obtain ⟨⟨hindex, hinner⟩, hrest⟩ := List.forall_mem_append.1 h |>.imp_left List.forall_mem_cons.1
    have hvalues : ∀ value ∈ toJsonAll inner, value.Plain := by
      simpa [toJsonAll_eq_map] using ihInner hinner
    refine List.forall_mem_cons.2 ⟨Value.plain_tagged ?_, ih hrest⟩
    simpa using plain_treeRecord hindex hvalues

/-- A piece is decoded if as many levels may nest as in its encoded form. -/
theorem decode_toJsonAll (ps : List Piece) (h : ∀ i ∈ indicesAll ps, i ≤ nat64Max) :
    ∀ p ∈ ps, ∀ levels held, p.toJson.depth ≤ levels →
      Tree.decode.piece held levels p.toJson = some p := by
  induction ps using Piece.inductionAll with
  | nil => nofun
  | text run ps ih =>
    refine List.forall_mem_cons.2 ⟨fun levels held _ => ?_, ih h⟩
    have htagged : tagged held ["text", "node"] (text run).toJson =
        some ⟨"text", some (.string run), held⟩ := tagged_tagged held (by decide) _
    unfold Tree.decode.piece
    simp only [htagged, Option.bind_eq_bind, Option.bind_some]
    rfl
  | slot index inner ps ihInner ih =>
    obtain ⟨⟨hindex, hinner⟩, hrest⟩ := List.forall_mem_append.1 h |>.imp_left List.forall_mem_cons.1
    refine List.forall_mem_cons.2 ⟨fun levels held hlevels => ?_, ih hrest⟩
    have htagged : tagged held ["text", "node"] (slot index inner).toJson =
        some ⟨"node", some (treeRecord index (inner.map toJson)), held⟩ := by
      rw [← toJsonAll_eq_map]
      exact tagged_tagged held (by decide) _
    have hdepth : (treeRecord index (inner.map toJson)).depth < levels := by
      rw [← toJsonAll_eq_map]
      refine Nat.lt_of_lt_of_le (@Value.depth_lt_record _ "value" _ ?_) hlevels
      simp
    obtain ⟨levels, rfl⟩ := Nat.exists_eq_add_one_of_ne_zero (Nat.ne_zero_of_lt hdepth)
    have htree : Tree.decode (levels + 1) held (treeRecord index (inner.map toJson)) =
        some ⟨index, inner⟩ := by
      refine Tree.decode_treeRecord hindex fun p hp => ?_
      have hp' : p.toJson.depth + 1 < (treeRecord index (inner.map toJson)).depth :=
        depth_lt_treeRecord (List.mem_map_of_mem hp)
      exact ihInner hinner p hp levels held (by omega)
    unfold Tree.decode.piece
    simp only [htagged, htree, Option.bind_eq_bind, Option.bind_some]
    rfl

end Piece

/-! ## Trees -/

namespace Tree

theorem toJson_eq (tree : Tree) :
    tree.toJson = treeRecord tree.index (tree.pieces.map Piece.toJson) := by
  rw [toJson, Piece.toJsonAll_eq_map]

theorem plain_toJson (tree : Tree) (h : ∀ i ∈ tree.indices, i ≤ nat64Max) : tree.toJson.Plain := by
  obtain ⟨hindex, hpieces⟩ := List.forall_mem_cons.1 h
  rw [toJson_eq]
  refine plain_treeRecord hindex ?_
  simpa using Piece.plain_toJsonAll tree.pieces hpieces

theorem ofJson?_toJson (tree : Tree) (h : ∀ i ∈ tree.indices, i ≤ nat64Max) :
    ofJson? tree.toJson = some tree := by
  obtain ⟨hindex, hpieces⟩ := List.forall_mem_cons.1 h
  unfold ofJson?
  rw [toJson_eq]
  refine decode_treeRecord hindex fun p hp => ?_
  have hdepth : p.toJson.depth + 1 <
      (treeRecord tree.index (tree.pieces.map Piece.toJson)).depth :=
    depth_lt_treeRecord (List.mem_map_of_mem hp)
  exact Piece.decode_toJsonAll tree.pieces hpieces p hp _ false (by omega)

end Tree

end Phrasebook.Template
