-- SUMMARY: Encoded locations, entries and catalog documents are decoded as themselves.
import Phrasebook.Catalog.Json
import Phrasebook.Proofs.Json.Decoding

/-!
# Encoded catalogs

Decoding an encoded location, entry, header or document gives it back, and every one of them is
plain. An entry is encoded in two ways, on its own and as a record of a document.
-/
namespace Phrasebook

open Json Decode

/-! ## Locations -/

namespace Location

theorem ofJson?_toJson (location : Location) : ofJson? location.toJson = some location := by
  obtain ⟨fields, hrecord, hfields⟩ : ∃ fields,
      record ["file", "line"] location.toJson = some fields ∧ FieldsOf _ fields :=
    record_record rfl (by decide)
  unfold ofJson?
  simp only [hrecord, Option.bind_eq_bind, Option.bind_some]
  rw [hfields.required rfl string, hfields.line rfl]
  rfl

theorem plain_toJson (location : Location) : location.toJson.Plain := by
  refine Value.plain_record (List.forall_mem_cons.2 ⟨by simp, List.forall_mem_cons.2 ⟨?_, nofun⟩⟩)
  cases location.line <;> simp

end Location

/-! ## Entries -/

theorem list_strings (texts : List String) : Decode.list string (strings texts) = some texts :=
  list_array fun _ _ => rfl

theorem plain_strings (texts : List String) : (strings texts).Plain := by
  simp [strings]

namespace Entry

variable (entry : Entry)

theorem list_references :
    Decode.list Location.ofJson? (.array (entry.references.map Location.toJson)) =
      some entry.references :=
  list_array fun location _ => location.ofJson?_toJson

theorem plain_occurrences (name : String) :
    ∀ member ∈ entry.occurrences name, ∀ value ∈ member.2, value.Plain := by
  refine List.forall_mem_cons.2 ⟨?_, List.forall_mem_cons.2 ⟨?_, nofun⟩⟩
  · simp [Location.plain_toJson]
  · cases entry.comment <;> simp

theorem occurrences?_record :
    occurrences? (.record (entry.occurrences "reference")) =
      some (entry.references, entry.comment) := by
  obtain ⟨fields, hrecord, hfields⟩ : ∃ fields,
      record ["reference", "extracted"] (.record (entry.occurrences "reference")) = some fields ∧
        FieldsOf _ fields := record_record rfl (by decide)
  have hcomment : optional fields "extracted" string = some entry.comment :=
    hfields.optional rfl rfl fun _ _ => rfl
  unfold occurrences?
  simp only [hrecord, Option.bind_eq_bind, Option.bind_some]
  rw [hfields.required rfl, list_references, hcomment]
  rfl

theorem ofJson?_toJson : ofJson? entry.toJson = some entry := by
  obtain ⟨fields, hrecord, hfields⟩ : ∃ fields,
      record ["id", "translations", "comments"] entry.toJson = some fields ∧ FieldsOf _ fields :=
    record_record rfl (by decide)
  unfold ofJson?
  simp only [hrecord, Option.bind_eq_bind, Option.bind_some]
  rw [hfields.required rfl string, hfields.default_of_some rfl, list_strings,
    hfields.default_of_some rfl, occurrences?_record]
  rfl

theorem plain_toJson : entry.toJson.Plain := by
  have hcomments := Value.plain_record (entry.plain_occurrences "reference")
  exact Value.plain_record (by simp [plain_strings, hcomments])

theorem ofRecord?_toRecord : ofRecord? entry.toRecord = some entry := by
  obtain ⟨fields, hrecord, hfields⟩ : ∃ fields,
      record ["id", "translations", "references", "extracted"] entry.toRecord = some fields ∧
        FieldsOf _ fields := record_record rfl (by decide)
  have hcomment : optional fields "extracted" string = some entry.comment :=
    hfields.optional rfl rfl fun _ _ => rfl
  unfold ofRecord?
  simp only [hrecord, Option.bind_eq_bind, Option.bind_some]
  rw [hfields.required rfl string, hfields.required rfl (Decode.list string), list_strings,
    hfields.required rfl (Decode.list Location.ofJson?), list_references, hcomment]
  rfl

theorem plain_toRecord : entry.toRecord.Plain := by
  refine Value.plain_record (List.forall_mem_cons.2 ⟨by simp, ?_⟩)
  refine List.forall_mem_cons.2 ⟨by simp [plain_strings], ?_⟩
  exact entry.plain_occurrences "references"

end Entry

/-! ## Documents -/

theorem Header.ofJson?_toJson (header : Header) : ofJson? header.toJson = some header := by
  obtain ⟨fields, hrecord, hfields⟩ : ∃ fields,
      record ["charset", "creation_date", "mime_version", "content_type",
        "content_transfer_encoding"] header.toJson = some fields ∧ FieldsOf _ fields :=
    record_record rfl (by decide)
  unfold ofJson?
  simp only [hrecord, Option.bind_eq_bind, Option.bind_some]
  rw [hfields.required rfl string, hfields.required rfl string, hfields.required rfl string,
    hfields.required rfl string, hfields.required rfl string]
  rfl

theorem Header.plain_toJson (header : Header) : header.toJson.Plain :=
  Value.plain_record (by simp)

namespace CatalogDocument

theorem ofJson?_toJson (document : CatalogDocument) : ofJson? document.toJson = some document := by
  obtain ⟨fields, hrecord, hfields⟩ : ∃ fields,
      record ["header", "records"] document.toJson = some fields ∧ FieldsOf _ fields :=
    record_record rfl (by decide)
  have hrecords : Decode.list Entry.ofRecord? (.array (document.records.map Entry.toRecord)) =
      some document.records := list_array fun entry _ => entry.ofRecord?_toRecord
  unfold ofJson?
  simp only [hrecord, Option.bind_eq_bind, Option.bind_some]
  rw [hfields.required rfl Header.ofJson?, Header.ofJson?_toJson, hfields.required rfl, hrecords]
  rfl

theorem plain_toJson (document : CatalogDocument) : document.toJson.Plain :=
  Value.plain_record (by simp [Header.plain_toJson, Entry.plain_toRecord])

end CatalogDocument

end Phrasebook
