-- SUMMARY: Decoders on encoded values: scalars, lists, records with absent fields, and unions.
import Phrasebook.Json.Decode
import Phrasebook.Proofs.Json.Nesting

/-!
# Decoding

What the decoders make of encoded values. A record is written without its absent members, and of
the fields found in it each is looked up as in the list with the absent ones
(`Decode.record_record`). So an encoder and a decoder can be compared field by field:
`FieldsOf.required` for the fields that are always written, and `FieldsOf.optional`,
`FieldsOf.list` and `FieldsOf.flag` for those that may be left out.
-/
namespace Phrasebook.Json

/-! ## Records as values -/

namespace Value

/-- The members that are there. -/
def present (members : List (String × Option Value)) : List (String × Value) :=
  members.filterMap fun (name, value) => value.map fun value => (name, value)

variable {members : List (String × Option Value)} {name : String} {value : Value}

theorem record_eq_object (members : List (String × Option Value)) :
    record members = .object (present members) := rfl

theorem mem_present : (name, value) ∈ present members ↔ (name, some value) ∈ members := by
  refine List.mem_filterMap.trans ⟨?_, fun h => ⟨_, h, rfl⟩⟩
  rintro ⟨⟨other, _ | found⟩, hmem, heq⟩
  · cases heq
  · cases heq
    exact hmem

theorem plain_record (h : ∀ member ∈ members, ∀ value ∈ member.2, value.Plain) :
    (record members).Plain :=
  plain_object.2 fun member hmember => h _ (mem_present.1 hmember) member.2 rfl

theorem plain_withKind {kind : String} (h : (record members).Plain) :
    (Encode.withKind kind (record members)).Plain :=
  plain_object.2 (List.forall_mem_cons.2 ⟨trivial, plain_object.1 h⟩)

theorem depth_withKind (kind : String) (value : Value) :
    (Encode.withKind kind value).depth = value.depth := by
  cases value <;> simp [Encode.withKind, depth, depthMembers]

theorem plain_tagged {kind : String} {content : Option Value} (h : ∀ value ∈ content, value.Plain) :
    (Encode.tagged kind content).Plain := by
  refine plain_record ?_
  simpa using h

/-- A member nests less deep than its record. -/
theorem depth_lt_record (h : (name, some value) ∈ members) : value.depth < (record members).depth :=
  depth_lt_object (mem_present.2 h)

end Value

namespace Decode

open Value (present)

variable {α : Type} {members : List (String × Option Value)} {fields : Fields} {name : String}

/-! ## Scalars and lists -/

theorem nat_ofNat {n high : Nat} (h : n ≤ high) : nat high (.ofNat n) = some n := by
  have hbounds : (0 : Int) ≤ n ∧ (n : Int) ≤ high := ⟨Int.natCast_nonneg n, Int.ofNat_le.2 h⟩
  simp [nat, int, Value.ofNat, hbounds]

theorem uint32_ofNat (n : UInt32) : uint32 (.ofNat n.toNat) = some n := by
  have hbound : n.toNat ≤ 4294967295 := Nat.le_of_lt_succ n.toNat_lt
  simp [uint32, nat_ofNat hbound]

theorem list_array {encode : α → Value} {item : Decoder α} {xs : List α}
    (h : ∀ x ∈ xs, item (encode x) = some x) : list item (.array (xs.map encode)) = some xs := by
  unfold list
  induction xs with
  | nil => rfl
  | cons x xs ih =>
    obtain ⟨hx, hxs⟩ := List.forall_mem_cons.1 h
    have hrest : (xs.map encode).mapM item = some xs := ih hxs
    simp [List.mapM_cons, hx, hrest]

/-- What is there is not taken for null. -/
theorem option_of_some {content : Decoder α} {value : Value} {x : α} (hnull : content .null = none)
    (h : content value = some x) : option content value = some (some x) := by
  unfold option
  split
  case h_1 => rw [hnull] at h; cases h
  case h_2 => rw [h]; rfl

/-! ## Records -/

/-- The fields are the members, of which the absent ones are left out. -/
def FieldsOf (members : List (String × Option Value)) (fields : Fields) : Prop :=
  ∀ name, fields.lookup name = (members.lookup name).join

theorem map_present_sublist (members : List (String × Option Value)) :
    ((present members).map Prod.fst).Sublist (members.map Prod.fst) := by
  induction members with
  | nil => exact .slnil
  | cons member members ih =>
    obtain ⟨name, value⟩ := member
    cases value with
    | none => exact ih.cons name
    | some value => exact ih.cons_cons name

theorem fst_mem_of_mem_present {field : String × Value} (h : field ∈ present members) :
    field.1 ∈ members.map Prod.fst :=
  (map_present_sublist members).subset (List.mem_map_of_mem h)

theorem lookup_present_of_notMem (h : name ∉ members.map Prod.fst) :
    (present members).lookup name = none := by
  refine List.lookup_eq_none_iff.2 fun field hfield => ?_
  have hname : name ≠ field.1 := fun heq => h (heq ▸ fst_mem_of_mem_present hfield)
  simpa using hname

theorem fieldsOf_present (h : (members.map Prod.fst).Nodup) : FieldsOf members (present members) := by
  induction members with
  | nil => exact fun _ => rfl
  | cons member members ih =>
    obtain ⟨other, value⟩ := member
    obtain ⟨hother, hrest⟩ := List.nodup_cons.1 h
    intro name
    cases value with
    | some value =>
      change List.lookup name ((other, value) :: present members) = _
      rw [List.lookup_cons, List.lookup_cons, ih hrest name]
      split <;> rfl
    | none =>
      change List.lookup name (present members) = _
      rw [List.lookup_cons]
      split
      case h_1 hname =>
        rw [eq_of_beq hname]
        exact lookup_present_of_notMem hother
      case h_2 => exact ih hrest name

theorem record_eq_present {names : List String} (hnames : members.map Prod.fst = names)
    (hnodup : names.Nodup) : record names (.record members) = some (present members) := by
  subst hnames
  have hknown : (present members).filter (fun field => (members.map Prod.fst).contains field.1) =
      present members := by
    refine List.filter_eq_self.2 fun field hfield => ?_
    simpa using fst_mem_of_mem_present hfield
  have hdistinct : distinct (present members) = true :=
    decide_eq_true ((map_present_sublist members).nodup hnodup)
  change (if distinct ((present members).filter _) then some ((present members).filter _)
    else none) = some (present members)
  rw [hknown, if_pos hdistinct]

/-- A record is read as its members. -/
theorem record_record {names : List String} (hnames : members.map Prod.fst = names)
    (hnodup : names.Nodup) :
    ∃ fields, record names (.record members) = some fields ∧ FieldsOf members fields :=
  ⟨_, record_eq_present hnames hnodup, fieldsOf_present (hnames ▸ hnodup)⟩

namespace FieldsOf

variable (h : FieldsOf members fields)
include h

theorem required {value : Value} (hfield : members.lookup name = some (some value))
    (content : Decoder α) : Decode.required fields name content = content value := by
  rw [Decode.required, h name, hfield]
  rfl

theorem default_of_some {value : Value} (hfield : members.lookup name = some (some value)) (x : α)
    (content : Decoder α) : Decode.default fields name x content = content value := by
  rw [Decode.default, h name, hfield]
  rfl

theorem default_of_none (hfield : members.lookup name = some none) (x : α) (content : Decoder α) :
    Decode.default fields name x content = some x := by
  rw [Decode.default, h name, hfield]
  rfl

/-- A field that is left out if there is nothing to write. -/
theorem optional {encode : α → Value} {x : Option α} {content : Decoder α}
    (hfield : members.lookup name = some (x.map encode)) (hnull : content .null = none)
    (hx : ∀ y ∈ x, content (encode y) = some y) :
    Decode.optional fields name content = some x := by
  cases x with
  | none => exact h.default_of_none hfield none _
  | some y =>
    rw [Decode.optional, h.default_of_some hfield]
    exact option_of_some hnull (hx y rfl)

/-- A line, or any other number of 32 bits, that is left out if it is absent. -/
theorem line {line : Option UInt32}
    (hfield : members.lookup name = some (line.map fun line => .ofNat line.toNat)) :
    Decode.optional fields name uint32 = some line :=
  h.optional hfield rfl fun n _ => uint32_ofNat n

/-- A list that is left out if it is empty. -/
theorem list {encode : α → Value} {item : Decoder α} {xs : List α}
    (hfield : members.lookup name =
      some (if (xs.map encode).isEmpty then none else some (.array (xs.map encode))))
    (hxs : ∀ x ∈ xs, item (encode x) = some x) :
    Decode.default fields name [] (Decode.list item) = some xs := by
  cases xs with
  | nil => exact h.default_of_none hfield [] _
  | cons x xs =>
    rw [h.default_of_some hfield]
    exact list_array hxs

/-- A flag that is left out if it is lowered. -/
theorem flag {flag : Bool}
    (hfield : members.lookup name = some (if flag then some (.bool true) else none)) :
    Decode.default fields name false bool = some flag := by
  cases flag with
  | false => exact h.default_of_none hfield false _
  | true => exact h.default_of_some hfield false _

end FieldsOf

/-! ## Unions -/

theorem chosenKind_string {kinds : List String} {kind : String} (held : Bool) (h : kind ∈ kinds) :
    chosenKind held kinds (.string kind) = some kind := by
  simp [chosenKind, chosenName, h]

/-- A tagged value is read as its kind and content. -/
theorem tagged_tagged {kinds : List String} {kind : String} (held : Bool) (h : kind ∈ kinds)
    (content : Option Value) :
    tagged held kinds (Encode.tagged kind content) = some ⟨kind, content, held⟩ := by
  have hkind := chosenKind_string held h
  cases content with
  | none => simp [tagged, Encode.tagged, Value.record, record, distinct, required, hkind]
  | some value =>
    simp [tagged, Encode.tagged, Value.record, record, distinct, required, hkind, List.lookup_cons]

theorem kind_string {kinds : List String} {kind : String} (held : Bool) (h : kind ∈ kinds) :
    Decode.kind held kinds (.string kind) = some kind := by
  simp [Decode.kind, h]

/-- A merged value is read as its kind and the rest of its members. -/
theorem merged_withKind {kinds : List String} {kind : String} {held : Bool} (h : kind ∈ kinds)
    (hmembers : "kind" ∉ members.map Prod.fst)
    (hintact : held = false → (Encode.withKind kind (.record members)).isIntact = true) :
    merged held kinds (Encode.withKind kind (.record members)) = some (kind, .record members) := by
  have hguard : ¬(!held ∧ !(Encode.withKind kind (.record members)).isIntact) := by
    cases held with
    | true => simp
    | false => simp [hintact rfl]
  have hother : ∀ field ∈ present members, (field.1 == "kind") = false := by
    intro field hfield
    exact beq_false_of_ne fun heq => hmembers (heq ▸ fst_mem_of_mem_present hfield)
  have hpartition : (("kind", .string kind) :: present members).partition
      (fun field => field.1 == "kind") = ([("kind", .string kind)], present members) := by
    have hkinds : (present members).filter (fun field => field.1 == "kind") = [] :=
      List.filter_eq_nil_iff.2 fun field hfield => Bool.eq_false_iff.1 (hother field hfield)
    have hothers : (present members).filter (fun field => !(field.1 == "kind")) = present members :=
      List.filter_eq_self.2 fun field hfield => by rw [hother field hfield, Bool.not_false]
    simp only [List.partition_eq_filter_filter, Function.comp_def, List.filter_cons, hkinds, hothers,
      beq_self_eq_true, Bool.not_true, if_true, Bool.false_eq_true, if_false]
  unfold merged
  rw [if_neg hguard]
  simp only [Encode.withKind, Value.record_eq_object, hpartition, kind_string held h, Option.map_some]

end Decode

end Phrasebook.Json
