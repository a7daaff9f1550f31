-- SUMMARY: Encoded markup is decoded as itself: attributes, elements, nodes, and documents.
import Phrasebook.Markup.Json
import Phrasebook.Proofs.Json.Decoding
import Phrasebook.Proofs.Message.Content

/-!
# Encoded markup

Decoding an encoded node gives the node back, whether it is set aside or not, as long as the levels
that may nest exceed its depth (`Node.decode_toJson`). Fields that are left out in writing are
restored. Every encoded value is plain, so that its text holds it without loss.
-/
namespace Phrasebook.Markup

open Json Decode

/-! ## Attributes -/

theorem AttributeValue.ofJson?_toJson (held : Bool) (value : AttributeValue) :
    ofJson? held value.toJson = some value := by
  unfold ofJson? toJson
  cases value with
  | literal text =>
    rw [tagged_tagged held (by decide)]
    rfl
  | expression source =>
    rw [tagged_tagged held (by decide)]
    rfl
  | list items =>
    have hitems : Decode.list string (.array (items.map Value.string)) = some items :=
      list_array fun _ _ => rfl
    rw [tagged_tagged held (by decide)]
    change (Decode.list string (.array (items.map Value.string))).bind _ = _
    rw [hitems]
    rfl
  | flag =>
    rw [tagged_tagged held (by decide)]
    rfl

theorem Attribute.ofJson?_toJson (held : Bool) (attr : Attribute) :
    ofJson? held attr.toJson = some attr := by
  obtain ⟨fields, hrecord, hfields⟩ : ∃ fields, record ["name", "value"] attr.toJson = some fields ∧
      FieldsOf _ fields := record_record rfl (by decide)
  unfold ofJson?
  simp only [hrecord, Option.bind_eq_bind, Option.bind_some]
  rw [hfields.required rfl string, hfields.required rfl (AttributeValue.ofJson? held),
    AttributeValue.ofJson?_toJson]
  rfl

/-! ## Expressions and elements -/

theorem ExpressionSlot.ofJson?_toJson (slot : ExpressionSlot) : ofJson? slot.toJson = some slot := by
  obtain ⟨fields, hrecord, hfields⟩ : ∃ fields, record ["source", "line"] slot.toJson = some fields ∧
      FieldsOf _ fields := record_record rfl (by decide)
  unfold ofJson?
  simp only [hrecord, Option.bind_eq_bind, Option.bind_some]
  rw [hfields.required rfl string, hfields.line rfl]
  rfl

variable {tag : Tag} {children : List Node} {held : Bool}

/-- An element is decoded if its children are. -/
theorem Element.ofJsonWith?_recordWith {node : Decoder Node}
    (h : ∀ child ∈ children, node child.toJson = some child) :
    ofJsonWith? held node (tag.recordWith (children.map Node.toJson)) = some ⟨tag, children⟩ := by
  obtain ⟨fields, hrecord, hfields⟩ : ∃ fields,
      record ["tag", "attributes", "children", "line", "preserve_whitespace"]
        (tag.recordWith (children.map Node.toJson)) = some fields ∧ FieldsOf _ fields :=
    record_record rfl (by decide)
  unfold ofJsonWith?
  simp only [hrecord, Option.bind_eq_bind, Option.bind_some]
  rw [hfields.required rfl string,
    hfields.list rfl fun attr _ => Attribute.ofJson?_toJson held attr,
    hfields.line rfl, hfields.flag rfl, hfields.list rfl h]
  rfl

/-- A child nests less deep than the record around it. -/
theorem Tag.depth_lt_recordWith {value : Value} {values : List Value} (h : value ∈ values) :
    value.depth + 1 < (tag.recordWith values).depth := by
  have hlist : (Value.array values).depth < (tag.recordWith values).depth := by
    refine @Value.depth_lt_record _ "children" _ ?_
    simp [listField, List.ne_nil_of_mem h]
  have hvalue := Value.depth_lt_array h
  omega

/-! ## Plain values -/

theorem AttributeValue.plain_toJson (value : AttributeValue) : value.toJson.Plain := by
  cases value <;> exact Value.plain_tagged (by simp)

theorem Attribute.plain_toJson (attr : Attribute) : attr.toJson.Plain :=
  Value.plain_record (by simp [AttributeValue.plain_toJson])

theorem plain_lineField (line : Line) : ∀ value ∈ (lineField line).2, value.Plain := by
  cases line <;> simp [lineField]

theorem plain_listField {name : String} {items : List Value} (h : ∀ item ∈ items, item.Plain) :
    ∀ value ∈ (listField name items).2, value.Plain := by
  cases items with
  | nil => simp [listField]
  | cons item items => simpa [listField] using h

theorem ExpressionSlot.plain_toJson (slot : ExpressionSlot) : slot.toJson.Plain := by
  refine Value.plain_record (List.forall_mem_cons.2 ⟨by simp, ?_⟩)
  exact List.forall_mem_cons.2 ⟨plain_lineField slot.line, nofun⟩

theorem Tag.plain_recordWith {values : List Value} (h : ∀ value ∈ values, value.Plain) :
    (tag.recordWith values).Plain := by
  have hattributes : ∀ value ∈ tag.attributes.map Attribute.toJson, value.Plain := by
    simp [Attribute.plain_toJson]
  refine Value.plain_record (List.forall_mem_cons.2 ⟨by simp, ?_⟩)
  refine List.forall_mem_cons.2 ⟨plain_listField hattributes, ?_⟩
  refine List.forall_mem_cons.2 ⟨plain_listField h, ?_⟩
  refine List.forall_mem_cons.2 ⟨plain_lineField tag.line, ?_⟩
  cases h : tag.preserveWhitespace <;> simp

/-! ## Nodes -/

namespace Node

theorem toJsonAll_eq_map (nodes : List Node) : Node.toJsonAll nodes = nodes.map Node.toJson := by
  induction nodes with
  | nil => rfl
  | cons node nodes ih => rw [Node.toJsonAll, ih, List.map_cons]

theorem plain_toJsonAll (nodes : List Node) : ∀ node ∈ nodes, node.toJson.Plain := by
  induction nodes using Node.inductionAll with
  | nil => nofun
  | text value line nodes ih =>
    refine List.forall_mem_cons.2 ⟨?_, ih⟩
    refine Value.plain_withKind (Value.plain_record (List.forall_mem_cons.2 ⟨by simp, ?_⟩))
    exact List.forall_mem_cons.2 ⟨plain_lineField line, nofun⟩
  | expression slot nodes ih =>
    exact List.forall_mem_cons.2 ⟨Value.plain_withKind slot.plain_toJson, ih⟩
  | element tag children nodes ihChildren ih =>
    have hchildren : ∀ value ∈ toJsonAll children, value.Plain := by
      simpa [toJsonAll_eq_map] using ihChildren
    exact List.forall_mem_cons.2 ⟨Value.plain_withKind (tag.plain_recordWith hchildren), ih⟩

theorem plain_toJson (node : Node) : node.toJson.Plain :=
  plain_toJsonAll [node] node (List.mem_singleton_self node)

/-- A child nests less deep than the element around it. -/
theorem depth_lt_element {child : Node} (h : child ∈ children) :
    child.toJson.depth + 1 < (element tag children).toJson.depth := by
  rw [toJson, Value.depth_withKind, toJsonAll_eq_map]
  exact Tag.depth_lt_recordWith (List.mem_map_of_mem h)

section
variable (levels : Nat) (held : Bool)

theorem decode_text (value : String) (line : Line) :
    decode (levels + 1) held (text value line).toJson = some (.text value line) := by
  have hmerged : merged held ["text", "element", "expression"] (text value line).toJson =
      some ("text", .record [("value", some (.string value)), lineField line]) :=
    merged_withKind (by decide) (by decide : "kind" ∉ ["value", "line"])
      fun _ => Value.isIntact_of_plain (plain_toJson (.text value line))
  obtain ⟨fields, hrecord, hfields⟩ : ∃ fields,
      record ["value", "line"] (.record [("value", some (.string value)), lineField line]) =
        some fields ∧ FieldsOf _ fields := record_record rfl (by decide)
  unfold decode
  simp only [hmerged, hrecord, Option.bind_eq_bind, Option.bind_some]
  rw [hfields.required rfl string, hfields.line rfl]
  rfl

theorem decode_expression (slot : ExpressionSlot) :
    decode (levels + 1) held (expression slot).toJson = some (.expression slot) := by
  have hmerged : merged held ["text", "element", "expression"] (expression slot).toJson =
      some ("expression", slot.toJson) :=
    merged_withKind (by decide) (by decide : "kind" ∉ ["source", "line"])
      fun _ => Value.isIntact_of_plain (plain_toJson (.expression slot))
  unfold decode
  simp only [hmerged, ExpressionSlot.ofJson?_toJson, Option.bind_eq_bind, Option.bind_some]
  rfl

theorem decode_element (tag : Tag) (children : List Node)
    (h : ∀ child ∈ children, decode levels true child.toJson = some child) :
    decode (levels + 1) held (element tag children).toJson = some (.element tag children) := by
  have hmerged : merged held ["text", "element", "expression"] (element tag children).toJson =
      some ("element", tag.recordWith (toJsonAll children)) :=
    merged_withKind (by decide)
      (by decide : "kind" ∉ ["tag", "attributes", "children", "line", "preserve_whitespace"])
      fun _ => Value.isIntact_of_plain (plain_toJson (.element tag children))
  have helement : Element.ofJsonWith? true (decode levels true)
      (tag.recordWith (toJsonAll children)) = some ⟨tag, children⟩ := by
    rw [toJsonAll_eq_map]
    exact Element.ofJsonWith?_recordWith h
  unfold decode
  simp only [hmerged, helement, Option.bind_eq_bind, Option.bind_some]
  rfl

end

/-- A node is decoded if more levels may nest than its depth. -/
theorem decode_toJsonAll (nodes : List Node) : ∀ node ∈ nodes, ∀ levels held,
    node.toJson.depth < levels → decode levels held node.toJson = some node := by
  -- `held` varies: the children of a node are set aside with it, even where the node is not
  induction nodes using Node.inductionAll with
  | nil => nofun
  | text value line nodes ih =>
    refine List.forall_mem_cons.2 ⟨fun levels held hlevels => ?_, ih⟩
    obtain ⟨levels, rfl⟩ := Nat.exists_eq_add_one_of_ne_zero (Nat.ne_zero_of_lt hlevels)
    exact decode_text levels held value line
  | expression slot nodes ih =>
    refine List.forall_mem_cons.2 ⟨fun levels held hlevels => ?_, ih⟩
    obtain ⟨levels, rfl⟩ := Nat.exists_eq_add_one_of_ne_zero (Nat.ne_zero_of_lt hlevels)
    exact decode_expression levels held slot
  | element tag children nodes ihChildren ih =>
    refine List.forall_mem_cons.2 ⟨fun levels held hlevels => ?_, ih⟩
    obtain ⟨levels, rfl⟩ := Nat.exists_eq_add_one_of_ne_zero (Nat.ne_zero_of_lt hlevels)
    refine decode_element levels held tag children fun child hchild => ?_
    have hdepth := @depth_lt_element tag children child hchild
    exact ihChildren child hchild levels true (by omega)

theorem ofJson?_toJson (node : Node) : ofJson? node.toJson = some node :=
  decode_toJsonAll [node] node (List.mem_singleton_self node) _ false (Nat.lt_succ_self _)

end Node

/-! ## Elements and documents -/

theorem Element.plain_toJson (element : Element) : element.toJson.Plain := by
  refine element.tag.plain_recordWith ?_
  simp [Node.toJsonAll_eq_map, Node.plain_toJson]

theorem Element.ofJson?_toJson (element : Element) : ofJson? element.toJson = some element := by
  have hrecord : element.toJson = element.tag.recordWith (element.children.map Node.toJson) := by
    rw [toJson, Node.toJsonAll_eq_map]
  unfold ofJson?
  rw [hrecord]
  refine Element.ofJsonWith?_recordWith fun child hchild => ?_
  have hdepth : child.toJson.depth + 1 <
      (element.tag.recordWith (element.children.map Node.toJson)).depth :=
    Tag.depth_lt_recordWith (List.mem_map_of_mem hchild)
  exact Node.decode_toJsonAll _ child hchild _ false (by omega)

theorem Document.plain_toJson (document : Document) : document.toJson.Plain := by
  refine Value.plain_record (List.forall_mem_cons.2 ⟨?_, nofun⟩)
  simp [Node.toJsonAll_eq_map, Node.plain_toJson]

theorem Document.ofJson?_toJson (document : Document) : ofJson? document.toJson = some document := by
  obtain ⟨fields, hrecord, hfields⟩ : ∃ fields, record ["nodes"] document.toJson = some fields ∧
      FieldsOf _ fields := record_record rfl (by decide)
  have hnodes : Decode.list Node.ofJson? (.array (Node.toJsonAll document.nodes)) =
      some document.nodes := by
    rw [Node.toJsonAll_eq_map]
    exact list_array fun node _ => node.ofJson?_toJson
  unfold ofJson?
  simp only [hrecord, Option.bind_eq_bind, Option.bind_some]
  rw [hfields.default_of_some rfl, hnodes]
  rfl

end Phrasebook.Markup
