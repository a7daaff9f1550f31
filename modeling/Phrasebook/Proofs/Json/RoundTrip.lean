-- SUMMARY: Printed markup, template trees and catalogs are read and decoded as themselves.
import Phrasebook.Proofs.Catalog.Encoding
import Phrasebook.Proofs.Json.Building
import Phrasebook.Proofs.Markup.Encoding
import Phrasebook.Proofs.Template.Encoding

/-!
# Round trips

What is printed as JSON is the value it was, once it is read and decoded (`decode_printed`). The
encoded value must not nest deeper than a text may, and the indices of a template must fit into 64
bits. Nothing else is asked: strings hold any characters, and lists and lines may be absent.
-/
namespace Phrasebook

open Json Markup Template

/-- The text of a value, on one line or indented, is read and decoded as the value. -/
def RoundTrips {α : Type} (encode : α → Value) (decode : Decoder α) (x : α) : Prop :=
  (Value.ofText? (encode x).compact).bind decode = some x ∧
    (Value.ofText? (encode x).pretty).bind decode = some x

/-- Reading undoes printing, so the decoder only has to undo the encoder. -/
theorem RoundTrips.of_decode {α : Type} {encode : α → Value} {decode : Decoder α} {x : α}
    (hplain : (encode x).Plain) (hdecode : decode (encode x) = some x)
    (hdepth : (encode x).depth ≤ Value.maxNesting) : RoundTrips encode decode x := by
  constructor
  · rw [Value.ofText?_compact hplain hdepth, Option.bind_some, hdecode]
  · rw [Value.ofText?_pretty hplain hdepth, Option.bind_some, hdecode]

theorem decode_printed :
    (∀ node : Node, node.toJson.depth ≤ Value.maxNesting →
      RoundTrips Node.toJson Node.ofJson? node) ∧
    (∀ element : Element, element.toJson.depth ≤ Value.maxNesting →
      RoundTrips Element.toJson Element.ofJson? element) ∧
    (∀ document : Document, document.toJson.depth ≤ Value.maxNesting →
      RoundTrips Document.toJson Document.ofJson? document) ∧
    (∀ value : AttributeValue, value.toJson.depth ≤ Value.maxNesting →
      RoundTrips AttributeValue.toJson (AttributeValue.ofJson? false) value) ∧
    (∀ tree : Tree, (∀ i ∈ tree.indices, i ≤ Text.Numeral.nat64Max) →
      tree.toJson.depth ≤ Value.maxNesting → RoundTrips Tree.toJson Tree.ofJson? tree) ∧
    (∀ location : Location, location.toJson.depth ≤ Value.maxNesting →
      RoundTrips Location.toJson Location.ofJson? location) ∧
    (∀ entry : Entry, entry.toJson.depth ≤ Value.maxNesting →
      RoundTrips Entry.toJson Entry.ofJson? entry) ∧
    (∀ document : CatalogDocument, document.toJson.depth ≤ Value.maxNesting →
      RoundTrips CatalogDocument.toJson CatalogDocument.ofJson? document) := by
  refine ⟨?node, ?element, ?document, ?attributeValue, ?tree, ?location, ?entry, ?catalog⟩
  case node => exact fun node => .of_decode node.plain_toJson node.ofJson?_toJson
  case element => exact fun element => .of_decode element.plain_toJson element.ofJson?_toJson
  case document => exact fun document => .of_decode document.plain_toJson document.ofJson?_toJson
  case attributeValue =>
    exact fun value => .of_decode value.plain_toJson (AttributeValue.ofJson?_toJson false value)
  case tree =>
    exact fun tree hindices =>
      .of_decode (tree.plain_toJson hindices) (tree.ofJson?_toJson hindices)
  case location => exact fun location => .of_decode location.plain_toJson location.ofJson?_toJson
  case entry => exact fun entry => .of_decode entry.plain_toJson entry.ofJson?_toJson
  case catalog => exact fun document => .of_decode document.plain_toJson document.ofJson?_toJson

theorem decode_printed_link :
    RoundTrips Node.toJson Node.ofJson?
      (.element ⟨"a", [⟨"title", .list ["say \"hi\"", "\\ \x01 é"]⟩, ⟨"hidden", .flag⟩], some 7, false⟩
        [.text "\t" none, .expression ⟨"user", some 3⟩, .element ⟨"br", [], none, true⟩ []]) ∧
    RoundTrips Tree.toJson Tree.ofJson? ⟨0, [.text "{name}", .slot 18446744073709551615 []]⟩ := by
  obtain ⟨hnode, -, -, -, htree, -⟩ := decode_printed
  exact ⟨hnode _ (by decide), htree _ (by decide) (by decide)⟩

end Phrasebook
