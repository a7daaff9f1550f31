-- SUMMARY: Merging the catalogs of several source units.
import Phrasebook.Catalog.Basic

/-!
# Merging catalogs

`mergeAll` folds catalogs together in the order given. `mergeUnits` first sorts the catalogs by
the unit they come from; the sort is stable, so the outcome depends on the order of delivery only
among catalogs of one unit.
-/
namespace Phrasebook

namespace Catalog

/-- Fold a catalog into another. -/
def merge (policy : CommentPolicy) (catalog incoming : Catalog) : Catalog :=
  catalog.mergeEntries policy incoming.toList

/-- Merge catalogs in the order given. -/
def mergeAll (policy : CommentPolicy) (catalogs : List Catalog) : Catalog :=
  catalogs.foldl (merge policy) empty

end Catalog

/-- The catalog of one source unit. -/
structure UnitCatalog where
  unit    : String
  catalog : Catalog

/-- Order by the name of the unit, character by character. -/
def UnitCatalog.le (a b : UnitCatalog) : Bool := a.unit ≤ b.unit

/-- Merge catalogs in the order of their units. -/
def mergeUnits (policy : CommentPolicy) (units : List UnitCatalog) : Catalog :=
  Catalog.mergeAll policy ((units.mergeSort UnitCatalog.le).map UnitCatalog.catalog)

end Phrasebook
