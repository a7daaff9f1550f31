-- SUMMARY: Paths as spelled, their components, their order, and sorted lists without repetition.

/-!
# Paths

A path keeps its spelling. Its components are what stands between slashes, without empty ones and
without `.`, except for a leading `.`, which counts; so `d//e` and `d/./e` have the components of
`d/e`, and `./d` differs from `d`. Paths are compared component by component.
-/
namespace Phrasebook

/-- A path, as its user spells it. -/
structure Path where
  spelling : String
deriving DecidableEq, Repr

namespace Path

/-! ## Components -/

inductive Component where
  /-- The root directory, for a path that starts with a slash. -/
  | root
  /-- A leading `.`. -/
  | current
  /-- A `..`. -/
  | parent
  | name (text : String)
deriving DecidableEq, Repr

namespace Component

def text : Component → String
  | .root      => "/"
  | .current   => "."
  | .parent    => ".."
  | .name text => text

/-- The length in bytes. -/
def size (component : Component) : Nat := component.text.utf8ByteSize

/-- Kinds in their order; names come last. -/
def rank : Component → Nat
  | .root    => 0
  | .current => 1
  | .parent  => 2
  | .name _  => 3

/-- Names are ordered character by character. -/
def lt (a b : Component) : Bool :=
  match a, b with
  | .name s, .name t => s < t
  | a, b => a.rank < b.rank

end Component

/-- The component that a part between slashes denotes behind the first one. -/
def component? (part : List Char) : Option Component :=
  match part with
  | [] | ['.']   => none
  | ['.', '.']   => some .parent
  | part         => some (.name (String.ofList part))

/-- The parts between slashes. -/
def parts (path : Path) : List (List Char) := path.spelling.toList.splitOn '/'

def components (path : Path) : List Component :=
  match path.parts with
  | [] => []
  | [] :: [] => []
  | [] :: rest => .root :: rest.filterMap component?
  | ['.'] :: rest => .current :: rest.filterMap component?
  | parts => parts.filterMap component?

/-! ## Limits -/

/-- The greatest length of a path, in bytes. -/
def maxSize : Nat := 4096

/-- The greatest length of a component, in bytes. -/
def maxComponentSize : Nat := 255

/-- The length in bytes. -/
def size (path : Path) : Nat := path.spelling.utf8ByteSize

/-- Some component is longer than a file name can be. -/
def hasLongComponent (path : Path) : Bool :=
  path.components.any fun component => component.size > maxComponentSize

/-! ## Order -/

/-- Order lists of components; a list comes before its extensions. -/
def componentsLe : List Component → List Component → Bool
  | [], _ => true
  | _ :: _, [] => false
  | a :: as, b :: bs => if a = b then componentsLe as bs else a.lt b

/-- Order by components. -/
def le (a b : Path) : Bool := componentsLe a.components b.components

/-- The paths have the same components. -/
def same (a b : Path) : Bool := a.components == b.components

/-- Drop the paths that are the same as the path kept before them, which is `kept` at first. -/
def dropSame (kept : Path) : List Path → List Path
  | [] => []
  | path :: paths => if kept.same path then dropSame kept paths else path :: dropSame path paths

/-- Of several paths in a row that are the same, keep the first. -/
def dropRepeated : List Path → List Path
  | [] => []
  | path :: paths => path :: dropSame path paths

/-- Sort paths. Of those that are the same, the first one given is kept. -/
def sortedDistinct (paths : List Path) : List Path := dropRepeated (paths.mergeSort le)

example : dropRepeated [⟨"d//e"⟩, ⟨"d/./e"⟩, ⟨"d/e/"⟩, ⟨"./d/e"⟩] = [⟨"d//e"⟩, ⟨"./d/e"⟩] := by
  decide +kernel
example : le ⟨"d/e"⟩ ⟨"d-e"⟩ ∧ le ⟨"./d"⟩ ⟨"../d"⟩ ∧ le ⟨"/d"⟩ ⟨"."⟩ := by decide +kernel

end Path

end Phrasebook
