-- SUMMARY: Message catalogs: entries in first-seen order, found by id.
import Std.Data.HashMap.Basic
import Phrasebook.Catalog.Location

/-!
# Catalogs

A catalog holds one entry per message id, in the order in which the ids first appeared, and an
index from each id to the position of its entry. An entry lists the locations of its message
without repetition, a comment for translators, and translations.

Every change goes through `Catalog.update`, which changes the entry of an id or, for a new id,
appends an entry and indexes it.
-/
namespace Phrasebook

/-! ## Entries -/

/-- A message of a catalog. -/
structure Entry where
  id           : String
  translations : List String := []
  /-- Where the message occurs. -/
  references   : List Location := []
  /-- The developer's comment for translators. -/
  comment      : Option String := none
deriving DecidableEq, Repr

/-- What to do with a second comment for a message. -/
inductive CommentPolicy where
  /-- Keep the first comment. -/
  | keepFirst
  /-- Keep every distinct comment, one below the other. -/
  | concatenateDistinct
deriving DecidableEq, Repr

def CommentPolicy.name : CommentPolicy → String
  | .keepFirst           => "keep_first"
  | .concatenateDistinct => "concatenate_distinct"

/-- The policies by name. -/
def CommentPolicy.names : List (String × CommentPolicy) :=
  [CommentPolicy.keepFirst, .concatenateDistinct].map fun policy => (policy.name, policy)

/-- Combine the comment of an entry with a further one. -/
def CommentPolicy.combine (policy : CommentPolicy) :
    Option String → Option String → Option String
  | existing, none => existing
  | none, some incoming => some incoming
  | some current, some incoming =>
    match policy with
    | .keepFirst => some current
    | .concatenateDistinct =>
      if current = incoming ∨ incoming.toList ∈ current.toList.splitOn '\n' then some current
      else some (current ++ "\n" ++ incoming)

namespace Entry

/-- Append a location unless the entry has it. -/
def addReference (entry : Entry) (location : Location) : Entry :=
  if location ∈ entry.references then entry
  else { entry with references := entry.references ++ [location] }

/-- Append locations in order, none of them twice. -/
def addReferences (entry : Entry) (locations : List Location) : Entry :=
  locations.foldl addReference entry

/-- Take over a comment as the policy says. -/
def addComment (entry : Entry) (policy : CommentPolicy) (comment : Option String) : Entry :=
  { entry with comment := policy.combine entry.comment comment }

/-- Take over translations if the entry has none. -/
def addTranslations (entry : Entry) (translations : List String) : Entry :=
  if entry.translations.isEmpty then { entry with translations } else entry

/-- Fold another entry of the same id into this one. -/
def absorb (entry : Entry) (policy : CommentPolicy) (incoming : Entry) : Entry :=
  ((entry.addReferences incoming.references).addComment policy incoming.comment).addTranslations
    incoming.translations

end Entry

/-! ## Catalogs -/

structure Catalog where
  entries : Array Entry := #[]
  /-- The position of each id in `entries`. -/
  index   : Std.HashMap String Nat := {}

namespace Catalog

def empty : Catalog := {}

/-- The number of messages. -/
def size (catalog : Catalog) : Nat := catalog.entries.size

def isEmpty (catalog : Catalog) : Bool := catalog.entries.isEmpty

/-- The entries in first-seen order. -/
def toList (catalog : Catalog) : List Entry := catalog.entries.toList

/-- The ids in first-seen order. -/
def ids (catalog : Catalog) : List String := catalog.toList.map Entry.id

/-- The entry of an id. -/
def get? (catalog : Catalog) (id : String) : Option Entry :=
  match catalog.index[id]? with
  | some position => catalog.entries[position]?
  | none => none

/-- Change the entry of an id, which is new and empty if the catalog lacks it. Also tells whether
the entry is new. -/
def update (catalog : Catalog) (id : String) (change : Entry → Entry) : Bool × Catalog :=
  match catalog.index[id]? with
  | some position => (false, { catalog with entries := catalog.entries.modify position change })
  | none =>
    (true, { entries := catalog.entries.push (change { id })
             index   := catalog.index.insert id catalog.entries.size })

/-- Record an occurrence of a message. A comment counts only if there is none yet. Also tells
whether the message is new. -/
def add (catalog : Catalog) (id : String) (location : Location) (comment : Option String) :
    Bool × Catalog :=
  catalog.update id fun entry => (entry.addReference location).addComment .keepFirst comment

/-- Fold an entry into the catalog. -/
def mergeEntry (policy : CommentPolicy) (catalog : Catalog) (incoming : Entry) : Catalog :=
  (catalog.update incoming.id fun entry => entry.absorb policy incoming).2

/-- Fold a list of entries into the catalog. -/
def mergeEntries (policy : CommentPolicy) (catalog : Catalog) (entries : List Entry) : Catalog :=
  entries.foldl (mergeEntry policy) catalog

/-- The catalog of a list of entries. -/
def ofEntries (entries : List Entry) : Catalog := mergeEntries .keepFirst empty entries

end Catalog

end Phrasebook
