-- SUMMARY: Trees of files and directories, the resolution of paths in them, reading and writing.
import Phrasebook.Files.Failure
import Phrasebook.Files.Path

/-!
# File trees

A tree of directories and files, in which paths are resolved the way a file system does it: part
by part, where every part but the last must be a directory, `.` stays, `..` goes up, and a slash
at the end asks for a directory. `FileTree.read` gives the content of a file; `FileTree.write`
gives a file a new content and creates the file if its directory is there.
-/
namespace Phrasebook

inductive FileTree where
  | file (content : ByteArray)
  | directory (entries : List (String × FileTree))

namespace FileTree

/-- An empty directory. -/
def empty : FileTree := .directory []

/-! ## Nodes by name -/

/-- The node inside the directories of the given names. -/
def node? (tree : FileTree) : List String → Option FileTree
  | [] => some tree
  | name :: names =>
    match tree with
    | .directory entries => (entries.lookup name).bind fun entry => entry.node? names
    | .file _ => none

/-- Put an entry in place of the entry of the same name, or behind all entries. -/
def putEntry (name : String) (tree : FileTree) :
    List (String × FileTree) → List (String × FileTree)
  | [] => [(name, tree)]
  | (other, entry) :: entries =>
    if other = name then (name, tree) :: entries else (other, entry) :: putEntry name tree entries

/-- Put a node inside the directories of the given names. Missing directories are made; a file in
the way is replaced. -/
def put (tree new : FileTree) : List String → FileTree
  | [] => new
  | name :: names =>
    let entries := match tree with
      | .directory entries => entries
      | .file _ => []
    let entry := (entries.lookup name).getD empty
    .directory (putEntry name (entry.put new names) entries)

mutual
/-- The files in a tree with the names that lead to them. -/
def files : FileTree → List (List String × ByteArray)
  | .file content => [([], content)]
  | .directory entries => filesAll entries
def filesAll : List (String × FileTree) → List (List String × ByteArray)
  | [] => []
  | (name, entry) :: entries =>
    (entry.files.map fun (names, content) => (name :: names, content)) ++ filesAll entries
end

/-! ## Paths -/

/-- Follow the parts of a path from the node of the names `place`, the innermost first. -/
def walk (tree : FileTree) (place : List String) :
    List (List Char) → Except FileFailure (List String)
  | [] => .ok place
  | part :: parts =>
    match tree.node? place.reverse with
    | some (.directory _) =>
      match Path.component? part with
      | none => tree.walk place parts
      | some .parent => tree.walk place.tail parts
      | some component =>
        if component.size > Path.maxComponentSize then .error .nameTooLong
        else
          let place := component.text :: place
          if (tree.node? place.reverse).isSome then tree.walk place parts else .error .notFound
    | some (.file _) => .error .notDirectory
    | none => .error .notFound

/-- A path that can be asked for at all. -/
def checkSpelling (path : Path) : Except FileFailure Unit :=
  if path.spelling.toList.contains '\x00' then .error .nulInName
  else if path.spelling.isEmpty then .error .notFound
  else if path.size ≥ Path.maxSize then .error .nameTooLong
  else .ok ()

/-- Where a path starts: at the root, or in the working directory. -/
def origin (path : Path) (workingDirectory : List String) : List String :=
  if path.components.head? = some .root then [] else workingDirectory.reverse

/-- The node of a path, and the names that lead to it. -/
def resolve (tree : FileTree) (workingDirectory : List String) (path : Path) :
    Except FileFailure (List String × FileTree) := do
  checkSpelling path
  let place ← tree.walk (origin path workingDirectory) path.parts
  match tree.node? place.reverse with
  | some node => return (place.reverse, node)
  | none => throw .notFound

/-- The names of the file that a path denotes as a place to write to. Its directory must be there,
and the last part must be able to name a file. -/
def target (tree : FileTree) (workingDirectory : List String) (path : Path) :
    Except FileFailure (List String) := do
  checkSpelling path
  let parts := path.parts.reverse.dropWhile List.isEmpty
  match parts with
  | [] => throw .isDirectory
  | last :: parents =>
    let place ← tree.walk (origin path workingDirectory) parents.reverse
    let some (.directory _) := tree.node? place.reverse | throw .notDirectory
    let some (.name name) := Path.component? last | throw .isDirectory
    if path.parts.getLast? = some [] then throw .isDirectory
    if name.utf8ByteSize > Path.maxComponentSize then throw .nameTooLong
    match tree.node? (name :: place).reverse with
    | some (.directory _) => throw .isDirectory
    | _ => return (name :: place).reverse

/-! ## Reading and writing -/

/-- What a directory counts as its size. -/
def directorySize : Nat := 4096

/-- The size of a file or directory, in bytes. -/
def sizeOf (tree : FileTree) (workingDirectory : List String) (path : Path) :
    Except FileFailure Nat := do
  match ← tree.resolve workingDirectory path with
  | (_, .file content) => return content.size
  | (_, .directory _) => return directorySize

/-- The content of a file. -/
def read (tree : FileTree) (workingDirectory : List String) (path : Path) :
    Except FileFailure ByteArray := do
  match ← tree.resolve workingDirectory path with
  | (_, .file content) => return content
  | (_, .directory _) => throw .isDirectory

/-- Change the content of a file, which is empty if the file is new. -/
def update (tree : FileTree) (workingDirectory : List String) (path : Path)
    (change : ByteArray → ByteArray) : Except FileFailure FileTree := do
  let names ← tree.target workingDirectory path
  let content := match tree.node? names with
    | some (.file content) => content
    | _ => ByteArray.empty
  return tree.put (.file (change content)) names

end FileTree

end Phrasebook
