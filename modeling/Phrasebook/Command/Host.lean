-- SUMMARY: What the tool asks of its surroundings, and a host that is a plain value.
import Phrasebook.Files.Tree

/-!
# Hosts

`Host` lists what the tool asks of the world around it: files, two output streams, the clock, and
workers that run at the same time. The tool runs on any host. `Sandbox` is a host that is a plain
value, on which runs can be computed and reasoned about.
-/
namespace Phrasebook

/-- An output stream. -/
inductive Stream where
  | output
  | error
deriving DecidableEq, Repr

class Host (m : Type → Type) where
  /-- Whether a file or directory is there. -/
  exists? : Path → m Bool
  /-- The size of a file or directory, in bytes. -/
  sizeOf : Path → m (Except FileFailure Nat)
  /-- The content of a file. -/
  read : Path → m (Except FileFailure ByteArray)
  /-- Give a file a new content; a file that is not there is created. -/
  write : Path → String → m (Except FileFailure Unit)
  /-- Append to a file; a file that is not there is created. -/
  append : Path → String → m (Except FileFailure Unit)
  /-- Print on a stream. -/
  print : Stream → String → m (Except FileFailure Unit)
  /-- Milliseconds since 1970. -/
  clock : m Nat
  /-- How many workers may run at a time. -/
  workers : m Nat
  /-- Start a worker for every action, and wait for one after the other. A worker that stops
  unexpectedly has no result. -/
  concurrently {α : Type} : List (m α) → m (List (Option α))

/-- What can fail on top of a host asks the host. -/
instance [Monad m] [Host m] : Host (ExceptT ε m) where
  exists? path := ExceptT.lift (Host.exists? path)
  sizeOf path := ExceptT.lift (Host.sizeOf path)
  read path := ExceptT.lift (Host.read path)
  write path text := ExceptT.lift (Host.write path text)
  append path text := ExceptT.lift (Host.append path text)
  print stream text := ExceptT.lift (Host.print stream text)
  clock := ExceptT.lift Host.clock
  workers := ExceptT.lift Host.workers
  -- a failure counts only once every worker has ended
  concurrently actions := ExceptT.mk do
    let results ← Host.concurrently (actions.map ExceptT.run)
    return results.mapM fun
      | none => .ok none
      | some result => some <$> result

/-! ## A host as a value -/

structure Sandbox where
  /-- The root directory. -/
  tree             : FileTree := .empty
  /-- The names that lead to the working directory. -/
  workingDirectory : List String := []
  /-- What was printed so far. -/
  output           : String := ""
  errors           : String := ""
  /-- What the clock shows, in milliseconds. -/
  time             : Nat := 0
  workers          : Nat := 1

namespace Sandbox

/-- Change a file. -/
def update (sandbox : Sandbox) (path : Path) (change : ByteArray → ByteArray) :
    Except FileFailure Unit × Sandbox :=
  match sandbox.tree.update sandbox.workingDirectory path change with
  | .ok tree => (.ok (), { sandbox with tree })
  | .error failure => (.error failure, sandbox)

/-- Print on a stream. -/
def print (sandbox : Sandbox) (stream : Stream) (text : String) : Sandbox :=
  match stream with
  | .output => { sandbox with output := sandbox.output ++ text }
  | .error => { sandbox with errors := sandbox.errors ++ text }

instance : Host (StateM Sandbox) where
  exists? path := fun sandbox =>
    ((sandbox.tree.resolve sandbox.workingDirectory path).isOk, sandbox)
  sizeOf path := fun sandbox => (sandbox.tree.sizeOf sandbox.workingDirectory path, sandbox)
  read path := fun sandbox => (sandbox.tree.read sandbox.workingDirectory path, sandbox)
  write path text := fun sandbox => sandbox.update path fun _ => text.toUTF8
  append path text := fun sandbox => sandbox.update path fun content => content ++ text.toUTF8
  print stream text := fun sandbox => (.ok (), sandbox.print stream text)
  clock := fun sandbox => (sandbox.time, sandbox)
  workers := fun sandbox => (sandbox.workers, sandbox)
  -- the workers of a sandbox take turns, and none of them stops
  concurrently actions := actions.mapM fun action => some <$> action

end Sandbox

end Phrasebook
