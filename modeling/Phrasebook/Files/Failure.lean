-- SUMMARY: Why an operation on files fails, and its wording.

/-!
# File failures

The ways in which a file cannot be read or written, with the wording and number that the operating
system gives to each.
-/
namespace Phrasebook

inductive FileFailure where
  | notFound
  /-- Something inside a path is no directory. -/
  | notDirectory
  | isDirectory
  | nameTooLong
  /-- The path has a NUL character in it, which no file name can have. -/
  | nulInName
  /-- Any other reason, in words. -/
  | other (reason : String)
deriving DecidableEq, Repr

def FileFailure.message : FileFailure → String
  | .notFound     => "No such file or directory (os error 2)"
  | .notDirectory => "Not a directory (os error 20)"
  | .isDirectory  => "Is a directory (os error 21)"
  | .nameTooLong  => "File name too long (os error 36)"
  | .nulInName    => "file name contained an unexpected NUL byte"
  | .other reason => reason

end Phrasebook
