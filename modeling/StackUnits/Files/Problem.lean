/-!
# What can go wrong with a file

The causes for which an operation on the file tree fails, and how messages show
them. Which cause an operation reports when several apply is decided by the walk
along the path, in `StackUnits.Files.Tree`.
-/

namespace StackUnits

/-- **Why a file operation failed.** -/
inductive FileProblem
  /-- Nothing stands at the path, or a directory on the way is missing. -/
  | notFound
  /-- Something stands at the path already. -/
  | alreadyExists
  /-- Something on the way is a file. -/
  | notADirectory
  /-- A directory stands where a file is needed. -/
  | isADirectory
  /-- A name, or the whole path, is longer than the system allows. -/
  | nameTooLong
  /-- The path contains the character that ends a path. -/
  | nulInPath
  /-- The content is not a text. -/
  | notText
  deriving DecidableEq, Inhabited

/-- The text of a problem in messages. -/
def FileProblem.message : FileProblem → String
  | notFound => "No such file or directory (os error 2)"
  | alreadyExists => "File exists (os error 17)"
  | notADirectory => "Not a directory (os error 20)"
  | isADirectory => "Is a directory (os error 21)"
  | nameTooLong => "File name too long (os error 36)"
  | nulInPath => "file name contained an unexpected NUL byte"
  | notText => "stream did not contain valid UTF-8"

end StackUnits
