import StackUnits.Error
import StackUnits.Files.Path
import StackUnits.Text.Blank

/-!
# Search paths

The directories in which compiled tasks are looked for, in order. A search path is
given as one text with colons between the directories.
-/

namespace StackUnits

/-- **An ordered list of directories.** -/
structure SearchPath where
  dirs : List String
  deriving DecidableEq, Inhabited

namespace SearchPath

/-- The search path that a text denotes. The text may not consist of blanks only, and
no directory may be empty. -/
def parse (list : String) : Except CompileError SearchPath :=
  if (Text.trim list.toList).isEmpty then .error (.malformedSearchPath .empty)
  else
    let dirs := Text.split ':' list
    if dirs.any fun dir => dir == "" then .error (.malformedSearchPath (.emptyEntry list))
    else .ok ⟨dirs⟩

/-- The text of a search path: the directories with colons between them. If a
directory itself contains a colon there is no such text, and the list is shown in
brackets. -/
def text (path : SearchPath) : String :=
  if path.dirs.any fun dir => dir.toList.contains ':' then Text.quoteList path.dirs
  else ":".intercalate path.dirs

end SearchPath

end StackUnits
