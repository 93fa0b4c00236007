import StackUnits.Journal
import StackUnits.Task.SearchPath

/-!
# Finding compiled tasks

A program may start tasks that were compiled before. What it needs to know of such a
task is found by a **resolver**, which is asked for a name and a search path
(`StackUnits.Resolver`). The compiler treats resolvers as given; this file has the
one that works from a table, and `StackUnits.Files.Store` the one that works from
files.
-/

namespace StackUnits

/-- The answer of a resolver: what it found, and the notes it made on the way. -/
structure Resolution where
  outcome : Except CompileError TaskInfo
  notes : List Event := []

/-- **A way to find compiled tasks** on a search path, by name. -/
abbrev Resolver := String → SearchPath → Resolution

/-- The error that no directory of a search path has the task. -/
def SearchPath.missing (path : SearchPath) (name : String) : CompileError :=
  .unitNotFound name path.text

/-- **A table of tasks per directory.** An entry added later for the same directory
and the same name takes precedence. -/
structure Registry where
  entries : List ((Path.Key × String) × TaskInfo) := []

namespace Registry

/-- The table with one more task in a directory. -/
def insert (registry : Registry) (dir : String) (task : TaskInfo) : Registry :=
  ⟨((Path.key dir, task.name), task) :: registry.entries⟩

/-- The table with a unit offered in a directory. -/
def insertUnit (registry : Registry) (dir : String) (unit : CodeUnit) : Registry :=
  registry.insert dir unit.taskInfo

/-- The task of the given name in a directory. -/
def find? (registry : Registry) (dir name : String) : Option TaskInfo :=
  registry.entries.lookup (Path.key dir, name)

/-- The resolver that looks a task up in the table, directory by directory. -/
def resolver (registry : Registry) : Resolver := fun name path =>
  match path.dirs.findSome? fun dir => registry.find? dir name with
  | some task => { outcome := .ok task }
  | none => { outcome := .error (path.missing name) }

end Registry

end StackUnits
