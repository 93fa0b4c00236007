import StackUnits.Command.Reach

/-!
# The program

Everything that a command does is decided by `StackUnits.Command.run`, as a function on
a tree of files. What is left for this file is to gather the part of the real file
system that the command can look at, to print, and to write back what has changed.

What stands at a path is found out by reading it: what is there and cannot be read
counts as a directory.
-/

namespace StackUnits.Program

/-- The path of a place in the real file system. -/
def realPath (place : Place) : String :=
  "/" ++ "/".intercalate place.reverse

/-- What stands at a place in the real file system. -/
def entryAt (place : Place) : IO (Option Entry) := do
  match ← (IO.FS.readBinFile (realPath place)).toBaseIO with
  | .ok bytes => return some (.file bytes.data.toList)
  | .error (.noFileOrDirectory _ _ _) => return none
  | .error _ => return some .directory

/-- Gather what stands along the names of a path, from a place on. -/
def gatherNames (files : FileTree) (place : Place) : List String → IO FileTree
  | [] => return files
  | name :: rest =>
    if name = "." then gatherNames files place rest
    else if name = ".." then gatherNames files place.tail rest
    else do
      match ← entryAt (name :: place) with
      | none => return files
      | some entry => gatherNames (files.put (name :: place) entry) (name :: place) rest

/-- Gather what stands along a path. -/
def gather (files : FileTree) (path : String) : IO FileTree :=
  match FileTree.checkPath path with
  | .ok () => gatherNames files (files.start path) (Path.names path)
  | .error _ => return files

/-- Gather what stands along several paths. -/
def gatherAll (files : FileTree) (paths : List String) : IO FileTree :=
  paths.foldlM gather files

/-- Gather everything that a command can look at. -/
def gatherFor (files : FileTree) (args : List String) (taskPath : Option String) :
    IO FileTree := do
  match Command.parse 0 args with
  | .error _ => return files
  | .ok call =>
    let files ← gather files call.file
    match files.loadTree call.file with
    | .error _ => return files
    | .ok tree => gatherAll files (call.reach taskPath tree)

/-- Write back an entry. -/
def writeEntry (place : Place) (entry : Entry) : IO Unit :=
  match entry with
  | .directory => IO.FS.createDirAll (realPath place)
  | .file content => IO.FS.writeBinFile (realPath place) content.toByteArray

/-- Write back what is new or changed, outer places first, and remove what is gone. -/
def writeBack (before after : FileTree) : IO Unit := do
  let changed := after.entries.filter fun (place, entry) => before.get? place != some entry
  let ordered := changed.mergeSort fun a b => decide (a.1.length ≤ b.1.length)
  for (place, entry) in ordered do
    writeEntry place entry
  for (place, _) in before.entries do
    if (after.get? place).isNone then
      IO.FS.removeFile (realPath place)

/-- Carry out a command on the real file system. -/
def run (args : List String) : IO UInt32 := do
  let taskPath ← IO.getEnv "STRAND_TASK_PATH"
  let here ← IO.getEnv "PWD"
  let home := (Path.names (here.getD "/")).reverse
  let files ← gatherFor (FileTree.ofHome home) args taskPath
  let outcome := Command.run args taskPath files
  writeBack files outcome.files
  IO.print outcome.printed
  for event in outcome.notes do
    IO.eprintln event.line
  IO.eprint outcome.complaint
  return UInt32.ofNat outcome.status

end StackUnits.Program

/-- The command line. -/
def main (args : List String) : IO UInt32 :=
  StackUnits.Program.run args
