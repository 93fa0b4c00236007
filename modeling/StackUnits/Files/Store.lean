import StackUnits.Code.UnitFile
import StackUnits.Compile.Program
import StackUnits.Files.Tree
import StackUnits.Tree.Printer
import StackUnits.Tree.Reader

/-!
# Units and trees in files

A **store** (`StackUnits.Store`) is a directory in which units are kept, each in a file
of its own name. Several units are written together: each goes to a temporary file
first, and only when all of them are there are the files moved into place, one after
the other. If one cannot be written to its temporary file, those before it are removed
again. A listing, if wanted, is written after the unit it belongs to.

Reading a tree from a file, writing it to one, and finding compiled tasks in files are
the other things the compiler does with a file tree.

What is done with the files of units is defined for any operations on files
(`StackUnits.FileOps`), and those of the file tree are put in at the end.
-/

namespace StackUnits

/-! ### Actions on files -/

/-- The files, and the notes made while working with them, newest first. -/
structure Disk where
  files : FileTree
  journal : List Event := []

/-- An action on the files. One that fails leaves behind what it has done so far. -/
abbrev DiskM := EStateM CompileError Disk

namespace Disk

/-- Put a note into the journal. -/
def note (event : Event) : DiskM Unit :=
  modify fun disk => { disk with journal := event :: disk.journal }

/-- Change the files, or leave them as they are and fail. -/
def change (action : FileTree → Except FileProblem FileTree) : DiskM Unit := fun disk =>
  match action disk.files with
  | .ok files => .ok () { disk with files := files }
  | .error e => .error (.file e) disk

/-- Make a directory and those it is in. -/
def makeDirs (path : String) : DiskM Unit := fun disk =>
  match disk.files.makeDirs path with
  | (.ok (), files) => .ok () { disk with files := files }
  | (.error e, files) => .error (.file e) { disk with files := files }

/-- Remove a file if that is possible. -/
def tryRemove (path : String) : DiskM Unit :=
  modify fun disk =>
    match disk.files.remove path with
    | .ok files => { disk with files := files }
    | .error _ => disk

/-- Do an action; if it fails, tidy up and fail all the same. -/
def tidying (action tidy : DiskM Unit) : DiskM Unit := fun disk =>
  match action disk with
  | .ok () disk => .ok () disk
  | .error e disk =>
    match tidy disk with
    | .ok () disk => .error e disk
    | .error _ disk => .error e disk

end Disk

/-- **The operations on files** that compiling and writing units make use of, as any file system
might offer them. What is done with them is defined for any operations, so that it can be said of
operations that fail, or that refuse some paths, as well as of those of a file tree. -/
structure FileOps where
  read : FileTree → String → Except FileProblem (List UInt8)
  write : String → List UInt8 → DiskM Unit
  move : String → String → DiskM Unit
  /-- Remove a file if that is possible. -/
  remove : String → DiskM Unit
  makeDirs : String → DiskM Unit

/-- The operations of a file tree. -/
def FileOps.plain : FileOps where
  read := FileTree.read
  write path content := Disk.change fun files => files.write path content
  move source target := Disk.change fun files => files.move source target
  remove := Disk.tryRemove
  makeDirs := Disk.makeDirs

/-! ### Stores -/

/-- **A directory in which units are kept**, with or without listings. -/
structure Store where
  dir : String
  listings : Bool := false
  deriving DecidableEq, Inhabited

namespace Store

/-- The file of a unit. -/
def pathFor (store : Store) (name : String) : String :=
  Path.join store.dir (name ++ ".unit")

/-- The file to which a unit is written before it is moved into place. -/
def stagePath (store : Store) (name : String) : String :=
  Path.withExtension (store.pathFor name) "tmp"

/-- The file of a unit's listing. -/
def listingPath (store : Store) (name : String) : String :=
  Path.withExtension (store.pathFor name) "lst"

end Store

/-! ### Writing units -/

namespace FileOps

variable (ops : FileOps) (store : Store)

/-- Write a unit to its temporary file. -/
def stage (unit : CodeUnit) : DiskM Unit :=
  ops.write (store.stagePath unit.name) unit.encode

/-- Move a unit into place and write its listing. -/
def commit (unit : CodeUnit) : DiskM String := do
  let path := store.pathFor unit.name
  ops.move (store.stagePath unit.name) path
  if store.listings then
    ops.write (store.listingPath unit.name) (Wire.textBytes unit.listing)
  Disk.note (.wrote unit.name path)
  return path

/-- Write units to their temporary files; if one fails, remove those of `before` and
those already written, and fail. -/
def stageAll (before : List CodeUnit) : List CodeUnit → DiskM Unit
  | [] => pure ()
  | unit :: rest => do
    Disk.tidying (ops.stage store unit) <|
      before.forM fun unit => ops.remove (store.stagePath unit.name)
    stageAll (before ++ [unit]) rest

/-- **Write units together** and tell their paths. -/
def writeAll (units : List CodeUnit) : DiskM (List String) := do
  ops.makeDirs store.dir
  ops.stageAll store [] units
  units.mapM (ops.commit store)

/-- **Write the units of a compilation** to a store. -/
def persist (compilation : Compilation) : DiskM (List String) := do
  let paths ← ops.writeAll store compilation.units
  Disk.note (.persisted store.dir paths.length)
  return paths

end FileOps

namespace Store

variable (store : Store)

/-- Write a unit to its temporary file. -/
def stage : CodeUnit → DiskM Unit :=
  FileOps.plain.stage store

/-- Move a unit into place and write its listing. -/
def commit : CodeUnit → DiskM String :=
  FileOps.plain.commit store

/-- **Write a unit** and tell its path. -/
def write (unit : CodeUnit) : DiskM String := do
  Disk.makeDirs store.dir
  store.stage unit
  store.commit unit

/-- **Write units together** and tell their paths. -/
def writeAll : List CodeUnit → DiskM (List String) :=
  FileOps.plain.writeAll store

end Store

/-- **Write the units of a compilation** to a store. -/
def Compilation.persist (compilation : Compilation) (store : Store) : DiskM (List String) :=
  FileOps.plain.persist store compilation

/-! ### Reading units -/

namespace FileOps

variable (ops : FileOps) (files : FileTree)

/-- Whether a path leads to a file. -/
def isFile (path : String) : Bool :=
  match ops.read files path with
  | .ok _ => true
  | .error _ => false

/-- **The unit in a file.** -/
def readUnit (path : String) : Except CompileError CodeUnit :=
  match ops.read files path with
  | .ok bytes => CodeUnit.decode path bytes
  | .error e => .error (.file e)

/-- Look for a task in the directories, one after the other; a file that is there has
to be a unit. -/
def findTask (name : String) : List String → Option Resolution
  | [] => none
  | dir :: rest =>
    let path := (Store.mk dir false).pathFor name
    if ops.isFile files path then
      some {
        outcome := (ops.readUnit files path).map CodeUnit.taskInfo
        notes := [.resolved name path] }
    else findTask name rest

/-- **The resolver that finds tasks in files.** -/
def resolver : Resolver := fun name path =>
  match ops.findTask files name path.dirs with
  | some resolution => resolution
  | none => { outcome := .error (path.missing name) }

end FileOps

namespace FileTree

/-- **The unit in a file.** -/
def readUnit : FileTree → String → Except CompileError CodeUnit :=
  FileOps.plain.readUnit

/-- **The resolver that finds tasks in files.** -/
def resolver : FileTree → Resolver :=
  FileOps.plain.resolver

end FileTree

/-- **Read a unit** by name. -/
def Store.read (store : Store) (files : FileTree) (name : String) :
    Except CompileError CodeUnit :=
  files.readUnit (store.pathFor name)

namespace FileTree

/-! ### Trees in files -/

/-- **The tree in a file.** -/
def loadTree (files : FileTree) (path : String) : Except TreeError Tree :=
  match files.readText path with
  | .error e => .error (.file e)
  | .ok text =>
    match Tree.ofJson text with
    | .ok tree => .ok tree
    | .error e => .error (.malformed e)

/-- **Write a tree to a file.** -/
def saveTree (files : FileTree) (path : String) (tree : Tree) : Except TreeError FileTree :=
  match files.write path (Wire.textBytes tree.toJson) with
  | .ok files => .ok files
  | .error e => .error (.file e)

end FileTree

end StackUnits
