import StackUnits.Files.Path
import StackUnits.Files.Problem

/-!
# The file tree

Files and directories, as far as the compiler has to do with them: a map from *places*
to entries (`StackUnits.FileTree`). A place is the list of names that leads to it from
the root, the last one first, so that the place of a directory is what remains of the
place of an entry without its first name.

A path in a request is a text, and following it is a walk: it starts at the root or at
the home directory, and every name but the last has to lead to a directory. The walk
stops at the first name that does not, and that decides which problem is reported
(`StackUnits.FileTree.follow`). What happens with the last name is up to the operation.

Every operation but one either does all of its work or changes nothing. The exception
is `StackUnits.FileTree.makeDirs`, which may fail after having made some of the
directories.
-/

namespace StackUnits

/-- The names that lead from the root to an entry, last first. -/
abbrev Place := List String

/-- What stands at a place. -/
inductive Entry
  | file (content : List UInt8)
  | directory
  deriving DecidableEq, Inhabited

/-- **A tree of files**, with the place at which relative paths start. -/
structure FileTree where
  home : Place := []
  entries : List (Place × Entry) := []
  deriving DecidableEq, Inhabited

namespace FileTree

/-! ### Places -/

/-- What stands at a place; the root is always there. -/
def get? (files : FileTree) (place : Place) : Option Entry :=
  match place with
  | [] => some .directory
  | place => files.entries.lookup place

/-- The tree without what stands at a place. -/
def erase (files : FileTree) (place : Place) : FileTree :=
  { files with entries := files.entries.filter fun entry => entry.1 != place }

/-- The tree with the given entry at a place, instead of what stood there. -/
def put (files : FileTree) (place : Place) (entry : Entry) : FileTree :=
  { files with entries := (place, entry) :: (files.erase place).entries }

/-- An empty home directory and the directories that it is in. -/
def ofHome : Place → FileTree
  | [] => {}
  | name :: parent =>
    { (ofHome parent).put (name :: parent) .directory with home := name :: parent }

/-! ### Following a path -/

/-- The longest name that a directory can have an entry for, in bytes. -/
def longestName : Nat := 255

/-- The longest path that can be followed, in bytes. -/
def longestPath : Nat := 4095

/-- What a directory has under a name. -/
def find (files : FileTree) (dir : Place) (name : String) :
    Except FileProblem (Option Entry) :=
  if longestName < name.utf8ByteSize then .error .nameTooLong
  else .ok (files.get? (name :: dir))

/-- The directory that a name leads to. -/
def step (files : FileTree) (dir : Place) (name : String) : Except FileProblem Place :=
  if name = "." then .ok dir
  else if name = ".." then .ok dir.tail
  else
    match files.find dir name with
    | .error e => .error e
    | .ok none => .error .notFound
    | .ok (some (.file _)) => .error .notADirectory
    | .ok (some .directory) => .ok (name :: dir)

/-- The directory that several names lead to. -/
def walk (files : FileTree) : Place → List String → Except FileProblem Place
  | dir, [] => .ok dir
  | dir, name :: rest =>
    match files.step dir name with
    | .ok dir => walk files dir rest
    | .error e => .error e

/-- **Where a path ends**: at a directory named by dots or by the root, or at a name
in a directory, with a slash after it or not. -/
inductive Spot
  | dots (dir : Place)
  | name (dir : Place) (name : String) (slash : Bool)
  deriving DecidableEq, Inhabited

/-- Follow the names of a path, of which the last may be followed by a slash. -/
def followNames (files : FileTree) (start : Place) (names : List String) (slash : Bool) :
    Except FileProblem Spot :=
  match names.reverse with
  | [] => .ok (.dots start)
  | last :: before =>
    match files.walk start before.reverse with
    | .error e => .error e
    | .ok dir =>
      if last = "." then .ok (.dots dir)
      else if last = ".." then .ok (.dots dir.tail)
      else .ok (.name dir last slash)

/-- What is wrong with the text of a path, whatever files there are. -/
def checkPath (path : String) : Except FileProblem Unit :=
  if path.toList.contains '\x00' then .error .nulInPath
  else if path = "" then .error .notFound
  else if longestPath < path.utf8ByteSize then .error .nameTooLong
  else .ok ()

/-- Where the names of a path start. -/
def start (files : FileTree) (path : String) : Place :=
  if Path.isAbsolute path then [] else files.home

/-- **Follow a path** up to its last name. -/
def follow (files : FileTree) (path : String) : Except FileProblem Spot :=
  match checkPath path with
  | .error e => .error e
  | .ok () =>
    files.followNames (files.start path) (Path.names path)
      (path.toList.getLast? == some '/')

/-! ### Reading -/

/-- **The content of a file.** -/
def read (files : FileTree) (path : String) : Except FileProblem (List UInt8) :=
  match files.follow path with
  | .error e => .error e
  | .ok (.dots _) => .error .isADirectory
  | .ok (.name dir name slash) =>
    match files.find dir name with
    | .error e => .error e
    | .ok none => .error .notFound
    | .ok (some .directory) => .error .isADirectory
    | .ok (some (.file content)) => if slash then .error .notADirectory else .ok content

/-- **The content of a file as a text.** -/
def readText (files : FileTree) (path : String) : Except FileProblem String :=
  match files.read path with
  | .error e => .error e
  | .ok content =>
    match String.fromUTF8? content.toByteArray with
    | some text => .ok text
    | none => .error .notText

/-! ### Writing -/

/-- **Write a file**, instead of the one at the path if there is one. -/
def write (files : FileTree) (path : String) (content : List UInt8) :
    Except FileProblem FileTree :=
  match files.follow path with
  | .error e => .error e
  | .ok (.dots _) | .ok (.name _ _ true) => .error .isADirectory
  | .ok (.name dir name false) =>
    match files.find dir name with
    | .error e => .error e
    | .ok (some .directory) => .error .isADirectory
    | .ok _ => .ok (files.put (name :: dir) (.file content))

/-- **Remove a file.** -/
def remove (files : FileTree) (path : String) : Except FileProblem FileTree :=
  match files.follow path with
  | .error e => .error e
  | .ok (.dots _) => .error .isADirectory
  | .ok (.name dir name slash) =>
    match files.find dir name with
    | .error e => .error e
    | .ok none => .error .notFound
    | .ok (some .directory) => .error .isADirectory
    | .ok (some (.file _)) =>
      if slash then .error .notADirectory else .ok (files.erase (name :: dir))

/-- **Move a file** to another path, instead of the file there if there is one. Both
paths are followed before either of the last names is looked at. -/
def move (files : FileTree) (source target : String) : Except FileProblem FileTree := do
  let source ← files.follow source
  let target ← files.follow target
  match source, target with
  | .name dir name slash, .name dir' name' slash' =>
    match ← files.find dir name with
    | none => throw .notFound
    | some .directory => throw .isADirectory
    | some (.file content) =>
      match ← files.find dir' name' with
      | some .directory => throw .isADirectory
      | _ =>
        if slash || slash' then throw .notADirectory
        else return (files.erase (name :: dir)).put (name' :: dir') (.file content)
  | _, _ => throw .isADirectory

/-! ### Making directories -/

/-- Make the directory at which a path ends. -/
def makeDirAt (files : FileTree) (spot : Except FileProblem Spot) :
    Except FileProblem FileTree :=
  match spot with
  | .error e => .error e
  | .ok (.dots _) => .error .alreadyExists
  | .ok (.name dir name _) =>
    match files.find dir name with
    | .error e => .error e
    | .ok (some _) => .error .alreadyExists
    | .ok none => .ok (files.put (name :: dir) .directory)

/-- Whether a path ends at a directory. -/
def isDirAt (files : FileTree) (spot : Except FileProblem Spot) : Bool :=
  match spot with
  | .ok (.dots _) => true
  | .ok (.name dir name _) =>
    match files.find dir name with
    | .ok (some .directory) => true
    | _ => false
  | .error _ => false

/-- Make the directories at the ends of the given ways, the deepest first: find the
first that is there or can be made, then make those before it on the way back. -/
def makeDirsAlong (files : FileTree) :
    List (FileTree → Except FileProblem Spot) → Except FileProblem Unit × FileTree
  | [] => (.ok (), files)
  | way :: above =>
    match files.makeDirAt (way files) with
    | .ok files => (.ok (), files)
    | .error .notFound =>
      match makeDirsAlong files above with
      | (.error e, files) => (.error e, files)
      | (.ok (), files) =>
        match files.makeDirAt (way files) with
        | .ok files => (.ok (), files)
        | .error e =>
          if e = .alreadyExists && files.isDirAt (way files) then (.ok (), files)
          else (.error e, files)
    | .error e =>
      if e = .alreadyExists && files.isDirAt (way files) then (.ok (), files)
      else (.error e, files)

/-- All proper starts of a list that are not empty, the longest first. -/
def properStarts (names : List String) : List (List String) :=
  ((List.range names.length).filter fun n => n != 0).reverse.map names.take

/-- **Make a directory and those it is in**, as far as they are missing. Nothing is
needed for the empty path and the root. -/
def makeDirs (files : FileTree) (path : String) : Except FileProblem Unit × FileTree :=
  let key := Path.key path
  if key.names.isEmpty && (path = "" || key.absolute) then (.ok (), files)
  else
    let above := (properStarts key.names).map fun names (files : FileTree) =>
      files.followNames (files.start path) names false
    files.makeDirsAlong ((fun files => files.follow path) :: above)

/-! ### Listing -/

/-- The names that lead from one place to another below it, first first. -/
def below (top place : Place) : Option (List String) :=
  let names := place.reverse
  let topNames := top.reverse
  if topNames.isPrefixOf names && topNames.length < names.length then
    some (names.drop topNames.length)
  else none

/-- **All files and directories below the home directory**, sorted name by name, a
directory before its content and with a slash at its end. -/
def list (files : FileTree) : List String :=
  let found := files.entries.filterMap fun (place, entry) =>
    (below files.home place).map fun names => (names, entry)
  let sorted := found.mergeSort fun a b => !decide (b.1 < a.1)
  sorted.map fun (names, entry) =>
    "/".intercalate names ++ (if entry = .directory then "/" else "")

end FileTree

end StackUnits
