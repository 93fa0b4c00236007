import StackUnits.Text.Pieces

/-!
# Paths

A path is a text in which slashes divide names. Two operations work on the text
itself, without looking at any file: putting a name behind a directory
(`StackUnits.Path.join`), and replacing the extension of the last name
(`StackUnits.Path.withExtension`). A third forgets what the text has to say about
spelling only, so that paths can serve as keys (`StackUnits.Path.key`).
-/

namespace StackUnits.Path

/-- Whether the path starts at the root. -/
def isAbsolute (path : String) : Bool :=
  path.toList.head? == some '/'

/-- The names in a path, the empty ones left out. -/
def names (path : String) : List String :=
  (Text.split '/' path).filter fun name => name != ""

/-- **A name behind a directory.** A slash is put between them unless one is there;
a name that starts at the root stands for itself. -/
def join (dir name : String) : String :=
  if isAbsolute name then name
  else if dir == "" || dir.toList.getLast? == some '/' then dir ++ name
  else dir ++ "/" ++ name

/-! ### Extensions -/

/-- The last name in a path. A path that ends in the parent directory has none. -/
def fileName? (path : String) : Option String :=
  match ((names path).filter fun name => name != ".").getLast? with
  | some name => if name == ".." then none else some name
  | none => none

/-- A name cut at its last dot, which belongs to neither part; there is no cut at a
dot that comes first. -/
def cutAtLastDot (name : String) : String × Option String :=
  let backwards := name.toList.reverse
  let extension := (backwards.takeWhile fun c => c != '.').reverse
  let stem := ((backwards.dropWhile fun c => c != '.').drop 1).reverse
  if stem.isEmpty then (name, none) else (String.ofList stem, some (String.ofList extension))

/-- The text without its last `n` characters. -/
def dropLast (text : String) (n : Nat) : String :=
  String.ofList (text.toList.take (text.toList.length - n))

/-- The path, which ends in its last name, with `.extension` behind that name's stem;
a path without a last name stays as it is. -/
def setExtension (path extension : String) : String :=
  match fileName? path with
  | none => path
  | some name =>
    let (stem, _) := cutAtLastDot name
    dropLast path (name.length - stem.length) ++ "." ++ extension

/-- **The path with another extension**: the text after the last dot of the last name
is replaced, or an extension is added if there is none.

The old extension goes first and the new one is set on what remains. The two steps
matter for a name of dots: what remains of `..unit` is the parent directory, and
that takes no extension. -/
def withExtension (path extension : String) : String :=
  match fileName? path with
  | none => path
  | some name =>
    match (cutAtLastDot name).2 with
    | none => setExtension path extension
    | some old => setExtension (dropLast path old.length) extension

/-! ### Keys -/

/-- **What two spellings of a path have in common**: whether it starts at the root,
and the names in it. Repeated and trailing slashes do not count, nor does a single
dot anywhere but at the start. -/
structure Key where
  absolute : Bool
  names : List String
  deriving DecidableEq

/-- The key of a path. -/
def key (path : String) : Key :=
  let absolute := isAbsolute path
  match names path with
  | [] => ⟨absolute, []⟩
  | first :: rest =>
    let rest := rest.filter fun name => name != "."
    if first == "." && absolute then ⟨absolute, rest⟩ else ⟨absolute, first :: rest⟩

end StackUnits.Path
