import StackUnits.Command.Arguments
import StackUnits.Files.Store

/-!
# Carrying out a command

A command is a function of its arguments, the list of task directories set in the
environment, and the files. It gives everything that can be observed
(`StackUnits.Command.Outcome`): the exit status, what is printed, the notes made on the
way, the message of an error, and the files as they are afterwards.
-/

namespace StackUnits.Command

/-- **What a command does.** -/
structure Outcome where
  status : Nat := 0
  printed : String := ""
  /-- The notes that are shown, in order. -/
  notes : List Event := []
  error : Option String := none
  files : FileTree

/-- How much detail is wanted, by how often it was asked for. -/
def levelOf : Nat → Level
  | 0 => .info
  | 1 => .debug
  | _ => .trace

/-- The message of an error about the tree in a file. -/
def treeMessage (file : String) (error : TreeError) : String :=
  file ++ ": " ++ error.message

namespace Invocation

/-- The settings that the options amount to. The list of task directories in the
environment counts if none is given. -/
def config (call : Invocation) (taskPath : Option String) : Config :=
  let default : Config := {}
  { programName := call.options.name.getD default.programName
    outputDir := call.options.out.getD default.outputDir
    taskSearchPath := call.options.taskPath.or taskPath
    emitListing := call.options.listing }

/-- Load a tree and compile it: the compilation or the message of an error, and the
notes made, newest first. -/
def compileFile (call : Invocation) (config : Config) (files : FileTree) :
    Except String Compilation × List Event :=
  match files.loadTree call.file with
  | .error e => (.error (treeMessage call.file e), [])
  | .ok tree =>
    let session : Session :=
      { config := config, resolver := files.resolver,
        journal := [.loaded call.file tree.size] }
    match Session.compile tree session with
    | .error e after => (.error e.message, after.journal)
    | .ok compilation after => (.ok compilation, after.journal)

/-- The outcome of a failure. -/
def failure (call : Invocation) (message : String) (journal : List Event)
    (files : FileTree) : Outcome :=
  let level := levelOf call.options.verbose
  { status := 1
    notes := journal.reverse.filter fun event => event.level.shownAt level
    error := some message
    files := files }

/-- The outcome of a success. -/
def success (call : Invocation) (printed : String) (journal : List Event)
    (files : FileTree) : Outcome :=
  let level := levelOf call.options.verbose
  { printed := printed
    notes := journal.reverse.filter fun event => event.level.shownAt level
    files := files }

/-- **Compile the tree in a file and write its units**, and print their paths. -/
def build (call : Invocation) (taskPath : Option String) (files : FileTree) : Outcome :=
  let config := call.config taskPath
  match call.compileFile config files with
  | (.error message, journal) => call.failure message journal files
  | (.ok compilation, journal) =>
    let store : Store := { dir := config.outputDir, listings := config.emitListing }
    match compilation.persist store { files := files, journal := journal } with
    | .error e disk => call.failure e.message disk.journal disk.files
    | .ok paths disk =>
      let printed := paths.foldl (fun text path => text ++ path ++ "\n") ""
      call.success printed disk.journal disk.files

/-- **Compile the tree in a file**, and write nothing. -/
def check (call : Invocation) (taskPath : Option String) (files : FileTree) : Outcome :=
  match call.compileFile (call.config taskPath) files with
  | (.error message, journal) => call.failure message journal files
  | (.ok compilation, journal) =>
    call.success "" (.checked compilation.unitCount :: journal) files

/-- **Print the listing of the unit in a file.** -/
def list (call : Invocation) (files : FileTree) : Outcome :=
  match files.readUnit call.file with
  | .error e => call.failure e.message [] files
  | .ok unit => call.success unit.listing [] files

/-- Carry out a command that was understood. -/
def run (call : Invocation) (taskPath : Option String) (files : FileTree) : Outcome :=
  match call.verb with
  | .build => call.build taskPath files
  | .check => call.check taskPath files
  | .list => call.list files

end Invocation

/-- The name and version of the program. -/
def versionText : String := "strandc 0.1.0\n"

/-- What is printed on a request for help. -/
def helpText : String :=
  "Usage: strandc [-v]... build FILE [-o DIR] [--name NAME] [--task-path DIRS] [--listing]\n"
    ++ "       strandc [-v]... check FILE [--name NAME] [--task-path DIRS]\n"
    ++ "       strandc [-v]... list UNIT\n"

/-- What is said besides the notes: the message of an error, and how the command is used if its
arguments were not understood. -/
def Outcome.complaint (outcome : Outcome) : String :=
  match outcome.error with
  | some message => "error: " ++ message ++ "\n"
  | none => if outcome.status = 2 then helpText else ""

/-- **Carry out a command.** Arguments that are not understood have the status 2. -/
def run (args : List String) (taskPath : Option String) (files : FileTree) : Outcome :=
  match parse 0 args with
  | .ok call => call.run taskPath files
  | .error .version => { printed := versionText, files := files }
  | .error .help => { printed := helpText, files := files }
  | .error .invalid => { status := 2, files := files }

end StackUnits.Command
