import StackUnits.Command.Run

/-!
# The files that a command looks at

Before it starts, it is known which files a command can look at: the one it is given,
and, for every unit that its tree can name, that unit's files in the output directory
and on the search path. The program gathers those, and nothing else.
-/

namespace StackUnits

/-- The names in the nodes of a tree that start a task. -/
def Tree.taskNames : Tree → List String
  | .node tag left right =>
    let own := if tag.kind = .multitask then tag.value.toList else []
    let inLeft := match left with | some child => child.taskNames | none => []
    let inRight := match right with | some child => child.taskNames | none => []
    own ++ inLeft ++ inRight

/-- The files that a store has for a unit. -/
def Store.pathsFor (store : Store) (name : String) : List String :=
  [store.pathFor name, store.stagePath name, store.listingPath name]

/-- **The paths that compiling a tree and writing its units can look at.** -/
def Command.Invocation.reach (call : Command.Invocation) (taskPath : Option String)
    (tree : Tree) : List String :=
  let config := call.config taskPath
  let store : Store := { dir := config.outputDir, listings := config.emitListing }
  let searched :=
    match config.taskSearchPath.map SearchPath.parse with
    | some (.ok path) => path.dirs.map fun dir => ({ dir } : Store)
    | _ => []
  let names := tree.taskNames
  let written :=
    match call.verb with
    | .build => store.dir :: (config.programName :: names).flatMap store.pathsFor
    | _ => []
  written ++ searched.flatMap fun dir => names.map dir.pathFor

end StackUnits
