import StackUnits.Compile.Stmt

/-!
# Compiling a program

A tree is compiled into a `StackUnits.Compilation`: the unit of the program, followed
by the tasks it defines, in the order in which they were finished. A session can
compile one program after the other; what a compilation leaves in it is forgotten when
the next one begins.
-/

namespace StackUnits

/-- **The units of a compiled program.** -/
structure Compilation where
  program : CodeUnit
  tasks : List CodeUnit
  deriving DecidableEq, Inhabited

namespace Compilation

/-- All units, the program first. -/
def units (c : Compilation) : List CodeUnit :=
  c.program :: c.tasks

/-- The unit of the given name. -/
def get? (c : Compilation) (name : String) : Option CodeUnit :=
  c.units.find? fun unit => unit.name == name

/-- The number of units. -/
def unitCount (c : Compilation) : Nat :=
  c.tasks.length + 1

end Compilation

namespace Session

/-- The session without the units of any compilation. -/
def forget (session : Session) : Session :=
  { session with units := [], inProgress := [] }

/-- **Compile a tree as a program** of the given name. -/
def compileNamed (name : String) (tree : Tree) : SessionM Compilation := fun session =>
  match compileUnit name .program tree.tag tree.toStmt.compile session.forget with
  | .error e after => .error e after.forget
  | .ok program after =>
    .ok ⟨program, after.units⟩ (after.forget.note (.programDone name after.units.length))

/-- Compile a tree as a program of the configured name. -/
def compile (tree : Tree) : SessionM Compilation := fun session =>
  compileNamed session.config.programName tree session

end Session

/-- **Compile a tree** with the given settings and resolver. -/
def compile (config : Config) (resolver : Resolver) (tree : Tree) :
    Except CompileError Compilation :=
  match Session.compile tree { config := config, resolver := resolver } with
  | .ok compilation _ => .ok compilation
  | .error e _ => .error e

end StackUnits
