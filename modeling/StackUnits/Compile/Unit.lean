import StackUnits.Compile.Conditional

/-!
# Compiling a unit

A unit is compiled in a context of its own, fresh but for the session: it has an empty
stack, no variables and its own labels. `StackUnits.Session.compileUnit` does that for
a body given as an action, so that a task defined within a program is compiled by the
same function as the program, at the point where the walk comes to it.

While its body is being compiled a unit counts as begun, so that a task can start
itself, and so that no two units of a compilation have the same name.
-/

namespace StackUnits

/-- Whether a name can serve as a file name: it is not empty, has no slash or
backslash, and is not the name of the current or the parent directory. -/
def checkUnitName (name : String) (tag : Tag) : Except CompileError Unit :=
  if name = "" then .error (tag.malformed .emptyName)
  else if name.toList.contains '/' || name.toList.contains '\\' || name = "." || name = ".." then
    .error (tag.malformed (.notPlainName name))
  else .ok ()

namespace Emit

/-- Everything that is written for a unit whose body is written by `body`. -/
def wholeUnit (name : String) (kind : UnitKind) (tag : Tag) (body : Emit Unit) :
    Emit CodeUnit := do
  enterScope
  body
  exitScope
  let cx ← get
  if cx.types.depth ≠ 0 then
    throw (tag.malformed (.valuesLeft cx.types.depth name))
  emit .ret
  let cx ← get
  let unit := cx.finish kind
  match unit.checkLabels with
  | .ok () => return unit
  | .error e => throw e

end Emit

namespace Session

/-- Put a note into the journal. -/
def record (event : Event) : SessionM Unit :=
  modify fun session => session.note event

/-- Compile a body in a fresh context. -/
def compileBody (name : String) (kind : UnitKind) (tag : Tag) (body : Emit Unit) :
    SessionM CodeUnit := fun session =>
  match Emit.wholeUnit name kind tag body { session := session, unitName := name } with
  | .ok unit cx => .ok unit cx.session
  | .error e cx => .error e cx.session

/-- Compile a body while its unit counts as begun, whether that succeeds or not. -/
def compileBegun (name : String) (kind : UnitKind) (tag : Tag) (body : Emit Unit) :
    SessionM CodeUnit := fun session =>
  match compileBody name kind tag body
      { session with inProgress := (name, kind) :: session.inProgress } with
  | .ok unit after => .ok unit { after with inProgress := after.inProgress.tail }
  | .error e after => .error e { after with inProgress := after.inProgress.tail }

/-- **Compile a unit** of the given name and kind; `tag` is shown if the name will not
do. -/
def compileUnit (name : String) (kind : UnitKind) (tag : Tag) (body : Emit Unit) :
    SessionM CodeUnit := do
  match checkUnitName name tag with
  | .ok () => pure ()
  | .error e => throw e
  record (.unitBegun name kind)
  let unit ← compileBegun name kind tag body
  record (.unitDone unit)
  return unit

/-- **Compile a task on the spot** and add it to the finished ones. Its name must not
be in use in the compilation. -/
def compileTask (name : String) (tag : Tag) (body : Emit Unit) : SessionM Unit := do
  if (← get).hasUnit name then
    throw (tag.malformed (.nameTaken name))
  let unit ← compileUnit name .task tag body
  modify fun session => { session with units := session.units ++ [unit] }

/-- **What is known of a task by name.** The units of the running compilation come
first, finished or not; any other task is left to the resolver and the configured search
path. -/
def resolveTask (name : String) (tag : Tag) : SessionM TaskInfo := do
  match checkUnitName name tag with
  | .ok () => pure ()
  | .error e => throw e
  let session ← get
  match session.units.find? fun unit => unit.name == name with
  | some unit => return unit.taskInfo
  | none =>
    match session.inProgress.lookup name with
    | some kind =>
      return { name := name, hasConstructor := kind == .task, runnable := kind == .task }
    | none =>
      match session.config.taskSearchPath with
      | none => throw (.malformedSearchPath (.notConfigured name))
      | some list =>
        match SearchPath.parse list with
        | .error e => throw e
        | .ok path =>
          let answer := session.resolver name path
          set (session.noteAll answer.notes)
          match answer.outcome with
          | .error e => throw e
          | .ok task =>
            if task.name = name then return task
            else throw (.invalidTaskUnit name (.holdsUnit task.name))

end Session

end StackUnits
