import StackUnits.Compile.Expr
import StackUnits.Compile.Unit

/-!
# Compiling statements

The code of a statement leaves the stack as it found it. The library classes that
generated code refers to, and the calls it makes on them, are all in this file: the
line printer, threads, and the error of a failed assertion.
-/

namespace StackUnits

namespace Emit

/-- The class of threads. -/
def threadClass : String := "java/lang/Thread"

/-- The class of line printers. -/
def printerClass : String := "java/io/PrintStream"

/-- The class of the error of a failed assertion. -/
def assertionClass : String := "java/lang/AssertionError"

/-- Write a call. -/
def call (kind : InvokeKind) (owner name descriptor : String) : Emit Unit :=
  emit (.invoke kind ⟨owner, name, descriptor⟩)

/-- Write the creation of an object and a second reference to it. -/
def newObject (cls : String) : Emit Unit := do
  emit (.new cls)
  pushType .reference
  emit .dup
  pushType .reference

/-- **Assign** the value that a piece of code leaves to a variable. The first
assignment declares it; all others have to be of the same type. -/
def assign (tag : Tag) (name : String) (value : Emit Unit) : Emit Unit := do
  value
  let type ← pop tag
  let slot ← match ← lookup name with
    | some info =>
      if info.type ≠ type then
        throw (.typeMismatch (SymbolTable.nameText name) (.type info.type) type)
      else pure info.slot
    | none => declare name type
  let kind ← require tag type.slotKind
  emit (.store kind slot)

/-- **Print** the value that a piece of code leaves. -/
def print (tag : Tag) (value : Emit Unit) : Emit Unit := do
  emit (.getStatic ⟨"java/lang/System", "out", "Ljava/io/PrintStream;"⟩)
  pushType .reference
  value
  let type ← pop tag
  match type.printDescriptor? with
  | none => throw (.unsupportedPrintType type tag.text)
  | some descriptor =>
    discard (pop tag)
    call .virtual printerClass "println" descriptor

/-- **Assert** that the value that a piece of code leaves is not zero. -/
def assert (tag : Tag) (condition : Emit Unit) : Emit Unit := do
  condition
  discard (popInt tag)
  let passed ← newLabel
  emit (.jumpIf .ne passed)
  newObject assertionClass
  pushConstant (.string "Assertion failed") .reference
  call .special assertionClass "<init>" "(Ljava/lang/Object;)V"
  discard (pop tag)
  discard (pop tag)
  emit .throw
  discard (pop tag)
  emit (.label passed)

/-- **Sleep** for as many milliseconds as the value that a piece of code leaves. -/
def sleep (tag : Tag) (duration : Emit Unit) : Emit Unit := do
  duration
  discard (popInt tag)
  convert .i2l
  pushType .long
  call .static threadClass "sleep" "(J)V"
  discard (pop tag)

/-- **Start a task**: create it, create a thread for it, start the thread. -/
def spawn (tag : Tag) (task : String) : Emit Unit := do
  note (.spawn (← get).unitName task)
  newObject threadClass
  newObject task
  call .special task "<init>" "()V"
  discard (pop tag)
  call .special threadClass "<init>" "(Ljava/lang/Runnable;)V"
  discard (pop tag)
  discard (pop tag)
  call .virtual threadClass "start" "()V"
  discard (pop tag)

/-- Make sure that a task compiled elsewhere can be started. -/
def requireTask (tag : Tag) (name : String) : Emit Unit := do
  let task ← inSession (Session.resolveTask name tag)
  if !task.hasConstructor then
    throw (.invalidTaskUnit name .noConstructor)
  if !task.runnable then
    throw (.invalidTaskUnit name .notRunnable)

/-- Note that a statement is entered. -/
def enterStmt (tag : Tag) : Emit Unit :=
  note (.statement tag)

end Emit

open Emit

/-- **The code of a statement.** -/
def Stmt.compile : Stmt → Emit Unit
  | .nothing => pure ()
  | .fault tag error => do
    enterStmt tag
    throw error
  | .sequence tag first rest => do
    enterStmt tag
    first.compile
    rest.compile
  | .block tag body => do
    enterStmt tag
    body.compile
  | .assign tag name value => do
    enterStmt tag
    Emit.assign tag name value.compile
  | .print tag value => do
    enterStmt tag
    Emit.print tag value.compile
  | .assert tag condition => do
    enterStmt tag
    Emit.assert tag condition.compile
  | .sleep tag duration => do
    enterStmt tag
    Emit.sleep tag duration.compile
  | .ifThen tag condition branch => do
    enterStmt tag
    conditional tag condition.compile .eq (.statement branch.compile) none
  | .ifElse tag condition thenBranch elseBranch => do
    enterStmt tag
    conditional tag condition.compile .eq (.statement thenBranch.compile)
      (some (.statement elseBranch.compile))
  | .loop tag condition body => do
    enterStmt tag
    Emit.loop tag condition.compile body.compile
  | .spawn tag name => do
    enterStmt tag
    requireTask tag name
    Emit.spawn tag name
  | .spawnInline tag name bodyTag body => do
    enterStmt tag
    inSession (Session.compileTask name bodyTag body.compile)
    Emit.spawn tag name

end StackUnits
