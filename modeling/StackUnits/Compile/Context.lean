import StackUnits.Compile.Symbols
import StackUnits.Config
import StackUnits.Pile
import StackUnits.Program.Reading
import StackUnits.Task.Resolver

/-!
# The state of a compilation

Compiling is writing code for a stack machine while keeping, beside the code, a
picture of what the machine's stack will look like. This file has the state that the
compiler carries along and the single steps it takes:

* the **type stack** (`StackUnits.TypeStack`), the types of the values that will be on
  the evaluation stack, and the deepest it has been;
* the **code buffer** (`StackUnits.CodeBuffer`), the instructions so far and the next
  unused label;
* the **session** (`StackUnits.Session`), what is shared by all units of a
  compilation: the tasks finished so far, those begun and not finished, the journal;
* and all of these together as the **context** of one unit (`StackUnits.Context`).

The steps are actions of type `StackUnits.Emit`. An action that fails leaves behind
the state it had reached, not the one it started from; nothing is undone.
-/

namespace StackUnits

/-- **The types on the evaluation stack**, and the greatest depth reached. -/
structure TypeStack where
  entries : Pile OperandType := .empty
  maxDepth : Nat := 0
  deriving Inhabited

namespace TypeStack

/-- The number of types on the stack. -/
def depth (stack : TypeStack) : Nat :=
  stack.entries.size

/-- One more type on top. -/
def push (stack : TypeStack) (type : OperandType) : TypeStack :=
  { entries := stack.entries.push type, maxDepth := max stack.maxDepth (stack.depth + 1) }

end TypeStack

/-- **The code being written**, and the next unused label. -/
structure CodeBuffer where
  emitted : Pile Instruction := .empty
  nextLabel : UInt32 := 0
  deriving Inhabited

namespace CodeBuffer

/-- The offset that the next instruction will have. -/
def offset (code : CodeBuffer) : Nat :=
  code.emitted.size

/-- The instructions, in order. -/
def instructions (code : CodeBuffer) : List Instruction :=
  code.emitted.toList

/-- One more instruction at the end. -/
def emit (code : CodeBuffer) (instr : Instruction) : CodeBuffer :=
  { code with emitted := code.emitted.push instr }

end CodeBuffer

/-- **What the units of one compilation share**: the settings and the resolver; the
tasks finished so far, in order; the units begun and not finished, innermost first; and
the journal, newest note first. -/
structure Session where
  config : Config := {}
  resolver : Resolver
  units : List CodeUnit := []
  inProgress : List (String × UnitKind) := []
  journal : List Event := []

namespace Session

/-- The session with one more note. -/
def note (session : Session) (event : Event) : Session :=
  { session with journal := event :: session.journal }

/-- The session with more notes, in order. -/
def noteAll (session : Session) (events : List Event) : Session :=
  events.foldl note session

/-- The notes made so far, in order. -/
def notes (session : Session) : List Event :=
  session.journal.reverse

/-- Whether a unit of this name is finished or begun in the compilation. -/
def hasUnit (session : Session) (name : String) : Bool :=
  session.units.any (fun unit => unit.name == name)
    || session.inProgress.any fun entry => entry.1 == name

end Session

/-- **The state of one unit being compiled.** -/
structure Context where
  session : Session
  unitName : String
  types : TypeStack := {}
  symbols : SymbolTable := {}
  code : CodeBuffer := {}

/-- An action of the compiler on the unit it is writing. -/
abbrev Emit := EStateM CompileError Context

/-- An action of the compiler on the session. -/
abbrev SessionM := EStateM CompileError Session

namespace Context

/-- The unit that the context has arrived at. The machine counts its stack in sixteen
bits, so of the depth only those are kept. -/
def finish (cx : Context) (kind : UnitKind) : CodeUnit where
  name := cx.unitName
  kind := kind
  maxLocals := cx.symbols.slotCount
  maxStack := UInt16.ofNat cx.types.maxDepth
  locals := cx.symbols.locals
  instructions := cx.code.instructions

end Context

namespace Emit

/-! ### Journal and failure -/

/-- Put a note into the journal. -/
def note (event : Event) : Emit Unit :=
  modify fun cx => { cx with session := cx.session.note event }

/-- Carry on with a result, or fail with the node added to the error. -/
def require {α : Type} (tag : Tag) (result : Except CompileError α) : Emit α :=
  match result with
  | .ok a => pure a
  | .error e => throw (e.located tag)

/-- An action on the session, taken from within a unit. -/
def inSession {α : Type} (action : SessionM α) : Emit α := fun cx =>
  match action cx.session with
  | .ok a session => .ok a { cx with session := session }
  | .error e session => .error e { cx with session := session }

/-! ### The type stack -/

/-- Record that a value of the type is pushed. -/
def pushType (type : OperandType) : Emit Unit :=
  modify fun cx => { cx with types := cx.types.push type }

/-- Record that a value is popped, and tell its type. -/
def pop (tag : Tag) : Emit OperandType := fun cx =>
  match cx.types.entries.pop? with
  | some (type, rest) => .ok type { cx with types := { cx.types with entries := rest } }
  | none => .error (tag.malformed .stackUnderflow) cx

/-- Record that a value is popped, which has to be of the int category. -/
def popInt (tag : Tag) : Emit OperandType := do
  let type ← pop tag
  if type.isIntCategory then return type
  else throw (.typeMismatch tag.text .intCategory type)

/-! ### Instructions -/

/-- Write an instruction. -/
def emit (instr : Instruction) : Emit Unit :=
  modify fun cx =>
    { cx with
      session := cx.session.note (.emit cx.code.offset instr)
      code := cx.code.emit instr }

/-- Take an unused label. -/
def newLabel : Emit Label := fun cx =>
  .ok ⟨cx.code.nextLabel⟩
    { cx with code := { cx.code with nextLabel := cx.code.nextLabel + 1 } }

/-- Write a conversion; the identity needs no instruction. -/
def convert (conversion : Conversion) : Emit Unit :=
  match conversion with
  | .identity => pure ()
  | conversion => emit (.convert conversion)

/-- Write an instruction, unless it is a conversion that does nothing. -/
def emitProper (instr : Instruction) : Emit Unit :=
  match instr with
  | .convert conversion => convert conversion
  | instr => emit instr

/-- Write the push of a constant and record its type. -/
def pushConstant (constant : Constant) (type : OperandType) : Emit Unit := do
  emit (.push constant)
  pushType type

/-! ### Scopes and variables -/

/-- Open a frame of variables. -/
def enterScope : Emit Unit :=
  modify fun cx => { cx with symbols := cx.symbols.enterScope }

/-- Leave the innermost frame of variables. -/
def exitScope : Emit Unit := fun cx =>
  match cx.symbols.exitScope with
  | .ok symbols => .ok () { cx with symbols := symbols }
  | .error e => .error e cx

/-- Declare a variable in the innermost frame. -/
def declare (name : String) (type : OperandType) : Emit UInt16 := fun cx =>
  match cx.symbols.declare name type with
  | .ok (slot, symbols) => .ok slot { cx with symbols := symbols }
  | .error e => .error e cx

/-- The variable that a name stands for. -/
def lookup (name : String) : Emit (Option VarInfo) := fun cx =>
  .ok (cx.symbols.lookup name) cx

end Emit

end StackUnits
