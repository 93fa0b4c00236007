import StackUnits.Code.Unit

/-!
# The journal

While it works the compiler notes what it does: every node it enters, every
instruction it writes, every unit it starts and finishes. The notes are values
(`StackUnits.Event`), put down in the order in which things happen; how much of them
is shown, and in what words, is decided when they are read.
-/

namespace StackUnits

/-- How much detail a note is about; a reader asks for a level and gets the coarser
ones too. -/
inductive Level
  | info
  | debug
  | trace
  deriving DecidableEq, Inhabited

/-- **A note in the journal.** -/
inductive Event
  /-- A statement is entered. -/
  | statement (tag : Tag)
  /-- An expression is entered, with so many operands on the stack. -/
  | expression (tag : Tag) (depth : Nat)
  /-- An instruction is written at an offset. -/
  | emit (offset : Nat) (instr : Instruction)
  /-- A unit is begun. -/
  | unitBegun (name : String) (kind : UnitKind)
  /-- A unit is finished. -/
  | unitDone (unit : CodeUnit)
  /-- Code to start a task is about to be written into a unit. -/
  | spawn (unit task : String)
  /-- A compiled task is found at a path. -/
  | resolved (task path : String)
  /-- A program is compiled, with so many tasks. -/
  | programDone (name : String) (tasks : Nat)
  /-- A syntax tree is read from a file. -/
  | loaded (file : String) (nodes : Nat)
  /-- A program passed the check, with so many units. -/
  | checked (units : Nat)
  /-- A unit is written to a path. -/
  | wrote (unit path : String)
  /-- All units of a compilation are written to a directory. -/
  | persisted (dir : String) (units : Nat)
  deriving DecidableEq, Inhabited

/-- The name of a level. -/
def Level.name : Level → String
  | info => "INFO"
  | debug => "DEBUG"
  | trace => "TRACE"

/-- Whether a reader who asks for `wanted` sees notes of the level. -/
def Level.shownAt (level wanted : Level) : Bool :=
  match level, wanted with
  | info, _ => true
  | debug, info => false
  | debug, _ => true
  | trace, trace => true
  | trace, _ => false

namespace Event

/-- The level of a note. -/
def level : Event → Level
  | statement _ | expression _ _ | emit _ _ => .trace
  | unitBegun _ _ | unitDone _ | spawn _ _ | resolved _ _ | wrote _ _ => .debug
  | programDone _ _ | loaded _ _ | checked _ | persisted _ _ => .info

/-- The words of a note: what happened, and then its facts as `key=value`. -/
def text : Event → String
  | statement tag => s!"compile statement node={tag.text}"
  | expression tag depth => s!"compile expression node={tag.text} depth={depth}"
  | emit offset instr => s!"emit offset={offset} instruction={instr.text}"
  | unitBegun name kind => s!"compiling unit unit={Text.quote name} kind={kind.name}"
  | unitDone unit =>
    s!"compiled unit unit={Text.quote unit.name} instructions={unit.instructions.length} "
      ++ s!"max_stack={unit.maxStack.toNat} max_locals={unit.maxLocals.toNat}"
  | spawn unit task => s!"spawn unit={unit} task={Text.quote task}"
  | resolved task path => s!"resolved task unit unit={Text.quote task} path={path}"
  | programDone name tasks => s!"compiled program program={Text.quote name} tasks={tasks}"
  | loaded file nodes => s!"loaded syntax tree file={file} nodes={nodes}"
  | checked units => s!"check passed units={units}"
  | wrote unit path => s!"wrote unit unit={unit} path={path}"
  | persisted dir units => s!"persisted units dir={dir} units={units}"

/-- The line of a note: its level and its words. -/
def line (event : Event) : String :=
  event.level.name ++ " " ++ event.text

end Event

end StackUnits
