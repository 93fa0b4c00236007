import StackUnits.Error

/-!
# Units of code

A compilation yields units: one for the program, one for every task that the
program defines on the spot. A unit is a list of instructions with what a machine
needs to set aside for them, and a table of its local variables.

Two operations look at the labels of a unit. `StackUnits.CodeUnit.labelOffsets`
says where each one stands, `StackUnits.CodeUnit.checkLabels` whether they make
sense: each placed once, and every jump to one that is placed. The listing at the
end is the form in which a unit is shown to a person.
-/

namespace StackUnits

/-- What a unit is started as. -/
inductive UnitKind
  | program
  | task
  deriving DecidableEq, Inhabited

/-- The written name of a kind of unit. -/
def UnitKind.name : UnitKind → String
  | program => "program"
  | task => "task"

/-- Every kind of unit once. -/
def UnitKind.all : List UnitKind :=
  [.program, .task]

theorem UnitKind.mem_all (kind : UnitKind) : kind ∈ UnitKind.all := by
  cases kind <;> simp [UnitKind.all]

/-- An entry of a unit's table of local variables. -/
structure LocalVariable where
  name : String
  slot : UInt16
  type : OperandType
  deriving DecidableEq, Inhabited

/-- **A unit of code.** -/
structure CodeUnit where
  name : String
  kind : UnitKind
  maxLocals : UInt16 := 0
  maxStack : UInt16 := 0
  locals : List LocalVariable := []
  instructions : List Instruction := []
  deriving DecidableEq, Inhabited

/-- What has to be known of a unit to start it as a task. -/
structure TaskInfo where
  name : String
  hasConstructor : Bool
  runnable : Bool
  deriving DecidableEq, Inhabited

namespace CodeUnit

/-- The name of the method that a machine calls to start the unit. -/
def entry (unit : CodeUnit) : String :=
  match unit.kind with
  | .program => "main"
  | .task => "run"

/-- Only tasks can be run by a thread. -/
def isRunnable (unit : CodeUnit) : Bool :=
  unit.kind == .task

/-- Only tasks can be created without arguments. -/
def hasConstructor (unit : CodeUnit) : Bool :=
  unit.kind == .task

/-- What the unit offers to whoever would start it. -/
def taskInfo (unit : CodeUnit) : TaskInfo :=
  { name := unit.name, hasConstructor := unit.hasConstructor, runnable := unit.isRunnable }

/-- Whether two lists of instructions are the same up to
`StackUnits.Instruction.sameValue`. -/
def sameCode : List Instruction → List Instruction → Bool
  | [], [] => true
  | a :: as, b :: bs => a.sameValue b && sameCode as bs
  | _, _ => false

/-- Whether two units are the same up to `StackUnits.Instruction.sameValue`. -/
def sameValue (a b : CodeUnit) : Bool :=
  { a with instructions := [] } == { b with instructions := [] }
    && sameCode a.instructions b.instructions

/-! ### Labels -/

/-- Record that a label stands at an offset: a label met before keeps its position
in the list and takes the new offset. -/
def recordOffset (label : Label) (offset : Nat) : List (Label × Nat) → List (Label × Nat)
  | [] => [(label, offset)]
  | (other, old) :: rest =>
    if other = label then (label, offset) :: rest
    else (other, old) :: recordOffset label offset rest

/-- The labels placed by code that starts at the given offset, added to a table. -/
def offsetsFrom : List Instruction → Nat → List (Label × Nat) → List (Label × Nat)
  | [], _, table => table
  | instr :: rest, offset, table =>
    match instr.placed? with
    | some label => offsetsFrom rest (offset + 1) (recordOffset label offset table)
    | none => offsetsFrom rest (offset + 1) table

/-- **Where each label stands**: the labels in the order of their first placement,
each with the offset of its last. -/
def labelOffsets (unit : CodeUnit) : List (Label × Nat) :=
  offsetsFrom unit.instructions 0 []

/-- The labels placed by a piece of code, in order. -/
def placements (code : List Instruction) : List Label :=
  code.filterMap Instruction.placed?

/-- The labels jumped to in a piece of code, in order. -/
def targets (code : List Instruction) : List Label :=
  code.filterMap Instruction.target?

/-- The first label of the list that occurs before, either in the list or among
those already `seen`. -/
def firstRepeated (seen : List Label) : List Label → Option Label
  | [] => none
  | label :: rest => if label ∈ seen then some label else firstRepeated (label :: seen) rest

/-- **The check of a unit's labels**: the first label placed a second time is
reported, or else the first jump to a label that is not placed. -/
def checkLabels (unit : CodeUnit) : Except CompileError Unit :=
  let placed := placements unit.instructions
  match firstRepeated [] placed with
  | some label => .error (.artifact unit.name (.labelPlacedTwice label))
  | none =>
    match (targets unit.instructions).find? fun target => !placed.contains target with
    | some target => .error (.artifact unit.name (.unplacedTarget target))
    | none => .ok ()

/-! ### Listing -/

/-- A number right-aligned in a column five wide. -/
def column (n : Nat) : String :=
  let digits := toString n
  String.ofList (List.replicate (5 - digits.length) ' ') ++ digits

/-- The line of a listing for the instruction at the given offset; a label stands
at the margin. -/
def line (offset : Nat) (instr : Instruction) : String :=
  match instr.placed? with
  | some _ => instr.text ++ "\n"
  | none => column offset ++ "  " ++ instr.text ++ "\n"

/-- The lines of a listing for code that starts at the given offset. -/
def lines : List Instruction → Nat → String → String
  | [], _, text => text
  | instr :: rest, offset, text => lines rest (offset + 1) (text ++ line offset instr)

/-- **The listing of a unit**: a heading, the local variables, the instructions. -/
def listing (unit : CodeUnit) : String :=
  let heading := s!"; {unit.kind.name} {unit.name} ({unit.entry}) locals={unit.maxLocals.toNat} "
    ++ s!"stack={unit.maxStack.toNat}\n"
  let table := unit.locals.foldl
    (fun text l => text ++ s!";   slot {l.slot.toNat} {l.name}: {l.type.name}\n") ""
  lines unit.instructions 0 (heading ++ table)

end CodeUnit

end StackUnits
