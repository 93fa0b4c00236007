import StackUnits.Code.DecodeProblem
import StackUnits.Code.Instruction
import StackUnits.Files.Problem
import StackUnits.Tree.Basic

/-!
# Why a compilation fails

Every way in which compiling, resolving, reading or writing units can fail is a
constructor of `StackUnits.CompileError`, with the facts that its message needs. The
wording stands in one place, `StackUnits.CompileError.message`, so that nothing else
compares texts.

Most causes point at a node of the tree. They hold the text that shows the node
(`StackUnits.Tag.text`) rather than the node. Two of them arise from tables that
know no node; `StackUnits.CompileError.located` adds it afterwards, and never
replaces one that is there.
-/

namespace StackUnits

/-- **What is malformed about a node.** -/
inductive Malformation
  | identifierWithoutName
  | literalWithoutValue
  | invalidLiteral (raw : String)
  | wideCharacter (c : Char)
  | castWithoutOperand
  | missingLeftOperand
  | missingRightOperand
  | notWithoutOperand
  | blockWithRightChild
  | assignmentWithoutTarget
  | assignmentTarget (found : Kind)
  | assignmentWithoutValue
  | printWithoutValue
  | assertWithoutCondition
  | sleepWithoutDuration
  | spawnWithoutName
  | ifWithoutCondition
  | ifWithoutThen
  | ifElseWithoutCondition
  | ifElseWithoutBranches
  | ifElseBranches (found : Kind)
  | ifElseWithoutThen
  | ifElseWithoutElse
  | loopWithoutCondition
  | loopWithoutBody
  | armsDisagree
  | stackUnderflow
  | valuesLeft (count : Nat) (unit : String)
  | nameTaken (name : String)
  | emptyName
  | notPlainName (name : String)
  | noOpenScope
  | declarationOutsideScope
  deriving DecidableEq, Inhabited

/-- What a type was required to be. -/
inductive Expectation
  | type (type : OperandType)
  | intCategory
  deriving DecidableEq, Inhabited

/-- The place of a node that it does not fit. -/
inductive Position
  | statement
  | expression
  | literal
  | booleanOperator
  deriving DecidableEq, Inhabited

/-- What is wrong with a list of directories. -/
inductive SearchPathFault
  | empty
  | emptyEntry (list : String)
  | notConfigured (task : String)
  deriving DecidableEq, Inhabited

/-- Why a unit cannot be started as a task. -/
inductive TaskFault
  | noConstructor
  | notRunnable
  | holdsUnit (name : String)
  deriving DecidableEq, Inhabited

/-- What is wrong with a unit or its file, its body aside. -/
inductive ArtifactFault
  | labelPlacedTwice (label : Label)
  | unplacedTarget (label : Label)
  | notAUnitFile
  | formatVersion (found : Nat)
  deriving DecidableEq, Inhabited

/-- **Why a compilation fails.** -/
inductive CompileError
  | structural (node : String) (fault : Malformation)
  | typeMismatch (node : String) (expected : Expectation) (actual : OperandType)
  | unsupportedConversion (source target : OperandType) (node : Option String)
  | unsupportedOperation (operation : String) (type : OperandType) (node : Option String)
  | unknownVariable (name : String)
  | unexpectedNode (node : String) (position : Position)
  | unsupportedPrintType (type : OperandType) (node : String)
  | unitNotFound (name : String) (searchPath : String)
  | malformedSearchPath (fault : SearchPathFault)
  | invalidTaskUnit (name : String) (fault : TaskFault)
  | artifact (path : String) (fault : ArtifactFault)
  | file (problem : FileProblem)
  | decode (problem : DecodeProblem)
  deriving DecidableEq, Inhabited

/-! ### The wording -/

/-- The text of a malformation in messages. -/
def Malformation.message : Malformation → String
  | identifierWithoutName => "identifier without a name"
  | literalWithoutValue => "literal without a value"
  | invalidLiteral raw => "invalid literal " ++ Text.quote raw
  | wideCharacter c => "character " ++ Text.quoteChar c ++ " does not fit in 16 bits"
  | castWithoutOperand => "cast without an operand"
  | missingLeftOperand => "missing left operand"
  | missingRightOperand => "missing right operand"
  | notWithoutOperand => "not without an operand"
  | blockWithRightChild => "block with a right child"
  | assignmentWithoutTarget => "assignment without a target"
  | assignmentTarget found =>
    s!"assignment target must be an identifier, found {found.name}"
  | assignmentWithoutValue => "assignment without a value"
  | printWithoutValue => "print without a value"
  | assertWithoutCondition => "assert without a condition"
  | sleepWithoutDuration => "sleep without a duration"
  | spawnWithoutName => "multitask without a unit name"
  | ifWithoutCondition => "if without a condition"
  | ifWithoutThen => "if without a then statement"
  | ifElseWithoutCondition => "if-else without a condition"
  | ifElseWithoutBranches => "if-else without branches"
  | ifElseBranches found => s!"if-else branches must be a sequence, found {found.name}"
  | ifElseWithoutThen => "if-else without a then statement"
  | ifElseWithoutElse => "if-else without an else statement"
  | loopWithoutCondition => "loop without a condition"
  | loopWithoutBody => "loop without a body"
  | armsDisagree => "conditional arms disagree on producing a value"
  | stackUnderflow => "type stack underflow"
  | valuesLeft count unit => s!"{count} value(s) left on the stack at the end of unit '{unit}'"
  | nameTaken name => s!"unit name '{name}' is already used in this compilation"
  | emptyName => "empty unit name"
  | notPlainName name => s!"unit name '{name}' is not a plain file name"
  | noOpenScope => "exit_scope called with no scope open"
  | declarationOutsideScope => "declaration outside of any scope"

/-- The text of an expectation in messages. -/
def Expectation.text : Expectation → String
  | type t => t.name
  | intCategory => "integer category"

/-- The text of a position in messages. -/
def Position.text : Position → String
  | statement => "statement"
  | expression => "expression"
  | literal => "literal"
  | booleanOperator => "boolean operator"

/-- The text of a fault of a directory list in messages. -/
def SearchPathFault.message : SearchPathFault → String
  | empty => "empty search path"
  | emptyEntry list => s!"empty entry in '{list}'"
  | notConfigured task => s!"no task search path configured to resolve '{task}'"

/-- The text of a task's fault in messages. -/
def TaskFault.message : TaskFault → String
  | noConstructor => "no zero-argument constructor"
  | notRunnable => "not runnable"
  | holdsUnit name => s!"file holds unit '{name}'"

/-- The text of an artifact's fault in messages. -/
def ArtifactFault.message : ArtifactFault → String
  | labelPlacedTwice label => s!"label {label.text} placed twice"
  | unplacedTarget label => s!"jump to unplaced label {label.text}"
  | notAUnitFile => "not a unit file"
  | formatVersion found => s!"format version {found}, expected 1"

namespace CompileError

/-- The place at the end of a message, if it is known. -/
def placeText : Option String → String
  | some node => " at " ++ node
  | none => ""

/-- **The message of an error.** -/
def message : CompileError → String
  | structural node fault => s!"Malformed tree at {node}: {fault.message}"
  | typeMismatch node expected actual =>
    s!"Type mismatch at {node}: expected {expected.text}, got {actual.name}"
  | unsupportedConversion source target node =>
    s!"Unsupported conversion from {source.name} to {target.name}{placeText node}"
  | unsupportedOperation operation type node =>
    s!"Unsupported operation: {operation} on {type.name}{placeText node}"
  | unknownVariable name => s!"Unknown variable: {name}"
  | unexpectedNode node position => s!"Unexpected node in {position.text} position: {node}"
  | unsupportedPrintType type node => s!"Cannot print values of type {type.name} at {node}"
  | unitNotFound name searchPath =>
    s!"Task unit '{name}' not found on search path '{searchPath}'"
  | malformedSearchPath fault => s!"Malformed search path: {fault.message}"
  | invalidTaskUnit name fault => s!"Unit '{name}' cannot be spawned: {fault.message}"
  | artifact path fault => s!"Invalid unit artifact {path}: {fault.message}"
  | file problem => s!"IO error: {problem.message}"
  | decode problem => s!"Unit decoding error: {problem.message}"

/-- The error with a place added, if it is one that was raised without. -/
def located (error : CompileError) (tag : Tag) : CompileError :=
  match error with
  | unsupportedConversion source target none =>
    unsupportedConversion source target (some tag.text)
  | unsupportedOperation operation type none =>
    unsupportedOperation operation type (some tag.text)
  | other => other

end CompileError

/-! ### Requirements on types -/

namespace OperandType

/-- The family whose arithmetic applies, or the error that there is none. -/
def arithmeticFamily (t : OperandType) : Except CompileError Family :=
  match t.family? with
  | some family => .ok family
  | none => .error (.unsupportedOperation "arithmetic" t none)

/-- How a local variable of the type is held, or the error that it cannot be. -/
def slotKind (t : OperandType) : Except CompileError SlotKind :=
  match t.slotKind? with
  | some kind => .ok kind
  | none => .error (.unsupportedOperation "local variable access" t none)

/-- The conversion that a cast stands for, or the error that there is none. -/
def conversionTo (source target : OperandType) : Except CompileError Conversion :=
  match source.conversionTo? target with
  | some conversion => .ok conversion
  | none => .error (.unsupportedConversion source target none)

end OperandType

end StackUnits
