import StackUnits.Code.Operand
import StackUnits.Decimal.Layout
import StackUnits.Text.Quoted

/-!
# The instruction set

Units are lists of instructions for a stack machine with local variables. Jumps
name *labels*, and a label is placed by an instruction of its own, so that a piece
of code means the same wherever it stands.

Constants of the two floating-point widths are bit patterns: two constants are the
same exactly when they have the same bits, whatever the numbers compare as.
-/

namespace StackUnits

/-- **A constant operand.** -/
inductive Constant
  | int (value : Int32)
  | long (value : Int64)
  | float (bits : UInt32)
  | double (bits : UInt64)
  | string (text : String)
  deriving DecidableEq, Inhabited

/-- A place in the code that jumps can name. -/
structure Label where
  id : UInt32
  deriving DecidableEq, Inhabited

/-- How a method is called. -/
inductive InvokeKind
  | static
  | virtual
  | special
  deriving DecidableEq, Inhabited

/-- A field or method of a class, with its signature. -/
structure MemberRef where
  owner : String
  name : String
  descriptor : String
  deriving DecidableEq, Inhabited

/-- **An instruction of the stack machine.** -/
inductive Instruction
  /-- Push a constant. -/
  | push (constant : Constant)
  /-- Push the top of the stack once more. -/
  | dup
  /-- Push a local variable. -/
  | load (kind : SlotKind) (slot : UInt16)
  /-- Pop into a local variable. -/
  | store (kind : SlotKind) (slot : UInt16)
  /-- Pop two operands, the right one first, and push the result. -/
  | arith (op : ArithOp) (family : Family)
  /-- Change the representation of the top of the stack. -/
  | convert (conversion : Conversion)
  /-- Pop an `int` and jump if it passes the test. -/
  | jumpIf (test : ZeroTest) (target : Label)
  /-- Jump. -/
  | jump (target : Label)
  /-- Place a label; does nothing. -/
  | label (place : Label)
  /-- Push a fresh object of a class. -/
  | new (cls : String)
  /-- Push a static field. -/
  | getStatic (field : MemberRef)
  /-- Call a method, popping its arguments. -/
  | invoke (kind : InvokeKind) (method : MemberRef)
  /-- Pop an object and stop with it as the error. -/
  | throw
  /-- Stop. -/
  | ret
  deriving DecidableEq, Inhabited

/-- The text of a constant in a listing. -/
def Constant.text : Constant → String
  | .int value => toString value.toInt
  | .long value => toString value.toInt ++ "L"
  | .float bits => Layout.listing.write .single bits.toNat ++ "f"
  | .double bits => Layout.listing.write .double bits.toNat ++ "d"
  | .string text => Text.quote text

/-- Whether two constants have equal values. Floating-point constants are compared as
numbers, so this differs from having the same bits: the two zeros are equal, and an
undefined number is not equal to itself. -/
def Constant.sameValue : Constant → Constant → Bool
  | .float a, .float b => Format.single.sameNumber a.toNat b.toNat
  | .double a, .double b => Format.double.sameNumber a.toNat b.toNat
  | a, b => a == b

/-- The name of a label in a listing. -/
def Label.text (label : Label) : String :=
  s!"L{label.id.toNat}"

/-- Every kind of call once. -/
def InvokeKind.all : List InvokeKind :=
  [.static, .virtual, .special]

theorem InvokeKind.mem_all (kind : InvokeKind) : kind ∈ InvokeKind.all := by
  cases kind <;> simp [InvokeKind.all]

/-- The mnemonic of a call. -/
def InvokeKind.mnemonic : InvokeKind → String
  | .static => "invokestatic"
  | .virtual => "invokevirtual"
  | .special => "invokespecial"

/-- A member in a listing. -/
def MemberRef.text (ref : MemberRef) : String :=
  ref.owner ++ "." ++ ref.name ++ ref.descriptor

namespace Instruction

/-- The text of an instruction in a listing. -/
def text : Instruction → String
  | push constant => "ldc " ++ constant.text
  | dup => "dup"
  | load kind slot => s!"{kind.letter}load {slot.toNat}"
  | store kind slot => s!"{kind.letter}store {slot.toNat}"
  | arith op family => s!"{family.letter}{op.name}"
  | convert conversion => conversion.mnemonic
  | jumpIf test target => test.mnemonic ++ " " ++ target.text
  | jump target => "goto " ++ target.text
  | label place => place.text ++ ":"
  | new cls => "new " ++ cls
  | getStatic field => "getstatic " ++ field.text
  | invoke kind method => kind.mnemonic ++ " " ++ method.text
  | throw => "athrow"
  | ret => "return"

/-- Whether two instructions are the same up to `StackUnits.Constant.sameValue`. -/
def sameValue : Instruction → Instruction → Bool
  | push a, push b => a.sameValue b
  | a, b => a == b

/-- The label that the instruction may jump to. -/
def target? : Instruction → Option Label
  | jumpIf _ target | jump target => some target
  | _ => none

/-- The label that the instruction places. -/
def placed? : Instruction → Option Label
  | label place => some place
  | _ => none

end Instruction

end StackUnits
