/-!
# Operand types

The compiler keeps track of the type of every value on the evaluation stack. There
are eleven types (`StackUnits.OperandType`), but the machine itself tells apart
only a few representations: four families of numbers that arithmetic works on
(`StackUnits.Family`), and the five sorts of values that a local variable can hold
(`StackUnits.SlotKind`). The small integer types and the booleans all live in the
representation of `int`; they are the **int category**.

The table of casts is `StackUnits.OperandType.conversionTo?`: which types convert
into which, and by what instruction.
-/

namespace StackUnits

/-- **The type of a value on the evaluation stack.** -/
inductive OperandType
  | boolean
  | char
  | byte
  | short
  | int
  | long
  | float
  | double
  | reference
  | array
  | returnAddress
  deriving DecidableEq, Inhabited

/-- A representation that arithmetic works on. -/
inductive Family
  | int
  | long
  | float
  | double
  deriving DecidableEq, Inhabited

/-- A representation that a local variable can hold. -/
inductive SlotKind
  | int
  | long
  | float
  | double
  | reference
  deriving DecidableEq, Inhabited

/-- An arithmetic operation. -/
inductive ArithOp
  | add
  | sub
  | mul
  | div
  | rem
  deriving DecidableEq, Inhabited

/-- A change of representation. The identity stands for a cast that needs no
instruction. -/
inductive Conversion
  | identity
  | i2l
  | i2f
  | i2d
  | l2i
  | l2f
  | l2d
  | f2i
  | f2l
  | f2d
  | d2i
  | d2l
  | d2f
  | i2b
  | i2c
  | i2s
  deriving DecidableEq, Inhabited

/-- A comparison of an integer with zero. -/
inductive ZeroTest
  | eq
  | ne
  | lt
  | le
  | gt
  | ge
  deriving DecidableEq, Inhabited

/-! ### Operand types -/

namespace OperandType

/-- Every type once. -/
def all : List OperandType :=
  [boolean, char, byte, short, int, long, float, double, reference, array, returnAddress]

/-- The written name of a type. -/
def name : OperandType → String
  | boolean => "boolean"
  | char => "char"
  | byte => "byte"
  | short => "short"
  | int => "int"
  | long => "long"
  | float => "float"
  | double => "double"
  | reference => "reference"
  | array => "array"
  | returnAddress => "return-address"

/-- The type with the given written name, if there is one. -/
def ofName? (text : String) : Option OperandType :=
  all.find? fun t => t.name == text

/-- Whether values of the type are represented as an `int`. -/
def isIntCategory : OperandType → Bool
  | boolean | char | byte | short | int => true
  | _ => false

/-- The family whose arithmetic applies to values of the type. -/
def family? : OperandType → Option Family
  | boolean | char | byte | short | int => some .int
  | long => some .long
  | float => some .float
  | double => some .double
  | reference | array | returnAddress => none

/-- Whether the type is a type of numbers: arithmetic applies, and it is not
`boolean`. -/
def isNumeric (t : OperandType) : Bool :=
  t != boolean && t.family?.isSome

/-- How a local variable of the type is held. -/
def slotKind? : OperandType → Option SlotKind
  | boolean | char | byte | short | int => some .int
  | long => some .long
  | float => some .float
  | double => some .double
  | reference | array => some .reference
  | returnAddress => none

/-- **The table of casts.** A boolean is an `int` already, and nothing else becomes
a boolean or is made from one; a value that fits keeps its representation; the wide
types do not go to a type below `int` in one step. -/
def conversionTo? (source target : OperandType) : Option Conversion :=
  if source = target then some .identity
  else
    match source, target with
    | boolean, int => some .identity
    | boolean, _ => none
    | _, boolean => none
    | char, int | byte, int | short, int => some .identity
    | byte, short => some .identity
    | char, byte | short, byte | int, byte => some .i2b
    | byte, char | short, char | int, char => some .i2c
    | char, short | int, short => some .i2s
    | char, long | byte, long | short, long | int, long => some .i2l
    | char, float | byte, float | short, float | int, float => some .i2f
    | char, double | byte, double | short, double | int, double => some .i2d
    | long, int => some .l2i
    | long, float => some .l2f
    | long, double => some .l2d
    | float, int => some .f2i
    | float, long => some .f2l
    | float, double => some .f2d
    | double, int => some .d2i
    | double, long => some .d2l
    | double, float => some .d2f
    | _, _ => none

/-- The signature of the printing method for values of the type. -/
def printDescriptor? : OperandType → Option String
  | boolean => some "(Z)V"
  | char => some "(C)V"
  | byte | short | int => some "(I)V"
  | float => some "(F)V"
  | reference => some "(Ljava/lang/Object;)V"
  | _ => none

theorem mem_all (t : OperandType) : t ∈ all := by
  cases t <;> decide

theorem ofName?_name (t : OperandType) : ofName? t.name = some t := by
  cases t <;> decide

end OperandType

/-! ### Written forms -/

/-- The letter that instructions of a family begin with. -/
def Family.letter : Family → Char
  | .int => 'i'
  | .long => 'l'
  | .float => 'f'
  | .double => 'd'

/-- The letter that loads and stores of a kind of slot begin with. -/
def SlotKind.letter : SlotKind → Char
  | .int => 'i'
  | .long => 'l'
  | .float => 'f'
  | .double => 'd'
  | .reference => 'a'

/-- The stem of the operation's mnemonics. -/
def ArithOp.name : ArithOp → String
  | .add => "add"
  | .sub => "sub"
  | .mul => "mul"
  | .div => "div"
  | .rem => "rem"

/-- The mnemonic of a conversion. -/
def Conversion.mnemonic : Conversion → String
  | .identity => "nop"
  | .i2l => "i2l"
  | .i2f => "i2f"
  | .i2d => "i2d"
  | .l2i => "l2i"
  | .l2f => "l2f"
  | .l2d => "l2d"
  | .f2i => "f2i"
  | .f2l => "f2l"
  | .f2d => "f2d"
  | .d2i => "d2i"
  | .d2l => "d2l"
  | .d2f => "d2f"
  | .i2b => "i2b"
  | .i2c => "i2c"
  | .i2s => "i2s"

/-! ### Enumerations -/

/-- Every family once. -/
def Family.all : List Family :=
  [.int, .long, .float, .double]

/-- Every kind of slot once. -/
def SlotKind.all : List SlotKind :=
  [.int, .long, .float, .double, .reference]

/-- Every operation once. -/
def ArithOp.all : List ArithOp :=
  [.add, .sub, .mul, .div, .rem]

/-- Every conversion once. -/
def Conversion.all : List Conversion :=
  [.identity, .i2l, .i2f, .i2d, .l2i, .l2f, .l2d, .f2i, .f2l, .f2d, .d2i, .d2l, .d2f,
    .i2b, .i2c, .i2s]

/-- Every test once. -/
def ZeroTest.all : List ZeroTest :=
  [.eq, .ne, .lt, .le, .gt, .ge]

theorem Family.mem_all (family : Family) : family ∈ Family.all := by
  cases family <;> simp [Family.all]

theorem SlotKind.mem_all (kind : SlotKind) : kind ∈ SlotKind.all := by
  cases kind <;> simp [SlotKind.all]

theorem ArithOp.mem_all (op : ArithOp) : op ∈ ArithOp.all := by
  cases op <;> simp [ArithOp.all]

theorem Conversion.mem_all (conversion : Conversion) : conversion ∈ Conversion.all := by
  cases conversion <;> simp [Conversion.all]

theorem ZeroTest.mem_all (test : ZeroTest) : test ∈ ZeroTest.all := by
  cases test <;> simp [ZeroTest.all]

/-! ### Tests against zero -/

namespace ZeroTest

/-- The mnemonic of the conditional jump on the test. -/
def mnemonic : ZeroTest → String
  | eq => "ifeq"
  | ne => "ifne"
  | lt => "iflt"
  | le => "ifle"
  | gt => "ifgt"
  | ge => "ifge"

/-- The opposite test. -/
def negate : ZeroTest → ZeroTest
  | eq => ne
  | ne => eq
  | lt => ge
  | le => gt
  | gt => le
  | ge => lt

/-- Whether an integer passes the test. -/
def holds (test : ZeroTest) (v : Int) : Bool :=
  match test with
  | eq => v == 0
  | ne => v != 0
  | lt => decide (v < 0)
  | le => decide (v ≤ 0)
  | gt => decide (0 < v)
  | ge => decide (0 ≤ v)

/-- An integer passes exactly one of a test and its opposite. -/
theorem holds_negate (test : ZeroTest) (v : Int) : test.negate.holds v = !test.holds v := by
  cases test <;> grind [negate, holds]

end ZeroTest

end StackUnits
