/-!
# What can be wrong with the body of a unit file

The reader of unit files stops at the first byte that does not fit, with one of the
causes below. Each says what was expected and what was found, and nothing about
where.
-/

namespace StackUnits

/-- The width of an integer in a unit file, as the type it is read as. The list
length has a width of its own; `reserved` is the mark that stands for no width. -/
inductive IntegerWidth
  | u16
  | u32
  | u64
  | u128
  | size
  | i16
  | i32
  | i64
  | i128
  | reserved
  deriving DecidableEq, Inhabited

/-- The text of a width in messages. -/
def IntegerWidth.text : IntegerWidth → String
  | u16 => "U16"
  | u32 => "U32"
  | u64 => "U64"
  | u128 => "U128"
  | size => "Usize"
  | i16 => "I16"
  | i32 => "I32"
  | i64 => "I64"
  | i128 => "I128"
  | reserved => "Reserved"

/-- The signed width with as many bits. -/
def IntegerWidth.signed : IntegerWidth → IntegerWidth
  | u16 => i16
  | u32 => i32
  | u64 => i64
  | u128 => i128
  | width => width

/-- **Why the body of a unit file could not be read.** -/
inductive DecodeProblem
  /-- The file ends, with so many bytes missing of the piece being read. -/
  | unexpectedEnd (additional : Nat)
  /-- An integer is marked as wider than its place allows. -/
  | integerWidth (expected found : IntegerWidth)
  /-- A text is not valid UTF-8 from the given byte on; the second number is the
  length of the offending piece, unless the text ends within it. -/
  | notText (validUpTo : Nat) (length : Option Nat)
  /-- A choice among `count` alternatives is out of range. -/
  | noSuchVariant (index count : Nat)
  deriving DecidableEq, Inhabited

/-- The text of a problem in messages. -/
def DecodeProblem.message : DecodeProblem → String
  | unexpectedEnd additional => s!"UnexpectedEnd \x7b additional: {additional} \x7d"
  | integerWidth expected found =>
    s!"InvalidIntegerType \x7b expected: {expected.text}, found: {found.text} \x7d"
  | notText validUpTo length =>
    let length := match length with | some n => s!"Some({n})" | none => "None"
    s!"Utf8 \x7b inner: Utf8Error \x7b valid_up_to: {validUpTo}, error_len: {length} \x7d \x7d"
  | noSuchVariant index count =>
    s!"OtherString(\"invalid value: integer `{index}`, expected variant index 0 <= i < {count}\")"

end StackUnits
