/-!
# The kinds of a syntax tree node

A program arrives as a tree whose nodes are told apart by a *kind* alone: the
statements, the literals, the casts, the operators. This file lists the kinds in
the order in which the textual form of a tree enumerates them
(`StackUnits.Kind.all`), gives each its written name (`StackUnits.Kind.name`), and
sorts them into the families that the language speaks of.

Two facts tie the list to the type: it leaves no kind out
(`StackUnits.Kind.mem_all`), and reading a written name back finds the kind it was
written for (`StackUnits.Kind.ofName?_name`).
-/

namespace StackUnits

/-- **What a node of a syntax tree is**: a statement form, a literal, a cast, an
operator, or a name. -/
inductive Kind
  | sequence
  | block
  | literalBoolean
  | literalCharacter
  | literalInteger
  | literalFloat
  | literalString
  | castChar
  | castByte
  | castShort
  | castInt
  | castLong
  | castFloat
  | castDouble
  | add
  | subtract
  | multiply
  | divide
  | modulo
  | and
  | or
  | equal
  | greater
  | less
  | not
  | assign
  | identifier
  | ifThen
  | ifElse
  | loop
  | assert
  | print
  | multitask
  | sleep
  deriving DecidableEq, Inhabited

namespace Kind

/-- Every kind once, in the order in which error messages enumerate them. -/
def all : List Kind :=
  [sequence, block, literalBoolean, literalCharacter, literalInteger, literalFloat, literalString,
    castChar, castByte, castShort, castInt, castLong, castFloat, castDouble, add, subtract,
    multiply, divide, modulo, and, or, equal, greater, less, not, assign, identifier, ifThen,
    ifElse, loop, assert, print, multitask, sleep]

/-- The written name of a kind. -/
def name : Kind → String
  | sequence => "sequence"
  | block => "block"
  | literalBoolean => "literal-boolean"
  | literalCharacter => "literal-character"
  | literalInteger => "literal-integer"
  | literalFloat => "literal-float"
  | literalString => "literal-string"
  | castChar => "cast-char"
  | castByte => "cast-byte"
  | castShort => "cast-short"
  | castInt => "cast-int"
  | castLong => "cast-long"
  | castFloat => "cast-float"
  | castDouble => "cast-double"
  | add => "add"
  | subtract => "subtract"
  | multiply => "multiply"
  | divide => "divide"
  | modulo => "modulo"
  | and => "and"
  | or => "or"
  | equal => "equal"
  | greater => "greater"
  | less => "less"
  | not => "not"
  | assign => "assign"
  | identifier => "identifier"
  | ifThen => "if"
  | ifElse => "if-else"
  | loop => "loop"
  | assert => "assert"
  | print => "print"
  | multitask => "multitask"
  | sleep => "sleep"

/-- The kind with the given written name, if there is one. -/
def ofName? (text : String) : Option Kind :=
  all.find? fun k => k.name == text

/-- The position of a kind in `StackUnits.Kind.all`. -/
def index (k : Kind) : Nat :=
  all.idxOf k

/-- A node that denotes a constant by its text. -/
def isLiteral : Kind → Bool
  | literalBoolean | literalCharacter | literalInteger | literalFloat | literalString => true
  | _ => false

/-- A conversion of its operand to a numeric type. -/
def isCast : Kind → Bool
  | castChar | castByte | castShort | castInt | castLong | castFloat | castDouble => true
  | _ => false

/-- One of the five arithmetic operators. -/
def isNumericOperator : Kind → Bool
  | add | subtract | multiply | divide | modulo => true
  | _ => false

/-- A connective or a comparison: an operator with a boolean result. -/
def isBooleanOperator : Kind → Bool
  | and | or | equal | greater | less | not => true
  | _ => false

/-- A node that stands for a value. -/
def isExpression (k : Kind) : Bool :=
  k == identifier || k.isLiteral || k.isCast || k.isNumericOperator || k.isBooleanOperator

/-- The enumeration is complete. -/
theorem mem_all (k : Kind) : k ∈ all := by
  cases k <;> decide

/-- Different kinds are written differently, so a written name determines its
kind. -/
theorem ofName?_name (k : Kind) : ofName? k.name = some k := by
  cases k <;> decide

end Kind

end StackUnits
