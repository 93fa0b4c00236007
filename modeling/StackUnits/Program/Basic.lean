import StackUnits.Error

/-!
# Programs

A syntax tree says nothing by its type about which children a node needs. What the
compiler works on does: an expression (`StackUnits.Expr`) or a statement
(`StackUnits.Stmt`) has exactly the parts that its form calls for.

A tree may be malformed in one place and fine everywhere else, and the compiler
has to report the first fault *in the order of its walk*, after whatever faults of
typing come before it. So a malformed node does not make the whole reading fail: it
becomes a **fault**, a leaf that carries the error, and compiling that leaf reports
it. Reading a tree is thereby total, and all the failing is done in one walk.

Every form carries the tag of the node it was read from, for messages and for the
journal.
-/

namespace StackUnits

/-- **An expression.** -/
inductive Expr
  /-- A node that is no expression, with what is wrong. -/
  | fault (tag : Tag) (error : CompileError)
  /-- A constant of a type. -/
  | literal (tag : Tag) (constant : Constant) (type : OperandType)
  /-- The value of a variable. -/
  | var (tag : Tag) (name : String)
  /-- Arithmetic on two operands of one type. -/
  | arith (tag : Tag) (op : ArithOp) (left right : Expr)
  /-- A conversion to another type. -/
  | cast (tag : Tag) (target : OperandType) (operand : Expr)
  /-- Conjunction: the right operand matters only if the left one is not zero. -/
  | and (tag : Tag) (left right : Expr)
  /-- Disjunction: the right operand matters only if the left one is zero. -/
  | or (tag : Tag) (left right : Expr)
  /-- Negation. -/
  | not (tag : Tag) (operand : Expr)
  /-- A comparison: a test of the difference against zero. -/
  | compare (tag : Tag) (test : ZeroTest) (left right : Expr)
  deriving DecidableEq, Inhabited

/-- **A statement.** -/
inductive Stmt
  /-- No statement at all, where a child is absent. -/
  | nothing
  /-- A node that is no statement, with what is wrong. -/
  | fault (tag : Tag) (error : CompileError)
  /-- One after the other. -/
  | sequence (tag : Tag) (first rest : Stmt)
  /-- A statement in a block. -/
  | block (tag : Tag) (body : Stmt)
  /-- Assign to a variable, which is declared by its first assignment. -/
  | assign (tag : Tag) (name : String) (value : Expr)
  /-- Print a value on a line. -/
  | print (tag : Tag) (value : Expr)
  /-- Stop with an error if the condition is zero. -/
  | assert (tag : Tag) (condition : Expr)
  /-- Wait for so many milliseconds. -/
  | sleep (tag : Tag) (duration : Expr)
  /-- Run the branch if the condition is not zero. -/
  | ifThen (tag : Tag) (condition : Expr) (branch : Stmt)
  /-- Run one of two branches. -/
  | ifElse (tag : Tag) (condition : Expr) (thenBranch elseBranch : Stmt)
  /-- Run the body as long as the condition, tested before each turn, is not zero. -/
  | loop (tag : Tag) (condition : Expr) (body : Stmt)
  /-- Start a task that is compiled elsewhere. -/
  | spawn (tag : Tag) (name : String)
  /-- Compile a task and start it; `bodyTag` is the tag of its body. -/
  | spawnInline (tag : Tag) (name : String) (bodyTag : Tag) (body : Stmt)
  deriving DecidableEq, Inhabited

/-- The error that a node is malformed. -/
def Tag.malformed (tag : Tag) (fault : Malformation) : CompileError :=
  .structural tag.text fault

/-- The error that a node stands in the wrong position. -/
def Tag.misplaced (tag : Tag) (position : Position) : CompileError :=
  .unexpectedNode tag.text position

end StackUnits
