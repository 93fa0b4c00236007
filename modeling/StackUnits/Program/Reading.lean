import StackUnits.Program.Literal

/-!
# Reading a tree as a program

`StackUnits.Tree.toExpr` and `StackUnits.Tree.toStmt` read a tree as an expression
and as a statement. Each node is looked at once, on its own: which parts a form
needs, and which of two missing parts is reported, is said by the functions `of…`
below, from the tag of a node and its children that have been read already.

The whole language is in these two tables: everything that a node may be, and
everything that can be wrong with its shape.
-/

namespace StackUnits

/-! ### Expressions -/

namespace Expr

/-- A node that is malformed as an expression. -/
def malformed (tag : Tag) (fault : Malformation) : Expr :=
  .fault tag (tag.malformed fault)

/-- A form with two operands, made by `make`. -/
def ofOperands (tag : Tag) (make : Expr → Expr → Expr) (left right : Option Expr) : Expr :=
  match left, right with
  | none, _ => malformed tag .missingLeftOperand
  | some _, none => malformed tag .missingRightOperand
  | some l, some r => make l r

/-- A form with one operand, made by `make`. -/
def ofOperand (tag : Tag) (missing : Malformation) (make : Expr → Expr)
    (operand : Option Expr) : Expr :=
  match operand with
  | some e => make e
  | none => malformed tag missing

/-- A variable. -/
def ofIdentifier (tag : Tag) : Expr :=
  match tag.value with
  | some name => .var tag name
  | none => malformed tag .identifierWithoutName

/-- A literal. -/
def ofLiteral (tag : Tag) : Expr :=
  match tag.value with
  | none => malformed tag .literalWithoutValue
  | some raw =>
    match tag.literal raw with
    | .ok (constant, type) => .literal tag constant type
    | .error e => .fault tag e

/-- A cast to the given type. -/
def ofCast (tag : Tag) (target : OperandType) (operand : Option Expr) : Expr :=
  ofOperand tag .castWithoutOperand (.cast tag target) operand

/-- **The expression at a node**, given the expressions at its children. -/
def ofParts (tag : Tag) (left right : Option Expr) : Expr :=
  match tag.kind with
  | .identifier => ofIdentifier tag
  | .literalBoolean | .literalCharacter | .literalInteger | .literalFloat | .literalString =>
    ofLiteral tag
  | .add => ofOperands tag (.arith tag .add) left right
  | .subtract => ofOperands tag (.arith tag .sub) left right
  | .multiply => ofOperands tag (.arith tag .mul) left right
  | .divide => ofOperands tag (.arith tag .div) left right
  | .modulo => ofOperands tag (.arith tag .rem) left right
  | .castChar => ofCast tag .char left
  | .castByte => ofCast tag .byte left
  | .castShort => ofCast tag .short left
  | .castInt => ofCast tag .int left
  | .castLong => ofCast tag .long left
  | .castFloat => ofCast tag .float left
  | .castDouble => ofCast tag .double left
  | .and => ofOperands tag (.and tag) left right
  | .or => ofOperands tag (.or tag) left right
  | .not => ofOperand tag .notWithoutOperand (.not tag) left
  | .equal => ofOperands tag (.compare tag .eq) left right
  | .less => ofOperands tag (.compare tag .lt) left right
  | .greater => ofOperands tag (.compare tag .gt) left right
  | .sequence | .block | .assign | .ifThen | .ifElse | .loop | .assert | .print | .multitask
  | .sleep => .fault tag (tag.misplaced .expression)

end Expr

/-- **A tree read as an expression.** -/
def Tree.toExpr : Tree → Expr
  | .node tag left right =>
    Expr.ofParts tag
      (match left with | some l => some l.toExpr | none => none)
      (match right with | some r => some r.toExpr | none => none)

/-- A tree read as a connective or a comparison, and as nothing else. -/
def Tree.toBoolean (t : Tree) : Expr :=
  if t.kind.isBooleanOperator then t.toExpr
  else .fault t.tag (t.tag.misplaced .booleanOperator)

/-! ### Statements -/

namespace Stmt

/-- A node that is malformed as a statement. -/
def malformed (tag : Tag) (fault : Malformation) : Stmt :=
  .fault tag (tag.malformed fault)

/-- A block, which has no right child. -/
def ofBlock (tag : Tag) (body : Stmt) (right : Option Tree) : Stmt :=
  match right with
  | some _ => malformed tag .blockWithRightChild
  | none => .block tag body

/-- An assignment, given the tag of its target. -/
def ofAssign (tag : Tag) (target : Option Tag) (value : Option Expr) : Stmt :=
  match target with
  | none => malformed tag .assignmentWithoutTarget
  | some target =>
    if target.kind ≠ .identifier then malformed tag (.assignmentTarget target.kind)
    else
      match target.value, value with
      | none, _ => .fault tag (target.malformed .identifierWithoutName)
      | some _, none => malformed tag .assignmentWithoutValue
      | some name, some value => .assign tag name value

/-- A statement with one operand, made by `make`. -/
def ofOperand (tag : Tag) (missing : Malformation) (make : Expr → Stmt)
    (operand : Option Expr) : Stmt :=
  match operand with
  | some e => make e
  | none => malformed tag missing

/-- A conditional with one branch. -/
def ofIf (tag : Tag) (condition : Option Expr) (branch : Option Stmt) : Stmt :=
  match condition, branch with
  | none, _ => malformed tag .ifWithoutCondition
  | some _, none => malformed tag .ifWithoutThen
  | some c, some s => .ifThen tag c s

/-- The two branches of a conditional: the kind of the node that holds them, and its
children. -/
structure Branches where
  kind : Kind
  thenBranch : Option Stmt
  elseBranch : Option Stmt

/-- A conditional with two branches. -/
def ofIfElse (tag : Tag) (condition : Option Expr) (branches : Option Branches) : Stmt :=
  match condition, branches with
  | none, _ => malformed tag .ifElseWithoutCondition
  | some _, none => malformed tag .ifElseWithoutBranches
  | some c, some branches =>
    if branches.kind ≠ .sequence then malformed tag (.ifElseBranches branches.kind)
    else
      match branches.thenBranch, branches.elseBranch with
      | none, _ => malformed tag .ifElseWithoutThen
      | some _, none => malformed tag .ifElseWithoutElse
      | some s, some s' => .ifElse tag c s s'

/-- A loop. -/
def ofLoop (tag : Tag) (condition : Option Expr) (body : Option Stmt) : Stmt :=
  match condition, body with
  | none, _ => malformed tag .loopWithoutCondition
  | some _, none => malformed tag .loopWithoutBody
  | some c, some s => .loop tag c s

/-- The start of a task, with its body if it is given on the spot. -/
def ofSpawn (tag : Tag) (body : Option (Tag × Stmt)) : Stmt :=
  match tag.value, body with
  | none, _ => malformed tag .spawnWithoutName
  | some name, none => .spawn tag name
  | some name, some (bodyTag, body) => .spawnInline tag name bodyTag body

end Stmt

/-- **A tree read as a statement.** -/
def Tree.toStmt : Tree → Stmt
  | .node tag left right =>
    match tag.kind with
    | .sequence =>
      .sequence tag
        (match left with | some l => l.toStmt | none => .nothing)
        (match right with | some r => r.toStmt | none => .nothing)
    | .block => Stmt.ofBlock tag (match left with | some l => l.toStmt | none => .nothing) right
    | .assign => Stmt.ofAssign tag (left.map Tree.tag) (right.map Tree.toExpr)
    | .print => Stmt.ofOperand tag .printWithoutValue (.print tag) (left.map Tree.toExpr)
    | .assert => Stmt.ofOperand tag .assertWithoutCondition (.assert tag) (left.map Tree.toExpr)
    | .sleep => Stmt.ofOperand tag .sleepWithoutDuration (.sleep tag) (left.map Tree.toExpr)
    | .multitask =>
      Stmt.ofSpawn tag (match left with | some l => some (l.tag, l.toStmt) | none => none)
    | .ifThen =>
      Stmt.ofIf tag (left.map Tree.toExpr)
        (match right with | some r => some r.toStmt | none => none)
    | .ifElse =>
      Stmt.ofIfElse tag (left.map Tree.toExpr)
        (match right with
          | some (.node inner l r) =>
            some
              { kind := inner.kind
                thenBranch := match l with | some l => some l.toStmt | none => none
                elseBranch := match r with | some r => some r.toStmt | none => none }
          | none => none)
    | .loop =>
      Stmt.ofLoop tag (left.map Tree.toExpr)
        (match right with | some r => some r.toStmt | none => none)
    | .literalBoolean | .literalCharacter | .literalInteger | .literalFloat | .literalString
    | .castChar | .castByte | .castShort | .castInt | .castLong | .castFloat | .castDouble
    | .add | .subtract | .multiply | .divide | .modulo | .and | .or | .equal | .greater | .less
    | .not | .identifier => .fault tag (tag.misplaced .statement)

/-- A tree read as a conditional with one branch, whatever its kind. -/
def Tree.toIf (t : Tree) : Stmt :=
  Stmt.ofIf t.tag (t.left.map Tree.toExpr) (t.right.map Tree.toStmt)

/-- A tree read as a conditional with two branches, whatever its kind. -/
def Tree.toIfElse (t : Tree) : Stmt :=
  Stmt.ofIfElse t.tag (t.left.map Tree.toExpr)
    (t.right.map fun b =>
      { kind := b.kind
        thenBranch := b.left.map Tree.toStmt
        elseBranch := b.right.map Tree.toStmt })

/-- A tree read as a loop, whatever its kind. -/
def Tree.toLoop (t : Tree) : Stmt :=
  Stmt.ofLoop t.tag (t.left.map Tree.toExpr) (t.right.map Tree.toStmt)

end StackUnits
