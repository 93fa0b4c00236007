import StackUnits.Compile.Conditional

/-!
# Compiling expressions

The code of an expression leaves one value on the stack, and its type on the type
stack. Operands are computed from left to right, and both operands of an arithmetic
operator have to be of one type: nothing is converted without a cast.
-/

namespace StackUnits

namespace Emit

/-- **Arithmetic** on the values that two pieces of code leave. -/
def arith (tag : Tag) (op : ArithOp) (left right : Emit Unit) : Emit Unit := do
  left
  right
  let rhs ← pop tag
  let lhs ← pop tag
  if lhs ≠ rhs then
    throw (.typeMismatch tag.text (.type lhs) rhs)
  let family ← require tag lhs.arithmeticFamily
  emit (.arith op family)
  pushType lhs

/-- **A cast** of the value that a piece of code leaves. -/
def cast (tag : Tag) (target : OperandType) (operand : Emit Unit) : Emit Unit := do
  operand
  let source ← pop tag
  let conversion ← require tag (source.conversionTo target)
  convert conversion
  pushType target

/-- **The value of a variable**, which has to be declared. -/
def variableValue (tag : Tag) (name : String) : Emit Unit := do
  match ← lookup name with
  | none => throw (.unknownVariable name)
  | some info =>
    let kind ← require tag info.type.slotKind
    emit (.load kind info.slot)
    pushType info.type

/-- Note that an expression is entered. -/
def enterExpr (tag : Tag) : Emit Unit :=
  modify fun cx => { cx with session := cx.session.note (.expression tag cx.types.depth) }

end Emit

open Emit

/-- **The code of an expression.**

A connective leaves the value of its right operand, if that is what decides it. A
comparison tests the difference of its operands; its first arm is skipped if the test
fails. -/
def Expr.compile : Expr → Emit Unit
  | .fault tag error => do
    enterExpr tag
    throw error
  | .literal tag constant type => do
    enterExpr tag
    pushConstant constant type
  | .var tag name => do
    enterExpr tag
    variableValue tag name
  | .arith tag op left right => do
    enterExpr tag
    Emit.arith tag op left.compile right.compile
  | .cast tag target operand => do
    enterExpr tag
    Emit.cast tag target operand.compile
  | .and tag left right => do
    enterExpr tag
    conditional tag left.compile .eq (.value tag right.compile) (some (.constant tag 0))
  | .or tag left right => do
    enterExpr tag
    conditional tag left.compile .ne (.value tag right.compile) (some (.constant tag 1))
  | .not tag operand => do
    enterExpr tag
    conditional tag operand.compile .eq (.constant tag 0) (some (.constant tag 1))
  | .compare tag test left right => do
    enterExpr tag
    conditional tag (Emit.arith tag .sub left.compile right.compile) test.negate
      (.constant tag 1) (some (.constant tag 0))

end StackUnits
