import StackUnits.Compile.Context

/-!
# Branching

All branching except loops is one pattern: compute a value, skip an arm if the value
passes a test against zero, place the labels. `StackUnits.Emit.conditional` is that
pattern. What differs is the arms: an arm is a statement, which leaves nothing, or a
value, which leaves one; connectives and comparisons are conditionals whose arms are
values, so they need no code of their own.

Both arms have to agree on whether they leave a value. A value is taken off the type
stack at the end of each arm and put back once after both, since only one of the arms
is run.
-/

namespace StackUnits

/-- **An arm of a conditional**: the action that writes it, and whether the code it
writes leaves a value. -/
structure Arm where
  yields : Bool
  action : Emit Unit

namespace Arm

/-- An arm that leaves nothing. -/
def statement (action : Emit Unit) : Arm :=
  ⟨false, action⟩

/-- An arm that leaves the value of an expression, which has to be of the int
category. -/
def value (tag : Tag) (action : Emit Unit) : Arm :=
  ⟨true, do
    action
    discard (Emit.popInt tag)⟩

/-- An arm that leaves a constant. -/
def constant (tag : Tag) (n : Int32) : Arm :=
  ⟨true, do
    Emit.pushConstant (.int n) .boolean
    discard (Emit.pop tag)⟩

end Arm

namespace Emit

/-- **A conditional**: after the condition, control skips the first arm if the value
passes the test `skip`. -/
def conditional (tag : Tag) (condition : Emit Unit) (skip : ZeroTest) (thenArm : Arm)
    (elseArm : Option Arm) : Emit Unit := do
  condition
  discard (popInt tag)
  let done ← newLabel
  match elseArm with
  | none =>
    emit (.jumpIf skip done)
    thenArm.action
  | some elseArm =>
    if elseArm.yields != thenArm.yields then
      throw (tag.malformed .armsDisagree)
    let otherwise ← newLabel
    emit (.jumpIf skip otherwise)
    thenArm.action
    emit (.jump done)
    emit (.label otherwise)
    elseArm.action
  emit (.label done)
  if thenArm.yields then
    pushType .boolean

/-- **A loop**: the condition is tested before each turn, and zero ends it. -/
def loop (tag : Tag) (condition body : Emit Unit) : Emit Unit := do
  let top ← newLabel
  let done ← newLabel
  emit (.label top)
  condition
  discard (popInt tag)
  emit (.jumpIf .eq done)
  body
  emit (.jump top)
  emit (.label done)

end Emit

end StackUnits
