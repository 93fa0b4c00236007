import StackUnits.Decimal.Numeral
import StackUnits.Program.Basic

/-!
# Literals

What constant a literal node denotes, and of which type. A boolean is one of two
words, a character is any single one that fits in sixteen bits, a string is taken as
it is; the two sorts of numerals are those of `StackUnits.Decimal.Numeral`.
-/

namespace StackUnits

/-- **The constant and the type that a literal denotes**, given the tag of its node
and its text. A node of another kind is no literal. -/
def Tag.literal (tag : Tag) (raw : String) : Except CompileError (Constant × OperandType) :=
  let invalid := tag.malformed (.invalidLiteral raw)
  match tag.kind with
  | .literalBoolean =>
    if raw = "true" then .ok (.int 1, .boolean)
    else if raw = "false" then .ok (.int 0, .boolean)
    else .error invalid
  | .literalCharacter =>
    match raw.toList with
    | [c] =>
      if c.toNat < 0x10000 then .ok (.int (Int32.ofNat c.toNat), .char)
      else .error (tag.malformed (.wideCharacter c))
    | _ => .error invalid
  | .literalInteger =>
    match Numeral.int32? raw with
    | some value => .ok (.int value, .int)
    | none => .error invalid
  | .literalFloat =>
    match Numeral.single? raw with
    | some bits => .ok (.float bits, .float)
    | none => .error invalid
  | .literalString => .ok (.string raw, .reference)
  | _ => .error (tag.misplaced .literal)

end StackUnits
