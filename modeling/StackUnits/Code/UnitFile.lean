import StackUnits.Code.Unit
import StackUnits.Code.Wire

/-!
# Unit files

A unit file starts with four letters and a version, by which it is recognised; the
rest is the unit, field after field, in the forms of `StackUnits.Wire`. Bytes after
the end of the unit are ignored.

Every enumeration is written as the position of the member in its list, so the order
of those lists, and of the constructors of constants and instructions here, is part of
the format.
-/

namespace StackUnits

open Wire

/-! ### Constants -/

/-- The bytes of a constant. -/
def Constant.encode : Constant → List UInt8
  | int value => natural 0 ++ integer value.toInt
  | long value => natural 1 ++ integer value.toInt
  | float bits => natural 2 ++ littleEndian 4 bits.toNat
  | double bits => natural 3 ++ littleEndian 8 bits.toNat
  | string text => natural 4 ++ Wire.text text

/-- Read a constant. -/
def Constant.read : Reader Constant :=
  readChoice [
    do return int (Int32.ofInt (← readInteger .u32)),
    do return long (Int64.ofInt (← readInteger .u64)),
    do return float (UInt32.ofNat (ofLittleEndian (← readBytes 4))),
    do return double (UInt64.ofNat (ofLittleEndian (← readBytes 8))),
    do return string (← readText)]

/-! ### Instructions -/

/-- Read a slot or a count. -/
def Wire.readWord : Reader UInt16 := do
  return UInt16.ofNat (← readNatural .u16)

/-- Read a label. -/
def Label.read : Reader Label := do
  return ⟨UInt32.ofNat (← readNatural .u32)⟩

/-- The bytes of a label. -/
def Label.encode (label : Label) : List UInt8 :=
  natural label.id.toNat

/-- The bytes of a member of a class. -/
def MemberRef.encode (ref : MemberRef) : List UInt8 :=
  Wire.text ref.owner ++ Wire.text ref.name ++ Wire.text ref.descriptor

/-- Read a member of a class. -/
def MemberRef.read : Reader MemberRef := do
  let owner ← readText
  let name ← readText
  let descriptor ← readText
  return ⟨owner, name, descriptor⟩

/-- The bytes of an instruction. -/
def Instruction.encode : Instruction → List UInt8
  | push constant => natural 0 ++ constant.encode
  | dup => natural 1
  | load kind slot => natural 2 ++ member SlotKind.all kind ++ natural slot.toNat
  | store kind slot => natural 3 ++ member SlotKind.all kind ++ natural slot.toNat
  | arith op family => natural 4 ++ member ArithOp.all op ++ member Family.all family
  | convert conversion => natural 5 ++ member Conversion.all conversion
  | jumpIf test target => natural 6 ++ member ZeroTest.all test ++ target.encode
  | jump target => natural 7 ++ target.encode
  | label place => natural 8 ++ place.encode
  | new cls => natural 9 ++ Wire.text cls
  | getStatic field => natural 10 ++ field.encode
  | invoke kind method => natural 11 ++ member InvokeKind.all kind ++ method.encode
  | throw => natural 12
  | ret => natural 13

/-- Read an instruction. -/
def Instruction.read : Reader Instruction :=
  readChoice [
    do return push (← Constant.read),
    do return dup,
    do return load (← readMember SlotKind.all) (← readWord),
    do return store (← readMember SlotKind.all) (← readWord),
    do return arith (← readMember ArithOp.all) (← readMember Family.all),
    do return convert (← readMember Conversion.all),
    do return jumpIf (← readMember ZeroTest.all) (← Label.read),
    do return jump (← Label.read),
    do return label (← Label.read),
    do return new (← readText),
    do return getStatic (← MemberRef.read),
    do return invoke (← readMember InvokeKind.all) (← MemberRef.read),
    do return throw,
    do return ret]

/-! ### Units -/

/-- The bytes of an entry of the table of local variables. -/
def LocalVariable.encode (entry : LocalVariable) : List UInt8 :=
  Wire.text entry.name ++ natural entry.slot.toNat ++ member OperandType.all entry.type

/-- Read an entry of the table of local variables. -/
def LocalVariable.read : Reader LocalVariable := do
  let name ← readText
  let slot ← readWord
  let type ← readMember OperandType.all
  return ⟨name, slot, type⟩

namespace CodeUnit

/-- The bytes of a unit, without the header of a file. -/
def encodeBody (unit : CodeUnit) : List UInt8 :=
  Wire.text unit.name ++ member UnitKind.all unit.kind ++ natural unit.maxLocals.toNat
    ++ natural unit.maxStack.toNat ++ list LocalVariable.encode unit.locals
    ++ list Instruction.encode unit.instructions

/-- Read a unit, without the header of a file. -/
def readBody : Reader CodeUnit := do
  let name ← readText
  let kind ← readMember UnitKind.all
  let maxLocals ← readWord
  let maxStack ← readWord
  let locals ← readList LocalVariable.read
  let instructions ← readList Instruction.read
  return { name, kind, maxLocals, maxStack, locals, instructions }

/-- **The bytes of a unit file**: the letters `STRU`, the version 1 in two bytes, the
unit. -/
def encode (unit : CodeUnit) : List UInt8 :=
  [0x53, 0x54, 0x52, 0x55, 1, 0] ++ unit.encodeBody

/-- **The unit in the bytes of a file**; `path` is shown if the file is not one of a
unit. -/
def decode (path : String) (bytes : List UInt8) : Except CompileError CodeUnit :=
  match bytes with
  | 0x53 :: 0x54 :: 0x52 :: 0x55 :: low :: high :: body =>
    let version := ofLittleEndian [low, high]
    if version ≠ 1 then .error (.artifact path (.formatVersion version))
    else
      match readBody body with
      | .ok (unit, _) => .ok unit
      | .error problem => .error (.decode problem)
  | _ => .error (.artifact path .notAUnitFile)

end CodeUnit

end StackUnits
