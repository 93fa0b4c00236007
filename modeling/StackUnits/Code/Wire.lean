import StackUnits.Code.DecodeProblem
import StackUnits.Text.Utf8

/-!
# How values are written as bytes

The body of a unit file is put together from five forms, each written by a function
into a list of bytes and read back by an action on the bytes that remain
(`StackUnits.Wire.Reader`):

* a **natural number** is one byte if it is small; otherwise a mark says how many
  bytes follow, two, four or eight, least significant first. A writer takes the
  shortest form, a reader takes any that is not too wide for the place;
* an **integer** is the natural number that lists the integers outwards from zero:
  0, -1, 1, -2, 2, …;
* a **bit pattern** has its bytes as they are, least significant first;
* a **text** is the number of its bytes and then the bytes; a **list** is the number
  of its entries and then the entries;
* a **choice** is the position of an alternative and then what belongs to it.

A reader that fails says what it missed, not where.
-/

namespace StackUnits.Wire

/-- A reader of a value, at the start of the bytes that remain. -/
abbrev Reader := StateT (List UInt8) (Except DecodeProblem)

/-! ### Bytes -/

/-- Read as many bytes. -/
def readBytes (count : Nat) : Reader (List UInt8) := fun bytes =>
  let first := bytes.take count
  if first.length < count then .error (.unexpectedEnd (count - first.length))
  else .ok (first, bytes.drop count)

/-- Read a byte. -/
def readByte : Reader UInt8 := fun bytes =>
  match bytes with
  | [] => .error (.unexpectedEnd 1)
  | byte :: rest => .ok (byte, rest)

/-- The given number of bytes of a number, least significant first. -/
def littleEndian : Nat → Nat → List UInt8
  | 0, _ => []
  | count + 1, n => UInt8.ofNat (n % 256) :: littleEndian count (n / 256)

/-- The number with the given bytes, least significant first. -/
def ofLittleEndian : List UInt8 → Nat
  | [] => 0
  | byte :: rest => byte.toNat + 256 * ofLittleEndian rest

/-! ### Numbers -/

/-- **Write a natural number** below 2⁶⁴, in the shortest form. -/
def natural (n : Nat) : List UInt8 :=
  if n < 251 then [UInt8.ofNat n]
  else if n < 0x10000 then 251 :: littleEndian 2 n
  else if n < 0x100000000 then 252 :: littleEndian 4 n
  else 253 :: littleEndian 8 n

/-- The number of bytes of an integer of a width. -/
def byteCount : IntegerWidth → Nat
  | .u16 | .i16 => 2
  | .u32 | .i32 => 4
  | .u64 | .i64 | .size => 8
  | .u128 | .i128 => 16
  | .reserved => 0

/-- The width that a mark stands for. -/
def marked (mark : UInt8) : IntegerWidth :=
  if mark = 251 then .u16
  else if mark = 252 then .u32
  else if mark = 253 then .u64
  else if mark = 254 then .u128
  else .reserved

/-- The width that is reported as expected when a mark does not fit. A place of eight
bytes that has the mark and eight more before it is reported as one of four. -/
def reported (expected : IntegerWidth) (bytes : List UInt8) : IntegerWidth :=
  if expected = .u64 ∧ (bytes.take 9).length = 9 then .u32 else expected

/-- **Read a natural number** in a place of the given width. -/
def readNatural (expected : IntegerWidth) : Reader Nat := do
  let start ← get
  let byte ← readByte
  if byte < 251 then
    return byte.toNat
  let found := marked byte
  if found = .reserved ∨ byteCount expected < byteCount found then
    throw (.integerWidth (reported expected start) found)
  let bytes ← readBytes (byteCount found)
  return ofLittleEndian bytes

/-- The position of an integer in the list 0, -1, 1, -2, 2, … -/
def zigzag : Int → Nat
  | .ofNat n => 2 * n
  | .negSucc n => 2 * n + 1

/-- The integer at a position of the list 0, -1, 1, -2, 2, … -/
def unzigzag (n : Nat) : Int :=
  if n % 2 = 0 then .ofNat (n / 2) else .negSucc (n / 2)

/-- Write an integer. -/
def integer (n : Int) : List UInt8 :=
  natural (zigzag n)

/-- Read an integer in a place as wide as the given one. -/
def readInteger (width : IntegerWidth) : Reader Int := fun bytes =>
  match readNatural width bytes with
  | .ok (n, rest) => .ok (unzigzag n, rest)
  | .error (.integerWidth expected found) =>
    .error (.integerWidth expected.signed found.signed)
  | .error e => .error e

/-! ### Texts, lists and choices -/

/-- The bytes of a text. -/
def textBytes (text : String) : List UInt8 :=
  text.toByteArray.data.toList

/-- **Write a text.** -/
def text (text : String) : List UInt8 :=
  natural (textBytes text).length ++ textBytes text

/-- **Read a text.** -/
def readText : Reader String := do
  let count ← readNatural .u64
  let bytes ← readBytes count
  match String.fromUTF8? bytes.toByteArray with
  | some text => return text
  | none =>
    let (validUpTo, length) := Utf8.fault bytes
    throw (.notText validUpTo length)

/-- **Write a list**, given how an entry is written. -/
def list {α : Type} (entry : α → List UInt8) (entries : List α) : List UInt8 :=
  natural entries.length ++ entries.flatMap entry

/-- Read as many entries, in front of those already read in reverse. -/
def readEntries {α : Type} (entry : Reader α) : Nat → List α → Reader (List α)
  | 0, sofar => return sofar.reverse
  | count + 1, sofar => do
    let a ← entry
    readEntries entry count (a :: sofar)

/-- **Read a list**, given how an entry is read. -/
def readList {α : Type} (entry : Reader α) : Reader (List α) := do
  let count ← readNatural .size
  readEntries entry count []

/-- **Read a choice** among alternatives, and then what belongs to it. -/
def readChoice {α : Type} (alternatives : List (Reader α)) : Reader α := do
  let index ← readNatural .u32
  match alternatives[index]? with
  | some alternative => alternative
  | none => throw (.noSuchVariant index alternatives.length)

/-- **Write a member of an enumeration**, given by the list of its members. -/
def member {α : Type} [BEq α] (members : List α) (a : α) : List UInt8 :=
  natural (members.idxOf a)

/-- **Read a member of an enumeration.** -/
def readMember {α : Type} (members : List α) : Reader α := do
  let index ← readNatural .u32
  match members[index]? with
  | some a => return a
  | none => throw (.noSuchVariant index members.length)

end StackUnits.Wire
