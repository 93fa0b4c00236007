import Mathlib.Algebra.Order.BigOperators.Group.List
import Mathlib.Algebra.Order.Group.Nat
import Mathlib.Data.Nat.Digits.Defs
import StackUnits.Code.UnitFile

/-!
# The layout of a unit file

What the bytes of a unit file mean, without the functions that write and read them.

`StackUnits.Wire.Datum` is a value as the format sees it: a number, a bit pattern, a text, or a
list, record or choice of smaller values; `StackUnits.Wire.Datum.Written` is the relation between
such a value and its bytes. It is a relation and not a function, so a number is not cut into bytes
but has bytes **of which it is the value** (`StackUnits.Wire.HasBytes`); and the bounds of the
format, that a number is below 2⁶⁴ above all, need not be said, since no bytes are those of a
greater one.

`StackUnits.CodeUnit.layout` says which value a unit is: its fields in order, a constant or an
instruction as the position of its constructor with what it carries, a member of an enumeration as
its place in the list of members.

The result is `StackUnits.CodeUnit.written_body`: what is written for a unit is in the form of its
layout. Only here a bound is needed. A length has eight bytes at most, so a text or a list of 2⁶⁴
entries has no written form; a file that is shorter than that holds none.
-/

namespace StackUnits

namespace Wire

/-! ### Values and their bytes -/

/-- The number has these bytes, so many of them, least significant first. -/
def HasBytes (count n : Nat) (bytes : List UInt8) : Prop :=
  bytes.length = count ∧ Nat.ofDigits 256 (bytes.map UInt8.toNat) = n

/-- **A value as the format sees it.** -/
inductive Datum
  | natural (n : Nat)
  | integer (n : Int)
  /-- A bit pattern of so many bytes. -/
  | bits (count n : Nat)
  | text (s : String)
  /-- Any number of values, of which the reader has to be told how many there are. -/
  | list (entries : List Datum)
  /-- As many values as the reader expects. -/
  | record (fields : List Datum)
  /-- One of several alternatives, with the values that belong to it. -/
  | choice (index : Nat) (fields : List Datum)

mutual

/-- **The bytes are the written form of the value.** -/
inductive Datum.Written : Datum → List UInt8 → Prop
  /-- A small number is a byte. -/
  | byte {byte : UInt8} (h : byte < 251) : Datum.Written (.natural byte.toNat) [byte]
  /-- A greater number has the fewest bytes that will do, after a mark that tells how many. -/
  | twoBytes {n : Nat} {bytes : List UInt8} (hn : 251 ≤ n) (h : HasBytes 2 n bytes) :
      Datum.Written (.natural n) (251 :: bytes)
  | fourBytes {n : Nat} {bytes : List UInt8} (hn : 2 ^ 16 ≤ n) (h : HasBytes 4 n bytes) :
      Datum.Written (.natural n) (252 :: bytes)
  | eightBytes {n : Nat} {bytes : List UInt8} (hn : 2 ^ 32 ≤ n) (h : HasBytes 8 n bytes) :
      Datum.Written (.natural n) (253 :: bytes)
  /-- The integers that are not negative have the even numbers, the others the odd ones. -/
  | nonneg {n : Nat} {bytes : List UInt8} (h : Datum.Written (.natural (2 * n)) bytes) :
      Datum.Written (.integer n) bytes
  | neg {n : Nat} {bytes : List UInt8} (h : Datum.Written (.natural (2 * n + 1)) bytes) :
      Datum.Written (.integer (-(n + 1))) bytes
  | bits {count n : Nat} {bytes : List UInt8} (h : HasBytes count n bytes) :
      Datum.Written (.bits count n) bytes
  | text {s : String} {bytes : List UInt8} (h : Datum.Written (.natural s.utf8ByteSize) bytes) :
      Datum.Written (.text s) (bytes ++ s.toUTF8.data.toList)
  | list {entries : List Datum} {bytes bytes' : List UInt8}
      (h : Datum.Written (.natural entries.length) bytes) (h' : Datum.WrittenAll entries bytes') :
      Datum.Written (.list entries) (bytes ++ bytes')
  | record {fields : List Datum} {bytes : List UInt8} (h : Datum.WrittenAll fields bytes) :
      Datum.Written (.record fields) bytes
  | choice {index : Nat} {fields : List Datum} {bytes bytes' : List UInt8}
      (h : Datum.Written (.natural index) bytes) (h' : Datum.WrittenAll fields bytes') :
      Datum.Written (.choice index fields) (bytes ++ bytes')

/-- **The bytes are the written forms of the values**, one after the other. -/
inductive Datum.WrittenAll : List Datum → List UInt8 → Prop
  | nil : Datum.WrittenAll [] []
  | cons {datum : Datum} {data : List Datum} {bytes bytes' : List UInt8}
      (h : Datum.Written datum bytes) (h' : Datum.WrittenAll data bytes') :
      Datum.WrittenAll (datum :: data) (bytes ++ bytes')

end

/-- A member of an enumeration, as its place among the members. -/
def Datum.member {α : Type} [BEq α] (members : List α) (a : α) : Datum :=
  .choice (members.idxOf a) []

end Wire

open Wire

/-! ### The layout of a unit -/

/-- What a constant carries. -/
def Constant.fields : Constant → List Datum
  | int value => [.integer value.toInt]
  | long value => [.integer value.toInt]
  | float bits => [.bits 4 bits.toNat]
  | double bits => [.bits 8 bits.toNat]
  | string text => [.text text]

/-- A constant as the format sees it. -/
def Constant.layout (constant : Constant) : Datum :=
  .choice constant.ctorIdx constant.fields

/-- A label as the format sees it. -/
def Label.layout (label : Label) : Datum :=
  .record [.natural label.id.toNat]

/-- A member of a class as the format sees it. -/
def MemberRef.layout (ref : MemberRef) : Datum :=
  .record [.text ref.owner, .text ref.name, .text ref.descriptor]

/-- What an instruction carries. -/
def Instruction.fields : Instruction → List Datum
  | push constant => [constant.layout]
  | load kind slot | store kind slot => [.member SlotKind.all kind, .natural slot.toNat]
  | arith op family => [.member ArithOp.all op, .member Family.all family]
  | convert conversion => [.member Conversion.all conversion]
  | jumpIf test target => [.member ZeroTest.all test, target.layout]
  | jump place | label place => [place.layout]
  | new cls => [.text cls]
  | getStatic field => [field.layout]
  | invoke kind method => [.member InvokeKind.all kind, method.layout]
  | dup | throw | ret => []

/-- An instruction as the format sees it. -/
def Instruction.layout (instr : Instruction) : Datum :=
  .choice instr.ctorIdx instr.fields

/-- An entry of the table of local variables as the format sees it. -/
def LocalVariable.layout (entry : LocalVariable) : Datum :=
  .record [.text entry.name, .natural entry.slot.toNat, .member OperandType.all entry.type]

/-- **A unit as the format sees it.** -/
def CodeUnit.layout (unit : CodeUnit) : Datum :=
  .record [.text unit.name, .member UnitKind.all unit.kind, .natural unit.maxLocals.toNat,
    .natural unit.maxStack.toNat, .list (unit.locals.map LocalVariable.layout),
    .list (unit.instructions.map Instruction.layout)]

/-! ### Numbers, texts and lists are written in their form -/

namespace Wire

/-- The bytes that are written for a number have it as their value, if they are enough. By induction
on how many they are, the lowest first. -/
theorem hasBytes_littleEndian {count n : Nat} (h : n < 256 ^ count) :
    HasBytes count n (littleEndian count n) := by
  induction count generalizing n with
  | zero =>
    rw [Nat.pow_zero] at h
    exact ⟨rfl, (Nat.lt_one_iff.1 h).symm⟩
  | succ count ih =>
    have hdiv : n / 256 < 256 ^ count := by
      rw [Nat.div_lt_iff_lt_mul (by decide)]
      exact h
    obtain ⟨hlength, hvalue⟩ := ih hdiv
    refine ⟨congrArg (· + 1) hlength, ?_⟩
    rw [littleEndian, List.map_cons, Nat.ofDigits_cons, hvalue, UInt8.toNat_ofNat']
    omega

/-- **A number is written in its form**, if it is not too great to have one. There are four forms,
and the number decides which. -/
theorem written_natural {n : Nat} (h : n < 2 ^ 64) : (Datum.natural n).Written (natural n) := by
  unfold natural
  -- In the last case the bound is not one of the function, which would cut off a greater number.
  split_ifs with hbyte htwo hfour
  · have hlt : n < 256 := by omega
    have hwritten : (Datum.natural (UInt8.ofNat n).toNat).Written [UInt8.ofNat n] := by
      refine .byte ?_
      rw [UInt8.lt_iff_toNat_lt, UInt8.toNat_ofNat_of_lt' hlt]
      exact hbyte
    rwa [UInt8.toNat_ofNat_of_lt' hlt] at hwritten
  · exact .twoBytes (by omega) (hasBytes_littleEndian htwo)
  · exact .fourBytes (by omega) (hasBytes_littleEndian hfour)
  · exact .eightBytes (by omega) (hasBytes_littleEndian h)

theorem zigzag_lt {n : Int} {bound : Nat} (hlow : -bound ≤ n) (hhigh : n < bound) :
    zigzag n < 2 * bound := by
  cases n with
  | ofNat n =>
    rw [Int.ofNat_eq_natCast] at hhigh
    rw [zigzag]
    omega
  | negSucc n =>
    rw [zigzag]
    omega

/-- **An integer is written in its form**, as the number that it is given among the natural ones. -/
theorem written_integer {n : Int} (h : zigzag n < 2 ^ 64) :
    (Datum.integer n).Written (integer n) := by
  have hwritten := written_natural h
  -- The two rules for integers are the two cases of their position in the list 0, -1, 1, -2, …
  cases n with
  | ofNat n => exact .nonneg hwritten
  | negSucc n =>
    rw [Int.negSucc_eq]
    exact .neg hwritten

/-- **A text is written in its form**: its length in bytes, and the bytes. The length is that of the
encoded text, and not the number of its characters. -/
theorem written_text {s : String} (h : (text s).length < 2 ^ 64) :
    (Datum.text s).Written (text s) := by
  rw [text, List.length_append] at h
  exact .text (written_natural (Nat.lt_of_le_of_lt (Nat.le_add_left _ _) h))

/-- A member of an enumeration is written as its place in the list of members. -/
theorem written_member {α : Type} [BEq α] [LawfulBEq α] {members : List α} {a : α}
    (ha : a ∈ members) (hlength : members.length ≤ 2 ^ 64) :
    (Datum.member members a).Written (member members a) := by
  have hindex : members.idxOf a < 2 ^ 64 :=
    Nat.lt_of_lt_of_le (List.idxOf_lt_length_of_mem ha) hlength
  have hwritten := Datum.Written.choice (written_natural hindex) .nil
  rwa [List.append_nil] at hwritten

variable {α : Type} {entry : α → List UInt8} {layout : α → Datum}

theorem Datum.WrittenAll.single {datum : Datum} {bytes : List UInt8} (h : datum.Written bytes) :
    WrittenAll [datum] bytes := by
  have hwritten := cons h nil
  rwa [List.append_nil] at hwritten

/-- Entries that are written in their form, one after the other. -/
theorem writtenAll_flatMap {entries : List α} (h : ∀ a ∈ entries, (layout a).Written (entry a)) :
    Datum.WrittenAll (entries.map layout) (entries.flatMap entry) := by
  induction entries with
  | nil => exact .nil
  | cons a entries ih =>
    exact .cons (h a List.mem_cons_self) (ih fun b hb => h b (List.mem_cons_of_mem a hb))

/-- A list takes a byte for each of its entries, if no entry is written as nothing. So the number of
entries is bounded by the length of the file, and need not be asked about. -/
theorem length_le_length_list {entries : List α} (h : ∀ a, entry a ≠ []) :
    entries.length ≤ (list entry entries).length := by
  have hone : ∀ n ∈ entries.map fun a => (entry a).length, 1 ≤ n := by
    intro n hn
    obtain ⟨a, -, rfl⟩ := List.mem_map.1 hn
    exact List.length_pos_iff.2 (h a)
  have hle := List.length_le_sum_of_one_le _ hone
  rw [List.length_map] at hle
  rw [list, List.length_append, List.length_flatMap]
  omega

/-- An entry takes no more bytes than the list it is in. -/
theorem length_entry_le_length_list {entries : List α} {a : α} (ha : a ∈ entries) :
    (entry a).length ≤ (list entry entries).length := by
  have hle : (entry a).length ≤ (entries.map fun a => (entry a).length).sum :=
    List.le_sum_of_mem (List.mem_map.2 ⟨a, ha, rfl⟩)
  rw [list, List.length_append, List.length_flatMap]
  omega

/-- **A list is written in its form**, if it takes fewer than 2⁶⁴ bytes and no entry is written as
nothing. That the entries are written in theirs is asked for under the same bound. -/
theorem written_list {entries : List α} (h : (list entry entries).length < 2 ^ 64)
    (hentry : ∀ a, entry a ≠ [])
    (hwritten : ∀ a, (entry a).length < 2 ^ 64 → (layout a).Written (entry a)) :
    (Datum.list (entries.map layout)).Written (list entry entries) := by
  refine .list ?_ (writtenAll_flatMap fun a ha => hwritten a ?_)
  · rw [List.length_map]
    exact written_natural (Nat.lt_of_le_of_lt (length_le_length_list hentry) h)
  · exact Nat.lt_of_le_of_lt (length_entry_le_length_list ha) h

theorem natural_ne_nil (n : Nat) : natural n ≠ [] := by
  unfold natural
  split_ifs <;> exact List.cons_ne_nil _ _

end Wire

/-! ### Units are written in their layout -/

open Datum (WrittenAll)

/-- **A constant is written in its layout**: floating-point numbers by their bits, so that none is
changed. -/
theorem Constant.written {constant : Constant} (h : constant.encode.length < 2 ^ 64) :
    constant.layout.Written constant.encode := by
  have hindex : (Datum.natural constant.ctorIdx).Written (natural constant.ctorIdx) := by
    refine written_natural ?_
    cases constant <;> exact Nat.le_of_ble_eq_true rfl
  cases constant with
  | int value =>
    have hlt : zigzag value.toInt < 2 ^ 32 := zigzag_lt value.le_toInt value.toInt_lt
    exact .choice hindex (.single (written_integer (by omega)))
  | long value =>
    have hlt : zigzag value.toInt < 2 ^ 64 := zigzag_lt value.le_toInt value.toInt_lt
    exact .choice hindex (.single (written_integer hlt))
  | float bits =>
    exact .choice hindex (.single (.bits (hasBytes_littleEndian bits.toNat_lt)))
  | double bits =>
    exact .choice hindex (.single (.bits (hasBytes_littleEndian bits.toNat_lt)))
  | string text =>
    rw [encode, List.length_append] at h
    exact .choice hindex (.single (written_text (by omega)))

theorem Wire.written_word (n : UInt16) : (Datum.natural n.toNat).Written (natural n.toNat) := by
  have hlt := n.toNat_lt
  exact written_natural (by omega)

theorem Label.written (label : Label) : label.layout.Written label.encode := by
  have hlt := label.id.toNat_lt
  exact .record (.single (written_natural (by omega)))

theorem MemberRef.written {ref : MemberRef} (h : ref.encode.length < 2 ^ 64) :
    ref.layout.Written ref.encode := by
  simp only [encode, List.length_append] at h
  rw [encode, List.append_assoc]
  refine .record (.cons (written_text ?_) (.cons (written_text ?_) (.single (written_text ?_))))
  all_goals omega

/-- **An instruction is written in its layout**, which is its place among the instructions and what
it carries. -/
theorem Instruction.written {instr : Instruction} (h : instr.encode.length < 2 ^ 64) :
    instr.layout.Written instr.encode := by
  have hindex : (Datum.natural instr.ctorIdx).Written (natural instr.ctorIdx) := by
    refine written_natural ?_
    cases instr <;> exact Nat.le_of_ble_eq_true rfl
  cases instr with
  | push constant =>
    rw [encode, List.length_append] at h
    exact .choice hindex (.single (Constant.written (by omega)))
  | load kind slot =>
    rw [encode, List.append_assoc]
    exact .choice hindex
      (.cons (written_member kind.mem_all (by decide)) (.single (written_word slot)))
  | store kind slot =>
    rw [encode, List.append_assoc]
    exact .choice hindex
      (.cons (written_member kind.mem_all (by decide)) (.single (written_word slot)))
  | arith op family =>
    rw [encode, List.append_assoc]
    exact .choice hindex (.cons (written_member op.mem_all (by decide))
      (.single (written_member family.mem_all (by decide))))
  | convert conversion =>
    exact .choice hindex (.single (written_member conversion.mem_all (by decide)))
  | jumpIf test target =>
    rw [encode, List.append_assoc]
    exact .choice hindex
      (.cons (written_member test.mem_all (by decide)) (.single target.written))
  | jump place | label place => exact .choice hindex (.single place.written)
  | new cls =>
    rw [encode, List.length_append] at h
    exact .choice hindex (.single (written_text (by omega)))
  | getStatic field =>
    rw [encode, List.length_append] at h
    exact .choice hindex (.single (MemberRef.written (by omega)))
  | invoke kind method =>
    rw [encode, List.length_append] at h
    rw [encode, List.append_assoc]
    exact .choice hindex (.cons (written_member kind.mem_all (by decide))
      (.single (MemberRef.written (by omega))))
  | dup | throw | ret =>
    have hwritten := Datum.Written.choice hindex .nil
    rwa [List.append_nil] at hwritten

theorem Instruction.encode_ne_nil (instr : Instruction) : instr.encode ≠ [] := by
  cases instr <;> simp [encode, natural_ne_nil]

theorem LocalVariable.written {entry : LocalVariable} (h : entry.encode.length < 2 ^ 64) :
    entry.layout.Written entry.encode := by
  simp only [encode, List.length_append] at h
  rw [encode, List.append_assoc]
  exact .record (.cons (written_text (by omega)) (.cons (written_word entry.slot)
    (.single (written_member entry.type.mem_all (by decide)))))

theorem LocalVariable.encode_ne_nil (entry : LocalVariable) : entry.encode ≠ [] := by
  simp [encode, natural_ne_nil]

/-- **A unit is written in its layout**, if it takes fewer than 2⁶⁴ bytes. The bound is on what is
written and not on its parts, and no unit that fits into a file system comes near it. -/
theorem CodeUnit.written_body {unit : CodeUnit} (h : unit.encodeBody.length < 2 ^ 64) :
    unit.layout.Written unit.encodeBody := by
  simp only [encodeBody, List.length_append] at h
  rw [encodeBody, List.append_assoc, List.append_assoc, List.append_assoc, List.append_assoc]
  refine .record (.cons (written_text ?_) (.cons (written_member unit.kind.mem_all (by decide))
    (.cons (written_word unit.maxLocals) (.cons (written_word unit.maxStack)
      (.cons (written_list ?_ LocalVariable.encode_ne_nil fun _ => LocalVariable.written)
        (.single (written_list ?_ Instruction.encode_ne_nil fun _ => Instruction.written)))))))
  all_goals omega

end StackUnits
