import Mathlib.Data.Nat.Digits.Lemmas
import StackUnits.Proofs.Layout

/-!
# Unit files are read as they were written

`StackUnits.Proofs.Layout` says what the bytes of a unit file are, and that a unit is written so.
Here is the other half: a reader at the start of the written form of a value takes exactly those
bytes, whatever comes after them, and returns the value (`StackUnits.Wire.Datum.IsReadBy`). No bound
is asked for on this side. What has a written form at all has lengths that fit, and the places for
constants, slots and labels are as wide as the values that are put there.

A reader of several fields is a chain of binds, and their forms stand one after the other: each step
of the chain is one use of `StackUnits.Wire.Datum.AllReadBy.cons`. So the readers of constants,
instructions, members of classes, variables and units each have a proof that lists their fields.

The two halves meet in the form of a file, in `StackUnits.CodeUnit.decode_encode`.
-/

namespace StackUnits

namespace Wire

/-! ### Readers and what they read -/

/-- A reader reads a value from some bytes, whatever comes after them. -/
def Reads {α : Type} (read : Reader α) (bytes : List UInt8) (a : α) : Prop :=
  ∀ rest, read (bytes ++ rest) = .ok (a, rest)

/-- **A value is read** by a reader, from whatever bytes are its written form. -/
def Datum.IsReadBy {α : Type} (datum : Datum) (read : Reader α) (a : α) : Prop :=
  ∀ ⦃bytes⦄, datum.Written bytes → Reads read bytes a

/-- **Values are read** by a reader, from whatever bytes are their written forms. -/
def Datum.AllReadBy {α : Type} (data : List Datum) (read : Reader α) (a : α) : Prop :=
  ∀ ⦃bytes⦄, WrittenAll data bytes → Reads read bytes a

open Datum (AllReadBy)

variable {α β : Type} {read : Reader α} {next : α → Reader β} {bytes bytes' : List UInt8}
  {a : α} {b : β} {datum : Datum} {data : List Datum}

theorem Reads.pure (a : α) : Reads (Pure.pure a) [] a :=
  fun _ => rfl

/-- One reader after the other, each of its own part of the bytes. -/
theorem Reads.bind (h : Reads read bytes a) (h' : Reads (next a) bytes' b) :
    Reads (read >>= next) (bytes ++ bytes') b := by
  intro rest
  have hread := h (bytes' ++ rest)
  rw [← List.append_assoc] at hread
  -- The bind of readers is the bind of their results.
  change (read (bytes ++ bytes' ++ rest)).bind _ = _
  rw [hread]
  exact h' rest

/-- After the last value something is made of what was read. -/
theorem Datum.AllReadBy.nil {a' : α} (h : a' = a) : AllReadBy [] (Pure.pure a') a := by
  intro bytes hwritten
  cases hwritten
  rw [h]
  exact .pure a

/-- **Reading one value and then the others.** Readers are put together as layouts are, and so their
proofs are. -/
theorem Datum.AllReadBy.cons (h : datum.IsReadBy read a) (h' : AllReadBy data (next a) b) :
    AllReadBy (datum :: data) (read >>= next) b := by
  intro bytes hwritten
  cases hwritten with
  | cons hfirst hothers => exact (h hfirst).bind (h' hothers)

/-- A record has nothing around its values. -/
theorem isReadBy_record (h : AllReadBy data read a) :
    (Datum.record data).IsReadBy read a := by
  intro bytes hwritten
  cases hwritten with
  | record hfields => exact h hfields

/-! ### Numbers -/

theorem reads_bytes (bytes : List UInt8) : Reads (readBytes bytes.length) bytes bytes := by
  intro rest
  rw [readBytes, List.take_left, List.drop_left]
  exact if_neg (Nat.lt_irrefl _)

theorem ofLittleEndian_eq_ofDigits (bytes : List UInt8) :
    ofLittleEndian bytes = Nat.ofDigits 256 (bytes.map UInt8.toNat) := by
  induction bytes with
  | nil => rfl
  | cons byte bytes ih => rw [ofLittleEndian, ih, List.map_cons, Nat.ofDigits_cons]

namespace HasBytes

variable {count n : Nat}

/-- The bytes of a number are read, and something made of it. -/
theorem reads (h : HasBytes count n bytes) (f : Nat → β) :
    Reads (readBytes count >>= fun bytes => Pure.pure (f (ofLittleEndian bytes))) bytes (f n) := by
  obtain ⟨rfl, rfl⟩ := h
  have hread : Reads (readBytes bytes.length >>= fun bytes => Pure.pure (f (ofLittleEndian bytes)))
      (bytes ++ []) (f (ofLittleEndian bytes)) := (reads_bytes bytes).bind (.pure _)
  rwa [List.append_nil, ofLittleEndian_eq_ofDigits bytes] at hread

theorem lt (h : HasBytes count n bytes) : n < 256 ^ count := by
  obtain ⟨rfl, rfl⟩ := h
  have hlt : Nat.ofDigits 256 (bytes.map UInt8.toNat) < 256 ^ (bytes.map UInt8.toNat).length := by
    refine Nat.ofDigits_lt_base_pow_length (by decide) fun digit hdigit => ?_
    obtain ⟨byte, -, rfl⟩ := List.mem_map.1 hdigit
    exact byte.toNat_lt
  rwa [List.length_map] at hlt

end HasBytes

/-- A natural number after its first byte, which is the number itself or tells how many bytes there
are. -/
theorem readNatural_cons (width : IntegerWidth) (byte : UInt8) (rest : List UInt8) :
    readNatural width (byte :: rest) =
      if byte < 251 then .ok (byte.toNat, rest)
      else if marked byte = .reserved ∨ byteCount width < byteCount (marked byte) then
        .error (.integerWidth (reported width (byte :: rest)) (marked byte))
      else (readBytes (byteCount (marked byte)) >>= fun bytes =>
        Pure.pure (ofLittleEndian bytes) : Reader Nat) rest := by
  change (if byte < 251 then _ else _ : Reader Nat) rest = _
  split
  · rfl
  · split
    · rfl
    · rfl

/-- A natural number with a mark. Its place may be wider than it, and is not narrower. -/
theorem HasBytes.reads_marked {width : IntegerWidth} {mark : UInt8} {count n : Nat}
    (h : HasBytes count n bytes) (hmark : ¬mark < 251) (hreserved : marked mark ≠ .reserved)
    (hcount : byteCount (marked mark) = count) (hwidth : count ≤ byteCount width) :
    Reads (readNatural width) (mark :: bytes) n := by
  intro rest
  have hfits : ¬(marked mark = .reserved ∨ byteCount width < byteCount (marked mark)) := by
    rintro (hfound | hlt)
    · exact hreserved hfound
    · omega
  rw [List.cons_append, readNatural_cons, if_neg hmark, if_neg hfits, hcount]
  exact h.reads id rest

/-- The places for numbers have two, four, eight or sixteen bytes, so a number that fits into one
but not into half of it tells how wide it is. -/
theorem le_byteCount {width : IntegerWidth} {n : Nat} (h : n < 256 ^ byteCount width) :
    (1 ≤ n → 2 ≤ byteCount width) ∧ (2 ^ 16 ≤ n → 4 ≤ byteCount width) ∧
      (2 ^ 32 ≤ n → 8 ≤ byteCount width) := by
  cases width <;> simp only [byteCount] at h ⊢ <;> omega

/-- **A natural number is read**, in a place that is wide enough for it. It is written in as few
bytes as it needs, whatever the width of its place. -/
theorem isReadBy_natural {width : IntegerWidth} {n : Nat} (h : n < 256 ^ byteCount width) :
    (Datum.natural n).IsReadBy (readNatural width) n := by
  obtain ⟨htwo, hfour, height⟩ := le_byteCount h
  intro bytes hwritten
  cases hwritten with
  | byte hbyte =>
    intro rest
    rw [List.cons_append, readNatural_cons, if_pos hbyte]
    rfl
  | twoBytes hn hbytes =>
    exact hbytes.reads_marked (by decide) (by decide) rfl (htwo (by omega))
  | fourBytes hn hbytes => exact hbytes.reads_marked (by decide) (by decide) rfl (hfour hn)
  | eightBytes hn hbytes => exact hbytes.reads_marked (by decide) (by decide) rfl (height hn)

theorem Datum.Written.natural_lt {n : Nat} (h : (Datum.natural n).Written bytes) :
    n < 2 ^ 64 := by
  cases h with
  | byte hbyte => exact Nat.lt_trans (UInt8.toNat_lt _) (by decide)
  | twoBytes _ hbytes => exact Nat.lt_trans hbytes.lt (by decide)
  | fourBytes _ hbytes => exact Nat.lt_trans hbytes.lt (by decide)
  | eightBytes _ hbytes => exact hbytes.lt

/-- A length is read: its place is as wide as can be, so that nothing has to be known of it. -/
theorem isReadBy_length {width : IntegerWidth} (hwidth : byteCount width = 8) (n : Nat) :
    (Datum.natural n).IsReadBy (readNatural width) n := by
  intro bytes hwritten
  have hlt : n < 256 ^ byteCount width := by
    rw [hwidth]
    exact hwritten.natural_lt
  exact isReadBy_natural hlt hwritten

/-- Positive and negative numbers take turns among the natural ones, and can be told apart again. -/
theorem unzigzag_zigzag (n : Int) : unzigzag (zigzag n) = n := by
  cases n with
  | ofNat n =>
    rw [zigzag, unzigzag, if_pos (by omega), Nat.mul_div_cancel_left n (by decide)]
  | negSucc n =>
    rw [zigzag, unzigzag, if_neg (by omega)]
    congr 1
    omega

theorem Datum.Written.zigzag {n : Int} (h : (Datum.integer n).Written bytes) :
    (Datum.natural (zigzag n)).Written bytes := by
  cases h with
  | nonneg h => exact h
  | neg h =>
    rw [← Int.negSucc_eq]
    exact h

/-- **An integer is read**, in a place that is wide enough for the natural number that it is
given. -/
theorem isReadBy_integer {width : IntegerWidth} {n : Int} (h : zigzag n < 256 ^ byteCount width) :
    (Datum.integer n).IsReadBy (readInteger width) n := by
  intro bytes hwritten rest
  rw [readInteger, isReadBy_natural h hwritten.zigzag rest]
  simp only [unzigzag_zigzag]

theorem allReadBy_bits (count n : Nat) (f : Nat → β) :
    AllReadBy [.bits count n]
      (readBytes count >>= fun bytes => Pure.pure (f (ofLittleEndian bytes))) (f n) := by
  intro bytes hwritten
  cases hwritten with
  | cons hfirst hothers =>
    cases hothers
    cases hfirst with
    | bits hbytes =>
      rw [List.append_nil]
      exact hbytes.reads f

/-! ### Texts, lists and choices -/

theorem fromUTF8?_toUTF8 (s : String) :
    String.fromUTF8? s.toUTF8.data.toList.toByteArray = some s := by
  have hbytes : s.toUTF8.data.toList.toByteArray = s.toByteArray :=
    ByteArray.ext (by rw [List.data_toByteArray, Array.toArray_toList]; rfl)
  rw [hbytes, String.fromUTF8?, dif_pos s.isValidUTF8]
  rfl

/-- **A text is read.** Its bytes are those of a text, so the check for that passes. -/
theorem isReadBy_text (s : String) : (Datum.text s).IsReadBy readText s := by
  intro bytes hwritten
  cases hwritten with
  | text hlength =>
    have hbytes : Reads (readBytes s.utf8ByteSize) s.toUTF8.data.toList s.toUTF8.data.toList :=
      reads_bytes _
    refine (isReadBy_length rfl _ hlength).bind ?_
    rw [← List.append_nil s.toUTF8.data.toList]
    refine hbytes.bind ?_
    rw [fromUTF8?_toUTF8]
    exact .pure s

/-- The entries are read one by one, and those read so far are kept in reverse. -/
theorem reads_entries {layout : α → Datum} (h : ∀ a, (layout a).IsReadBy read a)
    {entries : List α} (sofar : List α) :
    AllReadBy (entries.map layout) (readEntries read entries.length sofar)
      (sofar.reverse ++ entries) := by
  -- The entries read so far are kept in reverse, so the statement is about any of them.
  induction entries generalizing sofar with
  | nil =>
    rw [List.append_nil]
    exact .nil rfl
  | cons a entries ih =>
    have hothers := ih (a :: sofar)
    rw [List.reverse_cons, List.append_assoc] at hothers
    exact .cons (h a) hothers

/-- **A list is read**, if its entries are. The number of them is read first, as it was written. -/
theorem isReadBy_list {layout : α → Datum} (h : ∀ a, (layout a).IsReadBy read a)
    (entries : List α) : (Datum.list (entries.map layout)).IsReadBy (readList read) entries := by
  intro bytes hwritten
  cases hwritten with
  | list hlength hentries =>
    rw [List.length_map] at hlength
    exact (isReadBy_length rfl _ hlength).bind (reads_entries h [] hentries)

/-- **A choice is read**, if what belongs to the alternative is. The alternatives of the reader
stand in the order of those of the layout. -/
theorem isReadBy_choice {alternatives : List (Reader α)} {index : Nat}
    (halternative : alternatives[index]? = some read) (hlength : alternatives.length ≤ 2 ^ 32)
    (h : AllReadBy data read a) :
    (Datum.choice index data).IsReadBy (readChoice alternatives) a := by
  have hindex : index < 2 ^ 32 :=
    Nat.lt_of_lt_of_le (List.getElem?_eq_some_iff.1 halternative).1 hlength
  intro bytes hwritten
  cases hwritten with
  | choice hnatural hfields =>
    refine (isReadBy_natural hindex hnatural).bind ?_
    rw [halternative]
    exact h hfields

/-- **A member of an enumeration is read**: it is found at the place that was written. -/
theorem isReadBy_member [BEq α] [LawfulBEq α] {members : List α} (ha : a ∈ members)
    (hlength : members.length ≤ 2 ^ 32) :
    (Datum.member members a).IsReadBy (readMember members) a := by
  have hindex : members.idxOf a < 2 ^ 32 :=
    Nat.lt_of_lt_of_le (List.idxOf_lt_length_of_mem ha) hlength
  intro bytes hwritten
  rw [Datum.member] at hwritten
  cases hwritten with
  | choice hnatural hfields =>
    cases hfields
    refine (isReadBy_natural hindex hnatural).bind ?_
    rw [List.getElem?_idxOf ha]
    exact .pure a

end Wire

open Wire

open Datum (AllReadBy)

/-! ### Constants and instructions -/

/-- **A constant is read.** Floating-point numbers are read as bits, so that one which is not a
number comes back as the same one. -/
theorem Constant.isReadBy (constant : Constant) :
    constant.layout.IsReadBy Constant.read constant := by
  cases constant with
  | int value =>
    have hlt : zigzag value.toInt < 2 ^ 32 := zigzag_lt value.le_toInt value.toInt_lt
    exact isReadBy_choice rfl (by decide)
      (.cons (isReadBy_integer hlt) (.nil (congrArg int (Int32.ofInt_toInt value))))
  | long value =>
    have hlt : zigzag value.toInt < 2 ^ 64 := zigzag_lt value.le_toInt value.toInt_lt
    exact isReadBy_choice rfl (by decide)
      (.cons (isReadBy_integer hlt) (.nil (congrArg long (Int64.ofInt_toInt value))))
  | float bits =>
    have hbits := allReadBy_bits 4 bits.toNat fun n => float (UInt32.ofNat n)
    rw [UInt32.ofNat_toNat] at hbits
    exact isReadBy_choice rfl (by decide) hbits
  | double bits =>
    have hbits := allReadBy_bits 8 bits.toNat fun n => double (UInt64.ofNat n)
    rw [UInt64.ofNat_toNat] at hbits
    exact isReadBy_choice rfl (by decide) hbits
  | string text => exact isReadBy_choice rfl (by decide) (.cons (isReadBy_text text) (.nil rfl))

theorem Wire.isReadBy_word (n : UInt16) : (Datum.natural n.toNat).IsReadBy readWord n := by
  intro bytes hwritten
  rw [← List.append_nil bytes]
  refine (isReadBy_natural n.toNat_lt hwritten).bind ?_
  rw [UInt16.ofNat_toNat]
  exact .pure n

theorem Label.isReadBy (label : Label) : label.layout.IsReadBy Label.read label := by
  have hid : (⟨UInt32.ofNat label.id.toNat⟩ : Label) = label := by
    rw [UInt32.ofNat_toNat]
  exact isReadBy_record (.cons (isReadBy_natural label.id.toNat_lt) (.nil hid))

theorem MemberRef.isReadBy (ref : MemberRef) : ref.layout.IsReadBy MemberRef.read ref :=
  isReadBy_record (.cons (isReadBy_text ref.owner) (.cons (isReadBy_text ref.name)
    (.cons (isReadBy_text ref.descriptor) (.nil rfl))))

/-- **An instruction is read**, case by case: each is a choice with what it carries. That the
readers stand in the order of the writers is checked by computing. -/
theorem Instruction.isReadBy (instr : Instruction) :
    instr.layout.IsReadBy Instruction.read instr := by
  cases instr with
  | push constant => exact isReadBy_choice rfl (by decide) (.cons constant.isReadBy (.nil rfl))
  | load kind slot | store kind slot =>
    exact isReadBy_choice rfl (by decide) (.cons (isReadBy_member kind.mem_all (by decide))
      (.cons (isReadBy_word slot) (.nil rfl)))
  | arith op family =>
    exact isReadBy_choice rfl (by decide) (.cons (isReadBy_member op.mem_all (by decide))
      (.cons (isReadBy_member family.mem_all (by decide)) (.nil rfl)))
  | convert conversion =>
    exact isReadBy_choice rfl (by decide)
      (.cons (isReadBy_member conversion.mem_all (by decide)) (.nil rfl))
  | jumpIf test target =>
    exact isReadBy_choice rfl (by decide) (.cons (isReadBy_member test.mem_all (by decide))
      (.cons target.isReadBy (.nil rfl)))
  | jump place | label place =>
    exact isReadBy_choice rfl (by decide) (.cons place.isReadBy (.nil rfl))
  | new cls => exact isReadBy_choice rfl (by decide) (.cons (isReadBy_text cls) (.nil rfl))
  | getStatic field => exact isReadBy_choice rfl (by decide) (.cons field.isReadBy (.nil rfl))
  | invoke kind method =>
    exact isReadBy_choice rfl (by decide) (.cons (isReadBy_member kind.mem_all (by decide))
      (.cons method.isReadBy (.nil rfl)))
  | dup | throw | ret => exact isReadBy_choice rfl (by decide) (.nil rfl)

/-! ### Units -/

theorem LocalVariable.isReadBy (entry : LocalVariable) :
    entry.layout.IsReadBy LocalVariable.read entry :=
  isReadBy_record (.cons (isReadBy_text entry.name) (.cons (isReadBy_word entry.slot)
    (.cons (isReadBy_member entry.type.mem_all (by decide)) (.nil rfl))))

namespace CodeUnit

/-- **A unit is read**: its name, its kind, the two sizes, the variables, and the instructions, in
the order in which they are written. -/
theorem isReadBy (unit : CodeUnit) : unit.layout.IsReadBy readBody unit :=
  isReadBy_record (.cons (isReadBy_text unit.name)
    (.cons (isReadBy_member unit.kind.mem_all (by decide))
    (.cons (isReadBy_word unit.maxLocals)
    (.cons (isReadBy_word unit.maxStack)
    (.cons (isReadBy_list LocalVariable.isReadBy unit.locals)
    (.cons (isReadBy_list Instruction.isReadBy unit.instructions) (.nil rfl)))))))

/-- The letters and the version of a file are those that are expected, and only the rest is read as
a unit. -/
theorem decode_header (path : String) (body : List UInt8) :
    decode path ([0x53, 0x54, 0x52, 0x55, 1, 0] ++ body) =
      match readBody body with
      | .ok (unit, _) => .ok unit
      | .error problem => .error (.decode problem) := by
  simp only [List.cons_append, List.nil_append, decode]
  exact if_neg (by decide)

/-- The file of a unit is read as the unit. This is the form in which the result is used
elsewhere. -/
theorem decode_file {unit : CodeUnit} (h : unit.encode.length < 2 ^ 64) (path : String) :
    decode path unit.encode = .ok unit := by
  rw [encode, List.length_append] at h
  have hread := unit.isReadBy (written_body (by omega)) []
  rw [List.append_nil] at hread
  rw [encode, decode_header, hread]

/-- **A file is written in the layout of its unit and read as it was written**, whatever the unit
and whatever stands after it. The bound is that of the lengths in the file, which have eight bytes
at most.

The first part says that the bytes are what the format asks for. Without it a writer and a reader
that agreed with each other only would do. -/
theorem decode_encode {unit : CodeUnit} (h : unit.encode.length < 2 ^ 64) :
    unit.layout.Written unit.encodeBody ∧
      ∀ path rest, decode path (unit.encode ++ rest) = .ok unit := by
  rw [encode, List.length_append] at h
  have hwritten : unit.layout.Written unit.encodeBody := written_body (by omega)
  refine ⟨hwritten, fun path rest => ?_⟩
  rw [encode, List.append_assoc, decode_header, unit.isReadBy hwritten rest]

/-- A unit with each form of constant, numbers of each width and a text of more bytes than
characters. -/
def assorted : CodeUnit where
  name := "Größe"
  kind := .task
  maxLocals := 300
  maxStack := 2
  locals := [⟨"total", 299, .int⟩, ⟨"", 0, .double⟩]
  instructions := [.push (.int (-2147483648)), .push (.long 9223372036854775807),
    .push (.float 0x7fc00001), .push (.double 0xfff8000000000000), .push (.string "→"), .dup,
    .load .int 299, .store .double 0, .arith .rem .long, .convert .l2d, .jumpIf .ge ⟨65536⟩,
    .jump ⟨4294967295⟩, .label ⟨251⟩, .new "java/lang/Thread",
    .getStatic ⟨"java/lang/System", "out", "Ljava/io/PrintStream;"⟩,
    .invoke .virtual ⟨"java/io/PrintStream", "println", "(I)V"⟩, .throw, .ret]

theorem decode_encode_assorted :
    assorted.encode.length < 2 ^ 64 ∧ assorted.layout.Written assorted.encodeBody ∧
      ∀ path rest, decode path (assorted.encode ++ rest) = .ok assorted := by
  have hlength : assorted.encode.length < 2 ^ 64 := by decide +kernel
  exact ⟨hlength, decode_encode hlength⟩

end CodeUnit

end StackUnits
