import StackUnits.Proofs.RoundTrip

/-!
# Unit files that are cut off

A unit file says nowhere how long it is. That it ends where its unit ends is a matter of how it is
read: a reader looks at the bytes from the front and at none that it does not take, so it cannot
tell whether anything stands behind them (`StackUnits.Wire.Incremental`). Such a reader, given the
file without its end, takes the same steps as on the whole of it until the bytes run out. It cannot
succeed before that, since then it would have succeeded on the whole file with something left over,
and it cannot fail for another reason, since then it would have failed on the whole file.

All readers of the format are incremental: those of single bytes are, and so is what is put
together from them by doing one after the other (`StackUnits.Wire.Incremental.bind`). The only
thing that depends on what stands behind is which width a message names when a number is too wide
for its place, so of a failure it is kept that it is one, and not which.

The result, with the other half of what it means for a file to end by itself, is
`StackUnits.CodeUnit.selfDelimiting`.
-/

namespace StackUnits

namespace Wire

/-! ### Readers that do not look ahead -/

/-- **A reader that does not look ahead.** What it reads from some bytes it reads from them whatever
is added, and it leaves what was added; and if it fails, that is because the bytes run out, or else
it fails whatever is added. -/
structure Incremental {α : Type} (read : Reader α) : Prop where
  ok : ∀ {bytes a rest}, read bytes = .ok (a, rest) →
    ∀ more, read (bytes ++ more) = .ok (a, rest ++ more)
  error : ∀ {bytes problem}, read bytes = .error problem →
    (∃ n, 0 < n ∧ problem = .unexpectedEnd n) ∨
      ∀ more, ∃ problem', read (bytes ++ more) = .error problem'

namespace Incremental

variable {α β : Type} {read : Reader α} {next : α → Reader β}

/-- **What is read to its end cannot be read without its end**: the bytes run out. No other problem
can come first, since the reader has seen nothing else so far. -/
theorem cut (h : Incremental read) {bytes more : List UInt8} {a : α}
    (hread : read (bytes ++ more) = .ok (a, [])) (hmore : more ≠ []) :
    ∃ n, 0 < n ∧ read bytes = .error (.unexpectedEnd n) := by
  rcases hbytes : read bytes with problem | ⟨a', rest⟩
  · rcases h.error hbytes with ⟨n, hn, rfl⟩ | herror
    · exact ⟨n, hn, rfl⟩
    · obtain ⟨problem', hproblem⟩ := herror more
      rw [hread] at hproblem
      cases hproblem
  · -- The reader would leave at least what was added.
    have hwhole := h.ok hbytes more
    rw [hread] at hwhole
    simp only [Except.ok.injEq, Prod.mk.injEq, List.nil_eq_append_iff] at hwhole
    exact absurd hwhole.2.2 hmore

theorem pure (a : α) : Incremental (Pure.pure a : Reader α) where
  ok := by
    rintro bytes a' rest ⟨⟩ more
    rfl
  error := by rintro bytes problem ⟨⟩

theorem throw (problem : DecodeProblem) :
    Incremental (throwThe DecodeProblem problem : Reader α) where
  ok := by rintro bytes a rest ⟨⟩
  error := by
    intro bytes problem' _
    exact .inr fun more => ⟨problem, rfl⟩

theorem bind_apply (read : Reader α) (next : α → Reader β) (bytes : List UInt8) :
    (read >>= next) bytes = (read bytes).bind fun result => next result.1 result.2 :=
  rfl

/-- **One reader after the other** does not look ahead, if neither of the two does. If the bytes run
out in the first, the second is not come to. -/
theorem bind (h : Incremental read) (h' : ∀ a, Incremental (next a)) :
    Incremental (read >>= next) where
  ok := by
    intro bytes b rest hb more
    rw [bind_apply] at hb ⊢
    rcases hread : read bytes with problem | ⟨a, rest'⟩
    · rw [hread] at hb
      cases hb
    · rw [hread] at hb
      rw [h.ok hread more]
      exact (h' a).ok hb more
  error := by
    intro bytes problem hproblem
    simp only [bind_apply] at hproblem ⊢
    rcases hread : read bytes with problem' | ⟨a, rest'⟩
    · rw [hread] at hproblem
      cases hproblem
      refine (h.error hread).imp_right fun herror more => ?_
      obtain ⟨problem', hmore⟩ := herror more
      exact ⟨problem', by rw [hmore]; rfl⟩
    · rw [hread] at hproblem
      refine ((h' a).error hproblem).imp_right fun herror more => ?_
      rw [h.ok hread more]
      exact herror more

end Incremental

/-! ### The readers of the format -/

theorem incremental_readBytes (count : Nat) : Incremental (readBytes count) where
  ok := by
    intro bytes a rest h more
    simp only [readBytes, List.length_take] at h ⊢
    by_cases hshort : min count bytes.length < count
    · rw [if_pos hshort] at h
      cases h
    · rw [if_neg hshort] at h
      cases h
      have hle : count ≤ bytes.length := by omega
      rw [List.length_append, if_neg (by omega), List.take_append_of_le_length hle,
        List.drop_append_of_le_length hle]
  error := by
    intro bytes problem h
    simp only [readBytes, List.length_take] at h
    by_cases hshort : min count bytes.length < count
    · rw [if_pos hshort] at h
      cases h
      exact .inl ⟨_, Nat.sub_pos_of_lt hshort, rfl⟩
    · rw [if_neg hshort] at h
      cases h

/-- The first byte of a number tells how many more there are. A byte that is no good is found out at
once, whatever follows. -/
theorem incremental_readNatural (width : IntegerWidth) : Incremental (readNatural width) := by
  -- A number with a mark is as many bytes; before them only the first byte is looked at.
  have hmarked : ∀ count, Incremental (readBytes count >>= fun bytes =>
      Pure.pure (ofLittleEndian bytes)) :=
    fun count => (incremental_readBytes count).bind fun _ => .pure _
  constructor
  · rintro (_ | ⟨byte, rest⟩) n rest' h more
    · cases h
    · rw [List.cons_append]
      rw [readNatural_cons] at h ⊢
      by_cases hbyte : byte < 251
      · rw [if_pos hbyte] at h ⊢
        cases h
        rfl
      · rw [if_neg hbyte] at h ⊢
        by_cases hwide : marked byte = .reserved ∨ byteCount width < byteCount (marked byte)
        · rw [if_pos hwide] at h
          cases h
        · rw [if_neg hwide] at h ⊢
          exact (hmarked _).ok h more
  · rintro (_ | ⟨byte, rest⟩) problem h
    · cases h
      exact .inl ⟨1, Nat.one_pos, rfl⟩
    · simp only [List.cons_append, readNatural_cons] at h ⊢
      by_cases hbyte : byte < 251
      · rw [if_pos hbyte] at h
        cases h
      · simp only [if_neg hbyte] at h ⊢
        by_cases hwide : marked byte = .reserved ∨ byteCount width < byteCount (marked byte)
        · exact .inr fun more => ⟨_, if_pos hwide⟩
        · simp only [if_neg hwide] at h ⊢
          exact (hmarked _).error h

theorem incremental_readInteger (width : IntegerWidth) : Incremental (readInteger width) where
  ok := by
    intro bytes n rest h more
    unfold readInteger at h ⊢
    rcases hread : readNatural width bytes with problem | ⟨m, rest'⟩
    · rw [hread] at h
      cases problem <;> cases h
    · rw [hread] at h
      cases h
      rw [(incremental_readNatural width).ok hread more]
  error := by
    intro bytes problem h
    unfold readInteger at h ⊢
    rcases hread : readNatural width bytes with problem' | ⟨m, rest'⟩
    · rcases (incremental_readNatural width).error hread with ⟨n, hn, rfl⟩ | herror
      · rw [hread] at h
        cases h
        exact .inl ⟨n, hn, rfl⟩
      · refine .inr fun more => ?_
        obtain ⟨problem'', hmore⟩ := herror more
        rw [hmore]
        cases problem'' <;> exact ⟨_, rfl⟩
    · rw [hread] at h
      cases h

/-- The length of a text comes before it; what is not a text is found out at its end only. -/
theorem incremental_readText : Incremental readText := by
  refine (incremental_readNatural _).bind fun count =>
    (incremental_readBytes count).bind fun _ => ?_
  split
  · exact .pure _
  · exact .throw _

variable {α : Type} {read : Reader α}

/-- So does the number of entries of a list. By induction on that number. -/
theorem incremental_readEntries (h : Incremental read) (count : Nat) (sofar : List α) :
    Incremental (readEntries read count sofar) := by
  induction count generalizing sofar with
  | zero => exact .pure _
  | succ count ih => exact h.bind fun a => ih (a :: sofar)

theorem incremental_readList (h : Incremental read) : Incremental (readList read) :=
  (incremental_readNatural _).bind fun count => incremental_readEntries h count []

theorem incremental_readChoice {alternatives : List (Reader α)}
    (h : ∀ alternative ∈ alternatives, Incremental alternative) :
    Incremental (readChoice alternatives) := by
  refine (incremental_readNatural _).bind fun index => ?_
  split
  · rename_i alternative halternative
    exact h alternative (List.mem_of_getElem? halternative)
  · exact .throw _

theorem incremental_readMember (members : List α) : Incremental (readMember members) := by
  refine (incremental_readNatural _).bind fun index => ?_
  split
  · exact .pure _
  · exact .throw _

theorem incremental_readWord : Incremental readWord :=
  (incremental_readNatural _).bind fun _ => .pure _

end Wire

open Wire

/-! ### The readers of units -/

theorem Constant.incremental_read : Incremental Constant.read := by
  refine incremental_readChoice ?_
  simp only [List.forall_mem_cons]
  refine ⟨?_, ?_, ?_, ?_, ?_, List.forall_mem_nil _⟩
  · exact (incremental_readInteger _).bind fun _ => .pure _
  · exact (incremental_readInteger _).bind fun _ => .pure _
  · exact (incremental_readBytes 4).bind fun _ => .pure _
  · exact (incremental_readBytes 8).bind fun _ => .pure _
  · exact incremental_readText.bind fun _ => .pure _

theorem Label.incremental_read : Incremental Label.read :=
  (incremental_readNatural _).bind fun _ => .pure _

theorem MemberRef.incremental_read : Incremental MemberRef.read :=
  incremental_readText.bind fun _ => incremental_readText.bind fun _ =>
    incremental_readText.bind fun _ => .pure _

/-- **The reader of an instruction does not look ahead**: it is a choice among readers that do
not. -/
theorem Instruction.incremental_read : Incremental Instruction.read := by
  -- The operands of the alternatives are of few sorts, alone or two in a row.
  have hslot : ∀ make : SlotKind → UInt16 → Instruction,
      Incremental (do return make (← readMember SlotKind.all) (← readWord)) :=
    fun make => (incremental_readMember _).bind fun _ =>
      incremental_readWord.bind fun _ => .pure _
  have hlabel : ∀ make : Label → Instruction, Incremental (do return make (← Label.read)) :=
    fun make => Label.incremental_read.bind fun _ => .pure _
  refine incremental_readChoice ?_
  simp only [List.forall_mem_cons]
  refine ⟨?_, .pure _, hslot _, hslot _, ?_, ?_, ?_, hlabel _, hlabel _, ?_, ?_, ?_, .pure _,
    .pure _, List.forall_mem_nil _⟩
  · exact Constant.incremental_read.bind fun _ => .pure _
  · exact (incremental_readMember _).bind fun _ =>
      (incremental_readMember _).bind fun _ => .pure _
  · exact (incremental_readMember _).bind fun _ => .pure _
  · exact (incremental_readMember _).bind fun _ =>
      Label.incremental_read.bind fun _ => .pure _
  · exact incremental_readText.bind fun _ => .pure _
  · exact MemberRef.incremental_read.bind fun _ => .pure _
  · exact (incremental_readMember _).bind fun _ =>
      MemberRef.incremental_read.bind fun _ => .pure _

theorem LocalVariable.incremental_read : Incremental LocalVariable.read :=
  incremental_readText.bind fun _ => incremental_readWord.bind fun _ =>
    (incremental_readMember _).bind fun _ => .pure _

namespace CodeUnit

/-- **The reader of a unit does not look ahead**, as it is put together from readers that do not. -/
theorem incremental_readBody : Incremental readBody :=
  incremental_readText.bind fun _ => (incremental_readMember _).bind fun _ =>
    incremental_readWord.bind fun _ => incremental_readWord.bind fun _ =>
    (incremental_readList LocalVariable.incremental_read).bind fun _ =>
    (incremental_readList Instruction.incremental_read).bind fun _ => .pure _

/-! ### Files -/

/-- A file that is shorter than its header is not one of a unit. -/
theorem decode_of_length_lt (path : String) {bytes : List UInt8} (h : bytes.length < 6) :
    decode path bytes = .error (.artifact path .notAUnitFile) := by
  unfold decode
  split
  · simp only [List.length_cons] at h
    omega
  · rfl

/-- A file that is cut off behind its header has the header and the start of the body. So reading it
is reading the start of the body. -/
theorem exists_eq_append_of_prefix {unit : CodeUnit} {p : List UInt8} (h : p <+: unit.encode)
    (hlength : 6 ≤ p.length) :
    ∃ start more, p = [0x53, 0x54, 0x52, 0x55, 1, 0] ++ start ∧
      unit.encodeBody = start ++ more := by
  obtain ⟨more, hmore⟩ := h
  rcases List.append_eq_append_iff.1 hmore with ⟨rest, hheader, hrest⟩ | ⟨start, hp, hbody⟩
  · have hnil : rest = [] := by
      have hlengths := congrArg List.length hheader
      rw [List.length_append] at hlengths
      simp only [List.length_cons, List.length_nil] at hlengths
      exact List.eq_nil_of_length_eq_zero (by omega)
    subst hnil
    exact ⟨[], more, by rw [hheader, List.append_nil, List.append_nil], hrest.symm⟩
  · exact ⟨start, more, hp, hbody⟩

/-- **A unit file ends by itself.** Cut off within its header it is not recognised, cut off anywhere
behind that it is found to end too early, and whatever is added to it is ignored. The bound is that
of the lengths in the file, which have eight bytes at most.

How many bytes are missing is not said, as the reader tells only what the value that it was reading
lacks. -/
theorem selfDelimiting {unit : CodeUnit} (h : unit.encode.length < 2 ^ 64) (path : String) :
    (∀ p, p <+: unit.encode → p ≠ unit.encode →
      (p.length < 6 → decode path p = .error (.artifact path .notAUnitFile)) ∧
      (6 ≤ p.length → ∃ n, 0 < n ∧ decode path p = .error (.decode (.unexpectedEnd n)))) ∧
    ∀ more, decode path (unit.encode ++ more) = .ok unit := by
  have hbody : unit.encodeBody.length < 2 ^ 64 := by
    rw [encode, List.length_append] at h
    omega
  have hread : Reads readBody unit.encodeBody unit := unit.isReadBy (written_body hbody)
  refine ⟨fun p hp hne => ⟨decode_of_length_lt path, fun hlength => ?_⟩, fun more => ?_⟩
  · obtain ⟨start, more, rfl, hstart⟩ := exists_eq_append_of_prefix hp hlength
    have hmore : more ≠ [] := by
      rintro rfl
      exact hne (by rw [encode, hstart, List.append_nil])
    have hwhole := hread []
    rw [hstart, List.append_nil] at hwhole
    obtain ⟨n, hn, herror⟩ := incremental_readBody.cut hwhole hmore
    exact ⟨n, hn, by rw [decode_header, herror]⟩
  · rw [encode, List.append_assoc, decode_header, hread more]

/-- The file of `StackUnits.CodeUnit.assorted`, cut off before its last byte and within its
header. -/
theorem selfDelimiting_assorted :
    assorted.encode.length < 2 ^ 64 ∧
      (∃ n, 0 < n ∧
        decode "a.unit" assorted.encode.dropLast = .error (.decode (.unexpectedEnd n))) ∧
      decode "a.unit" (assorted.encode.take 5) = .error (.artifact "a.unit" .notAUnitFile) ∧
      decode "a.unit" (assorted.encode ++ [0, 255]) = .ok assorted := by
  have hlength : assorted.encode.length < 2 ^ 64 := by decide +kernel
  obtain ⟨hcut, hadded⟩ := selfDelimiting hlength "a.unit"
  refine ⟨hlength, ?_, ?_, hadded _⟩
  · exact (hcut _ (List.dropLast_prefix _) (by decide +kernel)).2 (by decide +kernel)
  · exact (hcut _ (List.take_prefix _ _) (by decide +kernel)).1 (by decide +kernel)

end CodeUnit

end StackUnits
