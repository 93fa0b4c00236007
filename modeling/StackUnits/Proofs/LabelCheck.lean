import StackUnits.Proofs.Labels

/-!
# What the check of labels finds out

The check of a unit's labels goes over the code twice, once for the labels that are placed and once
for the jumps, and stops at the first thing that is wrong. Here this is said by places in the code,
of any unit, also of one that no compilation has made:

* a label **is placed** at an index (`StackUnits.CodeUnit.PlacesAt`), and a placement **repeats** if
  the same label is placed before (`StackUnits.CodeUnit.RepeatsAt`);
* an instruction **jumps** to a label (`StackUnits.CodeUnit.JumpsAt`), and a jump **strays** if its
  label is placed nowhere (`StackUnits.CodeUnit.StraysAt`).

The main result is `StackUnits.CodeUnit.checkLabels_decides`: a unit passes exactly if nothing
repeats and nothing strays, the table of labels is then the list of all placements in order, and a
unit that fails is told the first repetition or, if there is none, the first stray jump.
-/

namespace StackUnits

/-- The instructions that jump to a label, always or by a test. -/
theorem Instruction.target?_eq_some_iff {instr : Instruction} {label : Label} :
    instr.target? = some label ↔ instr = .jump label ∨ ∃ test, instr = .jumpIf test label := by
  cases instr <;> simp [target?]

namespace CodeUnit

variable {unit : CodeUnit} {i j : Nat} {label other : Label}

/-! ### Places in the code -/

/-- The instruction at an index places the label. -/
def PlacesAt (unit : CodeUnit) (i : Nat) (label : Label) : Prop :=
  unit.instructions[i]? = some (.label label)

/-- The instruction at an index jumps to the label, always or by a test. -/
def JumpsAt (unit : CodeUnit) (i : Nat) (label : Label) : Prop :=
  unit.instructions[i]? = some (.jump label) ∨
    ∃ test, unit.instructions[i]? = some (.jumpIf test label)

/-- The label is placed at the index, and has been placed before. -/
def RepeatsAt (unit : CodeUnit) (i : Nat) (label : Label) : Prop :=
  unit.PlacesAt i label ∧ ∃ j < i, unit.PlacesAt j label

/-- The instruction at the index jumps to a label that is placed nowhere. -/
def StraysAt (unit : CodeUnit) (i : Nat) (label : Label) : Prop :=
  unit.JumpsAt i label ∧ ∀ j, ¬unit.PlacesAt j label

/-- **The first index** with a property of its label. -/
def IsFirst (P : Nat → Label → Prop) (i : Nat) (label : Label) : Prop :=
  P i label ∧ ∀ j < i, ∀ other, ¬P j other

/-- **Labels are in order**: each is placed once, and each that is jumped to is placed. -/
structure LabelsInOrder (unit : CodeUnit) : Prop where
  once : ∀ {i j label}, unit.PlacesAt i label → unit.PlacesAt j label → i = j
  lands : ∀ {i label}, unit.JumpsAt i label → ∃ j, unit.PlacesAt j label

/-- **The list of all placements** in order, by which a label leads to its place. -/
structure Lists (unit : CodeUnit) (table : List (Label × Nat)) : Prop where
  mem : ∀ {label i}, (label, i) ∈ table ↔ unit.PlacesAt i label
  lookup : ∀ {label i}, table.lookup label = some i ↔ unit.PlacesAt i label
  ordered : table.Pairwise fun entry entry' => entry.2 < entry'.2

/-- **What is wrong first**, with the words for it: a label that is placed a second time or, if
there is none, a jump to a label that is not placed. -/
inductive FirstFault (unit : CodeUnit) : ArtifactFault → String → Prop
  | placedTwice {i : Nat} {label : Label} (h : IsFirst unit.RepeatsAt i label) :
      FirstFault unit (.labelPlacedTwice label) ("label " ++ label.text ++ " placed twice")
  | unplaced {i : Nat} {label : Label} (hno : ∀ i label, ¬unit.RepeatsAt i label)
      (h : IsFirst unit.StraysAt i label) :
      FirstFault unit (.unplacedTarget label) ("jump to unplaced label " ++ label.text)

theorem PlacesAt.label_eq (h : unit.PlacesAt i label) (h' : unit.PlacesAt i other) :
    label = other := by
  simpa [PlacesAt] using h.symm.trans h'

theorem jumpsAt_iff : unit.JumpsAt i label ↔
    ∃ instr, unit.instructions[i]? = some instr ∧ instr.target? = some label := by
  simp only [Instruction.target?_eq_some_iff, JumpsAt]
  constructor
  · rintro (h | ⟨test, h⟩)
    · exact ⟨_, h, .inl rfl⟩
    · exact ⟨_, h, .inr ⟨test, rfl⟩⟩
  · rintro ⟨_, h, rfl | ⟨test, rfl⟩⟩
    · exact .inl h
    · exact .inr ⟨test, h⟩

theorem JumpsAt.label_eq (h : unit.JumpsAt i label) (h' : unit.JumpsAt i other) :
    label = other := by
  obtain ⟨instr, hinstr, htarget⟩ := jumpsAt_iff.1 h
  obtain ⟨instr', hinstr', htarget'⟩ := jumpsAt_iff.1 h'
  cases hinstr.symm.trans hinstr'
  exact Option.some.inj (htarget.symm.trans htarget')

/-- There is only one first index, with one label, if an index has one label. -/
theorem IsFirst.label_eq {P : Nat → Label → Prop} (h : IsFirst P i label) (h' : IsFirst P j other)
    (hP : ∀ {k label other}, P k label → P k other → label = other) : label = other := by
  rcases Nat.lt_trichotomy i j with hlt | rfl | hlt
  · exact (h'.2 i hlt label h.1).elim
  · exact hP h.1 h'.1
  · exact (h.2 j hlt other h'.1).elim

theorem mem_targets_iff : label ∈ targets unit.instructions ↔ ∃ i, unit.JumpsAt i label := by
  simp only [targets, List.mem_filterMap, jumpsAt_iff]
  constructor
  · rintro ⟨instr, hmem, htarget⟩
    obtain ⟨i, hi⟩ := List.mem_iff_getElem?.1 hmem
    exact ⟨i, instr, hi, htarget⟩
  · rintro ⟨i, instr, hi, htarget⟩
    exact ⟨instr, List.mem_of_getElem? hi, htarget⟩

/-! ### The first repetition -/

/-- What a list picks out of code stands in the code, with what is picked before it in front. So a
position in the list of labels is a place in the code. -/
theorem exists_split_of_filterMap {pick : Instruction → Option Label} {code : List Instruction}
    {front back : List Label} (h : code.filterMap pick = front ++ label :: back) :
    ∃ before instr after, code = before ++ instr :: after ∧ pick instr = some label ∧
      before.filterMap pick = front := by
  obtain ⟨first, second, rfl, rfl, hsecond⟩ := List.filterMap_eq_append_iff.1 h
  obtain ⟨skipped, instr, after, rfl, hskipped, hpick, -⟩ := List.filterMap_eq_cons_iff.1 hsecond
  refine ⟨first ++ skipped, instr, after, by simp, hpick, ?_⟩
  rw [List.filterMap_append, List.filterMap_eq_nil_iff.2 hskipped, List.append_nil]

/-- The scan stops at the first label that is met again. It may have been `seen` before the list
begins, which is the form that the induction needs. -/
theorem exists_split_of_firstRepeated {seen labels : List Label}
    (h : firstRepeated seen labels = some label) :
    ∃ front back, labels = front ++ label :: back ∧ (label ∈ front ∨ label ∈ seen) ∧
      firstRepeated seen front = none := by
  induction labels generalizing seen with
  | nil => cases h
  | cons head rest ih =>
    rw [firstRepeated] at h
    split at h
    · rename_i hmem
      cases h
      exact ⟨[], rest, rfl, .inr hmem, rfl⟩
    · rename_i hmem
      obtain ⟨front, back, rfl, hbefore, hfront⟩ := ih h
      refine ⟨head :: front, back, rfl, ?_, ?_⟩
      · rw [List.mem_cons] at hbefore ⊢
        tauto
      · rw [firstRepeated, if_neg hmem, hfront]

theorem index_unique_of_nodup {code : List Instruction} (h : (placements code).Nodup)
    (hi : code[i]? = some (.label label)) (hj : code[j]? = some (.label label)) : i = j := by
  have hlookup := lookup_offsetsFrom h hi 0 []
  rw [lookup_offsetsFrom h hj 0 [], Option.some_inj] at hlookup
  omega

/-- **The first label that is placed twice**: the scan of the labels finds the first place in the
code. -/
theorem exists_isFirst_repeatsAt
    (h : firstRepeated [] (placements unit.instructions) = some label) :
    ∃ i, IsFirst unit.RepeatsAt i label := by
  obtain ⟨front, back, hsplit, hbefore, hfront⟩ := exists_split_of_firstRepeated h
  obtain ⟨before, instr, after, hcode, hplaced, rfl⟩ := exists_split_of_filterMap hsplit
  obtain rfl := Instruction.placed?_eq_some_iff.1 hplaced
  have hnodup : (placements before).Nodup := (firstRepeated_eq_none.1 hfront).1
  have hhere : unit.PlacesAt before.length label := by
    rw [PlacesAt, hcode]
    simp
  have hearlier : ∀ {j other}, j < before.length →
      (unit.PlacesAt j other ↔ before[j]? = some (.label other)) := by
    intro j other hlt
    rw [PlacesAt, hcode, List.getElem?_append_left hlt]
  refine ⟨before.length, ⟨hhere, ?_⟩, ?_⟩
  · have hmem : label ∈ placements before := hbefore.resolve_right List.not_mem_nil
    obtain ⟨j, hj⟩ := mem_placements_iff.1 hmem
    obtain ⟨hlt, -⟩ := List.getElem?_eq_some_iff.1 hj
    exact ⟨j, hlt, (hearlier hlt).2 hj⟩
  · rintro j hlt other ⟨hj, k, hk, hplace⟩
    have heq := index_unique_of_nodup hnodup ((hearlier hlt).1 hj)
      ((hearlier (by omega)).1 hplace)
    omega

/-- Nothing is placed twice exactly if no placement repeats. -/
theorem nodup_placements_iff : (placements unit.instructions).Nodup ↔
    ∀ i label, ¬unit.RepeatsAt i label := by
  constructor
  · rintro h i label ⟨hi, j, hlt, hj⟩
    have heq := index_unique_of_nodup h hi hj
    omega
  · intro h
    by_contra hnot
    rcases hscan : firstRepeated [] (placements unit.instructions) with _ | label
    · exact hnot (firstRepeated_eq_none.1 hscan).1
    · obtain ⟨i, hfirst⟩ := exists_isFirst_repeatsAt hscan
      exact h i label hfirst.1

/-! ### The first stray jump -/

theorem contains_placements_iff :
    (placements unit.instructions).contains label = true ↔ ∃ i, unit.PlacesAt i label := by
  rw [List.contains_iff_mem, mem_placements_iff]
  rfl

/-- **The first jump to a label that is not placed.** The label may be placed behind the jump, so
that the whole code has to be looked at first. -/
theorem exists_isFirst_straysAt
    (h : ((targets unit.instructions).find? fun target =>
      !(placements unit.instructions).contains target) = some label) :
    ∃ i, IsFirst unit.StraysAt i label := by
  obtain ⟨hlabel, front, back, hsplit, hfront⟩ := List.find?_eq_some_iff_append.1 h
  obtain ⟨before, instr, after, hcode, htarget, rfl⟩ := exists_split_of_filterMap hsplit
  have hhere : unit.JumpsAt before.length label := by
    refine jumpsAt_iff.2 ⟨instr, ?_, htarget⟩
    rw [hcode]
    simp
  refine ⟨before.length, ⟨hhere, fun j hj => ?_⟩, ?_⟩
  · rw [Bool.not_eq_true', contains_placements_iff.2 ⟨j, hj⟩] at hlabel
    cases hlabel
  · rintro j hlt other ⟨hjump, hunplaced⟩
    obtain ⟨instr', hinstr, htarget'⟩ := jumpsAt_iff.1 hjump
    rw [hcode, List.getElem?_append_left hlt] at hinstr
    have hother := hfront other
      (List.mem_filterMap.2 ⟨instr', List.mem_of_getElem? hinstr, htarget'⟩)
    rw [Bool.not_not, contains_placements_iff] at hother
    obtain ⟨k, hk⟩ := hother
    exact hunplaced k hk

/-! ### The table of labels -/

/-- The labels that code places, with their offsets. -/
def offsetsIn (code : List Instruction) (offset : Nat) : List (Label × Nat) :=
  (code.zipIdx offset).filterMap fun entry => entry.1.placed?.map fun label => (label, entry.2)

section Code

variable {instr : Instruction} {code : List Instruction} {table : List (Label × Nat)}

theorem offsetsIn_cons_none (h : instr.placed? = none) (code : List Instruction) (offset : Nat) :
    offsetsIn (instr :: code) offset = offsetsIn code (offset + 1) := by
  rw [offsetsIn, List.zipIdx_cons, List.filterMap_cons_none (by rw [h]; rfl)]
  rfl

theorem offsetsIn_cons_some (h : instr.placed? = some label) (code : List Instruction)
    (offset : Nat) :
    offsetsIn (instr :: code) offset = (label, offset) :: offsetsIn code (offset + 1) := by
  rw [offsetsIn, List.zipIdx_cons, List.filterMap_cons_some (by rw [h]; rfl)]
  rfl

theorem recordOffset_of_not_mem (h : label ∉ table.map Prod.fst) (offset : Nat) :
    recordOffset label offset table = table ++ [(label, offset)] := by
  induction table with
  | nil => rfl
  | cons entry rest ih =>
    rw [List.map_cons, List.mem_cons, not_or] at h
    rw [recordOffset, if_neg (Ne.symm h.1), ih h.2]
    rfl

/-- Labels that are new each time go to the end of the table. A label that is not new would take
over the place of the old one, which is why the order of the table is known only after the check. -/
theorem offsetsFrom_eq_append (hnodup : (placements code).Nodup)
    (hnew : ∀ label ∈ placements code, label ∉ table.map Prod.fst) (offset : Nat) :
    offsetsFrom code offset table = table ++ offsetsIn code offset := by
  induction code generalizing offset table with
  | nil => exact (List.append_nil table).symm
  | cons instr rest ih =>
    rw [offsetsFrom]
    rcases hplaced : instr.placed? with _ | label
    · rw [placements, List.filterMap_cons_none hplaced] at hnodup hnew
      rw [offsetsIn_cons_none hplaced]
      exact ih hnodup hnew (offset + 1)
    · rw [placements, List.filterMap_cons_some hplaced] at hnodup hnew
      obtain ⟨hnot, hrest⟩ := List.nodup_cons.1 hnodup
      obtain ⟨hlabel, hothers⟩ := List.forall_mem_cons.1 hnew
      have hnew' : ∀ other ∈ placements rest,
          other ∉ (table ++ [(label, offset)]).map Prod.fst := by
        intro other hother hmem
        rw [List.map_append, List.mem_append] at hmem
        rcases hmem with hmem | hmem
        · exact hothers other hother hmem
        · obtain rfl : other = label := List.mem_singleton.1 hmem
          exact hnot hother
      calc offsetsFrom rest (offset + 1) (recordOffset label offset table)
          = offsetsFrom rest (offset + 1) (table ++ [(label, offset)]) := by
            rw [recordOffset_of_not_mem hlabel]
        _ = table ++ [(label, offset)] ++ offsetsIn rest (offset + 1) := ih hrest hnew' _
        _ = table ++ offsetsIn (instr :: rest) offset := by
            rw [offsetsIn_cons_some hplaced, List.append_assoc, List.singleton_append]

theorem mem_offsetsIn_iff {i : Nat} :
    (label, i) ∈ offsetsIn code 0 ↔ code[i]? = some (.label label) := by
  rw [offsetsIn, List.mem_filterMap]
  constructor
  · rintro ⟨⟨instr, j⟩, hmem, hentry⟩
    obtain ⟨placed, hplaced, heq⟩ := Option.map_eq_some_iff.1 hentry
    cases heq
    rw [← Instruction.placed?_eq_some_iff.1 hplaced]
    exact List.mem_zipIdx_iff_getElem?.1 hmem
  · intro hi
    exact ⟨(.label label, i), List.mem_zipIdx_iff_getElem?.2 hi, rfl⟩

/-- The table has the labels in the order in which they stand in the code. -/
theorem pairwise_offsetsIn (code : List Instruction) (offset : Nat) :
    (offsetsIn code offset).Pairwise fun entry entry' => entry.2 < entry'.2 := by
  have hindices : (code.zipIdx offset).Pairwise fun entry entry' => entry.2 < entry'.2 := by
    rw [← List.pairwise_map, List.zipIdx_map_snd]
    exact List.pairwise_lt_range' 1
  refine hindices.filterMap _ fun entry entry' hlt placed hplaced placed' hplaced' => ?_
  obtain ⟨label, -, rfl⟩ := Option.map_eq_some_iff.1 hplaced
  obtain ⟨label', -, rfl⟩ := Option.map_eq_some_iff.1 hplaced'
  exact hlt

end Code

/-- **The table of a unit that passes its check** is the list of all placements in order. Without
the check a label that is placed twice would have one entry only. -/
theorem lists_labelOffsets (h : unit.checkLabels = .ok ()) : unit.Lists unit.labelOffsets := by
  have htable : unit.labelOffsets = offsetsIn unit.instructions 0 :=
    offsetsFrom_eq_append (checkLabels_eq_ok.1 h).1 (fun _ _ => List.not_mem_nil) 0
  have hmem : ∀ {label i}, (label, i) ∈ unit.labelOffsets ↔ unit.PlacesAt i label := by
    intro label i
    rw [htable]
    exact mem_offsetsIn_iff
  refine ⟨hmem, ⟨fun hlookup => ?_, lookup_labelOffsets h⟩, htable ▸ pairwise_offsetsIn _ 0⟩
  obtain ⟨front, back, hsplit, -⟩ := List.lookup_eq_some_iff.1 hlookup
  rw [← hmem, hsplit]
  exact List.mem_append_right _ List.mem_cons_self

/-! ### The check -/

/-- Labels are in order by places in the code exactly if they are by the lists that the check goes
over. -/
theorem labelsInOrder_iff : unit.LabelsInOrder ↔
    (placements unit.instructions).Nodup ∧
      ∀ target ∈ targets unit.instructions, target ∈ placements unit.instructions := by
  constructor
  · intro h
    refine ⟨nodup_placements_iff.2 ?_, fun target htarget => ?_⟩
    · rintro i label ⟨hi, j, hlt, hj⟩
      have heq := h.once hi hj
      omega
    · obtain ⟨i, hjump⟩ := mem_targets_iff.1 htarget
      exact mem_placements_iff.2 (h.lands hjump)
  · rintro ⟨hnodup, htargets⟩
    exact ⟨index_unique_of_nodup hnodup,
      fun hjump => mem_placements_iff.1 (htargets _ (mem_targets_iff.2 ⟨_, hjump⟩))⟩

section Faults

variable {fault fault' : ArtifactFault} {words words' : String} {e : CompileError}

/-- **A unit that fails its check is told what is wrong first.** Repetitions are looked for in all
of the code before jumps are, so that a stray jump is told only if nothing repeats. -/
theorem exists_firstFault (h : unit.checkLabels = .error e) :
    ∃ fault words, unit.FirstFault fault words ∧ e = .artifact unit.name fault := by
  unfold checkLabels at h
  rcases hscan : firstRepeated [] (placements unit.instructions) with _ | label
  · have hno := nodup_placements_iff.1 (firstRepeated_eq_none.1 hscan).1
    rcases hfind : (targets unit.instructions).find? fun target =>
        !(placements unit.instructions).contains target with _ | target
    · simp only [hscan, hfind, reduceCtorEq] at h
    · simp only [hscan, hfind, Except.error.injEq] at h
      obtain ⟨i, hfirst⟩ := exists_isFirst_straysAt hfind
      exact ⟨_, _, .unplaced hno hfirst, h.symm⟩
  · simp only [hscan, Except.error.injEq] at h
    obtain ⟨i, hfirst⟩ := exists_isFirst_repeatsAt hscan
    exact ⟨_, _, .placedTwice hfirst, h.symm⟩

/-- Only one thing is wrong first, so that the list of faults determines the answer. -/
theorem FirstFault.unique (h : unit.FirstFault fault words) (h' : unit.FirstFault fault' words') :
    fault = fault' := by
  cases h with
  | placedTwice hfirst =>
    cases h' with
    | placedTwice hfirst' => rw [hfirst.label_eq hfirst' fun h h' => h.1.label_eq h'.1]
    | unplaced hno => exact (hno _ _ hfirst.1).elim
  | unplaced hno hfirst =>
    cases h' with
    | placedTwice hfirst' => exact (hno _ _ hfirst'.1).elim
    | unplaced _ hfirst' => rw [hfirst.label_eq hfirst' fun h h' => h.1.label_eq h'.1]

theorem FirstFault.not_labelsInOrder (h : unit.FirstFault fault words) : ¬unit.LabelsInOrder := by
  intro horder
  cases h with
  | placedTwice hfirst =>
    obtain ⟨hi, j, hlt, hj⟩ := hfirst.1
    have heq := horder.once hi hj
    omega
  | unplaced _ hfirst =>
    obtain ⟨j, hj⟩ := horder.lands hfirst.1.1
    exact hfirst.1.2 j hj

/-- The words for a fault are those of the message, behind the path of the unit. -/
theorem FirstFault.message_eq (h : unit.FirstFault fault words) (path : String) :
    (CompileError.artifact path fault).message =
      "Invalid unit artifact " ++ path ++ ": " ++ words := by
  cases h <;> rfl

end Faults

/-- **The check of labels decides whether they are in order**, and finds what is wrong first.

It is said of any unit, with any labels in any order, and not only of those that are compiled. The
third part is an equivalence, which leaves no room for another complaint; and it has the text of the
message, in which the label is the only thing that helps to find the place. -/
theorem checkLabels_decides (unit : CodeUnit) :
    (unit.checkLabels = .ok () ↔ unit.LabelsInOrder) ∧
    (unit.checkLabels = .ok () → unit.Lists unit.labelOffsets) ∧
    ∀ e, unit.checkLabels = .error e ↔ ∃ fault words, unit.FirstFault fault words ∧
      e = .artifact unit.name fault ∧
      e.message = "Invalid unit artifact " ++ unit.name ++ ": " ++ words := by
  have hdecides : unit.checkLabels = .ok () ↔ unit.LabelsInOrder :=
    checkLabels_eq_ok.trans labelsInOrder_iff.symm
  refine ⟨hdecides, lists_labelOffsets, fun e => ⟨fun h => ?_, ?_⟩⟩
  · obtain ⟨fault, words, hfault, rfl⟩ := exists_firstFault h
    exact ⟨fault, words, hfault, rfl, hfault.message_eq unit.name⟩
  · rintro ⟨fault, words, hfault, rfl, -⟩
    rcases hcheck : unit.checkLabels with e | ⟨⟩
    · obtain ⟨fault', words', hfault', rfl⟩ := exists_firstFault hcheck
      rw [hfault.unique hfault']
    · exact (hfault.not_labelsInOrder (hdecides.1 hcheck)).elim

/-- A unit in which a jump goes over one label to another. -/
def hopping : CodeUnit where
  name := "Hop"
  kind := .program
  instructions := [.jump ⟨7⟩, .label ⟨0⟩, .ret, .label ⟨7⟩, .ret]

theorem checkLabels_decides_hopping :
    hopping.checkLabels = .ok () ∧ hopping.labelOffsets = [(⟨0⟩, 1), (⟨7⟩, 3)] ∧
      hopping.LabelsInOrder ∧ hopping.Lists [(⟨0⟩, 1), (⟨7⟩, 3)] := by
  have hcheck : hopping.checkLabels = .ok () := by decide
  obtain ⟨hdecides, hlists, -⟩ := checkLabels_decides hopping
  exact ⟨hcheck, rfl, hdecides.1 hcheck, hlists hcheck⟩

end CodeUnit

end StackUnits
