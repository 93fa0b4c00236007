import Mathlib.Algebra.Group.Nat.Defs
import Mathlib.Data.List.Nodup
import StackUnits.Proofs.Code

/-!
# The labels of a unit

A finished unit is checked for its labels: each is placed once, and each that is jumped to
is placed. This file says what passing the check means, and which code passes it.

* `StackUnits.CodeUnit.checkLabels_eq_ok` – the check, as a condition on the code;
* `StackUnits.CodeUnit.lookup_labelOffsets` – in a unit that passes, a label leads to the
  place where it stands;
* `StackUnits.Stmt.HasCode.checkLabels_unit` – the code of a program passes exactly if it has
  at most `2 ^ 32` labels. Every statement uses its own range of numbers, each of them once
  (`StackUnits.Numbered`), and numbers stand for different labels up to that bound.
-/

namespace StackUnits

/-- The instruction that places a label. -/
theorem Instruction.placed?_eq_some_iff {instr : Instruction} {label : Label} :
    instr.placed? = some label ↔ instr = .label label := by
  cases instr <;> simp [placed?]

namespace CodeUnit

/-! ### The check -/

/-- A scan with the labels seen so far finds no repetition exactly if the rest has none and meets
none of those seen. -/
theorem firstRepeated_eq_none {seen labels : List Label} :
    firstRepeated seen labels = none ↔ labels.Nodup ∧ ∀ label ∈ labels, label ∉ seen := by
  induction labels generalizing seen with
  | nil => simp [firstRepeated]
  | cons label rest ih =>
    rw [firstRepeated, List.nodup_cons]
    split
    · rename_i hmem
      simp [hmem]
    · rename_i hmem
      rw [ih]
      constructor
      · rintro ⟨hrest, hseen⟩
        refine ⟨⟨fun h => hseen _ h List.mem_cons_self, hrest⟩, ?_⟩
        rintro other (_ | ⟨_, h⟩)
        · exact hmem
        · exact fun h' => hseen other h (List.mem_cons_of_mem _ h')
      · rintro ⟨⟨hnot, hrest⟩, hseen⟩
        refine ⟨hrest, fun other h h' => ?_⟩
        rcases List.mem_cons.1 h' with rfl | h'
        · exact hnot h
        · exact hseen other (List.mem_cons_of_mem _ h) h'

/-- **What the check of labels asks for.** Everything about labels that is used in other files goes
through this condition. -/
theorem checkLabels_eq_ok {unit : CodeUnit} :
    unit.checkLabels = .ok () ↔ (placements unit.instructions).Nodup ∧
      ∀ target ∈ targets unit.instructions, target ∈ placements unit.instructions := by
  have hnodup : firstRepeated [] (placements unit.instructions) = none ↔ _ := firstRepeated_eq_none
  simp only [List.not_mem_nil, not_false_eq_true, implies_true, and_true] at hnodup
  rw [checkLabels, ← hnodup]
  rcases firstRepeated [] (placements unit.instructions) with _ | label
  · rcases h : (targets unit.instructions).find? _ with _ | target
    · simp only [List.find?_eq_none, Bool.not_eq_true', Bool.not_eq_false] at h
      simpa using h
    · have hmem := List.mem_of_find?_eq_some h
      have hnot := List.find?_some h
      simp only [Bool.not_eq_true', List.contains_eq_mem, decide_eq_false_iff_not] at hnot
      simp only [reduceCtorEq, true_and, false_iff, not_forall]
      exact ⟨target, hmem, hnot⟩
  · simp

/-! ### Where labels stand -/

theorem mem_placements_iff {label : Label} {code : List Instruction} :
    label ∈ placements code ↔ ∃ i : Nat, code[i]? = some (Instruction.label label) := by
  rw [← List.mem_iff_getElem?, placements, List.mem_filterMap]
  simp only [Instruction.placed?_eq_some_iff, exists_eq_right]

theorem lookup_recordOffset (label other : Label) (offset : Nat) (table : List (Label × Nat)) :
    (recordOffset label offset table).lookup other =
      if other = label then some offset else table.lookup other := by
  induction table with
  | nil =>
    by_cases h : other = label
    · simp [recordOffset, h]
    · simp [recordOffset, List.lookup_cons, beq_eq_false_iff_ne.2 h, h]
  | cons entry rest ih =>
    obtain ⟨old, n⟩ := entry
    rw [recordOffset]
    by_cases h : other = old
    · subst h
      split
      · simp_all
      · simp_all
    · split
      · rename_i hold
        subst hold
        simp [List.lookup_cons, beq_eq_false_iff_ne.2 h, h]
      · simp [List.lookup_cons, beq_eq_false_iff_ne.2 h, ih]

/-- Code that does not place a label leaves alone what a table has for it. -/
theorem lookup_offsetsFrom_of_not_mem {code : List Instruction} {label : Label}
    (h : label ∉ placements code) (offset : Nat) (table : List (Label × Nat)) :
    (offsetsFrom code offset table).lookup label = table.lookup label := by
  induction code generalizing offset table with
  | nil => rfl
  | cons instr rest ih =>
    rw [offsetsFrom]
    rcases hplaced : instr.placed? with _ | other
    · rw [placements, List.filterMap_cons_none hplaced] at h
      exact ih h _ _
    · rw [placements, List.filterMap_cons_some hplaced, List.mem_cons, not_or] at h
      refine (ih h.2 _ _).trans ?_
      rw [lookup_recordOffset, if_neg h.1]

/-- Of a label that is placed once, the table has the place, whatever it had before. By induction on
the code, with the place counted from the offset at which the code starts. -/
theorem lookup_offsetsFrom {code : List Instruction} {label : Label} {i : Nat}
    (hnodup : (placements code).Nodup) (hi : code[i]? = some (.label label)) (offset : Nat)
    (table : List (Label × Nat)) :
    (offsetsFrom code offset table).lookup label = some (offset + i) := by
  induction code generalizing i offset table with
  | nil => cases hi
  | cons instr rest ih =>
    cases i with
    | zero =>
      obtain rfl : instr = .label label := Option.some.inj hi
      have hnot : label ∉ placements rest := (List.nodup_cons.1 hnodup).1
      change (offsetsFrom rest (offset + 1) (recordOffset label offset table)).lookup label = _
      rw [lookup_offsetsFrom_of_not_mem hnot, lookup_recordOffset, if_pos rfl]
      rfl
    | succ i =>
      have hrest : rest[i]? = some (.label label) := hi
      have hnodup' : (placements rest).Nodup := by
        rcases hplaced : instr.placed? with _ | other
        · rwa [placements, List.filterMap_cons_none hplaced] at hnodup
        · rw [placements, List.filterMap_cons_some hplaced] at hnodup
          exact (List.nodup_cons.1 hnodup).2
      rw [offsetsFrom, show offset + (i + 1) = offset + 1 + i by omega]
      cases instr.placed? with
      | none => exact ih hnodup' hrest _ _
      | some other => exact ih hnodup' hrest _ _

/-- **A label leads to the place where it stands.** Without the check it would lead to the last of
its places, or to none. -/
theorem lookup_labelOffsets {unit : CodeUnit} (h : unit.checkLabels = .ok ()) {label : Label}
    {i : Nat} (hi : unit.instructions[i]? = some (.label label)) :
    unit.labelOffsets.lookup label = some i := by
  rw [labelOffsets, lookup_offsetsFrom (checkLabels_eq_ok.1 h).1 hi, Nat.zero_add]

/-! ### The labels of a piece of code -/

section Pieces

variable {k : Nat} {skip : ZeroTest} {condition thenArm elseArm body : List Instruction}

theorem placements_append (code code' : List Instruction) :
    placements (code ++ code') = placements code ++ placements code' :=
  List.filterMap_append

theorem placements_label (label : Label) : placements [.label label] = [label] :=
  rfl

/-- The labels of a choice stand behind its arms: the second one before the other arm, and the first
at the end. -/
theorem placements_choice :
    placements (Code.choice k skip condition thenArm elseArm) =
      placements condition ++ placements thenArm ++ [.nth (k + 1)] ++ placements elseArm ++
        [.nth k] := by
  simp only [Code.choice, placements_append]
  change placements condition ++ [] ++ placements thenArm ++ _ ++ placements elseArm ++ _ = _
  rw [List.append_nil]
  rfl

theorem placements_option :
    placements (Code.option k skip condition thenArm) =
      placements condition ++ placements thenArm ++ [.nth k] := by
  simp only [Code.option, placements_append]
  change placements condition ++ [] ++ placements thenArm ++ _ = _
  rw [List.append_nil]
  rfl

theorem placements_loop :
    placements (Code.loop k condition body) =
      [.nth k] ++ placements condition ++ placements body ++ [.nth (k + 1)] := by
  simp only [Code.loop, placements_append]
  change _ ++ placements condition ++ [] ++ placements body ++ _ = _
  rw [List.append_nil]
  rfl

theorem targets_append (code code' : List Instruction) :
    targets (code ++ code') = targets code ++ targets code' :=
  List.filterMap_append

/-- And the jumps to them stand before the arms. -/
theorem targets_choice :
    targets (Code.choice k skip condition thenArm elseArm) =
      targets condition ++ [.nth (k + 1)] ++ targets thenArm ++ [.nth k] ++ targets elseArm := by
  simp only [Code.choice, targets_append]
  exact List.append_nil _

theorem targets_option :
    targets (Code.option k skip condition thenArm) =
      targets condition ++ [.nth k] ++ targets thenArm := by
  simp only [Code.option, targets_append]
  exact List.append_nil _

theorem targets_loop :
    targets (Code.loop k condition body) =
      targets condition ++ [.nth (k + 1)] ++ targets body ++ [.nth k] := by
  simp only [Code.loop, targets_append]
  rfl

end Pieces

end CodeUnit

/-! ### Numbers of labels -/

/-- **A piece of code has the labels with numbers from `k` up to `k'`**: it places each of
them once and no others, in whatever order, and jumps to no others. -/
structure Numbered (k k' : Nat) (code : List Instruction) : Prop where
  places : (CodeUnit.placements code).Perm ((List.range' k (k' - k)).map .nth)
  targets : ∀ label ∈ CodeUnit.targets code, label ∈ CodeUnit.placements code
  le : k ≤ k'

namespace Numbered

open CodeUnit

variable {k k' k₀ k₁ k₂ : Nat} {skip : ZeroTest}
  {code code' condition thenArm elseArm body : List Instruction}

/-- Code without labels. -/
theorem plain (hplaces : placements code = []) (htargets : CodeUnit.targets code = [])
    (k : Nat) : Numbered k k code where
  places := by
    rw [hplaces, Nat.sub_self]
    exact .nil
  targets := by
    rw [htargets]
    exact nofun
  le := Nat.le_refl k

/-- A single label. -/
theorem place (k : Nat) : Numbered k (k + 1) [.label (.nth k)] where
  places := by
    rw [Nat.add_sub_cancel_left]
    exact .refl _
  targets := nofun
  le := Nat.le_succ k

/-- Numbers go on where the first piece has left off. So a sequence of pieces has one range of
numbers, without gaps. -/
theorem append (h : Numbered k k₁ code) (h' : Numbered k₁ k₂ code') :
    Numbered k k₂ (code ++ code') := by
  refine ⟨?_, fun label hlabel => ?_, Nat.le_trans h.le h'.le⟩
  · obtain ⟨m, rfl⟩ := Nat.exists_eq_add_of_le h.le
    obtain ⟨n, rfl⟩ := Nat.exists_eq_add_of_le h'.le
    have hplaces := h.places.append h'.places
    rw [Nat.add_sub_cancel_left, Nat.add_sub_cancel_left, ← List.map_append,
      List.range'_append_1] at hplaces
    rw [placements_append, Nat.add_assoc, Nat.add_sub_cancel_left]
    exact hplaces
  · rw [targets_append, List.mem_append] at hlabel
    rw [placements_append, List.mem_append]
    exact hlabel.imp (h.targets label) (h'.targets label)

/-- Code that places the same labels in another order, and jumps to some of them. The labels of
branches are numbered before those of their arms and placed behind them, so that no branch has its
labels in order. -/
theorem reorder (h : Numbered k k' code) (hplaces : (placements code').Perm (placements code))
    (htargets : ∀ label ∈ CodeUnit.targets code',
      label ∈ CodeUnit.targets code ∨ label ∈ placements code) : Numbered k k' code' where
  places := hplaces.trans h.places
  targets label hlabel := hplaces.mem_iff.2 ((htargets label hlabel).elim (h.targets label) id)
  le := h.le

/-- **A choice** has the labels of its condition, two of its own, and those of its arms. Since its
own are placed last, the order in which labels stand is not that of their numbers. -/
theorem choice (hc : Numbered k₀ k condition) (ht : Numbered (k + 2) k₁ thenArm)
    (he : Numbered k₁ k₂ elseArm) :
    Numbered k₀ k₂ (Code.choice k skip condition thenArm elseArm) := by
  refine (((hc.append (place k)).append (place (k + 1))).append (ht.append he)).reorder ?_ ?_
  · rw [placements_choice, List.perm_iff_count]
    intro label
    simp only [placements_append, placements_label, List.count_append]
    omega
  · intro label hlabel
    rw [targets_choice] at hlabel
    simp only [placements_append, placements_label, targets_append, List.mem_append] at hlabel ⊢
    tauto

/-- **An arm that may be skipped** has one label of its own. -/
theorem option (hc : Numbered k₀ k condition) (ht : Numbered (k + 1) k₁ thenArm) :
    Numbered k₀ k₁ (Code.option k skip condition thenArm) := by
  refine ((hc.append (place k)).append ht).reorder ?_ ?_
  · rw [placements_option, List.perm_iff_count]
    intro label
    simp only [placements_append, placements_label, List.count_append]
    omega
  · intro label hlabel
    rw [targets_option] at hlabel
    simp only [placements_append, placements_label, targets_append, List.mem_append] at hlabel ⊢
    tauto

/-- **A loop** has two labels of its own before those of its condition. The first of them is placed
at once, and the second one behind all others. -/
theorem loop (hc : Numbered (k + 2) k₁ condition) (hb : Numbered k₁ k₂ body) :
    Numbered k k₂ (Code.loop k condition body) := by
  refine (((place k).append (place (k + 1))).append (hc.append hb)).reorder ?_ ?_
  · rw [placements_loop, List.perm_iff_count]
    intro label
    simp only [placements_append, placements_label, List.count_append]
    omega
  · intro label hlabel
    rw [targets_loop] at hlabel
    simp only [placements_append, placements_label, targets_append, List.mem_append] at hlabel ⊢
    tauto

theorem assertion (k : Nat) : Numbered k (k + 1) (Code.assertion k) :=
  (place k).reorder (.refl _) fun _ => .inr

/-- **The labels of a whole unit** are in order exactly if 32 bits tell them apart: different
numbers are different labels up to the bound, and beyond it the first label is placed again. -/
theorem checkLabels {unit : CodeUnit} (h : Numbered 0 k unit.instructions) :
    unit.checkLabels = .ok () ↔ k ≤ 2 ^ 32 := by
  rw [checkLabels_eq_ok, and_iff_left h.targets, h.places.nodup_iff, Nat.sub_zero]
  constructor
  · intro hnodup
    by_contra hgt
    -- The labels with numbers 0 and 2³² are one label.
    have hzero : 0 ∈ List.range' 0 k := List.mem_range'_1.2 (by omega)
    have htop : 2 ^ 32 ∈ List.range' 0 k := List.mem_range'_1.2 (by omega)
    have heq := List.inj_on_of_nodup_map hnodup hzero htop rfl
    omega
  · intro hle
    refine List.Nodup.map_on (fun i hi j hj hij => ?_) List.nodup_range'
    have hlt := List.mem_range'_1.1 hi
    have hlt' := List.mem_range'_1.1 hj
    have hid : UInt32.ofNat i = UInt32.ofNat j := congrArg Label.id hij
    have hnat := congrArg UInt32.toNat hid
    rw [UInt32.toNat_ofNat', UInt32.toNat_ofNat'] at hnat
    omega

end Numbered

/-! ### The labels of a program -/

/-- **The code of an expression** has its own range of labels, by induction on the code. -/
theorem Expr.HasCode.numbered {e : Expr} {table : SymbolTable} {k k' : Nat}
    {code : List Instruction} {type : OperandType} (h : e.HasCode table k code type k') :
    Numbered k k' code := by
  induction h with
  | literal | var => exact .plain rfl rfl _
  | arith _ _ _ ihl ihr => exact (ihl.append ihr).append (.plain rfl rfl _)
  | @cast _ _ _ _ _ _ _ conversion _ _ ih =>
    refine ih.append (.plain ?_ ?_ _) <;> cases conversion <;> rfl
  | and _ _ _ _ ihl ihr | or _ _ _ _ ihl ihr => exact ihl.choice ihr (.plain rfl rfl _)
  | not _ _ ih => exact ih.choice (.plain rfl rfl _) (.plain rfl rfl _)
  | compare _ _ _ ihl ihr =>
    exact ((ihl.append ihr).append (.plain rfl rfl _)).choice (.plain rfl rfl _) (.plain rfl rfl _)

/-- **The code of a statement** has its own range of labels. A task given on the spot has none of
them. -/
theorem Stmt.HasCode.numbered {s : Stmt} {w : World} {d d' : Draft} {code : List Instruction}
    (h : s.HasCode w d code d') : Numbered d.labels d'.labels code := by
  induction h with
  | nothing | spawn | spawnInline => exact .plain rfl rfl _
  | sequence _ _ ih₁ ih₂ => exact ih₁.append ih₂
  | block _ ih => exact ih
  | assign hc => exact hc.numbered.append (.plain rfl rfl _)
  | print hc => exact ((Numbered.plain rfl rfl _).append hc.numbered).append (.plain rfl rfl _)
  | assert hc => exact hc.numbered.append (.assertion _)
  | sleep hc => exact hc.numbered.append (.plain rfl rfl _)
  | ifThen hc _ _ ih => exact hc.numbered.option ih
  | ifElse hc _ _ _ iht ihe => exact hc.numbered.choice iht ihe
  | loop hc _ _ ih => exact hc.numbered.loop ih

/-- **The labels of a unit** are in order exactly if it has at most `2 ^ 32` of them. The number is
that of the draft at the end, where it is counted without a bound. -/
theorem Stmt.HasCode.checkLabels_unit {s : Stmt} {w : World} {units : List CodeUnit} {d : Draft}
    {code : List Instruction} (h : s.HasCode w (.fresh units) code d) {name : String}
    {kind : UnitKind} {peak : Nat} :
    (d.unit name kind peak code).checkLabels = .ok () ↔ d.labels ≤ 2 ^ 32 :=
  Numbered.checkLabels (h.numbered.append (.plain rfl rfl _))

end StackUnits
