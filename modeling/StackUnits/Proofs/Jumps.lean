import StackUnits.Proofs.Shadows
import StackUnits.Proofs.Units

/-!
# Only loops jump back

Conditionals, connectives, comparisons and assertions jump over code that comes after them. The one
jump that goes back is that at the end of a loop, to its start. So a unit has as many jumps back as
there are loops in its tree, and none of them is conditional (`StackUnits.CodeUnit.TurnsBack`); and
a unit without loops is run through from its first instruction to its last, without coming to any
of them twice (`StackUnits.CodeUnit.GoesForward`).

The jumps of a piece of code are told apart by the labels that stand before them
(`StackUnits.CodeUnit.backJumps`). A piece jumps to labels of its own only, and in a finished unit
no label stands in two places, so that what goes back in a piece is what goes back in its parts, and
the jump of the piece itself if it is a loop.
-/

namespace StackUnits

namespace CodeUnit

/-! ### Labels that stand before -/

/-- **The jumps back** in a piece of code: those to labels that stand before them, in the piece or
among those already `seen`. -/
def backJumps (seen : List Label) : List Instruction → List Instruction
  | [] => []
  | instr :: rest =>
    (if instr.target?.any (· ∈ seen) then [instr] else []) ++
      backJumps (seen ++ instr.placed?.toList) rest

section Pieces

variable {seen : List Label} {code code' condition thenArm elseArm body : List Instruction}
  {label : Label} {k n n' : Nat} {skip : ZeroTest}

theorem placements_cons (instr : Instruction) (rest : List Instruction) :
    placements (instr :: rest) = instr.placed?.toList ++ placements rest := by
  rcases hplaced : instr.placed? with _ | place
  · rw [placements, List.filterMap_cons_none hplaced]
    rfl
  · rw [placements, List.filterMap_cons_some hplaced]
    rfl

/-- Jumps are gone through in order, and the labels of the first piece stand before the second. -/
theorem backJumps_append (seen : List Label) (code code' : List Instruction) :
    backJumps seen (code ++ code') =
      backJumps seen code ++ backJumps (seen ++ placements code) code' := by
  induction code generalizing seen with
  | nil =>
    rw [placements, List.filterMap_nil, List.append_nil]
    rfl
  | cons instr rest ih =>
    rw [List.cons_append, backJumps, backJumps, ih, placements_cons, List.append_assoc,
      List.append_assoc]

/-- Labels that the code does not jump to make no difference to what goes back. So a piece of code
can be looked at without what is in front of it. -/
theorem backJumps_of_not_mem (h : ∀ label ∈ targets code, label ∉ seen) (inside : List Label) :
    backJumps (seen ++ inside) code = backJumps inside code := by
  induction code generalizing inside with
  | nil => rfl
  | cons instr rest ih =>
    have hrest : ∀ label ∈ targets rest, label ∉ seen := by
      intro label hlabel
      refine h label ?_
      rw [targets, List.filterMap_cons]
      split
      · exact hlabel
      · exact List.mem_cons_of_mem _ hlabel
    have hany : instr.target?.any (· ∈ seen ++ inside) = instr.target?.any (· ∈ inside) := by
      rcases htarget : instr.target? with _ | target
      · rfl
      · have hnot : target ∉ seen := h target (by simp [targets, htarget])
        simp [hnot]
    rw [backJumps, backJumps, hany, List.append_assoc, ih hrest]

/-- **A piece with labels of its own** has the same jumps back wherever it stands, as long as no
label before it is one of these. -/
theorem backJumps_of_nodup (hclosed : ∀ label ∈ targets code, label ∈ placements code)
    (hnodup : (seen ++ placements code).Nodup) : backJumps seen code = backJumps [] code := by
  have hnot : ∀ label ∈ targets code, label ∉ seen := fun label hlabel hseen =>
    List.disjoint_of_nodup_append hnodup hseen (hclosed label hlabel)
  have hsame := backJumps_of_not_mem hnot []
  rwa [List.append_nil] at hsame

theorem backJumps_nil (seen : List Label) : backJumps seen [] = [] :=
  rfl

/-- A label does not jump. -/
theorem backJumps_label (seen : List Label) (label : Label) (rest : List Instruction) :
    backJumps seen (.label label :: rest) = backJumps (seen ++ [label]) rest :=
  rfl

/-- A jump is not a label. -/
theorem placed?_of_target? {instr : Instruction} (h : instr.target? = some label) :
    instr.placed? = none := by
  cases instr <;> cases h <;> rfl

/-- A jump to a label that does not stand before it goes ahead. -/
theorem backJumps_ahead (instr : Instruction) (htarget : instr.target? = some label)
    (h : label ∉ seen) (rest : List Instruction) :
    backJumps seen (instr :: rest) = backJumps seen rest := by
  rw [backJumps, placed?_of_target? htarget, Option.toList_none, List.append_nil, htarget]
  simp [h]

/-- A jump to a label that stands before it goes back. -/
theorem backJumps_behind (instr : Instruction) (htarget : instr.target? = some label)
    (h : label ∈ seen) (rest : List Instruction) :
    backJumps seen (instr :: rest) = instr :: backJumps seen rest := by
  rw [backJumps, placed?_of_target? htarget, Option.toList_none, List.append_nil, htarget]
  simp [h]

/-- Code without jumps. -/
theorem backJumps_of_targets (h : targets code = []) (seen : List Label) :
    backJumps seen code = [] := by
  induction code generalizing seen with
  | nil => rfl
  | cons instr rest ih =>
    rcases htarget : instr.target? with _ | target
    · rw [targets, List.filterMap_cons_none htarget] at h
      rw [backJumps, htarget, ih h]
      rfl
    · rw [targets, List.filterMap_cons_some htarget] at h
      cases h

/-! ### Pieces of code -/

/-- **A piece of code turns back** a number of times: if no label stands in two places, that many of
its jumps go back, and they are all unconditional. It jumps to labels of its own only. -/
structure Turns (n : Nat) (code : List Instruction) : Prop where
  closed : ∀ label ∈ targets code, label ∈ placements code
  back : (placements code).Nodup →
    ∃ starts : List Label, starts.length = n ∧ backJumps [] code = starts.map .jump

namespace Turns

/-- Code without jumps. -/
theorem plain (h : targets code = []) : Turns 0 code :=
  ⟨by simp [h], fun _ => ⟨[], rfl, backJumps_of_targets h []⟩⟩

theorem backJumps_eq_nil (h : Turns 0 code) (hnodup : (placements code).Nodup) :
    backJumps [] code = [] := by
  obtain ⟨starts, hlength, hback⟩ := h.back hnodup
  rw [hback, List.length_eq_zero_iff.1 hlength]
  rfl

/-- Two pieces turn back as often as they do together, since neither jumps into the other. -/
theorem append (h : Turns n code) (h' : Turns n' code') : Turns (n + n') (code ++ code') := by
  refine ⟨fun label hlabel => ?_, fun hnodup => ?_⟩
  · rw [targets_append, List.mem_append] at hlabel
    rw [placements_append, List.mem_append]
    exact hlabel.imp (h.closed label) (h'.closed label)
  · rw [placements_append] at hnodup
    obtain ⟨starts, rfl, hback⟩ := h.back hnodup.of_append_left
    obtain ⟨starts', rfl, hback'⟩ := h'.back hnodup.of_append_right
    refine ⟨starts ++ starts', List.length_append, ?_⟩
    rw [backJumps_append, List.nil_append, backJumps_of_nodup h'.closed hnodup, hback, hback',
      List.map_append]

/-- **A choice** goes back where its arms do. Its own jumps lead over an arm each. -/
theorem choice (hc : Turns 0 condition) (ht : Turns n thenArm) (he : Turns n' elseArm) :
    Turns (n + n') (Code.choice k skip condition thenArm elseArm) := by
  refine ⟨fun label hlabel => ?_, fun hnodup => ?_⟩
  · have hc := hc.closed label
    have ht := ht.closed label
    have he := he.closed label
    rw [targets_choice] at hlabel
    rw [placements_choice]
    simp only [List.mem_append] at hlabel ⊢
    tauto
  · rw [placements_choice] at hnodup
    have helse := hnodup.of_append_left
    have hthen := helse.of_append_left.of_append_left
    have hcs := hc.backJumps_eq_nil hthen.of_append_left
    obtain ⟨ts, rfl, hts⟩ := ht.back hthen.of_append_right
    obtain ⟨es, rfl, hes⟩ := he.back helse.of_append_right
    refine ⟨ts ++ es, List.length_append, ?_⟩
    have hskip : .nth (k + 1) ∉ placements condition := fun hmem =>
      List.disjoint_of_nodup_append helse.of_append_left (List.mem_append_left _ hmem) (by simp)
    have hend : .nth k ∉ placements condition ++ placements thenArm := fun hmem =>
      List.disjoint_of_nodup_append hnodup
        (List.mem_append_left _ (List.mem_append_left _ hmem)) (by simp)
    have hplaces : placements [.jumpIf skip (.nth (k + 1))] = [] := rfl
    have hplaces' : placements [.jump (.nth k), .label (.nth (k + 1))] = [.nth (k + 1)] := rfl
    have hjumpIf := backJumps_ahead (.jumpIf skip _) rfl hskip []
    have hjump := backJumps_ahead (.jump _) rfl hend [.label (.nth (k + 1))]
    simp only [Code.choice, backJumps_append, placements_append, hplaces, hplaces', hjumpIf, hjump,
      backJumps_label, backJumps_nil, List.nil_append, List.append_nil,
      backJumps_of_nodup ht.closed hthen, backJumps_of_nodup he.closed helse, hcs, hts, hes,
      List.map_append]

/-- **So does an arm that may be skipped.** The one jump of its own leads over the arm. -/
theorem option (hc : Turns 0 condition) (ht : Turns n thenArm) :
    Turns n (Code.option k skip condition thenArm) := by
  refine ⟨fun label hlabel => ?_, fun hnodup => ?_⟩
  · have hc := hc.closed label
    have ht := ht.closed label
    rw [targets_option] at hlabel
    rw [placements_option]
    simp only [List.mem_append] at hlabel ⊢
    tauto
  · rw [placements_option] at hnodup
    have hthen := hnodup.of_append_left
    have hcs := hc.backJumps_eq_nil hthen.of_append_left
    obtain ⟨ts, rfl, hts⟩ := ht.back hthen.of_append_right
    refine ⟨ts, rfl, ?_⟩
    have hskip : .nth k ∉ placements condition := fun hmem =>
      List.disjoint_of_nodup_append hnodup (List.mem_append_left _ hmem) (by simp)
    have hplaces : placements [.jumpIf skip (.nth k)] = [] := rfl
    have hjumpIf := backJumps_ahead (.jumpIf skip _) rfl hskip []
    simp only [Code.option, backJumps_append, placements_append, hplaces, hjumpIf,
      backJumps_label, backJumps_nil, List.nil_append, List.append_nil,
      backJumps_of_nodup ht.closed hthen, hcs, hts]

/-- **A loop** goes back where its body does, and once at its end. The jump out of it goes ahead. So
the number of jumps back is the number of loops. -/
theorem loop (hc : Turns 0 condition) (hb : Turns n body) :
    Turns (n + 1) (Code.loop k condition body) := by
  refine ⟨fun label hlabel => ?_, fun hnodup => ?_⟩
  · have hc := hc.closed label
    have hb := hb.closed label
    rw [targets_loop] at hlabel
    rw [placements_loop]
    simp only [List.mem_append] at hlabel ⊢
    tauto
  · rw [placements_loop] at hnodup
    have hbody := hnodup.of_append_left
    have hcondition := hbody.of_append_left
    have hcs := hc.backJumps_eq_nil hcondition.of_append_right
    obtain ⟨bs, rfl, hbs⟩ := hb.back hbody.of_append_right
    refine ⟨bs ++ [.nth k], List.length_append, ?_⟩
    have hskip : .nth (k + 1) ∉ [.nth k] ++ placements condition := fun hmem =>
      List.disjoint_of_nodup_append hnodup (List.mem_append_left _ hmem) (by simp)
    have hstart : .nth k ∈ [.nth k] ++ placements condition ++ placements body := by simp
    have hplaces : placements [.jumpIf .eq (.nth (k + 1))] = [] := rfl
    have hjumpIf := backJumps_ahead (.jumpIf .eq _) rfl hskip []
    have hjump := backJumps_behind (.jump _) rfl hstart [.label (.nth (k + 1))]
    simp only [Code.loop, backJumps_append, placements_append, placements_label, hplaces, hjumpIf,
      hjump, backJumps_label, backJumps_nil, List.nil_append, List.append_nil,
      backJumps_of_nodup hc.closed hcondition, backJumps_of_nodup hb.closed hbody, hcs, hbs,
      List.map_append, List.map_singleton]

theorem assertion (k : Nat) : Turns 0 (Code.assertion k) :=
  ⟨fun _ hlabel => hlabel, fun _ => ⟨[], rfl, rfl⟩⟩

end Turns

end Pieces

end CodeUnit

/-! ### Expressions and statements -/

open CodeUnit

/-- **No expression jumps back.** Connectives, comparisons and negations are choices, and jump over
their arms. -/
theorem Expr.HasCode.turns {e : Expr} {table : SymbolTable} {k k' : Nat}
    {code : List Instruction} {type : OperandType} (h : e.HasCode table k code type k') :
    Turns 0 code := by
  induction h with
  | literal | var => exact .plain rfl
  | arith _ _ _ ihl ihr => exact (ihl.append ihr).append (.plain rfl)
  | @cast _ _ _ _ _ _ _ conversion _ _ ih =>
    have hconversion : targets (Code.conversion conversion) = [] := by
      cases conversion <;> rfl
    exact ih.append (.plain hconversion)
  | and _ _ _ _ ihl ihr | or _ _ _ _ ihl ihr => exact .choice ihl ihr (.plain rfl)
  | not _ _ ih => exact .choice ih (.plain rfl) (.plain rfl)
  | compare _ _ _ ihl ihr =>
    exact .choice ((ihl.append ihr).append (.plain rfl)) (.plain rfl) (.plain rfl)

namespace Tree

/-- **The loops that a program runs through**; those of tasks given on the spot are not among
them. -/
def loopNodes : Tree → Nat
  | .node tag left right =>
    let inLeft := match left with | some l => l.loopNodes | none => 0
    let inRight := match right with | some r => r.loopNodes | none => 0
    match tag.kind with
    | .sequence => inLeft + inRight
    | .block => inLeft
    | .ifThen | .ifElse => inRight
    | .loop => inRight + 1
    | _ => 0

/-- The loops in a part that may be absent. -/
def loopsIn (o : Option Tree) : Nat :=
  match o with | some t => t.loopNodes | none => 0

variable {tag : Tag} {left right : Option Tree}

theorem loopNodes_sequence (h : tag.kind = .sequence) :
    (node tag left right).loopNodes = loopsIn left + loopsIn right := by
  rw [loopNodes.eq_def]
  simp only [h]
  rfl

theorem loopNodes_block (h : tag.kind = .block) :
    (node tag left right).loopNodes = loopsIn left := by
  rw [loopNodes.eq_def]
  simp only [h]
  rfl

theorem loopNodes_branch (h : tag.kind = .ifThen ∨ tag.kind = .ifElse) :
    (node tag left right).loopNodes = loopsIn right := by
  rw [loopNodes.eq_def]
  rcases h with h | h
  all_goals
    simp only [h]
    rfl

theorem loopNodes_loop (h : tag.kind = .loop) :
    (node tag left right).loopNodes = loopsIn right + 1 := by
  rw [loopNodes.eq_def]
  simp only [h]
  rfl

/-- There is no loop in a statement without parts that are statements. -/
theorem loopNodes_simple (h : tag.kind = .assign ∨ tag.kind = .print ∨ tag.kind = .assert ∨
    tag.kind = .sleep ∨ tag.kind = .multitask) : (node tag left right).loopNodes = 0 := by
  rw [loopNodes.eq_def]
  rcases h with h | h | h | h | h
  all_goals simp only [h]

end Tree

/-- **A statement jumps back** once for each loop in it. Loops are counted in the tree and not in
the statement, as it is the tree that is given. -/
theorem Stmt.HasCode.turns {s : Stmt} {w : World} {d d' : Draft} {code : List Instruction}
    (h : s.HasCode w d code d') {o : Option Tree} (ho : Tree.body o = s) :
    Turns (Tree.loopsIn o) code := by
  induction h generalizing o with
  | nothing =>
    rcases o with _ | t
    · exact .plain rfl
    · cases Tree.readsStmt_iff.2 ho
  | sequence _ _ ih₁ ih₂ =>
    obtain ⟨t, rfl, hreads⟩ := Tree.exists_readsStmt ho nofun
    cases hreads with
    | sequence hkind =>
      rw [Tree.loopsIn, Tree.loopNodes_sequence hkind]
      exact (ih₁ rfl).append (ih₂ rfl)
  | block _ ih =>
    obtain ⟨t, rfl, hreads⟩ := Tree.exists_readsStmt ho nofun
    cases hreads with
    | block hkind =>
      rw [Tree.loopsIn, Tree.loopNodes_block hkind]
      exact ih rfl
  | assign hc | sleep hc =>
    obtain ⟨t, rfl, hreads⟩ := Tree.exists_readsStmt ho nofun
    cases hreads
    rw [Tree.loopsIn, Tree.loopNodes_simple (by simp_all)]
    exact hc.turns.append (.plain rfl)
  | print hc =>
    obtain ⟨t, rfl, hreads⟩ := Tree.exists_readsStmt ho nofun
    cases hreads
    rw [Tree.loopsIn, Tree.loopNodes_simple (by simp_all)]
    exact ((Turns.plain rfl).append hc.turns).append (.plain rfl)
  | assert hc =>
    obtain ⟨t, rfl, hreads⟩ := Tree.exists_readsStmt ho nofun
    cases hreads
    rw [Tree.loopsIn, Tree.loopNodes_simple (by simp_all)]
    exact hc.turns.append (.assertion _)
  | ifThen hc _ _ ih =>
    obtain ⟨t, rfl, hreads⟩ := Tree.exists_readsStmt ho nofun
    cases hreads with
    | ifThen hkind =>
      rw [Tree.loopsIn, Tree.loopNodes_branch (.inl hkind)]
      exact .option hc.turns (ih (Tree.body_some _))
  | ifElse hc _ _ _ iht ihe =>
    obtain ⟨t, rfl, hreads⟩ := Tree.exists_readsStmt ho nofun
    cases hreads with
    | ifElse hkind hinner =>
      rw [Tree.loopsIn, Tree.loopNodes_branch (.inr hkind), Tree.loopsIn,
        Tree.loopNodes_sequence hinner]
      exact .choice hc.turns (iht (Tree.body_some _)) (ihe (Tree.body_some _))
  | loop hc _ _ ih =>
    obtain ⟨t, rfl, hreads⟩ := Tree.exists_readsStmt ho nofun
    cases hreads with
    | loop hkind =>
      rw [Tree.loopsIn, Tree.loopNodes_loop hkind]
      exact .loop hc.turns (ih (Tree.body_some _))
  | spawn | spawnInline =>
    obtain ⟨t, rfl, hreads⟩ := Tree.exists_readsStmt ho nofun
    cases hreads
    rw [Tree.loopsIn, Tree.loopNodes_simple (by simp_all)]
    exact .plain rfl

/-! ### The jumps of a unit -/

namespace CodeUnit

variable {unit : CodeUnit} {front rest : List Instruction} {instr : Instruction} {target : Label}
  {i j loops : Nat}

/-- Where the instruction at an index jumps to, if it does. -/
def leads? (unit : CodeUnit) (i : Nat) : Option Nat :=
  (unit.instructions[i]?.bind Instruction.target?).bind fun target =>
    unit.labelOffsets.lookup target

/-- Whether the instruction at an index jumps back. -/
def jumpsBack (unit : CodeUnit) (i : Nat) : Bool :=
  (unit.leads? i).any (· < i)

/-- **Only loops jump back**: the jumps back of a unit are unconditional, and they are as many as
given. -/
structure TurnsBack (unit : CodeUnit) (loops : Nat) : Prop where
  unconditional : ∀ i, unit.jumpsBack i = true →
    ∃ target, unit.instructions[i]? = some (.jump target)
  count : (List.range unit.instructions.length).countP unit.jumpsBack = loops

/-- **A jump leads to the place of its label**, which is there in a unit that has passed its
check. -/
theorem exists_leads (hlabels : unit.checkLabels = .ok ())
    (hinstr : unit.instructions[i]? = some instr) (htarget : instr.target? = some target) :
    ∃ j, unit.instructions[j]? = some (.label target) ∧ unit.leads? i = some j := by
  have htargets : target ∈ targets unit.instructions :=
    List.mem_filterMap.2 ⟨instr, List.mem_of_getElem? hinstr, htarget⟩
  obtain ⟨j, hj⟩ := mem_placements_iff.1 ((checkLabels_eq_ok.1 hlabels).2 target htargets)
  refine ⟨j, hj, ?_⟩
  rw [leads?, hinstr, Option.bind_some, htarget, Option.bind_some, lookup_labelOffsets hlabels hj]

/-- **A jump goes back** exactly if its label stands before it. Offsets are compared on the one side
and labels on the other; since no label stands twice, they say the same. -/
theorem jumpsBack_eq (hlabels : unit.checkLabels = .ok ())
    (hsplit : unit.instructions = front ++ instr :: rest) :
    unit.jumpsBack front.length = instr.target?.any (· ∈ placements front) := by
  have hinstr : unit.instructions[front.length]? = some instr := by
    rw [hsplit, List.getElem?_append_right (Nat.le_refl _), Nat.sub_self]
    rfl
  rcases htarget : instr.target? with _ | target
  · rw [jumpsBack, leads?, hinstr, Option.bind_some, htarget]
    rfl
  · obtain ⟨j, hj, hleads⟩ := exists_leads hlabels hinstr htarget
    rw [jumpsBack, hleads, Option.any_some, Option.any_some, decide_eq_decide, mem_placements_iff]
    constructor
    · intro hlt
      rw [hsplit, List.getElem?_append_left hlt] at hj
      exact ⟨j, hj⟩
    · rintro ⟨i, hi⟩
      obtain ⟨hlt, -⟩ := List.getElem?_eq_some_iff.1 hi
      rw [← List.getElem?_append_left hlt, ← hsplit] at hi
      have hplace := (lookup_labelOffsets hlabels hi).symm.trans (lookup_labelOffsets hlabels hj)
      exact Option.some.inj hplace ▸ hlt

/-- **The jumps back of a unit**, counted along its code from any place on. A jump leads back if its
label stands before it, so that it matters where a piece of code is. -/
theorem countP_jumpsBack (hlabels : unit.checkLabels = .ok ())
    (hsplit : unit.instructions = front ++ rest) :
    (List.range' front.length rest.length).countP unit.jumpsBack =
      (backJumps (placements front) rest).length := by
  induction rest generalizing front with
  | nil => rfl
  | cons instr rest ih =>
    have hnext := @ih (front ++ [instr]) (hsplit.trans (List.append_cons ..))
    have hplaces : placements [instr] = instr.placed?.toList := by
      rw [placements_cons, placements, List.filterMap_nil, List.append_nil]
    rw [List.length_append, List.length_singleton, placements_append, hplaces] at hnext
    rw [List.length_cons, List.range'_succ, List.countP_cons, hnext, jumpsBack_eq hlabels hsplit,
      backJumps, List.length_append, Nat.add_comm]
    split
    · rfl
    · rfl

/-- **A unit turns back** as often as its code does. The code is counted by the labels seen so far,
and the unit by the places to which its jumps lead; the check of labels makes the two agree. -/
theorem Turns.turnsBack (h : Turns loops unit.instructions) (hlabels : unit.checkLabels = .ok ()) :
    unit.TurnsBack loops := by
  obtain ⟨starts, rfl, hback⟩ := h.back (checkLabels_eq_ok.1 hlabels).1
  refine ⟨?_, ?_⟩
  · intro i hi
    obtain ⟨instr, hinstr⟩ : ∃ instr, unit.instructions[i]? = some instr := by
      rcases hnone : unit.instructions[i]? with _ | instr
      · rw [jumpsBack, leads?, hnone] at hi
        cases hi
      · exact ⟨instr, rfl⟩
    obtain ⟨front, rest, hsplit, rfl⟩ := exists_eq_append hinstr
    rw [jumpsBack_eq hlabels hsplit] at hi
    have hmem : instr ∈ backJumps [] unit.instructions := by
      rw [hsplit, backJumps_append, List.nil_append, backJumps, if_pos hi]
      simp
    rw [hback] at hmem
    obtain ⟨target, -, rfl⟩ := List.mem_map.1 hmem
    exact ⟨target, hinstr⟩
  · have hcount := countP_jumpsBack hlabels (List.nil_append unit.instructions).symm
    rw [List.range_eq_range']
    exact hcount.trans (by rw [placements, List.filterMap_nil, hback, List.length_map])

/-- In a unit without jumps back, **every jump goes ahead**, and not to itself either, since a jump
is no label. -/
theorem TurnsBack.lt_of_leads (h : unit.TurnsBack 0) (hlabels : unit.checkLabels = .ok ())
    (hinstr : unit.instructions[i]? = some instr) (htarget : instr.target? = some target)
    (hj : unit.instructions[j]? = some (.label target)) : i < j := by
  obtain ⟨j', hj', hleads⟩ := exists_leads hlabels hinstr htarget
  obtain rfl : j' = j := Option.some.inj
    ((lookup_labelOffsets hlabels hj').symm.trans (lookup_labelOffsets hlabels hj))
  obtain ⟨hlt, -⟩ := List.getElem?_eq_some_iff.1 hinstr
  have hback := List.countP_eq_zero.1 h.count i (List.mem_range.2 hlt)
  rw [jumpsBack, hleads, Option.any_some, decide_eq_true_eq, Nat.not_lt] at hback
  refine Nat.lt_of_le_of_ne hback ?_
  -- What jumps is no label, so the two are in different places.
  rintro rfl
  cases hinstr.symm.trans hj
  cases htarget

end CodeUnit

/-! ### Runs without turning back -/

namespace Machine

variable {floats : Floats} {unit : CodeUnit} {s s' : State} {effects : List Effect} {n : Nat}
  {result : Except Ending State} (hforward : unit.TurnsBack 0)
  (hlabels : unit.checkLabels = .ok ())
include hforward hlabels

/-- **Each step goes ahead**, by a jump or to the next instruction. This is where it is used that
nothing jumps back. -/
theorem pc_lt_of_step (h : step floats unit s = .next effects s') :
    s.pc < s'.pc ∧ s'.pc ≤ unit.instructions.length := by
  obtain ⟨instr, hinstr, -, -, hnext⟩ := moves_of_step hlabels h
  obtain ⟨hlt, -⟩ := List.getElem?_eq_some_iff.1 hinstr
  rcases hnext with ⟨-, heq⟩ | ⟨target, htarget, hplace⟩
  · omega
  · obtain ⟨hlt', -⟩ := List.getElem?_eq_some_iff.1 hplace
    exact ⟨hforward.lt_of_leads hlabels hinstr htarget hplace, Nat.le_of_lt hlt'⟩

/-- **A run takes no more steps than there are instructions ahead**, by induction on the run. -/
theorem Leads.add_le (h : Leads floats unit n s effects result)
    (hs : s.pc ≤ unit.instructions.length) : s.pc + n ≤ unit.instructions.length := by
  induction h with
  | here => exact hs
  | @ends s _ hends =>
    by_contra hge
    cases (step_eq_stuck (by omega)).symm.trans hends
  | next hstep _ ih =>
    obtain ⟨hlt, hle⟩ := pc_lt_of_step hforward hlabels hstep
    have hrest := ih hle
    omega

/-- **Every run stops**: it ends, or there is no next step. It has to, since it would run out of
instructions. -/
theorem exists_stop (floats : Floats) (s : State) (hs : s.pc ≤ unit.instructions.length) :
    ∃ n effects, (∃ ending, Leads floats unit n s effects (.error ending)) ∨
      ∃ s', Leads floats unit n s effects (.ok s') ∧ step floats unit s' = .stuck := by
  -- On the instructions ahead, which are fewer after each step.
  generalize hahead : unit.instructions.length - s.pc = ahead
  induction ahead using Nat.strongRecOn generalizing s with
  | ind ahead ih =>
    rcases hstep : step floats unit s with ⟨effects, s'⟩ | ending | _
    · obtain ⟨hlt, hle⟩ := pc_lt_of_step hforward hlabels hstep
      obtain ⟨n, effects', hstop⟩ := ih _ (by omega) s' hle rfl
      refine ⟨n + 1, effects ++ effects', hstop.imp ?_ ?_⟩
      · rintro ⟨ending, hends⟩
        exact ⟨ending, .next hstep hends⟩
      · rintro ⟨last, hrun, hstuck⟩
        exact ⟨last, .next hstep hrun, hstuck⟩
    · exact ⟨1, [], .inl ⟨ending, .ends hstep⟩⟩
    · exact ⟨0, [], .inr ⟨s, .here, hstep⟩⟩

end Machine

/-! ### Compilations -/

namespace CodeUnit

/-- **A unit that is run through once**: every jump goes ahead, and every run stops, after no more
steps than there are instructions. -/
structure GoesForward (unit : CodeUnit) : Prop where
  ahead : ∀ i instr target, unit.instructions[i]? = some instr → instr.target? = some target →
    ∃ j, unit.labelOffsets.lookup target = some j ∧ i < j
  bounded : ∀ floats n effects result, Machine.Leads floats unit n .start effects result →
    n ≤ unit.instructions.length
  stops : ∀ floats, ∃ n effects,
    (∃ ending, Machine.Leads floats unit n .start effects (.error ending)) ∨
      ∃ s, Machine.Leads floats unit n .start effects (.ok s) ∧
        Machine.step floats unit s = .stuck

theorem TurnsBack.goesForward {unit : CodeUnit} (h : unit.TurnsBack 0)
    (hlabels : unit.checkLabels = .ok ()) : unit.GoesForward := by
  refine ⟨?_, ?_, fun floats => Machine.exists_stop h hlabels floats .start (Nat.zero_le _)⟩
  · intro i instr target hinstr htarget
    obtain ⟨j, hj, -⟩ := exists_leads hlabels hinstr htarget
    exact ⟨j, lookup_labelOffsets hlabels hj, h.lt_of_leads hlabels hinstr htarget hj⟩
  · intro floats n effects result hrun
    have hle := hrun.add_le h hlabels (Nat.zero_le _)
    rwa [show Machine.State.start.pc = 0 from rfl, Nat.zero_add] at hle

/-- **A unit loops as its tree does.** -/
structure LoopsAs (unit : CodeUnit) (t : Tree) : Prop where
  back : unit.TurnsBack t.loopNodes
  forward : t.loopNodes = 0 → unit.GoesForward

/-- **A unit of a tree loops as the tree does**: it has as many jumps back as the tree has loops,
apart from those in tasks. -/
theorem IsOf.loopsAs {unit : CodeUnit} {t : Tree} (h : unit.IsOf t) : unit.LoopsAs t := by
  obtain ⟨w, units, code, d, hcode, heq, hlabels⟩ := h
  have hinstructions : unit.instructions = code ++ [.ret] := by
    rw [heq]
    rfl
  have hturns : Turns t.loopNodes unit.instructions := by
    rw [hinstructions]
    exact (hcode.turns (Tree.body_some t)).append (.plain rfl)
  have hback := hturns.turnsBack hlabels
  refine ⟨hback, fun hzero => ?_⟩
  rw [hzero] at hback
  exact hback.goesForward hlabels

end CodeUnit

/-- **Only loops jump back**, in every unit of a compilation; and a unit without loops comes to an
end, after no more steps than it has instructions.

The loops of a task given on the spot are counted with the task. For the machine, to come to an end
includes that there is no next step; that this does not happen to compiled code is another result
(`StackUnits.Proofs.Safety`). -/
theorem Session.loopsAs_of_compileNamed {name : String} {tree : Tree} {session after : Session}
    {c : Compilation} (h : compileNamed name tree session = .ok c after) :
    c.program.LoopsAs tree ∧
      List.Forall₂ (fun task unit => unit.name = task.1 ∧ unit.LoopsAs task.2) tree.inlineTasks
        c.tasks := by
  obtain ⟨hprogram, htasks⟩ := units_of_compileNamed h
  exact ⟨hprogram.loopsAs, htasks.imp fun _ _ hunit => ⟨hunit.1, hunit.2.loopsAs⟩⟩

theorem Session.loopsAs_countdown :
    ∃ c after, compileNamed "Main" .countdown .bare = .ok c after ∧
      c.program.TurnsBack 1 ∧ ∃ worker ∈ c.tasks, worker.GoesForward := by
  obtain ⟨c, after, h, -⟩ := compileNamed_countdown
  obtain ⟨hprogram, htasks⟩ := loopsAs_of_compileNamed h
  have hinline : Tree.countdown.inlineTasks = [("Worker", .unary .assert (.ofBool false))] := rfl
  rw [hinline] at htasks
  obtain ⟨worker, rest, ⟨-, hworker⟩, -, heq⟩ := List.forall₂_cons_left_iff.1 htasks
  exact ⟨c, after, h, hprogram.back, worker, by simp [heq], hworker.forward rfl⟩

end StackUnits
