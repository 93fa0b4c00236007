import StackUnits.Proofs.Units
import StackUnits.Proofs.Walks

/-!
# Variables that may be read before they are set

A variable is declared by the first assignment to it that the compiler meets. That assignment may
stand in a branch that is not taken, so a program can come to a variable that is declared and not
set. This file says which variables those are, by a look at the program alone.

* `StackUnits.Stmt.settles` lists the variables that a statement sets whichever way it goes: a
  branch that may be skipped settles nothing, and a choice settles what both of its branches do.
* `StackUnits.Stmt.exposed` lists the variables that a statement may read before it has set them:
  those that stand in an expression of it, without what is settled before that.

The code of a statement has a certificate for these lists, and for the height of the stack that
the compiler has counted (`StackUnits.Stmt.HasCode.walkFlow`): it reads no variable before it is
set except exposed ones, and afterwards what it settles is set. So it is with whole units
(`StackUnits.Stmt.HasCode.walkCertifies`).
-/

namespace StackUnits

/-! ### Reading and setting -/

/-- The variables that stand in an expression. -/
def Expr.reads : Expr → List String
  | .fault _ _ | .literal _ _ _ => []
  | .var _ name => [name]
  | .arith _ _ left right | .and _ left right | .or _ left right | .compare _ _ left right =>
    left.reads ++ right.reads
  | .cast _ _ operand | .not _ operand => operand.reads

namespace Stmt

/-- **The variables that a statement sets**, whichever way it goes. -/
def settles : Stmt → List String
  | .sequence _ first rest => first.settles ++ rest.settles
  | .block _ body => body.settles
  | .assign _ name _ => [name]
  | .ifElse _ _ thenBranch elseBranch => thenBranch.settles.filter (· ∈ elseBranch.settles)
  | .nothing | .fault _ _ | .print _ _ | .assert _ _ | .sleep _ _ | .ifThen _ _ _ | .loop _ _ _
  | .spawn _ _ | .spawnInline _ _ _ _ => []

/-- **The variables that a statement may read before it has set them.** A task that is given on
the spot has variables of its own. -/
def exposed : Stmt → List String
  | .nothing | .fault _ _ | .spawn _ _ | .spawnInline _ _ _ _ => []
  | .sequence _ first rest => first.exposed ++ rest.exposed.filter (· ∉ first.settles)
  | .block _ body => body.exposed
  | .assign _ _ e | .print _ e | .assert _ e | .sleep _ e => e.reads
  | .ifThen _ condition body | .loop _ condition body => condition.reads ++ body.exposed
  | .ifElse _ condition thenBranch elseBranch =>
    condition.reads ++ thenBranch.exposed ++ elseBranch.exposed

end Stmt

namespace Walk

/-! ### Pieces of certificates -/

/-- **A piece of code has a flow**: there are points for the labels that it places with which it
flows. -/
def HasFlow (limits : Limits) (before : Option Point) (code : List Instruction)
    (after : Option Point) : Prop :=
  ∃ own, own.map Prod.fst = CodeUnit.placements code ∧
    ∀ labels, own ⊆ labels → Flows limits labels before code after

namespace HasFlow

variable {limits : Limits} {before between after : Option Point} {p q r : Point}
  {code code' condition thenArm elseArm body : List Instruction} {instr : Instruction}
  {height height' k : Nat} {known : List String} {skip : ZeroTest}

/-- An instruction without labels. -/
theorem one (hplaced : CodeUnit.placements [instr] = [])
    (h : ∀ labels, Fits limits labels before instr after) : HasFlow limits before [instr] after :=
  ⟨[], hplaced.symm, fun labels _ => .one (h labels)⟩

theorem nil : HasFlow limits before [] before :=
  ⟨[], rfl, fun _ _ => .nil⟩

/-- The points of two pieces are put together, and each piece flows with more points than its
own. -/
theorem append (h : HasFlow limits before code between)
    (h' : HasFlow limits between code' after) : HasFlow limits before (code ++ code') after := by
  obtain ⟨own, hown, hflows⟩ := h
  obtain ⟨own', hown', hflows'⟩ := h'
  refine ⟨own ++ own', ?_, fun labels hsub => ?_⟩
  · rw [List.map_append, hown, hown', CodeUnit.placements_append]
  · obtain ⟨hl, hr⟩ := List.append_subset.1 hsub
    exact (hflows labels hl).append (hflows' labels hr)

/-- An instruction that works on the stack only, and has room for what it puts there. -/
theorem plain (hplain : instr.isPlain = true) (hshift : instr.Shifts height height')
    (hle : height' ≤ limits.top) :
    HasFlow limits (some ⟨height, known⟩) [instr] (some ⟨height', known⟩) := by
  refine one ?_ fun labels => .plain hplain hshift hle
  cases instr <;> first | rfl | cases hplain

theorem push (constant : Constant) (hle : height + 1 ≤ limits.top) :
    HasFlow limits (some ⟨height, known⟩) [.push constant] (some ⟨height + 1, known⟩) :=
  plain rfl ⟨0, height, rfl, rfl, rfl⟩ hle

theorem arith (op : ArithOp) (family : Family) (hle : height + 1 ≤ limits.top) :
    HasFlow limits (some ⟨height + 2, known⟩) [.arith op family] (some ⟨height + 1, known⟩) :=
  plain rfl ⟨2, height, rfl, rfl, rfl⟩ hle

theorem conversion (conversion : Conversion) (hle : height + 1 ≤ limits.top) :
    HasFlow limits (some ⟨height + 1, known⟩) (Code.conversion conversion)
      (some ⟨height + 1, known⟩) := by
  cases conversion with
  | identity => exact nil
  | _ => exact plain rfl ⟨1, height, rfl, rfl, rfl⟩ hle

/-- **After a choice** holds what holds after both of its arms. The point `r` is what the label at
the end stands for, and each arm may come there with more than it promises. -/
theorem choice (hc : HasFlow limits (some ⟨height, known⟩) condition (some ⟨height + 1, known⟩))
    (ht : HasFlow limits (some ⟨height, known⟩) thenArm (some p))
    (he : HasFlow limits (some ⟨height, known⟩) elseArm (some q)) (hp : p.Covers r)
    (hq : q.Covers r) :
    HasFlow limits (some ⟨height, known⟩) (Code.choice k skip condition thenArm elseArm)
      (some r) := by
  obtain ⟨ownc, hownc, hc⟩ := hc
  obtain ⟨ownt, hownt, ht⟩ := ht
  obtain ⟨owne, howne, he⟩ := he
  refine ⟨ownc ++ ownt ++ [(.nth (k + 1), ⟨height, known⟩)] ++ owne ++ [(.nth k, r)], ?_,
    fun labels hsub => ?_⟩
  · simp only [List.map_append, hownc, hownt, howne, CodeUnit.placements_choice]
    rfl
  · simp only [List.append_subset, List.cons_subset, List.nil_subset, and_true] at hsub
    obtain ⟨⟨⟨⟨hsubc, hsubt⟩, helse⟩, hsube⟩, hend⟩ := hsub
    have hif := (hc labels hsubc).append (.one (.jumpIf skip helse (.refl _)))
    have hthen := (hif.append (ht labels hsubt)).append
      (.cons (.jump hend hp) (.one (.label helse nofun)))
    refine (hthen.append (he labels hsube)).append (.one (.label hend fun q' hq' => ?_))
    cases hq'
    exact hq

/-- After an arm that may be skipped holds what held before it: what the arm has set is not known to
be set if it was skipped. -/
theorem option (hc : HasFlow limits (some ⟨height, known⟩) condition (some ⟨height + 1, known⟩))
    (ht : HasFlow limits (some ⟨height, known⟩) thenArm (some p))
    (hp : p.Covers ⟨height, known⟩) :
    HasFlow limits (some ⟨height, known⟩) (Code.option k skip condition thenArm)
      (some ⟨height, known⟩) := by
  obtain ⟨ownc, hownc, hc⟩ := hc
  obtain ⟨ownt, hownt, ht⟩ := ht
  refine ⟨ownc ++ ownt ++ [(.nth k, ⟨height, known⟩)], ?_, fun labels hsub => ?_⟩
  · simp only [List.map_append, hownc, hownt, CodeUnit.placements_option]
    rfl
  · simp only [List.append_subset, List.cons_subset, List.nil_subset, and_true] at hsub
    obtain ⟨⟨hsubc, hsubt⟩, hend⟩ := hsub
    have hif := (hc labels hsubc).append (.one (.jumpIf skip hend (.refl _)))
    refine (hif.append (ht labels hsubt)).append (.one (.label hend fun q hq => ?_))
    cases hq
    exact hp

/-- A loop comes back to its start with what held there, and perhaps more. So the point at its start
is that of the first time, and does not have to be found. -/
theorem loop (hc : HasFlow limits (some ⟨height, known⟩) condition (some ⟨height + 1, known⟩))
    (hb : HasFlow limits (some ⟨height, known⟩) body (some p)) (hp : p.Covers ⟨height, known⟩) :
    HasFlow limits (some ⟨height, known⟩) (Code.loop k condition body)
      (some ⟨height, known⟩) := by
  obtain ⟨ownc, hownc, hc⟩ := hc
  obtain ⟨ownb, hownb, hb⟩ := hb
  refine ⟨[(.nth k, ⟨height, known⟩)] ++ ownc ++ ownb ++ [(.nth (k + 1), ⟨height, known⟩)], ?_,
    fun labels hsub => ?_⟩
  · simp only [List.map_append, hownc, hownb, CodeUnit.placements_loop]
    rfl
  · simp only [List.append_subset, List.cons_subset, List.nil_subset, and_true] at hsub
    obtain ⟨⟨⟨hstart, hsubc⟩, hsubb⟩, hend⟩ := hsub
    have hlabel : Fits limits labels (some ⟨height, known⟩) (.label (.nth k))
        (some ⟨height, known⟩) := by
      refine .label hstart fun q hq => ?_
      cases hq
      exact .refl _
    have htop := (Flows.one hlabel).append (hc labels hsubc)
    have hbody := (htop.append (.one (.jumpIf .eq hend (.refl _)))).append (hb labels hsubb)
    exact hbody.append (.cons (.jump hstart hp) (.one (.label hend nofun)))

/-- An assertion has room for the error, also if it holds: the instructions that make the error are
part of the code, and a certificate is about all of it. -/
theorem assertion (hle : height + 3 ≤ limits.top) :
    HasFlow limits (some ⟨height + 1, known⟩) (Code.assertion k) (some ⟨height, known⟩) := by
  refine ⟨[(.nth k, ⟨height, known⟩)], rfl, fun labels hsub => ?_⟩
  have hend := List.cons_subset.1 hsub |>.1
  have hnew : Fits limits labels (some ⟨height, known⟩) (.new Emit.assertionClass)
      (some ⟨height + 1, known⟩) := .plain rfl ⟨0, height, rfl, rfl, rfl⟩ (by omega)
  have hdup : Fits limits labels (some ⟨height + 1, known⟩) .dup (some ⟨height + 2, known⟩) :=
    .plain rfl ⟨1, height, rfl, rfl, rfl⟩ (by omega)
  have hpush : Fits limits labels (some ⟨height + 2, known⟩) (.push (.string "Assertion failed"))
      (some ⟨height + 3, known⟩) := .plain rfl ⟨0, height + 2, rfl, rfl, rfl⟩ hle
  have hinit : Fits limits labels (some ⟨height + 3, known⟩)
      (.invoke .special ⟨Emit.assertionClass, "<init>", "(Ljava/lang/Object;)V"⟩)
      (some ⟨height + 1, known⟩) := .plain rfl ⟨2, height + 1, rfl, rfl, rfl⟩ (by omega)
  exact .cons (.jumpIf .ne hend (.refl _)) <| .cons hnew <| .cons hdup <| .cons hpush <|
    .cons hinit <| .cons .throw <| .one (.label hend nofun)

theorem println {type : OperandType} {descriptor : String}
    (h : type.printDescriptor? = some descriptor) (hle : height ≤ limits.top) :
    HasFlow limits (some ⟨height + 2, known⟩) [Code.println descriptor]
      (some ⟨height, known⟩) :=
  plain rfl ⟨2, height, Code.takes?_println h, rfl, rfl⟩ hle

theorem sleep (hle : height + 1 ≤ limits.top) :
    HasFlow limits (some ⟨height + 1, known⟩) Code.sleep (some ⟨height, known⟩) := by
  have hconvert : HasFlow limits (some ⟨height + 1, known⟩) [.convert .i2l]
      (some ⟨height + 1, known⟩) := plain rfl ⟨1, height, rfl, rfl, rfl⟩ hle
  exact hconvert.append (plain rfl ⟨1, height, rfl, rfl, rfl⟩ (by omega))

/-- The start of a task has room for four references at once, which are those to the thread and to
the task, each of them twice. -/
theorem spawn (task : String) (hle : height + 4 ≤ limits.top) :
    HasFlow limits (some ⟨height, known⟩) (Code.spawn task) (some ⟨height, known⟩) := by
  have hthread : HasFlow limits (some ⟨height, known⟩) [.new Emit.threadClass]
      (some ⟨height + 1, known⟩) := plain rfl ⟨0, height, rfl, rfl, rfl⟩ (by omega)
  have hdup : HasFlow limits (some ⟨height + 1, known⟩) [.dup] (some ⟨height + 2, known⟩) :=
    plain rfl ⟨1, height, rfl, rfl, rfl⟩ (by omega)
  have htask : HasFlow limits (some ⟨height + 2, known⟩) [.new task] (some ⟨height + 3, known⟩) :=
    plain rfl ⟨0, height + 2, rfl, rfl, rfl⟩ (by omega)
  have hdup' : HasFlow limits (some ⟨height + 3, known⟩) [.dup] (some ⟨height + 4, known⟩) :=
    plain rfl ⟨1, height + 2, rfl, rfl, rfl⟩ hle
  have hinit : HasFlow limits (some ⟨height + 4, known⟩)
      [.invoke .special ⟨task, "<init>", "()V"⟩] (some ⟨height + 3, known⟩) :=
    plain rfl ⟨1, height + 3, Code.takes?_init task, rfl, rfl⟩ (by omega)
  have hbind : HasFlow limits (some ⟨height + 3, known⟩)
      [.invoke .special ⟨Emit.threadClass, "<init>", "(Ljava/lang/Runnable;)V"⟩]
      (some ⟨height + 1, known⟩) := plain rfl ⟨2, height + 1, rfl, rfl, rfl⟩ (by omega)
  have hstart : HasFlow limits (some ⟨height + 1, known⟩)
      [.invoke .virtual ⟨Emit.threadClass, "start", "()V"⟩] (some ⟨height, known⟩) :=
    plain rfl ⟨1, height, rfl, rfl, rfl⟩ (by omega)
  exact hthread.append <| hdup.append <| htask.append <| hdup'.append <| hinit.append <|
    hbind.append hstart

end HasFlow

end Walk

open Walk

variable {limits : Limits} {known : List String}

/-! ### Compiled code -/

/-- **The code of an expression** puts one value on the stack and reads what stands in it. The
variables in it have to be set, or be among those that may be read all the same. -/
theorem Expr.HasCode.walkFlow {e : Expr} {T : SymbolTable} {k k' : Nat} {code : List Instruction}
    {type : OperandType} (h : e.HasCode T k code type k') (hT : T.Within limits.table)
    (hreads : ∀ name ∈ e.reads, name ∈ known ∨ name ∈ limits.free) (height : Nat)
    (htop : height + e.peak ≤ limits.top) :
    HasFlow limits (some ⟨height, known⟩) code (some ⟨height + 1, known⟩) := by
  induction h generalizing height with
  | literal => exact .push _ htop
  | @var _ _ name info _ hinfo _ =>
    exact .one rfl fun _ => .load (hT hinfo) (hreads name List.mem_cons_self) htop
  | arith _ _ _ ihl ihr =>
    simp only [Expr.peak, Expr.reads, List.forall_mem_append] at htop hreads
    have hleft := ihl hreads.1 height (by omega)
    have hright := ihr hreads.2 (height + 1) (by omega)
    exact (hleft.append hright).append (.arith _ _ (by omega))
  | @cast _ _ _ _ operand _ _ _ _ _ ih =>
    have hpos := operand.peak_pos
    simp only [Expr.peak] at htop
    exact (ih hreads height htop).append (.conversion _ (by omega))
  | @and _ _ _ _ left _ _ _ _ _ _ _ _ _ ihl ihr | @or _ _ _ _ left _ _ _ _ _ _ _ _ _ ihl ihr =>
    have hpos := left.peak_pos
    simp only [Expr.peak, Expr.reads, List.forall_mem_append] at htop hreads
    exact (ihl hreads.1 height (by omega)).choice (ihr hreads.2 height (by omega))
      (.push _ (by omega)) (.refl _) (.refl _)
  | @not _ _ _ operand _ _ _ _ ih =>
    have hpos := operand.peak_pos
    simp only [Expr.peak] at htop
    exact (ih hreads height htop).choice (.push _ (by omega)) (.push _ (by omega)) (.refl _)
      (.refl _)
  | @compare _ _ _ _ _ left _ _ _ _ _ _ _ ihl ihr =>
    have hpos := left.peak_pos
    simp only [Expr.peak, Expr.reads, List.forall_mem_append] at htop hreads
    have hleft := ihl hreads.1 height (by omega)
    have hright := ihr hreads.2 (height + 1) (by omega)
    have hdifference := (hleft.append hright).append (.arith .sub .int (by omega))
    exact hdifference.choice (.push _ (by omega)) (.push _ (by omega)) (.refl _) (.refl _)

/-- **The code of a statement** reads nothing before it is set but what is exposed, and what it
settles is set after it. The stack is empty on both sides, so that the height that counts is that of
the expressions in it. -/
theorem Stmt.HasCode.walkFlow {s : Stmt} {w : World} {d d' : Draft} {code : List Instruction}
    (h : s.HasCode w d code d') (hd : d'.table.Within limits.table)
    (hreads : ∀ name ∈ s.exposed, name ∈ known ∨ name ∈ limits.free)
    (htop : s.peak ≤ limits.top) :
    HasFlow limits (some ⟨0, known⟩) code (some ⟨0, known ++ s.settles⟩) := by
  induction h generalizing known with
  | nothing =>
    rw [Stmt.settles, List.append_nil]
    exact .nil
  | @sequence _ _ _ _ _ first rest _ _ _ h₂ ih₁ ih₂ =>
    simp only [Stmt.peak, Nat.max_le] at htop
    simp only [Stmt.exposed, List.forall_mem_append, List.mem_filter, decide_eq_true_eq] at hreads
    have hfirst := ih₁ (h₂.within.trans hd) hreads.1 htop.1
    have hrest : ∀ name ∈ rest.exposed, name ∈ known ++ first.settles ∨ name ∈ limits.free := by
      intro name hname
      by_cases hsettled : name ∈ first.settles
      · exact .inl (List.mem_append_right _ hsettled)
      · exact (hreads.2 name ⟨hname, hsettled⟩).imp_left (List.mem_append_left _)
    rw [Stmt.settles, ← List.append_assoc]
    exact hfirst.append (ih₂ hd hrest htop.2)
  | block _ ih => exact ih hd hreads htop
  | @assign _ _ _ _ name _ _ _ _ _ _ hc hslot _ =>
    have hlookup := hd ((hslot.lookup_eq name).trans (if_pos rfl))
    have hvalue := hc.walkFlow (hslot.within.trans hd) hreads 0 (by rwa [Nat.zero_add])
    refine hvalue.append (.one rfl fun _ => .store hlookup ?_)
    simp [Stmt.settles]
  | print hc hprint =>
    simp only [Stmt.peak] at htop
    have hprinter : HasFlow limits (some ⟨0, known⟩) [Code.printer] (some ⟨1, known⟩) :=
      .plain rfl ⟨0, 0, rfl, rfl, rfl⟩ (by omega)
    rw [Stmt.settles, List.append_nil]
    exact (hprinter.append (hc.walkFlow hd hreads 1 htop)).append (.println hprint (Nat.zero_le _))
  | assert hc _ =>
    simp only [Stmt.peak, Nat.max_le] at htop
    rw [Stmt.settles, List.append_nil]
    exact (hc.walkFlow hd hreads 0 (by omega)).append (.assertion htop.2)
  | @sleep _ _ _ _ duration _ _ hc _ =>
    have hpos := duration.peak_pos
    simp only [Stmt.peak] at htop
    rw [Stmt.settles, List.append_nil]
    exact (hc.walkFlow hd hreads 0 (by omega)).append (.sleep (by omega))
  | ifThen hc _ hb ih =>
    simp only [Stmt.peak, Nat.max_le] at htop
    simp only [Stmt.exposed, List.forall_mem_append] at hreads
    have hcondition := hc.walkFlow (hb.within.trans hd) hreads.1 0 (by omega)
    rw [Stmt.settles, List.append_nil]
    exact hcondition.option (ih hd hreads.2 htop.2) ⟨rfl, List.subset_append_left _ _⟩
  | @ifElse _ _ _ _ _ _ _ thenBranch elseBranch _ _ _ _ hc _ ht he iht ihe =>
    simp only [Stmt.peak, Nat.max_le] at htop
    simp only [Stmt.exposed, List.forall_mem_append] at hreads
    have hcondition := hc.walkFlow ((ht.within.trans he.within).trans hd) hreads.1.1 0 (by omega)
    have hthen := iht (he.within.trans hd) hreads.1.2 htop.2.1
    have helse := ihe hd hreads.2 htop.2.2
    refine hcondition.choice hthen helse ⟨rfl, ?_⟩ ⟨rfl, ?_⟩
    all_goals
      refine List.append_subset.2 ⟨List.subset_append_left _ _, fun name hname => ?_⟩
      obtain ⟨hthen, helse⟩ := List.mem_filter.1 hname
      refine List.mem_append_right _ ?_
    · exact hthen
    · exact of_decide_eq_true helse
  | loop hc _ hb ih =>
    simp only [Stmt.peak, Nat.max_le] at htop
    simp only [Stmt.exposed, List.forall_mem_append] at hreads
    have hcondition := hc.walkFlow (hb.within.trans hd) hreads.1 0 (by omega)
    rw [Stmt.settles, List.append_nil]
    exact hcondition.loop (ih hd hreads.2 htop.2) ⟨rfl, List.subset_append_left _ _⟩
  | spawn | spawnInline =>
    rw [Stmt.settles, List.append_nil]
    exact .spawn _ htop

/-! ### Whole units -/

/-- **A unit of a tree has a certificate** for the height that the compiler has counted and the
exposed variables of the tree. What a certificate is good for is said once, of any unit
(`StackUnits.Proofs.Walks`); that there is one is all that has to be known of compiled code. -/
theorem Stmt.HasCode.walkCertifies {s : Stmt} {w : World} {units : List CodeUnit} {d : Draft}
    {code : List Instruction} (h : s.HasCode w (.fresh units) code d) {unit : CodeUnit}
    (hinstructions : unit.instructions = code ++ [.ret]) (hlabels : unit.checkLabels = .ok ()) :
    ∃ labels, Certifies ⟨d.table, s.peak, s.exposed⟩ labels unit := by
  have hbody : HasFlow ⟨d.table, s.peak, s.exposed⟩ (some ⟨0, []⟩) code (some ⟨0, s.settles⟩) :=
    h.walkFlow (fun _ _ => id) (fun _ => .inr) (Nat.le_refl _)
  obtain ⟨labels, hplaces, hflows⟩ := hbody.append (.one rfl fun _ => .ret)
  rw [← hinstructions] at hplaces hflows
  exact ⟨labels, hlabels, hplaces, hflows labels (List.Subset.refl _)⟩

end StackUnits
