import Mathlib.Algebra.Group.Nat.Defs
import StackUnits.Proofs.Acceptance
import StackUnits.Proofs.Bodies

/-!
# The stack size that a unit states

A unit states how many values its stack needs room for, as a number of sixteen bits. The number
comes from a count that has no such bound: how many types were on the type stack at most while
the body was compiled, which is also how high the stack gets at most in the code
(`StackUnits.CodeUnit.HighWater`). This file says what the unit keeps of that mark.

* `StackUnits.Session.statesSize_of_compileNamed` – every unit of a compilation states the last
  sixteen bits of its mark. It states the mark itself, and a size that is enough for its code,
  exactly if the mark is below `2 ^ 16`. That is so if its tree has fewer than `2 ^ 16` levels,
  for a value is kept on the stack only while an operand below its own node is computed
  (`StackUnits.Tree.peak_body_le`).
* `StackUnits.Session.maxStack_tower` – with one level more it is not: there is a sum of so many
  levels whose unit states the size zero, and has `2 ^ 16` values on the stack when it runs.
-/

namespace StackUnits

/-! ### Marks of trees -/

namespace Tree

theorem depth_node (tag : Tag) (left right : Option Tree) :
    (node tag left right).depth = 1 + max (left.elim 0 depth) (right.elim 0 depth) := by
  cases left <;> cases right <;> rfl

/-- An expression needs room for at most one value on each of its levels: a left operand waits while
the right one is computed. -/
theorem peak_toExpr_le (t : Tree) : t.toExpr.peak ≤ t.depth := by
  induction t with
  | node tag left right ihl ihr =>
    generalize he : (node tag left right).toExpr = e
    rw [depth_node]
    cases readsExpr_of_eq he with
    | fault | literal | var => exact Nat.le_add_right 1 _
    | arith | and | or | compare =>
      have := ihl _ rfl
      have := ihr _ rfl
      simp only [Expr.peak, Option.elim_some]
      omega
    | cast | not =>
      have := ihl _ rfl
      simp only [Expr.peak, Option.elim_some]
      omega

/-- A statement needs room for at most one value on each of its levels, apart from the four with
which a task is started. -/
theorem peak_body_le (o : Option Tree) : (body o).peak ≤ max 4 (o.elim 0 depth) := by
  induction o using part_induction with
  | absent => exact Nat.zero_le _
  | node tag left right hl hr =>
    generalize hs : body (some (node tag left right)) = s
    rw [Option.elim_some, depth_node]
    cases readsStmt_of_eq hs with
    | fault => exact Nat.zero_le _
    | spawn | spawnInline => exact Nat.le_max_left 4 _
    | sequence | block =>
      simp only [Stmt.peak]
      omega
    | @assign _ _ _ _ value | @print _ value | @assert _ value | @sleep _ value =>
      have := peak_toExpr_le value
      simp only [Stmt.peak, Option.elim_some]
      omega
    | @ifThen _ condition | @loop _ condition =>
      have := peak_toExpr_le condition
      simp only [Stmt.peak, Option.elim_some, body_some] at hr ⊢
      omega
    | @ifElse _ condition _ _ _ _ hinner =>
      have := peak_toExpr_le condition
      -- The two branches stand in a node of their own, which is counted as a sequence.
      rw [body_some, (ReadsStmt.sequence hinner).eq] at hr
      simp only [Stmt.peak, Option.elim_some, body_some] at hr ⊢
      omega

end Tree

/-! ### Units and their sizes -/

/-- **What a unit says of its stack**, for the body of a tree that has the given mark. -/
structure CodeUnit.StatesSize (unit : CodeUnit) (t : Tree) (mark : Nat) : Prop where
  /-- The unit is what the body is compiled to, -/
  compiled : ∃ session tag cx, Emit.wholeUnit unit.name unit.kind tag t.toStmt.compile
    { session := session, unitName := unit.name } = .ok unit cx
  /-- and the mark is what the type stack has counted at the end of the body, in any session. -/
  counted : ∀ {session name kind tag unit' cx}, Emit.wholeUnit name kind tag t.toStmt.compile
    { session := session, unitName := name } = .ok unit' cx → cx.types.maxDepth = mark
  highWater : unit.HighWater mark
  toNat_maxStack : unit.maxStack.toNat = mark % 2 ^ 16
  exact_iff : unit.maxStack.toNat = mark ↔ mark < 2 ^ 16
  enough_iff : (∀ height, unit.Attains height → height ≤ unit.maxStack.toNat) ↔ mark < 2 ^ 16
  runs : mark < 2 ^ 16 → ∀ {floats n effects s},
    Machine.Leads floats unit n .start effects (.ok s) → s.stack.length ≤ unit.maxStack.toNat
  fits : t.depth < 2 ^ 16 → mark < 2 ^ 16

namespace CodeUnit.IsOf

variable {unit : CodeUnit} {t : Tree}

/-- **A unit of a tree is compiled from it**, in a session that knows what the units around it have
left. So the mark of a unit is one that the compiler has counted. -/
theorem exists_wholeUnit (h : unit.IsOf t) (tag : Tag) :
    ∃ session cx, Emit.wholeUnit unit.name unit.kind tag t.toStmt.compile
      { session := session, unitName := unit.name } = .ok unit cx := by
  obtain ⟨w, units, code, d, hcode, heq, hlabels⟩ := h
  let session : Session := ⟨w.config, w.resolver, units, w.begun, []⟩
  have hat : Context.At { session := session, unitName := unit.name, symbols := .enterScope {} }
      w (.fresh units) :=
    ⟨⟨rfl, rfl, rfl, rfl⟩, rfl, rfl, Nat.le_refl 0⟩
  obtain ⟨cx, hbody, harrives⟩ := Stmt.compile_complete hcode hat
  have hframes := (hcode.tidy (SymbolTable.tidy_fresh units)).frames_ne_nil
  obtain ⟨table, htable⟩ := harrives.stands.exists_exitScope hframes
  have hunit := heq.trans (Session.finish_eq unit.kind harrives htable).symm
  exact ⟨session, _, Emit.wholeUnit_eq_ok.2
    ⟨cx, _, hbody, htable, harrives.depth_eq, rfl, hunit, hlabels⟩⟩

/-- What the body of a tree needs is attained by a walk through the unit, and not exceeded by
any. -/
theorem highWater (h : unit.IsOf t) : unit.HighWater t.toStmt.peak := by
  obtain ⟨w, units, code, d, hcode, heq, hlabels⟩ := h
  exact hcode.highWater (by rw [heq]; rfl) hlabels

theorem toNat_maxStack (h : unit.IsOf t) : unit.maxStack.toNat = t.toStmt.peak % 2 ^ 16 := by
  obtain ⟨w, units, code, d, -, heq, -⟩ := h
  rw [heq]
  exact UInt16.toNat_ofNat'

/-- **A unit of a tree states the last sixteen bits** of what its body needs. The compiler counts
without a bound, and cuts the number down when the unit is finished. -/
theorem statesSize (h : unit.IsOf t) : unit.StatesSize t t.toStmt.peak := by
  have hmark := h.highWater
  have hstored := h.toNat_maxStack
  have hexact : unit.maxStack.toNat = t.toStmt.peak ↔ t.toStmt.peak < 2 ^ 16 := by
    rw [hstored]
    omega
  refine ⟨?_, ?_, hmark, hstored, hexact, ?_, ?_, fun hdepth => ?_⟩
  · obtain ⟨session, cx, hcompiled⟩ := h.exists_wholeUnit t.tag
    exact ⟨session, t.tag, cx, hcompiled⟩
  · intro session name kind tag unit' cx hcompiled
    obtain ⟨cx₁, table, hbody, -, -, rfl, -, -⟩ := Emit.wholeUnit_eq_ok.1 hcompiled
    obtain ⟨w, code, d, -, harrives⟩ := Stmt.exists_arrives_of_compile hbody
    exact harrives.maxDepth_eq
  · -- The mark is attained, so a smaller size is not enough.
    constructor
    · intro henough
      have hle := henough _ hmark.greatest.1
      omega
    · intro hlt height hattains
      rw [hexact.2 hlt]
      exact hmark.greatest.2 hattains
  · intro hlt floats n effects s hrun
    rw [hexact.2 hlt]
    exact hmark.runs hrun
  · have hle : t.toStmt.peak ≤ max 4 t.depth := Tree.peak_body_le (some t)
    omega

end CodeUnit.IsOf

/-- **The stack sizes of a compilation**: every unit states the last sixteen bits of its mark, which
is all of it exactly if the mark is below `2 ^ 16`.

The mark is that of the compiler as well as that of the code. A bound on the depth of the tree comes
with it, as one that can be seen without compiling. -/
theorem Session.statesSize_of_compileNamed {name : String} {tree : Tree}
    {session after : Session} {c : Compilation}
    (h : compileNamed name tree session = .ok c after) :
    (∃ mark, c.program.StatesSize tree mark) ∧ List.Forall₂ (fun task unit =>
      unit.name = task.1 ∧ ∃ mark, unit.StatesSize task.2 mark) tree.inlineTasks c.tasks := by
  obtain ⟨hprogram, htasks⟩ := units_of_compileNamed h
  refine ⟨⟨_, hprogram.statesSize⟩, htasks.imp ?_⟩
  rintro task unit ⟨hname, hunit⟩
  exact ⟨hname, _, hunit.statesSize⟩

theorem Session.statesSize_countdown :
    ∃ c after, compileNamed "Main" .countdown .bare = .ok c after ∧
      c.program.StatesSize .countdown 4 ∧ c.program.maxStack = 4 ∧
      c.tasks.map CodeUnit.name = ["Worker"] := by
  have hcompile : ∃ c after, compileNamed "Main" .countdown .bare = .ok c after ∧
      c.program.maxStack = 4 ∧ c.tasks.map CodeUnit.name = ["Worker"] :=
    exists_compileNamed_bare (by decide +kernel)
  obtain ⟨c, after, h, hsize, htasks⟩ := hcompile
  obtain ⟨mark, hmark⟩ := (statesSize_of_compileNamed h).1
  have hdepth : Tree.countdown.depth < 2 ^ 16 := by decide +kernel
  obtain rfl : 4 = mark := by
    rw [← hmark.exact_iff.2 (hmark.fits hdepth), hsize]
    rfl
  exact ⟨c, after, h, hmark, hsize, htasks⟩

/-! ### A tower of sums -/

namespace Tree

/-- One more than the sum of `n` ones, each of which waits for the rest of the sum. -/
def nestedSum : Nat → Tree
  | 0 => ofInteger "1"
  | n + 1 => binary .add (ofInteger "1") (nestedSum n)

/-- A program that prints a nested sum. -/
def tower (n : Nat) : Tree :=
  unary .print (nestedSum n)

theorem depth_nestedSum (n : Nat) : (nestedSum n).depth = n + 1 := by
  induction n with
  | zero => rfl
  | succ n ih =>
    rw [nestedSum, binary, depth_node, Option.elim_some, Option.elim_some, ih]
    change 1 + max 1 (n + 1) = _
    omega

theorem depth_tower (n : Nat) : (tower n).depth = n + 2 := by
  rw [tower, unary, depth_node, Option.elim_some, depth_nestedSum]
  change 1 + max (n + 1) 0 = _
  omega

theorem toExpr_one : (ofInteger "1").toExpr = .literal ⟨.literalInteger, some "1"⟩ (.int 1) .int :=
  ReadsExpr.eq (.literal rfl (by decide))

theorem toExpr_nestedSum_succ (n : Nat) : (nestedSum (n + 1)).toExpr =
    .arith ⟨.add, none⟩ .add (ofInteger "1").toExpr (nestedSum n).toExpr :=
  ReadsExpr.eq (.arith rfl)

theorem toStmt_tower (n : Nat) : (tower n).toStmt = .print ⟨.print, none⟩ (nestedSum n).toExpr :=
  ReadsStmt.eq (.print rfl)

theorem peak_nestedSum (n : Nat) : (nestedSum n).toExpr.peak = n + 1 := by
  induction n with
  | zero => rw [nestedSum, toExpr_one, Expr.peak]
  | succ n ih =>
    rw [toExpr_nestedSum_succ, Expr.peak, ih, toExpr_one, Expr.peak]
    omega

theorem peak_tower (n : Nat) : (tower n).toStmt.peak = n + 2 := by
  rw [toStmt_tower, Stmt.peak, peak_nestedSum, Nat.add_comm]

/-- A nested sum is computed in two goes: all of its ones are pushed before the first of them is
added. So the room that it needs grows with its depth. -/
theorem hasCode_nestedSum (table : SymbolTable) (k n : Nat) :
    (nestedSum n).toExpr.HasCode table k
      (List.replicate (n + 1) (.push (.int 1)) ++ List.replicate n (.arith .add .int)) .int k := by
  induction n with
  | zero =>
    rw [nestedSum, toExpr_one]
    exact .literal
  | succ n ih =>
    have hlist : [.push (.int 1)] ++ (List.replicate (n + 1) (.push (.int 1)) ++
        List.replicate n (.arith .add .int)) ++ [Instruction.arith .add .int] =
        List.replicate (n + 2) (.push (.int 1)) ++ List.replicate (n + 1) (.arith .add .int) := by
      rw [List.replicate_succ' (n := n) (a := Instruction.arith .add .int)]
      simp only [List.append_assoc]
      rfl
    rw [toExpr_nestedSum_succ, ← hlist, toExpr_one]
    exact .arith .literal ih rfl

end Tree

/-- The code of a tower. -/
def Code.tower (n : Nat) : List Instruction :=
  [Code.printer] ++ (List.replicate (n + 1) (.push (.int 1)) ++
    List.replicate n (.arith .add .int)) ++ [Code.println "(I)V"]

theorem Tree.hasCode_tower (w : World) (d : Draft) (n : Nat) :
    (tower n).toStmt.HasCode w d (Code.tower n) d := by
  rw [toStmt_tower]
  exact .print (hasCode_nestedSum d.table d.labels n) rfl

namespace Machine

variable {floats : Floats} {unit : CodeUnit} {pc : Nat} {stack : List Value} {locals : Locals}
  {heap : Heap}

/-- Constants pushed one after the other are on the stack together. -/
theorem reaches_replicate_push {constant : Constant} {n : Nat}
    (h : unit.HasAt pc (List.replicate n (.push constant))) :
    Reaches floats unit ⟨pc, stack, locals, heap⟩ []
      ⟨pc + n, List.replicate n constant.toValue ++ stack, locals, heap⟩ := by
  induction n generalizing pc stack with
  | zero => exact .refl
  | succ n ih =>
    rw [List.replicate_succ] at h
    have hrest : Reaches floats unit ⟨pc, stack, locals, heap⟩ [] ⟨pc + 1 + n,
        List.replicate n constant.toValue ++ constant.toValue :: stack, locals, heap⟩ :=
      (reaches_push h).trans (ih h.tail)
    rw [Nat.add_right_comm, Nat.add_assoc] at hrest
    rw [List.replicate_succ', List.append_assoc]
    exact hrest

end Machine

/-- **A tower compiles**, and its runs have all of its ones on the stack. This is for towers of any
height, so that the one below need not be computed. -/
theorem Session.exists_compileNamed_tower (session : Session) {name : String}
    (hname : PlainName name) (n : Nat) :
    ∃ c after, compileNamed name (.tower n) session = .ok c after ∧
      c.program.StatesSize (.tower n) (n + 2) ∧
      ∀ floats, ∃ steps s, Machine.Leads floats c.program steps .start [] (.ok s) ∧
        s.stack.length = n + 2 := by
  have hcode := Tree.hasCode_tower (.ofProgram session.config session.resolver name) (.fresh []) n
  have hlabels : ((Draft.fresh []).unit name .program (Tree.tower n).toStmt.peak
      (Code.tower n)).checkLabels = .ok () :=
    hcode.checkLabels_unit.2 (Nat.zero_le _)
  obtain ⟨after, h⟩ := (compileNamed_iff session).2 ⟨hname, _, _, hcode, rfl, hlabels⟩
  refine ⟨_, after, h, ?_, fun floats => ?_⟩
  · have hsize := (units_of_compileNamed h).1.statesSize
    rw [Tree.peak_tower] at hsize ⊢
    exact hsize
  · have hat : CodeUnit.HasAt ((Draft.fresh []).unit name .program (Tree.tower n).toStmt.peak
        (Code.tower n)) 0 (Code.tower n) := ⟨[], [.ret], rfl, rfl⟩
    obtain ⟨steps, hrun⟩ := (Machine.reaches_printer hat.left.left).trans
      (Machine.reaches_replicate_push hat.left.right.left)
    refine ⟨steps, _, hrun, ?_⟩
    simp

/-- **A program can need more room than its unit states**: a tower of `2 ^ 16` levels compiles
into a unit that states none, and has `2 ^ 16` values on the stack when it runs. -/
theorem Session.maxStack_tower :
    ∃ c after, compileNamed "Main" (.tower 65534) .bare = .ok c after ∧
      (Tree.tower 65534).depth = 2 ^ 16 ∧ c.program.StatesSize (.tower 65534) (2 ^ 16) ∧
      c.program.maxStack = 0 ∧
      ∀ floats, ∃ steps s, Machine.Leads floats c.program steps .start [] (.ok s) ∧
        s.stack.length = 2 ^ 16 := by
  have hname : PlainName "Main" := by
    unfold PlainName
    decide
  obtain ⟨c, after, h, hsize, hruns⟩ := exists_compileNamed_tower .bare hname 65534
  have hzero : c.program.maxStack = 0 := UInt16.toNat_inj.1 hsize.toNat_maxStack
  exact ⟨c, after, h, Tree.depth_tower 65534, hsize, hzero, hruns⟩

end StackUnits
