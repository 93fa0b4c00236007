import StackUnits.Proofs.Roster

/-!
# Units do not see each other

The body of a task that is given on the spot is compiled in the middle of the unit around it, in the
same session. What of one unit could reach the code of another on that occasion is its variables,
its labels, or the depth of its stack; and nothing does. The code of a statement depends on the
symbol table and the number of labels at its beginning and on nothing else, in particular not on
the tasks that are finished or begun: those decide whether a statement compiles, and not into what
(`StackUnits.Stmt.HasCode.eq_of_hollow`).

Of a task that is given on the spot, only the name is in the code around it. So the statement is
about two programs that may differ in the bodies of their tasks. They are compared after both have
been **hollowed out** (`StackUnits.Tree.hollow`): the body of every such task is replaced by the
same empty one.

A unit of a program is compiled from nothing, and so is a program. Hence a task has the code that
its body has as a program (`StackUnits.Session.isolated_of_compileNamed`).
-/

namespace StackUnits

/-! ### Programs without the bodies of their tasks -/

namespace Tree

/-- **The tree without the bodies of its tasks**: every body of a task that is given on the spot is
replaced by an empty sequence. -/
def hollow : Tree → Tree
  | .node tag left right =>
    .node tag
      (match left with
        | some l => some (if tag.kind = .multitask then bare .sequence else l.hollow)
        | none => none)
      (match right with | some r => some r.hollow | none => none)

end Tree

/-- The statement without the bodies of its tasks. -/
def Stmt.hollow : Stmt → Stmt
  | .sequence tag first rest => .sequence tag first.hollow rest.hollow
  | .block tag body => .block tag body.hollow
  | .ifThen tag condition branch => .ifThen tag condition branch.hollow
  | .ifElse tag condition thenBranch elseBranch =>
    .ifElse tag condition thenBranch.hollow elseBranch.hollow
  | .loop tag condition body => .loop tag condition body.hollow
  | .spawnInline tag name _ _ =>
    .spawnInline tag name (Tree.bare .sequence).tag (Tree.bare .sequence).toStmt
  | s => s

namespace Tree

variable {tag : Tag} {left right : Option Tree}

/-- Where no task is given, both children are hollowed out. -/
theorem hollow_node (h : tag.kind ≠ .multitask) :
    (node tag left right).hollow = node tag (left.map hollow) (right.map hollow) := by
  cases left <;> cases right <;> simp [hollow, h]

/-- Where a task is given, it is replaced. -/
theorem hollow_multitask (h : tag.kind = .multitask) :
    (node tag left right).hollow =
      node tag (left.map fun _ => bare .sequence) (right.map hollow) := by
  cases left <;> cases right <;> simp [hollow, h]

theorem tag_hollow (t : Tree) : t.hollow.tag = t.tag := by
  obtain ⟨tag, left, right⟩ := t
  cases left <;> cases right <;> rfl

theorem map_toExpr_of_eq {o : Option Tree} (h : ∀ t, o = some t → t.hollow.toExpr = t.toExpr) :
    (o.map hollow).map toExpr = o.map toExpr := by
  cases o with
  | none => rfl
  | some t => exact congrArg some (h t rfl)

/-- No task is given in an expression, so that it is read as before. Its nodes may be of any kind,
and those that start a task are read as the same fault. -/
theorem toExpr_hollow (t : Tree) : t.hollow.toExpr = t.toExpr := by
  induction t with
  | node tag left right ihl ihr =>
    by_cases hkind : tag.kind = .multitask
    · rw [hollow_multitask hkind, toExpr_node, toExpr_node, Expr.ofParts, Expr.ofParts, hkind]
    · rw [hollow_node hkind, toExpr_node, toExpr_node, map_toExpr_of_eq ihl, map_toExpr_of_eq ihr]

theorem map_toExpr_hollow (o : Option Tree) : (o.map hollow).map toExpr = o.map toExpr :=
  map_toExpr_of_eq fun t _ => t.toExpr_hollow

/-- An assignment has no parts that are statements. -/
theorem hollow_ofAssign (tag : Tag) (target : Option Tag) (value : Option Expr) :
    (Stmt.ofAssign tag target value).hollow = Stmt.ofAssign tag target value := by
  unfold Stmt.ofAssign
  split
  · rfl
  · split
    · rfl
    · split <;> rfl

/-- **Hollowing out a tree hollows out the statement that it is read as.** So what is said of
statements can be said of trees, which is what programs are given as. -/
theorem body_hollow (o : Option Tree) : body (o.map hollow) = (body o).hollow := by
  induction o using part_induction with
  | absent => rfl
  | node tag left right ihl ihr =>
    rw [Option.map_some, body_some, body_some]
    cases hkind : tag.kind
    case multitask =>
      rw [hollow_multitask hkind, toStmt.eq_def, toStmt.eq_def]
      simp only [hkind]
      cases left <;> cases hname : tag.value <;>
        simp [Stmt.ofSpawn, hname, Stmt.hollow, Stmt.malformed]
    all_goals
      rw [hollow_node (by rw [hkind]; decide), toStmt.eq_def, toStmt.eq_def]
      simp only [hkind, map_toExpr_hollow]
    case sequence =>
      cases left <;> cases right <;> simp_all [Stmt.hollow, body]
    case block =>
      cases left <;> cases right <;> simp_all [Stmt.hollow, body, Stmt.ofBlock, Stmt.malformed]
    case assign =>
      have htag : (left.map hollow).map Tree.tag = left.map Tree.tag := by
        cases left with
        | none => rfl
        | some l => exact congrArg some l.tag_hollow
      rw [htag, hollow_ofAssign]
    case ifThen =>
      cases left <;> cases right <;> simp_all [Stmt.hollow, body, Stmt.ofIf, Stmt.malformed]
    case loop =>
      cases left <;> cases right <;> simp_all [Stmt.hollow, body, Stmt.ofLoop, Stmt.malformed]
    case ifElse =>
      rcases left with _ | condition
      · rfl
      rcases right with _ | ⟨inner, l, r⟩
      · rfl
      by_cases hinner : inner.kind = .sequence
      · -- The branches are the parts of a sequence, for which the hypothesis has been proved.
        have hne : inner.kind ≠ .multitask := by rw [hinner]; decide
        rw [Option.map_some, hollow_node hne, body_some, body_some,
          (ReadsStmt.sequence hinner).eq, (ReadsStmt.sequence hinner).eq, Stmt.hollow,
          Stmt.sequence.injEq] at ihr
        simp only [Option.map_some, hollow_node hne]
        cases l <;> cases r <;>
          simp_all [Stmt.hollow, body, Stmt.ofIfElse, Stmt.malformed]
      · obtain ⟨l', r', hhollow⟩ : ∃ l' r', (node inner l r).hollow = node inner l' r' := by
          cases l <;> cases r <;> exact ⟨_, _, rfl⟩
        simp [hhollow, Stmt.ofIfElse, hinner, Stmt.malformed, Stmt.hollow]
    case print | assert | sleep => cases left <;> rfl
    all_goals rfl

end Tree

/-! ### What code depends on -/

/-- **The code of an expression** is determined by the symbol table and the number of labels, and so
are its type and the number of labels after it. -/
theorem Expr.HasCode.unique {table table' : SymbolTable} {k k' k₁ k₁' : Nat} {e : Expr}
    {code code' : List Instruction} {type type' : OperandType}
    (h : HasCode table k e code type k₁) (h' : HasCode table' k' e code' type' k₁')
    (htable : table = table') (hk : k = k') : code = code' ∧ type = type' ∧ k₁ = k₁' := by
  subst htable hk
  induction h generalizing code' type' k₁' with
  | literal =>
    cases h'
    exact ⟨rfl, rfl, rfl⟩
  | var hinfo hkind =>
    cases h' with
    | var hinfo' hkind' =>
      obtain rfl := Option.some.inj (hinfo.symm.trans hinfo')
      obtain rfl := Option.some.inj (hkind.symm.trans hkind')
      exact ⟨rfl, rfl, rfl⟩
  | arith _ _ hfamily ihl ihr =>
    cases h' with
    | arith hl' hr' hfamily' =>
      obtain ⟨rfl, rfl, rfl⟩ := ihl hl'
      obtain ⟨rfl, -, rfl⟩ := ihr hr'
      obtain rfl := Option.some.inj (hfamily.symm.trans hfamily')
      exact ⟨rfl, rfl, rfl⟩
  | cast _ hconv ih =>
    cases h' with
    | cast hoperand' hconv' =>
      obtain ⟨rfl, rfl, rfl⟩ := ih hoperand'
      obtain rfl := Option.some.inj (hconv.symm.trans hconv')
      exact ⟨rfl, rfl, rfl⟩
  | and _ _ _ _ ihl ihr =>
    cases h' with
    | and hl' _ hr' _ =>
      obtain ⟨rfl, -, rfl⟩ := ihl hl'
      obtain ⟨rfl, -, rfl⟩ := ihr hr'
      exact ⟨rfl, rfl, rfl⟩
  | or _ _ _ _ ihl ihr =>
    cases h' with
    | or hl' _ hr' _ =>
      obtain ⟨rfl, -, rfl⟩ := ihl hl'
      obtain ⟨rfl, -, rfl⟩ := ihr hr'
      exact ⟨rfl, rfl, rfl⟩
  | not _ _ ih =>
    cases h' with
    | not hoperand' _ =>
      obtain ⟨rfl, -, rfl⟩ := ih hoperand'
      exact ⟨rfl, rfl, rfl⟩
  | compare _ _ _ ihl ihr =>
    cases h' with
    | compare hl' hr' _ =>
      obtain ⟨rfl, -, rfl⟩ := ihl hl'
      obtain ⟨rfl, -, rfl⟩ := ihr hr'
      exact ⟨rfl, rfl, rfl⟩

/-- An assignment has one slot and leads to one table. -/
theorem SymbolTable.Assigns.unique {table table₁ table₂ : SymbolTable} {name : String}
    {type : OperandType} {slot₁ slot₂ : UInt16} (h₁ : table.Assigns name type slot₁ table₁)
    (h₂ : table.Assigns name type slot₂ table₂) : slot₁ = slot₂ ∧ table₁ = table₂ := by
  unfold Assigns at h₁ h₂
  rcases hlookup : table.lookup name with _ | info
  · simp only [hlookup] at h₁ h₂
    rw [h₁, Except.ok.injEq, Prod.mk.injEq] at h₂
    exact h₂
  · simp only [hlookup] at h₁ h₂
    obtain ⟨rfl, rfl⟩ := h₁
    exact ⟨congrArg VarInfo.slot h₂.1, h₂.2.symm⟩

/-- **Two drafts of one unit**: the same variables and the same number of labels. The tasks that
have been finished so far may be different. -/
structure Draft.Matches (d d' : Draft) : Prop where
  table : d.table = d'.table
  labels : d.labels = d'.labels

namespace Stmt

/-- Room for values is not needed for what is in a task, which has a stack of its own. -/
theorem peak_hollow (s : Stmt) : s.hollow.peak = s.peak := by
  induction s with
  | sequence _ first rest ih₁ ih₂ => rw [hollow, peak, peak, ih₁, ih₂]
  | block _ body ih => exact ih
  | ifThen _ condition branch ih => rw [hollow, peak, peak, ih]
  | ifElse _ condition thenBranch elseBranch iht ihe => rw [hollow, peak, peak, iht, ihe]
  | loop _ condition body ih => rw [hollow, peak, peak, ih]
  | _ => rfl

/-- **The code of a statement** is determined by the symbol table and the number of labels, and the
bodies of tasks make no difference to it. The two statements may be compiled in different worlds and
after different tasks; the induction is on the code of the first, and the second has to have the
same form. -/
theorem HasCode.eq_of_hollow {s s' : Stmt} {w w' : World} {d d' d₁ d₁' : Draft}
    {code code' : List Instruction} (h : s.HasCode w d code d₁) (h' : s'.HasCode w' d' code' d₁')
    (hs : s.hollow = s'.hollow) (hd : d.Matches d') : code = code' ∧ d₁.Matches d₁' := by
  induction h generalizing s' d' code' d₁' with
  | nothing =>
    cases h' with
    | nothing => exact ⟨rfl, hd⟩
    | _ => cases hs
  | sequence _ _ ih₁ ih₂ =>
    cases h' with
    | sequence h₁' h₂' =>
      simp only [hollow, sequence.injEq] at hs
      obtain ⟨rfl, hd₁⟩ := ih₁ h₁' hs.2.1 hd
      obtain ⟨rfl, hd₂⟩ := ih₂ h₂' hs.2.2 hd₁
      exact ⟨rfl, hd₂⟩
    | _ => cases hs
  | block _ ih =>
    cases h' with
    | block hb' =>
      simp only [hollow, block.injEq] at hs
      exact ih hb' hs.2 hd
    | _ => cases hs
  | assign hc hslot hkind =>
    cases h' with
    | assign hc' hslot' hkind' =>
      cases hs
      obtain ⟨rfl, rfl, rfl⟩ := hc.unique hc' hd.table hd.labels
      rw [← hd.table] at hslot'
      obtain ⟨rfl, rfl⟩ := hslot.unique hslot'
      obtain rfl := Option.some.inj (hkind.symm.trans hkind')
      exact ⟨rfl, rfl, rfl⟩
    | _ => cases hs
  | print hc hprint =>
    cases h' with
    | print hc' hprint' =>
      cases hs
      obtain ⟨rfl, rfl, rfl⟩ := hc.unique hc' hd.table hd.labels
      obtain rfl := Option.some.inj (hprint.symm.trans hprint')
      exact ⟨rfl, hd.table, rfl⟩
    | _ => cases hs
  | assert hc =>
    cases h' with
    | assert hc' =>
      cases hs
      obtain ⟨rfl, -, rfl⟩ := hc.unique hc' hd.table hd.labels
      exact ⟨rfl, hd.table, rfl⟩
    | _ => cases hs
  | sleep hc =>
    cases h' with
    | sleep hc' =>
      cases hs
      obtain ⟨rfl, -, rfl⟩ := hc.unique hc' hd.table hd.labels
      exact ⟨rfl, hd.table, rfl⟩
    | _ => cases hs
  | ifThen hc _ _ ih =>
    cases h' with
    | ifThen hc' _ hb' =>
      simp only [hollow, ifThen.injEq] at hs
      obtain ⟨-, rfl, hbranch⟩ := hs
      obtain ⟨rfl, -, rfl⟩ := hc.unique hc' hd.table hd.labels
      obtain ⟨rfl, hd₁⟩ := ih hb' hbranch ⟨hd.table, rfl⟩
      exact ⟨rfl, hd₁⟩
    | _ => cases hs
  | ifElse hc _ _ _ iht ihe =>
    cases h' with
    | ifElse hc' _ ht' he' =>
      simp only [hollow, ifElse.injEq] at hs
      obtain ⟨-, rfl, hthen, helse⟩ := hs
      obtain ⟨rfl, -, rfl⟩ := hc.unique hc' hd.table hd.labels
      obtain ⟨rfl, hd₁⟩ := iht ht' hthen ⟨hd.table, rfl⟩
      obtain ⟨rfl, hd₂⟩ := ihe he' helse hd₁
      exact ⟨rfl, hd₂⟩
    | _ => cases hs
  | loop hc _ _ ih =>
    cases h' with
    | loop hc' _ hb' =>
      simp only [hollow, loop.injEq] at hs
      obtain ⟨-, rfl, hbody⟩ := hs
      obtain ⟨rfl, -, rfl⟩ := hc.unique hc' hd.table (congrArg (· + 2) hd.labels)
      obtain ⟨rfl, hd₁⟩ := ih hb' hbody ⟨hd.table, rfl⟩
      exact ⟨by rw [hd.labels], hd₁⟩
    | _ => cases hs
  | spawn =>
    cases h' with
    | spawn =>
      cases hs
      exact ⟨rfl, hd⟩
    | _ => cases hs
  | spawnInline =>
    cases h' with
    | spawnInline =>
      -- The body is not looked at: it has no part in the table or the labels of this unit.
      cases hs
      exact ⟨rfl, hd.table, hd.labels⟩
    | _ => cases hs

end Stmt

/-! ### Units -/

/-- **Units of two trees that differ in the bodies of tasks** differ in name and kind at most: both
begin with an empty table and no labels. -/
theorem CodeUnit.IsOf.eq_of_hollow {unit unit' : CodeUnit} {t t' : Tree} (h : unit.IsOf t)
    (h' : unit'.IsOf t') (ht : t.hollow = t'.hollow) :
    unit' = { unit with name := unit'.name, kind := unit'.kind } := by
  obtain ⟨w, units, code, d, hcode, hunit, -⟩ := h
  obtain ⟨w', units', code', d', hcode', hunit', -⟩ := h'
  have hs : t.toStmt.hollow = t'.toStmt.hollow := by
    have hbody := congrArg (fun t => Tree.body (some t)) ht
    rwa [← Option.map_some, ← Option.map_some, Tree.body_hollow, Tree.body_hollow] at hbody
  obtain ⟨rfl, hd⟩ := hcode.eq_of_hollow hcode' hs ⟨rfl, rfl⟩
  have hpeak : t.toStmt.peak = t'.toStmt.peak := by
    rw [← Stmt.peak_hollow, hs, Stmt.peak_hollow]
  rw [hunit, hunit']
  simp only [Draft.unit, hd.table, hpeak]

/-- Each task has its unit among them. -/
theorem UnitsOf.exists_of_mem {tasks : List (String × Tree)} {units : List CodeUnit}
    (h : UnitsOf tasks units) {name : String} {t : Tree} (ht : (name, t) ∈ tasks) :
    ∃ unit ∈ units, unit.name = name ∧ unit.IsOf t := by
  induction h with
  | nil => cases ht
  | cons hhead _ ih =>
    rcases List.mem_cons.1 ht with rfl | ht
    · exact ⟨_, List.mem_cons_self, hhead⟩
    · obtain ⟨unit, hunit, hof⟩ := ih ht
      exact ⟨unit, List.mem_cons_of_mem _ hunit, hof⟩

/-- **Units do not see each other.** Programs that differ in the bodies of their tasks only have the
same unit of the program; and a task that is given on the spot has the unit that its body has as a
program of that name, but for the kind. It does not matter in which session the other program is
compiled.

That the other program compiles is asked for and not concluded: a body may be accepted in its place
and refused alone, where the tasks that it starts are not known. -/
theorem Session.isolated_of_compileNamed {name : String} {tree : Tree} {session after : Session}
    {c : Compilation} (h : compileNamed name tree session = .ok c after) :
    (∀ tree' session' after' c', tree'.hollow = tree.hollow →
      compileNamed name tree' session' = .ok c' after' → c'.program = c.program) ∧
    ∀ task body, (task, body) ∈ tree.inlineTasks →
      ∃ unit, c.get? task = some unit ∧ unit.kind = .task ∧
        ∀ session' after' c', compileNamed task body session' = .ok c' after' →
          c'.program = { unit with kind := .program } := by
  obtain ⟨hprogram, htasks⟩ := units_of_compileNamed h
  obtain ⟨hname, hkind, hkinds⟩ := kinds_of_compileNamed h
  constructor
  · intro tree' session' after' c' htree h'
    obtain ⟨hname', hkind', -⟩ := kinds_of_compileNamed h'
    have heq := hprogram.eq_of_hollow (units_of_compileNamed h').1 htree.symm
    rwa [hname', hkind', ← hname, ← hkind] at heq
  · intro task body hmem
    obtain ⟨unit, hunit, htask, hof⟩ := htasks.exists_of_mem hmem
    have hget : c.get? task = some unit :=
      (wellNamed_of_compileNamed h).find?_eq_some_iff.2 ⟨List.mem_cons_of_mem _ hunit, htask⟩
    refine ⟨unit, hget, hkinds unit hunit, ?_⟩
    intro session' after' c' h'
    obtain ⟨hname', hkind', -⟩ := kinds_of_compileNamed h'
    have heq := hof.eq_of_hollow (units_of_compileNamed h').1 rfl
    rwa [hname', hkind', ← htask] at heq

/-- A program with a variable and a task that is given on the spot with the given body. -/
def Tree.around (body : Tree) : Tree :=
  ofList [ofAssign "x" (ofInteger "1"), ofInlineSpawn "Worker" body,
    binary .ifThen (binary .less (ofName "x") (ofInteger "2")) (unary .print (ofName "x"))]

/-- A body with a variable of the same name, of another type, and with labels. -/
def Tree.ownVariable : Tree :=
  ofList [ofAssign "x" (ofFloat "2.5"), unary .assert (unary .not (ofBool false)),
    unary .print (ofName "x")]

theorem Session.exists_of_run' {name : String} {tree : Tree} {session : Session}
    (h : ((compileNamed name tree).run' session).isSome = true) :
    ∃ c after, compileNamed name tree session = .ok c after := by
  obtain ⟨c, hc⟩ := Option.isSome_iff_exists.1 h
  exact ⟨c, Action.exists_of_run'_eq_some hc⟩

theorem Session.isolated_around :
    ∃ c after c₁ after₁ c₂ after₂ unit,
      compileNamed "Main" (.around .ownVariable) .bare = .ok c after ∧
      compileNamed "Main" (.around (.unary .sleep (.ofInteger "5"))) .bare = .ok c₁ after₁ ∧
      c₁.program = c.program ∧
      compileNamed "Worker" .ownVariable .bare = .ok c₂ after₂ ∧ c.get? "Worker" = some unit ∧
      c₂.program = { unit with kind := .program } := by
  have hc : ∃ c after, compileNamed "Main" (.around .ownVariable) .bare = .ok c after :=
    exists_of_run' (by decide +kernel)
  have hc₁ : ∃ c after,
      compileNamed "Main" (.around (.unary .sleep (.ofInteger "5"))) .bare = .ok c after :=
    exists_of_run' (by decide +kernel)
  have hc₂ : ∃ c after, compileNamed "Worker" .ownVariable .bare = .ok c after :=
    exists_of_run' (by decide +kernel)
  obtain ⟨c, after, h⟩ := hc
  obtain ⟨c₁, after₁, h₁⟩ := hc₁
  obtain ⟨c₂, after₂, h₂⟩ := hc₂
  obtain ⟨hprogram, htasks⟩ := isolated_of_compileNamed h
  obtain ⟨unit, hget, -, hunit⟩ := htasks "Worker" .ownVariable (by decide +kernel)
  exact ⟨c, after, c₁, after₁, c₂, after₂, unit, h, h₁,
    hprogram _ _ _ _ (by decide +kernel) h₁, h₂, hget, hunit _ _ _ h₂⟩

end StackUnits
