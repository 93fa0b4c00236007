import Mathlib.Data.List.Forall2
import StackUnits.Proofs.Compiled
import StackUnits.Proofs.Forms
import StackUnits.Tree.Build

/-!
# The units of a program

A program is compiled into a unit of its own and one unit for each task that it gives on the
spot. `StackUnits.Tree.inlineTasks` lists those tasks, each with its name and its tree, in the
order in which they are finished: a task stands after those given inside of it. The units
of a compilation are in the same order, and each of them holds the code of its tree
(`StackUnits.CodeUnit.IsOf`); what is proved of such a unit is therefore proved of every unit of
a compilation (`StackUnits.Session.units_of_compileNamed`).
-/

namespace StackUnits

/-! ### Tasks given on the spot -/

namespace Tree

/-- **The tasks that a program gives on the spot**, with their names, those inside of a task
before it. -/
def inlineTasks : Tree → List (String × Tree)
  | .node tag left right =>
    let inLeft := match left with | some l => l.inlineTasks | none => []
    let inRight := match right with | some r => r.inlineTasks | none => []
    match tag.kind with
    | .sequence => inLeft ++ inRight
    | .block => inLeft
    | .ifThen | .ifElse | .loop => inRight
    | .multitask =>
      match left, tag.value with
      | some task, some name => inLeft ++ [(name, task)]
      | _, _ => []
    | _ => []

/-- The tasks given on the spot in a part that may be absent. -/
def tasksIn (o : Option Tree) : List (String × Tree) :=
  match o with | some t => t.inlineTasks | none => []

variable {tag : Tag} {left right : Option Tree}

/-- The tasks of a sequence are those of its parts, in order. -/
theorem inlineTasks_sequence (h : tag.kind = .sequence) :
    (node tag left right).inlineTasks = tasksIn left ++ tasksIn right := by
  rw [inlineTasks.eq_def]
  simp only [h]
  rfl

theorem inlineTasks_block (h : tag.kind = .block) :
    (node tag left right).inlineTasks = tasksIn left := by
  rw [inlineTasks.eq_def]
  simp only [h]
  rfl

/-- Conditionals and loops have their tasks in what they may carry out. In a condition there are
none. -/
theorem inlineTasks_branch (h : tag.kind = .ifThen ∨ tag.kind = .ifElse ∨ tag.kind = .loop) :
    (node tag left right).inlineTasks = tasksIn right := by
  rw [inlineTasks.eq_def]
  rcases h with h | h | h
  all_goals
    simp only [h]
    rfl

/-- **A task that is given on the spot** comes after those that are given in it, as it is finished
later. -/
theorem inlineTasks_multitask {name : String} {task : Tree} (h : tag.kind = .multitask)
    (hname : tag.value = some name) :
    (node tag (some task) right).inlineTasks = task.inlineTasks ++ [(name, task)] := by
  rw [inlineTasks.eq_def]
  simp only [h, hname]

theorem inlineTasks_simple (h : tag.kind = .assign ∨ tag.kind = .print ∨ tag.kind = .assert ∨
    tag.kind = .sleep ∨ (tag.kind = .multitask ∧ left = none)) :
    (node tag left right).inlineTasks = [] := by
  rw [inlineTasks.eq_def]
  rcases h with h | h | h | h | ⟨h, rfl⟩
  all_goals simp only [h]

end Tree

/-- **A unit of a tree**: it holds code of the tree, compiled among some finished units, and
its labels are in order. -/
def CodeUnit.IsOf (unit : CodeUnit) (t : Tree) : Prop :=
  ∃ w units code d, t.toStmt.HasCode w (.fresh units) code d ∧
    unit = d.unit unit.name unit.kind t.toStmt.peak code ∧ unit.checkLabels = .ok ()

/-- The code of a unit of a tree ends with a return, and different names stand for different slots
in it, if there are enough of them. This is what proofs about whole units begin with. -/
theorem CodeUnit.IsOf.exists_code {unit : CodeUnit} {t : Tree} (h : unit.IsOf t)
    (hlocals : unit.locals.length ≤ 2 ^ 16) :
    ∃ w units code d, t.toStmt.HasCode w (.fresh units) code d ∧
      unit.instructions = code ++ [.ret] ∧ d.table.Separates ∧ unit.checkLabels = .ok () := by
  obtain ⟨w, units, code, d, hcode, heq, hlabels⟩ := h
  have hdeclared : d.table.declared.length ≤ 2 ^ 16 := by
    rw [heq] at hlocals
    simpa only [Draft.unit, SymbolTable.locals, List.length_reverse] using hlocals
  have htidy := hcode.tidy (SymbolTable.tidy_fresh units)
  exact ⟨w, units, code, d, hcode, by rw [heq]; rfl, htidy.separates hdeclared, hlabels⟩

/-- **Units of tasks**: each has the name and the code of its task. -/
def UnitsOf (tasks : List (String × Tree)) (units : List CodeUnit) : Prop :=
  List.Forall₂ (fun task unit => unit.name = task.1 ∧ unit.IsOf task.2) tasks units

theorem UnitsOf.append {tasks tasks' : List (String × Tree)} {units units' : List CodeUnit}
    (h : UnitsOf tasks units) (h' : UnitsOf tasks' units') :
    UnitsOf (tasks ++ tasks') (units ++ units') :=
  List.rel_append h h'

/-- **The tasks of a statement** are finished while it is compiled, in the order in which the tree
lists them. By induction on the code. -/
theorem Stmt.HasCode.exists_unitsOf {s : Stmt} {w : World} {d d' : Draft}
    {code : List Instruction} (h : s.HasCode w d code d') {o : Option Tree}
    (ho : Tree.body o = s) :
    ∃ units, d'.units = d.units ++ units ∧ UnitsOf (Tree.tasksIn o) units := by
  -- On the code and not on the tree: an inline task has a draft of its own.
  induction h generalizing o with
  | nothing =>
    rcases o with _ | t
    · exact ⟨[], (List.append_nil _).symm, .nil⟩
    · cases Tree.readsStmt_iff.2 ho
  | sequence _ _ ih₁ ih₂ =>
    obtain ⟨t, rfl, hreads⟩ := Tree.exists_readsStmt ho nofun
    cases hreads with
    | sequence hkind =>
      obtain ⟨units₁, heq₁, h₁⟩ := ih₁ rfl
      obtain ⟨units₂, heq₂, h₂⟩ := ih₂ rfl
      refine ⟨units₁ ++ units₂, by rw [heq₂, heq₁, List.append_assoc], ?_⟩
      rw [Tree.tasksIn, Tree.inlineTasks_sequence hkind]
      exact h₁.append h₂
  | block _ ih =>
    obtain ⟨t, rfl, hreads⟩ := Tree.exists_readsStmt ho nofun
    cases hreads with
    | block hkind =>
      rw [Tree.tasksIn, Tree.inlineTasks_block hkind]
      exact ih rfl
  | assign | print | assert | sleep | spawn =>
    obtain ⟨t, rfl, hreads⟩ := Tree.exists_readsStmt ho nofun
    cases hreads
    refine ⟨[], (List.append_nil _).symm, ?_⟩
    rw [Tree.tasksIn, Tree.inlineTasks_simple (by simp_all)]
    exact .nil
  | ifThen _ _ _ ih | loop _ _ _ ih =>
    obtain ⟨t, rfl, hreads⟩ := Tree.exists_readsStmt ho nofun
    cases hreads
    rw [Tree.tasksIn, Tree.inlineTasks_branch (by simp_all)]
    exact ih (Tree.body_some _)
  | ifElse _ _ _ _ iht ihe =>
    obtain ⟨t, rfl, hreads⟩ := Tree.exists_readsStmt ho nofun
    cases hreads with
    | ifElse hkind hinner =>
      obtain ⟨units₁, heq₁, h₁⟩ := iht (Tree.body_some _)
      obtain ⟨units₂, heq₂, h₂⟩ := ihe (Tree.body_some _)
      refine ⟨units₁ ++ units₂, by rw [heq₂, heq₁, List.append_assoc], ?_⟩
      rw [Tree.tasksIn, Tree.inlineTasks_branch (.inr (.inl hkind)), Tree.tasksIn,
        Tree.inlineTasks_sequence hinner]
      exact h₁.append h₂
  | spawnInline _ _ hc hlabels ih =>
    obtain ⟨t, rfl, hreads⟩ := Tree.exists_readsStmt ho nofun
    cases hreads with
    | spawnInline hkind hname =>
      obtain ⟨units, heq, hunits⟩ := ih (Tree.body_some _)
      refine ⟨_, (congrArg (· ++ _) heq).trans (List.append_assoc _ _ _), ?_⟩
      rw [Tree.tasksIn, Tree.inlineTasks_multitask hkind hname]
      exact hunits.append (.cons ⟨rfl, _, _, _, _, hc, rfl, hlabels⟩ .nil)

/-- **The units of a compilation** are those of the program and of its tasks. Each is the unit of
its own tree, so that a statement about the unit of a tree is one about every unit. -/
theorem Session.units_of_compileNamed {name : String} {tree : Tree} {session after : Session}
    {c : Compilation} (h : compileNamed name tree session = .ok c after) :
    c.program.IsOf tree ∧ UnitsOf tree.inlineTasks c.tasks := by
  obtain ⟨-, code, d, hcode, rfl, hlabels⟩ := (compileNamed_iff session).1 ⟨after, h⟩
  obtain ⟨units, heq, hunits⟩ := hcode.exists_unitsOf (Tree.body_some tree)
  rw [show d.units = units from heq]
  exact ⟨⟨_, _, _, _, hcode, rfl, hlabels⟩, hunits⟩

theorem UnitsOf.exists_isOf {tasks : List (String × Tree)} {units : List CodeUnit}
    (h : UnitsOf tasks units) {unit : CodeUnit} (hunit : unit ∈ units) : ∃ t, unit.IsOf t := by
  induction h with
  | nil => cases hunit
  | cons hhead _ ih =>
    rcases List.mem_cons.1 hunit with rfl | hunit
    · exact ⟨_, hhead.2⟩
    · exact ih hunit

theorem Session.exists_isOf_of_compileNamed {name : String} {tree : Tree}
    {session after : Session} {c : Compilation}
    (h : compileNamed name tree session = .ok c after) {unit : CodeUnit} (hunit : unit ∈ c.units) :
    ∃ t, unit.IsOf t := by
  obtain ⟨hprogram, htasks⟩ := units_of_compileNamed h
  rcases List.mem_cons.1 hunit with rfl | hunit
  · exact ⟨tree, hprogram⟩
  · exact htasks.exists_isOf hunit

/-! ### A program with two units -/

/-- A program that counts down from three and starts a task given on the spot. -/
def Tree.countdown : Tree :=
  ofList [ofAssign "x" (ofInteger "3"),
    binary .loop (binary .greater (ofName "x") (ofInteger "0"))
      (ofList [unary .print (ofName "x"),
        ofAssign "x" (binary .subtract (ofName "x") (ofInteger "1"))]),
    ofInlineSpawn "Worker" (unary .assert (ofBool false))]

/-- A session that knows no task by name. -/
def Session.bare : Session where
  resolver := Registry.resolver {}

/-- A compilation by a function whose result can be decided, as a run of the session. Concrete
programs are compiled in this way. -/
theorem Session.exists_compileNamed (config : Config) (resolver : Resolver) {tree : Tree}
    {P : Compilation → Prop} [DecidablePred P]
    (h : ((StackUnits.compile config resolver tree).toOption.any (P ·)) = true) :
    ∃ c after, compileNamed config.programName tree { config := config, resolver := resolver } =
      .ok c after ∧ P c := by
  rcases hc : StackUnits.compile config resolver tree with e | c
  · rw [hc] at h
    cases h
  · rw [hc] at h
    obtain ⟨after, hafter⟩ :=
      (compileNamed_iff { config := config, resolver := resolver }).2 (compile_eq_ok_iff.1 hc)
    exact ⟨c, after, hafter, of_decide_eq_true h⟩

theorem Session.exists_compileNamed_bare {tree : Tree} {P : Compilation → Prop} [DecidablePred P]
    (h : ((StackUnits.compile {} (Registry.resolver {}) tree).toOption.any (P ·)) = true) :
    ∃ c after, compileNamed "Main" tree .bare = .ok c after ∧ P c :=
  exists_compileNamed {} (Registry.resolver {}) h

theorem Session.compileNamed_countdown :
    ∃ c after, compileNamed "Main" .countdown .bare = .ok c after ∧
      c.tasks.map CodeUnit.name = ["Worker"] ∧ ∀ unit ∈ c.units, unit.locals.length ≤ 2 ^ 16 :=
  exists_compileNamed_bare (by decide +kernel)

end StackUnits
