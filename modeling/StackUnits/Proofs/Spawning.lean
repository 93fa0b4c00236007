import StackUnits.Proofs.Roster

/-!
# Every task that is started exists

Code that starts a task creates an object of the task's class, and the machine has to find a unit
of that name. The compiler checks this when it comes to the start: the task is among those that are
finished, or among those that are begun, or the resolver knows it. A task that is begun need not
exist in the end, since its body may still turn out to be faulty; but then nothing is compiled at
all. So in a compilation everything that is created is there
(`StackUnits.Session.spawnsClosed_of_compileNamed`).

What is kept along the code of a statement is that every class that is created *may be started* in
the world around it (`StackUnits.World.Supplies`, with `StackUnits.World.MayStart`). This goes on
holding when a task is begun, since a name that is begun may be started
(`StackUnits.World.MayStart.begin`), and when it is finished, since it is among the finished tasks
from then on (`StackUnits.World.MayStart.finish`).
-/

namespace StackUnits

/-! ### The tasks that a program speaks of -/

/-- **A place where a program speaks of a task**: one is started by name, or one is given on the
spot. -/
inductive Mention
  | started (name : String)
  | given (name : String)
  deriving DecidableEq

/-- **The places where a statement speaks of tasks**, in the order of the walk: a task that is
given on the spot is spoken of before anything in its body is. -/
def Stmt.mentions : Stmt → List Mention
  | .nothing | .fault _ _ | .assign _ _ _ | .print _ _ | .assert _ _ | .sleep _ _ => []
  | .sequence _ first rest => first.mentions ++ rest.mentions
  | .block _ body | .ifThen _ _ body | .loop _ _ body => body.mentions
  | .ifElse _ _ thenBranch elseBranch => thenBranch.mentions ++ elseBranch.mentions
  | .spawn _ name => [.started name]
  | .spawnInline _ name _ body => .given name :: body.mentions

/-- **The tasks that are finished after a statement** are those that were before, and those that the
statement gives on the spot. By induction on the code. -/
theorem Stmt.HasCode.mem_names_iff {s : Stmt} {w : World} {d d' : Draft} {code : List Instruction}
    (h : s.HasCode w d code d') {name : String} :
    name ∈ d'.units.map CodeUnit.name ↔
      name ∈ d.units.map CodeUnit.name ∨ .given name ∈ s.mentions := by
  induction h with
  | nothing | assign | print | assert | sleep | spawn => simp [mentions]
  | sequence _ _ ih₁ ih₂ => rw [ih₂, ih₁, mentions, List.mem_append, or_assoc]
  | block _ ih | ifThen _ _ _ ih | loop _ _ _ ih => exact ih
  | ifElse _ _ _ _ iht ihe => rw [ihe, iht, mentions, List.mem_append, or_assoc]
  | spawnInline _ _ _ _ ih =>
    -- The unit itself comes last, its name is spoken of first.
    rw [List.map_append, List.mem_append, ih, mentions, List.mem_cons, Mention.given.injEq,
      List.map_singleton, List.mem_singleton, or_assoc]
    exact or_congr_right or_comm

/-- Tasks that are finished stay so. -/
theorem Stmt.HasCode.names_subset {s : Stmt} {w : World} {d d' : Draft} {code : List Instruction}
    (h : s.HasCode w d code d') :
    d.units.map CodeUnit.name ⊆ d'.units.map CodeUnit.name :=
  fun _ hname => h.mem_names_iff.2 (.inl hname)

/-! ### Tasks that may be started -/

/-- A task that is begun changes nothing about the others. -/
theorem World.lookup_begin_of_ne {w : World} {name task : String} {kind : UnitKind}
    (h : name ≠ task) : (w.begin task kind).begun.lookup name = w.begun.lookup name := by
  rw [World.begin, List.lookup_cons, beq_eq_false_iff_ne.2 h]

namespace World.MayStart

variable {w : World} {finished finished' : List String} {name task : String}

theorem mono (h : w.MayStart finished name) (hsub : finished ⊆ finished') :
    w.MayStart finished' name :=
  h.imp_left (hsub ·)

/-- What may be started may still be when one more task is begun, since that task can be started
too. -/
theorem begin (h : w.MayStart finished name) : (w.begin task .task).MayStart finished name := by
  rcases h with hname | hbegun
  · exact .inl hname
  rcases eq_or_ne name task with rfl | hne
  · exact .inr (.inl List.lookup_cons_self)
  · right
    rw [lookup_begin_of_ne hne]
    exact hbegun

/-- What may be started while a task is begun may be when it is finished. The task itself goes over
from the begun ones to the finished ones. -/
theorem finish (h : (w.begin task .task).MayStart finished name) (hsub : finished ⊆ finished')
    (htask : task ∈ finished') : w.MayStart finished' name := by
  rcases h with hname | hbegun
  · exact .inl (hsub hname)
  rcases eq_or_ne name task with rfl | hne
  · exact .inl htask
  · rw [lookup_begin_of_ne hne] at hbegun
    exact .inr hbegun

end World.MayStart

/-! ### What code creates -/

/-- **All that the code creates can be found**: it is a thread, the error of an assertion, or a
task that may be started. -/
def World.Supplies (w : World) (finished : List String) (code : List Instruction) : Prop :=
  ∀ cls, .new cls ∈ code →
    cls = Emit.threadClass ∨ cls = Emit.assertionClass ∨ PlainName cls ∧ w.MayStart finished cls

/-- All that the finished units create can be found. -/
def World.SuppliesAll (w : World) (units : List CodeUnit) : Prop :=
  ∀ unit ∈ units, w.Supplies (units.map CodeUnit.name) unit.instructions

/-- An expression creates nothing, so that only starts of tasks and assertions have to be looked
at. -/
theorem Expr.HasCode.new_not_mem {e : Expr} {table : SymbolTable} {k k' : Nat}
    {code : List Instruction} {type : OperandType} (h : e.HasCode table k code type k')
    (cls : String) : .new cls ∉ code := by
  induction h with
  | literal | var => simp
  | arith _ _ _ ihl ihr => simp [ihl, ihr]
  | @cast _ _ _ _ _ _ _ conversion _ _ ih => cases conversion <;> simp [Code.conversion, ih]
  | and _ _ _ _ ihl ihr | or _ _ _ _ ihl ihr | compare _ _ _ ihl ihr => simp [Code.choice, ihl, ihr]
  | not _ _ ih => simp [Code.choice, ih]

namespace World.Supplies

variable {w : World} {finished finished' : List String} {code code' : List Instruction}

/-- Code that only creates what other code does is supplied with it. -/
theorem of_new (h : w.Supplies finished code)
    (hcode : ∀ cls, .new cls ∈ code' → .new cls ∈ code) : w.Supplies finished code' :=
  fun cls hcls => h cls (hcode cls hcls)

theorem mono (h : w.Supplies finished code) (hsub : finished ⊆ finished') :
    w.Supplies finished' code :=
  fun cls hcls => (h cls hcls).imp_right (.imp_right (.imp_right (·.mono hsub)))

theorem begin (h : w.Supplies finished code) (task : String) :
    (w.begin task .task).Supplies finished code :=
  fun cls hcls => (h cls hcls).imp_right (.imp_right (.imp_right (·.begin)))

theorem finish {task : String} (h : (w.begin task .task).Supplies finished code)
    (hsub : finished ⊆ finished') (htask : task ∈ finished') : w.Supplies finished' code :=
  fun cls hcls => (h cls hcls).imp_right (.imp_right (.imp_right (·.finish hsub htask)))

theorem append (h : w.Supplies finished code) (h' : w.Supplies finished code') :
    w.Supplies finished (code ++ code') := by
  intro cls hcls
  rcases List.mem_append.1 hcls with hcls | hcls
  · exact h cls hcls
  · exact h' cls hcls

/-- Code without anything that is created. -/
theorem of_not_mem (h : ∀ cls, .new cls ∉ code) : w.Supplies finished code :=
  fun cls hcls => absurd hcls (h cls)

/-- The return at the end of a unit creates nothing. -/
theorem withReturn (h : w.Supplies finished code) : w.Supplies finished (code ++ [.ret]) :=
  h.append (.of_not_mem fun cls => by simp)

/-- The start of a task creates a thread and the task. The class of threads has slashes in its name,
so that the two are never confused. -/
theorem spawn {task : String} (hplain : PlainName task) (h : w.MayStart finished task) :
    w.Supplies finished (Code.spawn task) := by
  intro cls hcls
  have hcases : cls = Emit.threadClass ∨ cls = task := by simpa [Code.spawn] using hcls
  rcases hcases with rfl | rfl
  · exact .inl rfl
  · exact .inr (.inr ⟨hplain, h⟩)

end World.Supplies

namespace World.SuppliesAll

variable {w : World} {units : List CodeUnit} {task : String}

theorem begin (h : w.SuppliesAll units) (task : String) :
    (w.begin task .task).SuppliesAll units :=
  fun unit hunit => (h unit hunit).begin task

/-- The unit of the task that was begun last is finished. -/
theorem finish (h : (w.begin task .task).SuppliesAll units) {unit : CodeUnit}
    (hname : unit.name = task)
    (hunit : (w.begin task .task).Supplies (units.map CodeUnit.name) unit.instructions) :
    w.SuppliesAll (units ++ [unit]) := by
  intro other hother
  have hsub : units.map CodeUnit.name ⊆ (units ++ [unit]).map CodeUnit.name :=
    List.map_subset _ (List.subset_append_left _ _)
  have htask : task ∈ (units ++ [unit]).map CodeUnit.name := by simp [hname]
  rcases List.mem_append.1 hother with hother | hother
  · exact (h other hother).finish hsub htask
  · rw [List.mem_singleton.1 hother]
    exact hunit.finish hsub htask

end World.SuppliesAll

/-- **All that a statement creates can be found**, and so can all that is created by the tasks
finished on the way. By induction on the code. A task may start itself, or one around it, which is
begun then and finished later. -/
theorem Stmt.HasCode.supplies {s : Stmt} {w : World} {d d' : Draft} {code : List Instruction}
    (h : s.HasCode w d code d') (hkinds : ∀ unit ∈ d.units, unit.kind = .task)
    (hd : w.SuppliesAll d.units) :
    w.Supplies (d'.units.map CodeUnit.name) code ∧ w.SuppliesAll d'.units := by
  induction h with
  | nothing => exact ⟨.of_not_mem nofun, hd⟩
  | sequence h₁ h₂ ih₁ ih₂ =>
    obtain ⟨hfirst, hd₁⟩ := ih₁ hkinds hd
    obtain ⟨hrest, hd₂⟩ := ih₂ (h₁.tasks hkinds) hd₁
    exact ⟨(hfirst.mono h₂.names_subset).append hrest, hd₂⟩
  | block _ ih => exact ih hkinds hd
  | assign hc | print hc | sleep hc =>
    refine ⟨.of_not_mem fun cls => ?_, hd⟩
    simp [hc.new_not_mem cls, Code.printer, Code.println, Code.sleep]
  | assert hc =>
    refine ⟨fun cls hcls => .inr (.inl ?_), hd⟩
    simpa [hc.new_not_mem cls, Code.assertion] using hcls
  | ifThen hc _ _ ih | loop hc _ _ ih =>
    obtain ⟨hbody, hd₁⟩ := ih hkinds hd
    refine ⟨hbody.of_new fun cls hcls => ?_, hd₁⟩
    simpa [hc.new_not_mem cls, Code.option, Code.loop] using hcls
  | ifElse hc _ ht he iht ihe =>
    obtain ⟨hthen, hd₁⟩ := iht hkinds hd
    obtain ⟨helse, hd₂⟩ := ihe (ht.tasks hkinds) hd₁
    refine ⟨((hthen.mono he.names_subset).append helse).of_new fun cls hcls => ?_, hd₂⟩
    simpa [hc.new_not_mem cls, Code.choice] using hcls
  | spawn hplain hstart => exact ⟨.spawn hplain ((World.canStart_iff hkinds).1 hstart), hd⟩
  | spawnInline hplain _ _ _ ih =>
    obtain ⟨hbody, hd₁⟩ := ih hkinds (hd.begin _)
    exact ⟨.spawn hplain (.inl (by simp [Draft.unit])), hd₁.finish rfl hbody.withReturn⟩

/-! ### Compilations -/

/-- **A class that a program may create an object of**, in a compilation by a session: the name can
serve as a file name and is not that of the program, and the class is a task of the compilation or
one that the resolver answers with. -/
structure Session.CanCreate (session : Session) (c : Compilation) (cls : String) : Prop where
  plain : PlainName cls
  ne_program : cls ≠ c.program.name
  provided : (∃ task ∈ c.tasks, task.name = cls ∧ task.kind = .task) ∨
    ∃ list path task, session.config.taskSearchPath = some list ∧ SearchPath.parse list = .ok path ∧
      (session.resolver cls path).outcome = .ok task ∧ task.name = cls ∧
      task.hasConstructor = true ∧ task.runnable = true

/-- Code that can be supplied in the world of a program only creates what the program may: a task
that is finished, or one that the resolver knows. The program itself is begun, but is no task. -/
theorem World.Supplies.canCreate {session : Session} {c : Compilation} {code : List Instruction}
    (h : (World.ofProgram session.config session.resolver c.program.name).Supplies
      (c.tasks.map CodeUnit.name) code)
    (hnamed : WellNamed c.units) (hkinds : ∀ task ∈ c.tasks, task.kind = .task) {cls : String}
    (hcls : .new cls ∈ code) (hthread : cls ≠ Emit.threadClass)
    (hassertion : cls ≠ Emit.assertionClass) : session.CanCreate c cls := by
  obtain ⟨hplain, hstart⟩ := ((h cls hcls).resolve_left hthread).resolve_left hassertion
  rcases hstart with hmem | hbegun | ⟨hbegun, hresolves⟩
  · have hne : cls ≠ c.program.name := by
      rintro rfl
      exact (List.nodup_cons.1 hnamed.nodup).1 hmem
    obtain ⟨task, htask, rfl⟩ := List.mem_map.1 hmem
    exact ⟨hplain, hne, .inl ⟨task, htask, rfl, hkinds task htask⟩⟩
  · -- All that is begun at this point is the program, which is no task.
    simp only [World.ofProgram, World.begin, List.lookup_cons, List.lookup_nil] at hbegun
    split at hbegun <;> cases hbegun
  · refine ⟨hplain, ?_, .inr hresolves⟩
    rintro rfl
    simp [World.ofProgram, World.begin] at hbegun

/-- **Every task that is started exists**: whatever the units of a compilation create, apart from
threads and the errors of assertions, is a task of the compilation or one that the resolver answers
with.

The statement is about the finished compilation: while it goes on, a task that is started may be one
that is not finished yet. -/
theorem Session.spawnsClosed_of_compileNamed {name : String} {tree : Tree}
    {session after : Session} {c : Compilation}
    (h : compileNamed name tree session = .ok c after) {unit : CodeUnit} (hunit : unit ∈ c.units)
    {cls : String} (hcls : .new cls ∈ unit.instructions) (hthread : cls ≠ Emit.threadClass)
    (hassertion : cls ≠ Emit.assertionClass) : session.CanCreate c cls := by
  have hnamed := wellNamed_of_compileNamed h
  obtain ⟨-, -, hkinds⟩ := kinds_of_compileNamed h
  obtain ⟨-, code, d, hcode, rfl, -⟩ := (compileNamed_iff session).1 ⟨after, h⟩
  obtain ⟨hprogram, htasks⟩ := hcode.supplies nofun nofun
  rcases List.mem_cons.1 hunit with rfl | hunit
  · exact World.Supplies.canCreate hprogram.withReturn hnamed hkinds hcls hthread hassertion
  · exact World.Supplies.canCreate (htasks unit hunit) hnamed hkinds hcls hthread hassertion

theorem Session.spawnsClosed_relay :
    ∃ c after, compileNamed "Main" .relay .ticking = .ok c after ∧
      .new "Ticker" ∈ c.program.instructions ∧ ticking.CanCreate c "Ticker" := by
  obtain ⟨c, after, h, hnew⟩ := compileNamed_relay
  exact ⟨c, after, h, hnew,
    spawnsClosed_of_compileNamed h List.mem_cons_self hnew (by decide) (by decide)⟩

end StackUnits
