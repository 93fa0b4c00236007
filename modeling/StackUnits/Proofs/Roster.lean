import StackUnits.Proofs.Acceptance
import StackUnits.Proofs.Names

/-!
# Which units a compilation has

A program is compiled into its own unit and one unit for each task that it gives on the spot. The
tasks stand in the order in which they are finished, and since a task is finished after everything
inside of it, that is the order in which `StackUnits.Tree.inlineTasks` lists them: a task comes
after those given inside of it, and otherwise the order is that of the tree
(`StackUnits.Session.consists_of_compileNamed`).

A compilation is asked for a unit by its name. No two of its units have the same name, so the
answer does not depend on the order in which they are looked through
(`StackUnits.WellNamed.find?_eq_some_iff`).
-/

namespace StackUnits

/-- The names of the units of tasks, in order. -/
theorem UnitsOf.map_name {tasks : List (String × Tree)} {units : List CodeUnit}
    (h : UnitsOf tasks units) : units.map CodeUnit.name = tasks.map Prod.fst := by
  induction h with
  | nil => rfl
  | cons hhead _ ih => rw [List.map_cons, List.map_cons, hhead.1, ih]

/-- Among units with names in order, a search for a name ends at the unit that has it. There is one
at most, so the order of the units does not matter. -/
theorem WellNamed.find?_eq_some_iff {units : List CodeUnit} (h : WellNamed units) {name : String}
    {unit : CodeUnit} :
    units.find? (fun unit => unit.name == name) = some unit ↔ unit ∈ units ∧ unit.name = name := by
  constructor
  · intro hfind
    exact ⟨List.mem_of_find?_eq_some hfind, by simpa using List.find?_some hfind⟩
  · rintro ⟨hunit, rfl⟩
    rcases hfind : units.find? (fun other => other.name == unit.name) with _ | other
    · exact absurd (List.find?_eq_none.1 hfind unit hunit) (by simp)
    · have hname : other.name = unit.name := by simpa using List.find?_some hfind
      rw [hfind, h.eq_of_name (List.mem_of_find?_eq_some hfind) hunit hname]

/-- **The units of a compilation are these**: one for the program of the given name, and then one
for each of the given tasks, in order; and they can be asked for by name. -/
structure Compilation.Consists (c : Compilation) (name : String) (tasks : List String) : Prop where
  program_name : c.program.name = name
  program_kind : c.program.kind = .program
  task_names : c.tasks.map CodeUnit.name = tasks
  task_kinds : ∀ unit ∈ c.tasks, unit.kind = .task
  wellNamed : WellNamed c.units
  unitCount : c.unitCount = 1 + tasks.length
  get?_iff : ∀ n unit, c.get? n = some unit ↔ unit ∈ c.units ∧ unit.name = n
  exists_get? : ∀ n, (∃ unit, c.get? n = some unit) ↔ n = name ∨ n ∈ tasks

/-- The kinds of the units of a compilation: there is one program, under the name that was asked
for. -/
theorem Session.kinds_of_compileNamed {name : String} {tree : Tree} {session after : Session}
    {c : Compilation} (h : compileNamed name tree session = .ok c after) :
    c.program.name = name ∧ c.program.kind = .program ∧ ∀ unit ∈ c.tasks, unit.kind = .task := by
  obtain ⟨-, code, d, hcode, rfl, -⟩ := (compileNamed_iff session).1 ⟨after, h⟩
  exact ⟨rfl, rfl, hcode.tasks nofun⟩

/-- **The units of a compilation** are that of the program and those of the tasks that its tree
gives on the spot, in the order in which the tasks are finished. A task within another one is
finished first.

Names are all that is said here about the units. What a unit has to do with its own tree is said by
`StackUnits.Session.units_of_compileNamed`. -/
theorem Session.consists_of_compileNamed {name : String} {tree : Tree} {session after : Session}
    {c : Compilation} (h : compileNamed name tree session = .ok c after) :
    c.Consists name (tree.inlineTasks.map Prod.fst) := by
  obtain ⟨hname, hkind, hkinds⟩ := kinds_of_compileNamed h
  have hnamed := wellNamed_of_compileNamed h
  have htasks := (units_of_compileNamed h).2.map_name
  have hget : ∀ n unit, c.get? n = some unit ↔ unit ∈ c.units ∧ unit.name = n :=
    fun n unit => hnamed.find?_eq_some_iff
  refine ⟨hname, hkind, htasks, hkinds, hnamed, ?_, hget, ?_⟩
  · rw [← htasks, List.length_map, Nat.add_comm]
    rfl
  · intro n
    calc (∃ unit, c.get? n = some unit)
      _ ↔ ∃ unit ∈ c.units, unit.name = n := exists_congr (hget n)
      _ ↔ n ∈ c.units.map CodeUnit.name := List.mem_map.symm
      _ ↔ n = c.program.name ∨ n ∈ c.tasks.map CodeUnit.name := List.mem_cons
      _ ↔ n = name ∨ n ∈ tree.inlineTasks.map Prod.fst := by rw [hname, htasks]

/-! ### A program with tasks inside of tasks -/

/-- A program with a task inside of a task and one in a branch; a task starts itself, and a task
that is compiled elsewhere is started by name. -/
def Tree.relay : Tree :=
  ofList [ofInlineSpawn "Outer"
      (ofList [ofInlineSpawn "Inner" (unary .print (ofInteger "1")), ofSpawn "Outer"]),
    ofIfElse (ofBool true) (ofSpawn "Inner")
      (ofInlineSpawn "Late" (unary .sleep (ofInteger "5"))),
    ofSpawn "Ticker"]

/-- A table with one task, in the directory `tasks`. -/
def Registry.single (name : String) : Registry :=
  Registry.insert {} "tasks" ⟨name, true, true⟩

/-- Settings with the directory `tasks` as search path. -/
def Config.searching : Config where
  taskSearchPath := some "tasks"

/-- A session that knows the task `Ticker`. -/
def Session.ticking : Session where
  config := .searching
  resolver := (Registry.single "Ticker").resolver

theorem Session.compileNamed_relay :
    ∃ c after, compileNamed "Main" .relay .ticking = .ok c after ∧
      .new "Ticker" ∈ c.program.instructions :=
  exists_compileNamed .searching (Registry.single "Ticker").resolver (by decide +kernel)

theorem Session.consists_relay :
    ∃ c after, compileNamed "Main" .relay .ticking = .ok c after ∧
      c.Consists "Main" ["Inner", "Outer", "Late"] := by
  obtain ⟨c, after, h, -⟩ := compileNamed_relay
  have htasks : Tree.relay.inlineTasks.map Prod.fst = ["Inner", "Outer", "Late"] := by
    decide +kernel
  exact ⟨c, after, h, htasks ▸ consists_of_compileNamed h⟩

end StackUnits
