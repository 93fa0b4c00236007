import StackUnits.Proofs.Exploration
import StackUnits.Proofs.Preservation
import StackUnits.Proofs.Safety
import StackUnits.Proofs.Shadows

/-!
# Reading before assigning

A name is known to the compiler from the first assignment that it meets, in the order of its
walk through the tree. A run need not come past that assignment: `StackUnits.Tree.skipped` is a
program that compiles and ends at a variable that was never assigned
(`StackUnits.Session.halts_skipped`).

What can be said is which variables a run may come to in this way. They are the exposed
variables of the tree (`StackUnits.Stmt.exposed`), and no others; so a unit whose tree exposes
nothing reads nothing before it is set. There is nothing to be gained by a finer look that leaves
the values of conditions out: every exposed variable is read by some walk that has not set it, and
a tree with an exposed variable has a run without values that ends there
(`StackUnits.Session.readsExposed_of_compileNamed`).
-/

namespace StackUnits

/-- **A unit reads before assigning** what its tree exposes, and nothing else. The second half
is about units whose variables have slots of their own. -/
structure CodeUnit.ReadsExposed (unit : CodeUnit) (t : Tree) : Prop where
  /-- Whichever way conditions turn out, only exposed variables are read without being set. -/
  unset : ∀ {s}, unit.TagReachable s → unit.tagMove s = .unset → ∃ kind, ∃ v ∈ unit.locals,
    unit.instructions[s.pc]? = some (.load kind v.slot) ∧ v.name ∈ t.toStmt.exposed
  /-- So it is with the runs of the machine. -/
  unassigned : ∀ {floats n effects s}, Machine.Leads floats unit n .start effects (.ok s) →
    Machine.step floats unit s = .ends .unassigned → ∃ kind, ∃ v ∈ unit.locals,
      unit.instructions[s.pc]? = some (.load kind v.slot) ∧ v.name ∈ t.toStmt.exposed
  /-- If anything is exposed, some run comes to a variable that is not set. -/
  exists_unset : unit.locals.length ≤ 2 ^ 16 → t.toStmt.exposed ≠ [] →
    ∃ s, unit.TagReachable s ∧ unit.tagMove s = .unset
  /-- Each exposed variable is read by some walk that has not set it. -/
  exists_walk : unit.locals.length ≤ 2 ^ 16 → ∀ name ∈ t.toStmt.exposed,
    ∃ v ∈ unit.locals, v.name = name ∧ unit.ReadsUnset v.slot

namespace CodeUnit.IsOf

variable {unit : CodeUnit} {t : Tree}

/-- The code of a unit of a tree, and the table that its variables are listed from. Slots are spoken
of by their variables in what follows, and this is where the two lists meet. -/
theorem exists_table (h : unit.IsOf t) :
    ∃ w units code d, t.toStmt.HasCode w (.fresh units) code d ∧ d.table.Tidy ∧
      unit.instructions = code ++ [.ret] ∧ unit.locals = d.table.declared.reverse ∧
      unit.checkLabels = .ok () := by
  obtain ⟨w, units, code, d, hcode, heq, hlabels⟩ := h
  refine ⟨w, units, code, d, hcode, hcode.tidy (SymbolTable.tidy_fresh units), ?_, ?_, hlabels⟩
  · rw [heq]
    rfl
  · rw [heq]
    rfl

theorem checked (h : unit.IsOf t) : unit.checkLabels = .ok () := by
  obtain ⟨_, _, _, _, _, _, hlabels⟩ := h
  exact hlabels

/-- **What is read before it is set** is exposed: the slot that a walk reads has a variable, and the
tree exposes it. -/
theorem exposed_of_readsUnset (h : unit.IsOf t) {slot : UInt16} (hread : unit.ReadsUnset slot) :
    ∃ v ∈ unit.locals, v.slot = slot ∧ v.name ∈ t.toStmt.exposed := by
  obtain ⟨w, units, code, d, hcode, htidy, hinstructions, hlocals, hlabels⟩ := h.exists_table
  obtain ⟨labels, hcert⟩ := hcode.walkCertifies hinstructions hlabels
  obtain ⟨name, info, hlookup, rfl, hexposed⟩ := hcert.free_of_readsUnset hread
  refine ⟨⟨name, info.slot, info.type⟩, ?_, rfl, hexposed⟩
  rw [hlocals, List.mem_reverse]
  exact htidy.lookup_eq_some_iff.1 hlookup

/-- **What is exposed** is read by some walk before it is set, as long as slots are not used twice.
With more variables than slots, a variable could be set by way of another one. -/
theorem readsUnset_of_exposed (h : unit.IsOf t) (hfew : unit.locals.length ≤ 2 ^ 16)
    {name : String} (hexposed : name ∈ t.toStmt.exposed) :
    ∃ v ∈ unit.locals, v.name = name ∧ unit.ReadsUnset v.slot := by
  obtain ⟨w, units, code, d, hcode, htidy, hinstructions, hlocals, -⟩ := h.exists_table
  have hsep : d.table.Separates := htidy.separates (by simpa [hlocals] using hfew)
  have hat : unit.HasAt 0 (code ++ [.ret]) := ⟨[], [], by rw [hinstructions]; simp, rfl⟩
  have hstart : unit.WalksAround d.table (some name) 0 0 := ⟨[], .start, fun _ _ _ _ => nofun⟩
  obtain ⟨info, hlookup, hread⟩ :=
    hcode.exposes (fun _ _ => id) (@hsep name) hexposed hat.left hstart
  refine ⟨⟨name, info.slot, info.type⟩, ?_, rfl, hread⟩
  rw [hlocals, List.mem_reverse]
  exact htidy.lookup_eq_some_iff.1 hlookup

/-- **A tree that exposes anything** has a run without values that comes to a variable that is not
set. It need not be the variable in question, since the walk to that one may come past another. -/
theorem exists_unset_of_exposed (h : unit.IsOf t) (hfew : unit.locals.length ≤ 2 ^ 16)
    (hexposed : t.toStmt.exposed ≠ []) : ∃ s, unit.TagReachable s ∧ unit.tagMove s = .unset := by
  obtain ⟨name, hname⟩ := List.exists_mem_of_ne_nil _ hexposed
  obtain ⟨v, -, -, pc, height, stored, kind, hwalk, hinstr, hunset⟩ :=
    h.readsUnset_of_exposed hfew hname
  obtain ⟨labels, table, hcert⟩ := h.certifies hfew
  by_contra hnone
  -- Otherwise runs go wherever walks go, so one of them comes to the variable after all.
  have hgoes : ∀ s, unit.TagReachable s → unit.tagMove s ≠ .stuck ∧ unit.tagMove s ≠ .unset := by
    refine fun s hs => ⟨fun hstuck => ?_, fun hmove => hnone ⟨s, hs, hmove⟩⟩
    have hkeeps := (Tags.Sound.of_reachable hcert hs).keeps_tagMove hcert
    rw [hstuck] at hkeeps
    exact hkeeps
  obtain ⟨s, hs, rfl, -, hset⟩ := Tags.exists_reachable_of_walks hcert.checked hgoes hwalk
  refine hnone ⟨s, hs, ?_⟩
  have hslot : s.locals v.slot = none := by
    by_contra hsome
    exact hunset ((hset v.slot).1 hsome)
  rw [CodeUnit.tagMove, hinstr]
  simp only [Tags.State.move, hslot]

/-- **A unit of a tree** reads before assigning what the tree exposes. The walks through the code
and the analysis of the tree are compared, and each bounds the other. -/
theorem readsExposed (h : unit.IsOf t) : unit.ReadsExposed t where
  unset := by
    intro s hs hunset
    obtain ⟨kind, slot, hinstr, hslot⟩ := Tags.load_of_tagMove hunset
    have hshadow := Tags.shadow_of_reachable h.checked hs
    obtain ⟨v, hv, rfl, hexposed⟩ := h.exposed_of_readsUnset (hshadow.readsUnset hinstr hslot)
    exact ⟨kind, v, hv, hinstr, hexposed⟩
  unassigned := by
    intro floats n effects s hrun hends
    obtain ⟨kind, slot, hinstr, hslot⟩ := Machine.load_of_step hends
    have hshadow := hrun.shadow h.checked (.start fun slot hset => hset rfl)
    obtain ⟨v, hv, rfl, hexposed⟩ := h.exposed_of_readsUnset (hshadow.readsUnset hinstr hslot)
    exact ⟨kind, v, hv, hinstr, hexposed⟩
  exists_unset hfew hexposed := h.exists_unset_of_exposed hfew hexposed
  exists_walk hfew _ hexposed := h.readsUnset_of_exposed hfew hexposed

end CodeUnit.IsOf

/-! ### Programs -/

/-- **A compiled program reads before assigning** what its tree exposes, and so does each task that
it gives on the spot.

The tasks are paired with their trees in the order in which they are finished. Nothing is asked of
the program beyond that it compiles: the bound on the number of variables stands in front of those
parts that need it. -/
theorem Session.readsExposed_of_compileNamed {name : String} {tree : Tree}
    {session after : Session} {c : Compilation}
    (h : compileNamed name tree session = .ok c after) :
    c.program.ReadsExposed tree ∧ List.Forall₂ (fun task unit =>
      unit.name = task.1 ∧ unit.ReadsExposed task.2) tree.inlineTasks c.tasks := by
  obtain ⟨hprogram, htasks⟩ := units_of_compileNamed h
  refine ⟨hprogram.readsExposed, htasks.imp ?_⟩
  rintro task unit ⟨hname, hunit⟩
  exact ⟨hname, hunit.readsExposed⟩

/-- A program that exposes nothing, and whose runs therefore never come to a variable that is not
set. -/
theorem Session.readsExposed_countdown :
    ∃ c after, compileNamed "Main" .countdown .bare = .ok c after ∧
      Tree.countdown.toStmt.exposed = [] ∧
      ∀ s, c.program.TagReachable s → c.program.tagMove s ≠ .unset := by
  obtain ⟨c, after, h, -, -⟩ := compileNamed_countdown
  have hexposed : Tree.countdown.toStmt.exposed = [] := by decide +kernel
  refine ⟨c, after, h, hexposed, fun s hs hunset => ?_⟩
  obtain ⟨kind, v, -, -, hmem⟩ := (readsExposed_of_compileNamed h).1.unset hs hunset
  rw [hexposed] at hmem
  cases hmem

/-- A program that prints a variable after a branch that is not taken, where the one assignment
to it stands. -/
def Tree.skipped : Tree :=
  ofList [binary .ifThen (ofBool false) (ofAssign "x" (ofInteger "1")), unary .print (ofName "x")]

/-- **A program that compiles can end at a variable that was never assigned.** So the order in which
the compiler meets the assignments is no guarantee for the order in which a run does. -/
theorem Session.halts_skipped :
    ∃ c after, compileNamed "Main" .skipped .bare = .ok c after ∧
      ∀ floats, c.program.Halts floats [] .unassigned := by
  have hcompile : ∃ c after, compileNamed "Main" .skipped .bare = .ok c after ∧
      c.program.locals.length ≤ 2 ^ 16 := exists_compileNamed_bare (by decide +kernel)
  obtain ⟨c, after, h, hfew⟩ := hcompile
  refine ⟨c, after, h, fun floats => ?_⟩
  obtain ⟨hprogram, -⟩ := units_of_compileNamed h
  refine (hprogram.implements hfew floats [] .unassigned).1 ⟨.error .unassigned, ?_, rfl⟩
  have hskips : Exec floats .empty
      (some (.binary .ifThen (.ofBool false) (.ofAssign "x" (.ofInteger "1")))) [] (.ok .empty) :=
    .ifSkips rfl (by rw [Tree.ofBool, Tree.leaf, Tree.eval_literal rfl rfl]; rfl)
  have hends : Exec floats .empty (some (.unary .print (.ofName "x"))) [] (.error .unassigned) :=
    .operandEnds rfl (Tree.eval_var rfl rfl)
  exact .sequence rfl hskips (.sequenceEnds rfl hends)

end StackUnits
