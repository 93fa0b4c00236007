import Mathlib.Order.Bounds.Basic
import StackUnits.Proofs.Exploration
import StackUnits.Proofs.Shadows

/-!
# What comes with a body that compiles

When the body of a unit has been compiled, the context has counted two things on the way: how
many types were on the type stack at most, and how many labels were handed out. This file says
that both counts are right.

* `StackUnits.Emit.highWater_of_wholeUnit` – the stack of a run never gets higher than the type
  stack has been, and some walk through the code gets as high;
* `StackUnits.Session.labels_of_compileNamed` – the labels of a unit are the first ones, each
  placed once, and all jumps lead to them; so the check of the labels has nothing to refuse, as
  long as labels do not run out.
-/

namespace StackUnits

/-- **The high-water mark of a unit**: no run has more values on the stack, and it is the greatest
height that walks attain. -/
structure CodeUnit.HighWater (unit : CodeUnit) (mark : Nat) : Prop where
  runs : ∀ {floats n effects s}, Machine.Leads floats unit n .start effects (.ok s) →
    s.stack.length ≤ mark
  greatest : IsGreatest {height | unit.Attains height} mark

/-- The labels of a unit are the first `n`, each in one place, and jumps lead to them. -/
structure CodeUnit.HasLabels (unit : CodeUnit) (n : Nat) : Prop where
  places : (placements unit.instructions).Perm ((List.range n).map .nth)
  nodup : (placements unit.instructions).Nodup
  targets : ∀ target ∈ targets unit.instructions, target ∈ placements unit.instructions

section Code

variable {s : Stmt} {w : World} {units : List CodeUnit} {d : Draft} {code : List Instruction}
  {unit : CodeUnit}

/-- **The code of a statement with a return after it** has the high-water mark that the compiler has
counted. That no run gets higher is proved of all walks through the code, which are more than the
runs; that the mark is attained can only be proved of walks, since a condition may never turn out as
it would have to. -/
theorem Stmt.HasCode.highWater (h : s.HasCode w (.fresh units) code d)
    (hinstructions : unit.instructions = code ++ [.ret]) (hlabels : unit.checkLabels = .ok ()) :
    unit.HighWater s.peak := by
  obtain ⟨labels, hcert⟩ := h.walkCertifies hinstructions hlabels
  refine ⟨fun hrun => ?_, ?_, fun height hattains => hcert.le_of_attains hattains⟩
  · obtain ⟨stored, hwalk, -⟩ := hrun.shadow hlabels (.start fun slot hset => hset rfl)
    exact hcert.le_of_walks hwalk
  · have hat : unit.HasAt 0 (code ++ [.ret]) := ⟨[], [], by rw [hinstructions]; simp, rfl⟩
    -- The return at the end leaves the stack as it is, and it is empty there.
    obtain ⟨stored, hend⟩ := h.exists_walks hat.left .start
    have hzero : unit.Attains 0 := hend.attains hat.right ⟨0, 0, rfl, rfl, rfl⟩
    have hattains := h.attains hzero hat.left .start
    rwa [Nat.zero_add] at hattains

/-- The code of a statement with a return after it has as many labels as were handed out; and since
the labels have been checked, no number was handed out twice. -/
theorem Stmt.HasCode.hasLabels (h : s.HasCode w (.fresh units) code d)
    (hinstructions : unit.instructions = code ++ [.ret]) (hlabels : unit.checkLabels = .ok ()) :
    d.labels ≤ 2 ^ 32 ∧ unit.HasLabels d.labels := by
  have hnumbered : Numbered 0 d.labels unit.instructions := by
    rw [hinstructions]
    exact h.numbered.append (.plain rfl rfl _)
  obtain ⟨hnodup, htargets⟩ := CodeUnit.checkLabels_eq_ok.1 hlabels
  refine ⟨hnumbered.checkLabels.1 hlabels, ?_, hnodup, htargets⟩
  rw [List.range_eq_range']
  exact hnumbered.places

end Code

/-! ### Bodies -/

section Bodies

variable {session : Session} {name : String} {kind : UnitKind} {tag : Tag} {s : Stmt}
  {unit : CodeUnit} {cx cx' : Context}

/-- **What a body that compiles has written**, in a context of its own: the code of the statement,
from a table with nothing but the scope of the unit. -/
theorem Stmt.exists_arrives_of_compile
    (h : s.compile { session := session, unitName := name, symbols := .enterScope {} } =
      .ok () cx) :
    ∃ w code d, s.HasCode w (.fresh session.units) code d ∧
      Context.Arrives { session := session, unitName := name, symbols := .enterScope {} } w d code
        s.peak none cx := by
  have hat : Context.At { session := session, unitName := name, symbols := .enterScope {} }
      ⟨session.config, session.resolver, session.inProgress⟩ (.fresh session.units) :=
    ⟨⟨rfl, rfl, rfl, rfl⟩, rfl, rfl, Nat.le_refl 0⟩
  obtain ⟨code, d, hcode, harrives⟩ := Stmt.compile_sound hat h
  exact ⟨_, code, d, hcode, harrives⟩

/-- **The high-water mark is exact.** The mark is the one in the context at the end, which is a
number of any size; how it is stored in the unit is another matter.

Exact means two things: no walk through the code gets the stack any higher, and some walk gets it
that high. A mark that was too great would satisfy the first, and one that was too small the
second. -/
theorem Emit.highWater_of_wholeUnit
    (h : wholeUnit name kind tag s.compile { session := session, unitName := name } =
      .ok unit cx) : unit.HighWater cx.types.maxDepth := by
  obtain ⟨cx₁, table, hbody, -, -, rfl, rfl, hlabels⟩ := wholeUnit_eq_ok.1 h
  obtain ⟨w, code, d, hcode, harrives⟩ := Stmt.exists_arrives_of_compile hbody
  have hmax : cx₁.types.maxDepth = s.peak := by
    rw [harrives.wrote.maxDepth]
    exact (Nat.zero_max _).trans (Nat.zero_add s.peak)
  have hmark := hcode.highWater (harrives.wrote.wrote .ret).instructions hlabels
  rwa [← hmax] at hmark

/-- The body is compiled once, and what it has counted is looked at. -/
theorem Emit.maxDepth_countdown :
    (match wholeUnit "Main" .program Tree.countdown.tag Tree.countdown.toStmt.compile
        { session := .bare, unitName := "Main" } with
      | .ok _ cx => cx.types.maxDepth
      | .error _ _ => 0) = 4 := by
  decide +kernel

theorem Emit.highWater_countdown :
    ∃ unit cx, wholeUnit "Main" .program Tree.countdown.tag Tree.countdown.toStmt.compile
        { session := .bare, unitName := "Main" } = .ok unit cx ∧
      cx.types.maxDepth = 4 ∧ unit.HighWater cx.types.maxDepth := by
  have hcompile := maxDepth_countdown
  rcases hresult : wholeUnit "Main" .program Tree.countdown.tag Tree.countdown.toStmt.compile
      { session := .bare, unitName := "Main" } with ⟨unit, cx⟩ | ⟨e, cx⟩
  · rw [hresult] at hcompile
    exact ⟨unit, cx, rfl, hcompile, highWater_of_wholeUnit hresult⟩
  · rw [hresult] at hcompile
    cases hcompile

/-- The check of the labels refuses no body, as long as labels do not run out. The body is given as
compiled, so that all that remains to fail is the end of the unit. -/
theorem Emit.exists_wholeUnit
    (hbody : s.compile { session := session, unitName := name, symbols := .enterScope {} } =
      .ok () cx) (hfew : (CodeUnit.placements cx.code.instructions).length ≤ 2 ^ 32) :
    ∃ unit cx', wholeUnit name kind tag s.compile { session := session, unitName := name } =
      .ok unit cx' := by
  obtain ⟨w, code, d, hcode, harrives⟩ := Stmt.exists_arrives_of_compile hbody
  have hframes := (hcode.tidy (SymbolTable.tidy_fresh _)).frames_ne_nil
  obtain ⟨table, htable⟩ := harrives.stands.exists_exitScope hframes
  -- As many labels are placed as have been handed out.
  have hinstructions : cx.code.instructions = code := harrives.wrote.instructions
  have hcount : (CodeUnit.placements cx.code.instructions).length = d.labels := by
    rw [hinstructions, hcode.numbered.places.length_eq, List.length_map, List.length_range']
    exact Nat.sub_zero _
  have hnumbered : Numbered 0 d.labels (code ++ [.ret]) := hcode.numbered.append (.plain rfl rfl _)
  have hwritten : (cx.wrote .ret).code.instructions = code ++ [.ret] :=
    (harrives.wrote.wrote .ret).instructions
  rw [← hwritten] at hnumbered
  refine ⟨_, _, wholeUnit_eq_ok.2 ⟨cx, _, hbody, htable, harrives.depth_eq, rfl, rfl, ?_⟩⟩
  exact (Numbered.checkLabels hnumbered).2 (hcount ▸ hfew)

end Bodies

/-- **The labels of every unit** are the first ones, each placed once, and all jumps lead to them;
and no body is refused for its labels, as long as they do not run out.

The first part is about units that have been checked, and would be empty if the check refused too
much. The second part says that it does not. -/
theorem Session.labels_of_compileNamed :
    (∀ {name : String} {tree : Tree} {session after : Session} {c : Compilation},
      compileNamed name tree session = .ok c after → ∀ unit ∈ c.units,
        ∃ n ≤ 2 ^ 32, unit.HasLabels n) ∧
    ∀ {session : Session} {name : String} (kind : UnitKind) (tag : Tag) {s : Stmt} {cx : Context},
      s.compile { session := session, unitName := name, symbols := .enterScope {} } = .ok () cx →
      (CodeUnit.placements cx.code.instructions).length ≤ 2 ^ 32 →
        ∃ unit cx', Emit.wholeUnit name kind tag s.compile
          { session := session, unitName := name } = .ok unit cx' := by
  refine ⟨fun h unit hunit => ?_, fun kind tag => Emit.exists_wholeUnit⟩
  obtain ⟨t, w, units, code, d, hcode, heq, hlabels⟩ := exists_isOf_of_compileNamed h hunit
  have hinstructions : unit.instructions = code ++ [.ret] := by
    rw [heq]
    rfl
  obtain ⟨hle, hhas⟩ := hcode.hasLabels hinstructions hlabels
  exact ⟨d.labels, hle, hhas⟩

theorem Session.labels_countdown :
    (∃ c after, compileNamed "Main" .countdown .bare = .ok c after ∧
      c.tasks.map CodeUnit.name = ["Worker"] ∧ ∀ unit ∈ c.units, ∃ n ≤ 2 ^ 32, unit.HasLabels n) ∧
    ∃ cx, Tree.countdown.toStmt.compile
        { session := .bare, unitName := "Main", symbols := .enterScope {} } = .ok () cx ∧
      (CodeUnit.placements cx.code.instructions).length = 4 ∧
      ∃ unit cx', Emit.wholeUnit "Main" .program Tree.countdown.tag Tree.countdown.toStmt.compile
        { session := .bare, unitName := "Main" } = .ok unit cx' := by
  constructor
  · obtain ⟨c, after, h, htasks, -⟩ := compileNamed_countdown
    exact ⟨c, after, h, htasks, labels_of_compileNamed.1 h⟩
  · have hcompile : (match Tree.countdown.toStmt.compile
        { session := .bare, unitName := "Main", symbols := .enterScope {} } with
        | .ok _ cx => (CodeUnit.placements cx.code.instructions).length
        | .error _ _ => 0) = 4 := by
      decide +kernel
    rcases hresult : Tree.countdown.toStmt.compile
        { session := .bare, unitName := "Main", symbols := .enterScope {} } with
        ⟨⟨⟩, cx⟩ | ⟨e, cx⟩
    · rw [hresult] at hcompile
      have hfew : (CodeUnit.placements cx.code.instructions).length = 4 := hcompile
      exact ⟨cx, rfl, hfew, labels_of_compileNamed.2 .program Tree.countdown.tag hresult (by omega)⟩
    · rw [hresult] at hcompile
      cases hcompile

end StackUnits
