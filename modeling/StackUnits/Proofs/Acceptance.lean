import StackUnits.Proofs.Labels
import StackUnits.Proofs.Machine
import StackUnits.Proofs.Typing
import StackUnits.Proofs.Units

/-!
# The well-typed programs are those that compile

The rules of `StackUnits.Proofs.Typing` speak of trees, the compiler works through a type stack
and a symbol table. Between the two stands the code of a tree: an expression has code of a type
exactly if it has the type (`StackUnits.Expr.HasCode.hasType`,
`StackUnits.Tree.HasType.exists_code`), and a statement has code exactly if it is in order
(`StackUnits.Stmt.HasCode.checks`, `StackUnits.Checks.exists_code`), where what is known of a
program is read off the draft (`StackUnits.Draft.known`).

One condition is not a matter of types. Labels are numbered in `32` bits, and a unit with more
labels than that is refused (`StackUnits.Tree.LabelsFit`). A node has at most two labels, so that
this concerns only trees of more than `2 ^ 31` nodes (`StackUnits.Tree.labelsFit_of_size_le`).
-/

namespace StackUnits

/-! ### Numbers of labels -/

/-- How many labels the code of an expression has. -/
def Expr.labelCount : Expr → Nat
  | .fault _ _ | .literal _ _ _ | .var _ _ => 0
  | .arith _ _ left right => left.labelCount + right.labelCount
  | .cast _ _ operand => operand.labelCount
  | .and _ left right | .or _ left right | .compare _ _ left right =>
    left.labelCount + right.labelCount + 2
  | .not _ operand => operand.labelCount + 2

namespace Stmt

/-- How many labels the code of a statement has, apart from those of tasks given on the spot,
which are units of their own. -/
def labelCount : Stmt → Nat
  | .nothing | .fault _ _ | .spawn _ _ | .spawnInline _ _ _ _ => 0
  | .sequence _ first rest => first.labelCount + rest.labelCount
  | .block _ body => body.labelCount
  | .assign _ _ value | .print _ value | .sleep _ value => value.labelCount
  | .assert _ condition => condition.labelCount + 1
  | .ifThen _ condition branch => condition.labelCount + 1 + branch.labelCount
  | .ifElse _ condition thenBranch elseBranch =>
    condition.labelCount + 2 + thenBranch.labelCount + elseBranch.labelCount
  | .loop _ condition body => condition.labelCount + 2 + body.labelCount

/-- Each task given on the spot has at most as many labels as there are numbers for
them. -/
def TasksFit : Stmt → Prop
  | .spawnInline _ _ _ body => body.labelCount ≤ 2 ^ 32 ∧ body.TasksFit
  | .sequence _ first rest => first.TasksFit ∧ rest.TasksFit
  | .block _ body | .ifThen _ _ body | .loop _ _ body => body.TasksFit
  | .ifElse _ _ thenBranch elseBranch => thenBranch.TasksFit ∧ elseBranch.TasksFit
  | .nothing | .fault _ _ | .assign _ _ _ | .print _ _ | .assert _ _ | .sleep _ _ | .spawn _ _ =>
    True

end Stmt

/-- **No unit of a program has more labels than there are numbers for them.** -/
def Tree.LabelsFit (t : Tree) : Prop :=
  t.toStmt.labelCount ≤ 2 ^ 32 ∧ t.toStmt.TasksFit

/-- The code of an expression uses up as many labels as are counted, whatever number it starts
from. -/
theorem Expr.HasCode.labels_eq {e : Expr} {table : SymbolTable} {k k' : Nat}
    {code : List Instruction} {type : OperandType} (h : e.HasCode table k code type k') :
    k' = k + e.labelCount := by
  induction h <;> simp only [labelCount] <;> omega

/-- So does the code of a statement; the labels of a task given on the spot are not among them,
since its unit starts from zero again. -/
theorem Stmt.HasCode.labels_eq {s : Stmt} {w : World} {d d' : Draft} {code : List Instruction}
    (h : s.HasCode w d code d') : d'.labels = d.labels + s.labelCount := by
  induction h with
  | nothing | spawn | spawnInline => rfl
  | sequence _ _ ih₁ ih₂ =>
    simp only [labelCount]
    omega
  | block _ ih => exact ih
  | assign hc | print hc | sleep hc => exact hc.labels_eq
  | assert hc => exact congrArg (· + 1) hc.labels_eq
  | ifThen hc _ _ ih | loop hc _ _ ih =>
    have := hc.labels_eq
    simp only [labelCount] at ih ⊢
    omega
  | ifElse hc _ _ _ iht ihe =>
    have := hc.labels_eq
    simp only [labelCount] at iht ⊢
    omega

/-- **The labels of a unit** are in order exactly if there are numbers enough for them. This is the
one place where the size of a program decides whether it is accepted: up to the bound the check has
nothing to refuse, and beyond it two labels get the same number. -/
theorem Stmt.HasCode.checkLabels_iff {s : Stmt} {w : World} {units : List CodeUnit} {d : Draft}
    {code : List Instruction} (h : s.HasCode w (.fresh units) code d) {name : String}
    {kind : UnitKind} {peak : Nat} :
    (d.unit name kind peak code).checkLabels = .ok () ↔ s.labelCount ≤ 2 ^ 32 := by
  rw [h.checkLabels_unit, h.labels_eq]
  change 0 + _ ≤ _ ↔ _
  rw [Nat.zero_add]

/-- The tasks that were finished while a statement was compiled had numbers enough for their labels:
each of them has been checked as a unit when it was finished. -/
theorem Stmt.HasCode.tasksFit {s : Stmt} {w : World} {d d' : Draft} {code : List Instruction}
    (h : s.HasCode w d code d') : s.TasksFit := by
  induction h with
  | nothing | spawn | assign | print | assert | sleep => trivial
  | sequence _ _ ih₁ ih₂ => exact ⟨ih₁, ih₂⟩
  | block _ ih | ifThen _ _ _ ih | loop _ _ _ ih => exact ih
  | ifElse _ _ _ _ iht ihe => exact ⟨iht, ihe⟩
  | spawnInline _ _ h hlabels ih => exact ⟨h.checkLabels_iff.1 hlabels, ih⟩

namespace Tree

theorem size_node (tag : Tag) (left right : Option Tree) :
    (node tag left right).size = 1 + left.elim 0 size + right.elim 0 size := by
  cases left <;> cases right <;> rfl

/-- An expression has at most two labels for each of its nodes, by induction on the tree: only an
operator that branches has any of its own. -/
theorem labelCount_toExpr_le (t : Tree) : t.toExpr.labelCount ≤ 2 * t.size := by
  induction t with
  | node tag left right ihl ihr =>
    generalize he : (node tag left right).toExpr = e
    rw [size_node]
    cases readsExpr_of_eq he with
    | fault | literal | var => exact Nat.zero_le _
    | arith | and | or | compare =>
      have := ihl _ rfl
      have := ihr _ rfl
      simp only [Expr.labelCount, Option.elim_some]
      omega
    | cast | not =>
      have := ihl _ rfl
      simp only [Expr.labelCount, Option.elim_some]
      omega

/-- Induction over a part of a tree that may be absent. A statement is read from such a part, and
those of its own parts that are statements are read in the same way, so that the recursor of trees,
which wants a node, does not fit. -/
theorem part_induction {P : Option Tree → Prop} (absent : P none)
    (node : ∀ tag left right, P left → P right → P (some (.node tag left right)))
    (o : Option Tree) : P o := by
  rcases o with _ | t
  · exact absent
  induction t with
  | node tag left right ihl ihr =>
    refine node tag left right ?_ ?_
    · rcases left with _ | l
      · exact absent
      · exact ihl l rfl
    · rcases right with _ | r
      · exact absent
      · exact ihr r rfl

/-- A statement has at most two labels for each of its nodes. A task given on the spot has its
labels in a unit of its own, and they are not counted here. -/
theorem labelCount_body_le (o : Option Tree) : (body o).labelCount ≤ 2 * o.elim 0 size := by
  induction o using part_induction with
  | absent => exact Nat.le_refl 0
  | node tag left right hl hr =>
    generalize hs : body (some (node tag left right)) = s
    rw [Option.elim_some, size_node]
    cases readsStmt_of_eq hs with
    | fault | spawn | spawnInline => exact Nat.zero_le _
    | sequence | block =>
      simp only [Stmt.labelCount]
      omega
    | @assign _ _ _ _ value | @print _ value | @assert _ value | @sleep _ value =>
      have := labelCount_toExpr_le value
      simp only [Stmt.labelCount, Option.elim_some]
      omega
    | @ifThen _ condition | @loop _ condition =>
      have := labelCount_toExpr_le condition
      simp only [Stmt.labelCount, Option.elim_some, body_some] at hr ⊢
      omega
    | @ifElse _ condition _ _ _ _ hinner =>
      have := labelCount_toExpr_le condition
      -- The two branches stand in a node of their own, which is counted as a sequence.
      rw [body_some, (ReadsStmt.sequence hinner).eq] at hr
      simp only [Stmt.labelCount, Option.elim_some, body_some] at hr ⊢
      omega

/-- The tasks of a small statement fit, since the statement that a task is made of is smaller
still. -/
theorem tasksFit_body {o : Option Tree} (h : o.elim 0 size ≤ 2 ^ 31) : (body o).TasksFit := by
  induction o using part_induction with
  | absent => trivial
  | node tag left right ihl ihr =>
    rw [Option.elim_some, size_node] at h
    have hl := ihl (by omega)
    have hr := ihr (by omega)
    generalize hs : body (some (node tag left right)) = s
    cases readsStmt_of_eq hs with
    | fault | assign | print | assert | sleep | spawn => trivial
    | sequence => exact ⟨hl, hr⟩
    | block => exact hl
    | ifThen | loop => exact hr
    | ifElse _ hinner =>
      rw [body_some, (ReadsStmt.sequence hinner).eq] at hr
      exact hr
    | @spawnInline _ task =>
      have hcount : task.toStmt.labelCount ≤ 2 * task.size := labelCount_body_le (some task)
      rw [Option.elim_some] at h
      exact ⟨by omega, hl⟩

/-- **The labels of a program fit** if it has at most `2 ^ 31` nodes, at two labels a node. This is
a bound that can be seen from the tree, and that no tree in memory reaches. -/
theorem labelsFit_of_size_le {t : Tree} (h : t.size ≤ 2 ^ 31) : t.LabelsFit := by
  have hcount : t.toStmt.labelCount ≤ 2 * t.size := labelCount_body_le (some t)
  have hfit : (body (some t)).TasksFit := tasksFit_body h
  exact ⟨by omega, hfit⟩

end Tree

/-! ### Types of expressions -/

/-- The types of the variables of a table. -/
def SymbolTable.typeOf (table : SymbolTable) : TypeEnv :=
  fun name => (table.lookup name).map VarInfo.type

/-- **An expression with code has the type of its code.** The induction is on the code and not on
the tree, since a tree is read as an expression in one way only and each rule of typing answers to
one shape of code. -/
theorem Expr.HasCode.hasType {t : Tree} {e : Expr} {table : SymbolTable} {k k' : Nat}
    {code : List Instruction} {type : OperandType} (h : e.HasCode table k code type k')
    (ht : t.toExpr = e) : t.HasType table.typeOf type := by
  induction h generalizing t with
  | literal =>
    cases Tree.readsExpr_iff.2 ht with
    | literal hraw hliteral => exact .literal hraw hliteral
  | var hinfo _ =>
    cases Tree.readsExpr_iff.2 ht with
    | var hkind hname => exact .var hkind hname (congrArg (Option.map VarInfo.type) hinfo)
  | arith _ _ hfamily ihl ihr =>
    cases Tree.readsExpr_iff.2 ht with
    | arith hkind => exact .arith hkind (ihl rfl) (ihr rfl) hfamily
  | cast _ hconv ih =>
    cases Tree.readsExpr_iff.2 ht with
    | cast hkind => exact .cast hkind (ih rfl) hconv
  | and _ htl _ htr ihl ihr =>
    cases Tree.readsExpr_iff.2 ht with
    | and hkind => exact .and hkind (ihl rfl) htl (ihr rfl) htr
  | or _ htl _ htr ihl ihr =>
    cases Tree.readsExpr_iff.2 ht with
    | or hkind => exact .or hkind (ihl rfl) htl (ihr rfl) htr
  | not _ htype ih =>
    cases Tree.readsExpr_iff.2 ht with
    | not hkind => exact .not hkind (ih rfl) htype
  | compare _ _ htype ihl ihr =>
    cases Tree.readsExpr_iff.2 ht with
    | compare hkind => exact .compare hkind (ihl rfl) (ihr rfl) htype

/-- The types of an environment are types of variables. -/
def TypeEnv.Holdable (Γ : TypeEnv) : Prop :=
  ∀ ⦃name type⦄, Γ name = some type → ∃ kind, type.slotKind? = some kind

namespace Tree.HasType

variable {t : Tree} {type : OperandType}

/-- **An expression with a type has code of that type**, from any number of labels on. Of the
variables it is asked that they have types for which there are slots: those of a table in use do. -/
theorem exists_code {table : SymbolTable} (h : t.HasType table.typeOf type)
    (htable : table.typeOf.Holdable) (k : Nat) :
    ∃ code k', t.toExpr.HasCode table k code type k' := by
  induction h generalizing k with
  | literal hraw hliteral =>
    rw [(ReadsExpr.literal hraw hliteral).eq]
    exact ⟨_, _, .literal⟩
  | var hkind hname hbound =>
    rw [(ReadsExpr.var hkind hname).eq]
    obtain ⟨kind, hslot⟩ := htable hbound
    obtain ⟨info, hinfo, rfl⟩ := Option.map_eq_some_iff.1 hbound
    exact ⟨_, _, .var hinfo hslot⟩
  | arith hkind _ _ hfamily ihl ihr =>
    rw [(ReadsExpr.arith hkind).eq]
    obtain ⟨cl, k₁, hl⟩ := ihl k
    obtain ⟨cr, k₂, hr⟩ := ihr k₁
    exact ⟨_, _, .arith hl hr hfamily⟩
  | cast hkind _ hconv ih =>
    rw [(ReadsExpr.cast hkind).eq]
    obtain ⟨c, k₁, hc⟩ := ih k
    exact ⟨_, _, .cast hc hconv⟩
  | and hkind _ htl _ htr ihl ihr =>
    rw [(ReadsExpr.and hkind).eq]
    obtain ⟨cl, k₁, hl⟩ := ihl k
    obtain ⟨cr, k₂, hr⟩ := ihr (k₁ + 2)
    exact ⟨_, _, .and hl htl hr htr⟩
  | or hkind _ htl _ htr ihl ihr =>
    rw [(ReadsExpr.or hkind).eq]
    obtain ⟨cl, k₁, hl⟩ := ihl k
    obtain ⟨cr, k₂, hr⟩ := ihr (k₁ + 2)
    exact ⟨_, _, .or hl htl hr htr⟩
  | not hkind _ htype ih =>
    rw [(ReadsExpr.not hkind).eq]
    obtain ⟨c, k₁, hc⟩ := ih k
    exact ⟨_, _, .not hc htype⟩
  | compare hkind _ _ htype ihl ihr =>
    rw [(ReadsExpr.compare hkind).eq]
    obtain ⟨cl, k₁, hl⟩ := ihl k
    obtain ⟨cr, k₂, hr⟩ := ihr k₁
    exact ⟨_, _, .compare hl hr htype⟩

/-- The type of an expression is a type that a variable can have, so that there is no expression
whose value cannot be assigned. -/
theorem exists_slotKind? {Γ : TypeEnv} (h : t.HasType Γ type) (hΓ : Γ.Holdable) :
    ∃ kind, type.slotKind? = some kind := by
  cases h with
  | literal _ hliteral => exact ⟨_, Tag.slotKind?_of_literal hliteral⟩
  | var _ _ hbound => exact hΓ hbound
  | arith _ _ _ hfamily => exact ⟨_, OperandType.slotKind?_of_family? hfamily⟩
  | @cast tag target _ _ _ _ hkind =>
    cases htag : tag.kind <;> rw [htag] at hkind <;> cases hkind <;> exact ⟨_, rfl⟩
  | and | or | not | compare => exact ⟨_, rfl⟩

end Tree.HasType

/-! ### Statements -/

/-- What is known at a draft. -/
def Draft.known (d : Draft) : Known :=
  ⟨d.table.typeOf, d.units.map CodeUnit.name⟩

/-- At the beginning of a unit no variable is known, but the units that are finished are. -/
theorem Draft.known_fresh (units : List CodeUnit) :
    (fresh units).known = ⟨.empty, units.map CodeUnit.name⟩ :=
  rfl

/-- An assignment gives its name a type, and leaves the types of other names alone. -/
theorem SymbolTable.Assigns.typeOf_eq {table table' : SymbolTable} {name : String}
    {type : OperandType} {slot : UInt16} (h : table.Assigns name type slot table') :
    table'.typeOf = table.typeOf.set name type := by
  funext other
  rw [typeOf, h.lookup_eq, TypeEnv.set]
  split
  · rfl
  · rfl

/-- What is known after an assignment, in the terms of the rules. -/
theorem Draft.known_assigned {d : Draft} {table : SymbolTable} {name : String}
    {type : OperandType} {slot : UInt16} (h : d.table.Assigns name type slot table) (k : Nat) :
    known { d with table := table, labels := k } =
      { d.known with env := d.known.env.set name type } :=
  congrArg (Known.mk · _) h.typeOf_eq

/-- What is known after a task given on the spot: its variables are gone, its name stays. -/
theorem Draft.known_finished (d d₁ : Draft) (unit : CodeUnit) :
    known { d with units := d₁.units ++ [unit] } =
      { d.known with finished := d₁.known.finished ++ [unit.name] } :=
  congrArg (Known.mk _) List.map_append

/-- The variables of a unit have types that can be held. -/
theorem SymbolTable.Tidy.holdable {table : SymbolTable} (h : table.Tidy) :
    table.typeOf.Holdable := by
  intro name type htype
  obtain ⟨info, hinfo, rfl⟩ := Option.map_eq_some_iff.1 htype
  exact h.kinds _ (h.lookup_eq_some_iff.1 hinfo)

/-- A search for a name among units fails if none of them has it. -/
theorem CodeUnit.find?_eq_none_iff {units : List CodeUnit} {name : String} :
    units.find? (fun unit => unit.name == name) = none ↔ name ∉ units.map CodeUnit.name := by
  simp [List.find?_eq_none, List.mem_map]

/-- **The two ways to say that a task can be started** agree, if all finished units are tasks: the
compiler looks for the unit and the rules for its name. -/
theorem World.canStart_iff {w : World} {units : List CodeUnit} {name : String}
    (hunits : ∀ unit ∈ units, unit.kind = .task) :
    w.CanStart units name ↔ w.MayStart (units.map CodeUnit.name) name := by
  unfold CanStart MayStart
  split
  · rename_i unit hfind
    have hunit := List.mem_of_find?_eq_some hfind
    have hname : unit.name = name := by simpa using List.find?_some hfind
    have hmem : name ∈ units.map CodeUnit.name := List.mem_map.2 ⟨unit, hunit, hname⟩
    simp only [hmem, true_or, iff_true]
    exact hunits unit hunit
  · rename_i hfind
    have hnot := CodeUnit.find?_eq_none_iff.1 hfind
    rcases w.begun.lookup name with _ | kind
    · simp [hnot]
    · simp [hnot]

/-- A name is unused exactly if no task has it, finished or begun. -/
theorem World.unused_iff {w : World} {units : List CodeUnit} {name : String} :
    w.Unused units name ↔
      name ∉ units.map CodeUnit.name ∧ w.begun.lookup name = none := by
  simp only [Unused, List.mem_map, not_exists, not_and, List.lookup_eq_none_iff, bne_iff_ne]
  exact and_congr_right fun _ => forall₂_congr fun _ _ => ne_comm

/-- The units finished while a statement is compiled are tasks. A program is finished last of all,
so that it is not among them. -/
theorem Stmt.HasCode.tasks {s : Stmt} {w : World} {d d' : Draft} {code : List Instruction}
    (h : s.HasCode w d code d') (hd : ∀ unit ∈ d.units, unit.kind = .task) :
    ∀ unit ∈ d'.units, unit.kind = .task := by
  induction h with
  | nothing | assign | print | assert | sleep | spawn => exact hd
  | sequence _ _ ih₁ ih₂ => exact ih₂ (ih₁ hd)
  | block _ ih | ifThen _ _ _ ih | loop _ _ _ ih => exact ih hd
  | ifElse _ _ _ _ iht ihe => exact ihe (iht hd)
  | spawnInline _ _ _ _ ih =>
    intro unit hunit
    rcases List.mem_append.1 hunit with hunit | hunit
    · exact ih hd unit hunit
    · rw [List.mem_singleton.1 hunit]
      rfl

/-- **A statement with code is in order.** The rules follow the walk of the compiler, and what they
know before and after is read off the drafts at which the code begins and ends. -/
theorem Stmt.HasCode.checks {s : Stmt} {w : World} {d d' : Draft} {code : List Instruction}
    (h : s.HasCode w d code d') {o : Option Tree} (ho : Tree.body o = s)
    (hd : ∀ unit ∈ d.units, unit.kind = .task) : Checks w d.known o d'.known := by
  induction h generalizing o with
  | nothing =>
    rcases o with _ | t
    · exact .absent
    · cases Tree.readsStmt_iff.2 ho
  | sequence h₁ _ ih₁ ih₂ =>
    obtain ⟨t, rfl, hreads⟩ := Tree.exists_readsStmt ho nofun
    cases hreads with
    | sequence hkind => exact .sequence hkind (ih₁ rfl hd) (ih₂ rfl (h₁.tasks hd))
  | block _ ih =>
    obtain ⟨t, rfl, hreads⟩ := Tree.exists_readsStmt ho nofun
    cases hreads with
    | block hkind => exact .block hkind (ih rfl hd)
  | assign hc hslot _ =>
    obtain ⟨t, rfl, hreads⟩ := Tree.exists_readsStmt ho nofun
    cases hreads with
    | assign hkind htarget hname =>
      rw [Draft.known_assigned hslot]
      refine .assign hkind htarget hname (hc.hasType rfl) fun other hother => ?_
      obtain ⟨info, hinfo, rfl⟩ := Option.map_eq_some_iff.1 hother
      -- A name that was known keeps its type, and now has the type of the value.
      have hkept := hslot.within hinfo
      rw [hslot.lookup_eq, if_pos rfl] at hkept
      exact congrArg VarInfo.type (Option.some.inj hkept).symm
  | print hc hprint =>
    obtain ⟨t, rfl, hreads⟩ := Tree.exists_readsStmt ho nofun
    cases hreads with
    | print hkind => exact .print hkind (hc.hasType rfl) hprint
  | assert hc htype =>
    obtain ⟨t, rfl, hreads⟩ := Tree.exists_readsStmt ho nofun
    cases hreads with
    | assert hkind => exact .assert hkind (hc.hasType rfl) htype
  | sleep hc htype =>
    obtain ⟨t, rfl, hreads⟩ := Tree.exists_readsStmt ho nofun
    cases hreads with
    | sleep hkind => exact .sleep hkind (hc.hasType rfl) htype
  | ifThen hc htype _ ih =>
    obtain ⟨t, rfl, hreads⟩ := Tree.exists_readsStmt ho nofun
    cases hreads with
    | ifThen hkind => exact .ifThen hkind (hc.hasType rfl) htype (ih (Tree.body_some _) hd)
  | ifElse hc htype ht _ iht ihe =>
    obtain ⟨t, rfl, hreads⟩ := Tree.exists_readsStmt ho nofun
    cases hreads with
    | ifElse hkind hinner =>
      exact .ifElse hkind hinner (hc.hasType rfl) htype (iht (Tree.body_some _) hd)
        (ihe (Tree.body_some _) (ht.tasks hd))
  | loop hc htype _ ih =>
    obtain ⟨t, rfl, hreads⟩ := Tree.exists_readsStmt ho nofun
    cases hreads with
    | loop hkind => exact .loop hkind (hc.hasType rfl) htype (ih (Tree.body_some _) hd)
  | spawn hplain hstart =>
    obtain ⟨t, rfl, hreads⟩ := Tree.exists_readsStmt ho nofun
    cases hreads with
    | spawn hkind hname => exact .spawn hkind hname hplain ((World.canStart_iff hd).1 hstart)
  | spawnInline hplain hunused _ _ ih =>
    obtain ⟨t, rfl, hreads⟩ := Tree.exists_readsStmt ho nofun
    cases hreads with
    | spawnInline hkind hname =>
      obtain ⟨hfinished, hbegun⟩ := World.unused_iff.1 hunused
      rw [Draft.known_finished]
      exact .spawnInline hkind hname hplain hfinished hbegun (ih (Tree.body_some _) hd)

/-- **A statement in order has code**, if there are numbers enough for the labels of the tasks that
it gives on the spot. The labels of the statement itself are not asked about here: they are checked
with the whole unit. -/
theorem Checks.exists_code {w : World} {known known' : Known} {o : Option Tree}
    (h : Checks w known o known') {d : Draft} (hknown : d.known = known) (htable : d.table.Tidy)
    (hd : ∀ unit ∈ d.units, unit.kind = .task) (hfit : (Tree.body o).TasksFit) :
    ∃ code d', (Tree.body o).HasCode w d code d' ∧ d'.known = known' := by
  induction h generalizing d with
  | absent => exact ⟨_, d, .nothing, hknown⟩
  | sequence hkind _ _ ih₁ ih₂ =>
    rw [Tree.body, (Tree.ReadsStmt.sequence hkind).eq] at hfit ⊢
    obtain ⟨c₁, d₁, h₁, hknown₁⟩ := ih₁ hknown htable hd hfit.1
    obtain ⟨c₂, d₂, h₂, hknown₂⟩ := ih₂ hknown₁ (h₁.tidy htable) (h₁.tasks hd) hfit.2
    exact ⟨_, d₂, .sequence h₁ h₂, hknown₂⟩
  | block hkind _ ih =>
    rw [Tree.body, (Tree.ReadsStmt.block hkind).eq] at hfit ⊢
    obtain ⟨c, d', hc, hknown'⟩ := ih hknown htable hd hfit
    exact ⟨_, d', .block hc, hknown'⟩
  | assign hkind htarget hname htype hbound =>
    subst hknown
    rw [Tree.body, (Tree.ReadsStmt.assign hkind htarget hname).eq]
    obtain ⟨c, k, hc⟩ := htype.exists_code htable.holdable d.labels
    obtain ⟨kind, hslotKind⟩ := htype.exists_slotKind? htable.holdable
    obtain ⟨slot, table, hslot⟩ := SymbolTable.exists_assigns htable.frames_ne_nil
      fun info hinfo => hbound info.type (congrArg (Option.map VarInfo.type) hinfo)
    exact ⟨_, _, .assign hc hslot hslotKind, Draft.known_assigned hslot k⟩
  | print hkind htype hprint =>
    subst hknown
    rw [Tree.body, (Tree.ReadsStmt.print hkind).eq]
    obtain ⟨c, k, hc⟩ := htype.exists_code htable.holdable d.labels
    exact ⟨_, _, .print hc hprint, rfl⟩
  | assert hkind htype hint =>
    subst hknown
    rw [Tree.body, (Tree.ReadsStmt.assert hkind).eq]
    obtain ⟨c, k, hc⟩ := htype.exists_code htable.holdable d.labels
    exact ⟨_, _, .assert hc hint, rfl⟩
  | sleep hkind htype hint =>
    subst hknown
    rw [Tree.body, (Tree.ReadsStmt.sleep hkind).eq]
    obtain ⟨c, k, hc⟩ := htype.exists_code htable.holdable d.labels
    exact ⟨_, _, .sleep hc hint, rfl⟩
  | ifThen hkind htype hint _ ih =>
    subst hknown
    rw [Tree.body, (Tree.ReadsStmt.ifThen hkind).eq] at hfit ⊢
    obtain ⟨c, k, hc⟩ := htype.exists_code htable.holdable d.labels
    obtain ⟨cb, d', hb, hknown'⟩ := @ih { d with labels := k + 1 } rfl htable hd hfit
    exact ⟨_, d', .ifThen hc hint hb, hknown'⟩
  | ifElse hkind hinner htype hint _ _ iht ihe =>
    subst hknown
    rw [Tree.body, (Tree.ReadsStmt.ifElse hkind hinner).eq] at hfit ⊢
    obtain ⟨c, k, hc⟩ := htype.exists_code htable.holdable d.labels
    obtain ⟨ct, d₁, ht, hknown₁⟩ := @iht { d with labels := k + 2 } rfl htable hd hfit.1
    obtain ⟨ce, d₂, he, hknown₂⟩ := ihe hknown₁ (ht.tidy htable) (ht.tasks hd) hfit.2
    exact ⟨_, d₂, .ifElse hc hint ht he, hknown₂⟩
  | loop hkind htype hint _ ih =>
    subst hknown
    rw [Tree.body, (Tree.ReadsStmt.loop hkind).eq] at hfit ⊢
    obtain ⟨c, k, hc⟩ := htype.exists_code htable.holdable (d.labels + 2)
    obtain ⟨cb, d', hb, hknown'⟩ := @ih { d with labels := k } rfl htable hd hfit
    exact ⟨_, d', .loop hc hint hb, hknown'⟩
  | spawn hkind hname hplain hstart =>
    subst hknown
    rw [Tree.body, (Tree.ReadsStmt.spawn hkind hname).eq]
    exact ⟨_, d, .spawn hplain ((World.canStart_iff hd).2 hstart), rfl⟩
  | spawnInline hkind hname hplain hfinished hbegun _ ih =>
    subst hknown
    rw [Tree.body, (Tree.ReadsStmt.spawnInline hkind hname).eq] at hfit ⊢
    obtain ⟨c, d₁, hc, rfl⟩ :=
      ih (Draft.known_fresh d.units) (SymbolTable.tidy_fresh d.units) hd hfit.2
    have hunused := World.unused_iff.2 ⟨hfinished, hbegun⟩
    exact ⟨_, _, .spawnInline hplain hunused hc (hc.checkLabels_iff.2 hfit.1),
      Draft.known_finished d d₁ _⟩

/-! ### Whole programs -/

/-- **A program has units** exactly if its name is plain, it is well-typed, and its labels fit. The
three conditions are those that are checked when a unit is begun, while its body is compiled, and
when it is finished. -/
theorem Tree.exists_hasUnits_iff {t : Tree} {config : Config} {resolver : Resolver}
    {name : String} :
    (∃ c, t.toStmt.HasUnits config resolver name c) ↔
      PlainName name ∧ t.WellTyped config resolver name ∧ t.LabelsFit := by
  constructor
  · rintro ⟨c, hplain, code, d, hcode, rfl, hlabels⟩
    exact ⟨hplain, ⟨d.known, hcode.checks (Tree.body_some t) nofun⟩,
      hcode.checkLabels_iff.1 hlabels, hcode.tasksFit⟩
  · rintro ⟨hplain, ⟨known, hchecks⟩, hcount, hfit⟩
    obtain ⟨code, d, hcode, -⟩ := hchecks.exists_code (Draft.known_fresh [])
      (SymbolTable.tidy_fresh []) nofun hfit
    exact ⟨_, hplain, code, d, hcode, rfl, hcode.checkLabels_iff.2 hcount⟩

/-- **An ordinary context**, as those of a compilation are: the room for values is at least what
the values take, and the variables have types that can be held. -/
structure Context.Ordinary (cx : Context) : Prop where
  depth_le : cx.types.depth ≤ cx.types.maxDepth
  holdable : cx.symbols.typeOf.Holdable

/-- A context at a draft with a tidy table is ordinary. -/
theorem Context.At.ordinary {cx : Context} {w : World} {d : Draft} (h : cx.At w d)
    (htable : d.table.Tidy) : cx.Ordinary :=
  ⟨h.depth_le, h.symbols ▸ htable.holdable⟩

/-- A context stands at the draft that is read off it. -/
theorem Context.Ordinary.stands {cx : Context} (hcx : cx.Ordinary) :
    cx.At ⟨cx.session.config, cx.session.resolver, cx.session.inProgress⟩
      ⟨cx.symbols, cx.code.nextLabel.toNat, cx.session.units⟩ :=
  ⟨⟨rfl, rfl, rfl, rfl⟩, rfl, UInt32.ofNat_toNat.symm, hcx.depth_le⟩

/-- **The type that the compiler gives to an expression** is the type that it has. It is found on
top of the type stack, the rest of which is as it was. -/
theorem Expr.compile_iff_hasType {cx : Context} (hcx : cx.Ordinary) {t : Tree}
    {type : OperandType} :
    (∃ cx', t.toExpr.compile cx = .ok () cx' ∧
        cx'.types.entries = cx.types.entries.push type) ↔
      t.HasType cx.symbols.typeOf type := by
  constructor
  · rintro ⟨cx', hcompile, hentries⟩
    obtain ⟨code, type', k, hcode, harrives⟩ := Expr.compile_sound hcx.stands hcompile
    obtain ⟨-, rfl⟩ := harrives.top_eq hentries
    exact hcode.hasType rfl
  · intro htype
    obtain ⟨code, k, hcode⟩ := htype.exists_code hcx.holdable cx.code.nextLabel.toNat
    obtain ⟨cx', hcompile, harrives⟩ := Expr.compile_complete hcode hcx.stands rfl rfl
    exact ⟨cx', hcompile, harrives.wrote.entries⟩

/-- **The compiler accepts exactly the well-typed programs**, and gives every expression the type
that it has.

The second part says that the condition on labels is void for trees of any size that is met with in
practice. The third is about expressions in any ordinary context, and so about each expression of a
program at the point where it is compiled; without it the first part would say nothing about which
types these are. -/
theorem Session.compileNamed_iff_wellTyped (session : Session) (name : String) (tree : Tree) :
    ((∃ c after, compileNamed name tree session = .ok c after) ↔
        PlainName name ∧ tree.WellTyped session.config session.resolver name ∧ tree.LabelsFit) ∧
      (tree.size ≤ 2 ^ 31 → tree.LabelsFit) ∧
      ∀ (t : Tree) (cx : Context) (type : OperandType), cx.Ordinary →
        ((∃ cx', t.toExpr.compile cx = .ok () cx' ∧
            cx'.types.entries = cx.types.entries.push type) ↔
          t.HasType cx.symbols.typeOf type) := by
  refine ⟨?_, Tree.labelsFit_of_size_le, fun t cx type hcx => Expr.compile_iff_hasType hcx⟩
  rw [← Tree.exists_hasUnits_iff]
  exact exists_congr fun c => compileNamed_iff session

theorem Session.wellTyped_countdown :
    Tree.countdown.size ≤ 2 ^ 31 ∧ Tree.countdown.LabelsFit ∧
      Tree.countdown.WellTyped bare.config bare.resolver "Main" ∧
      (Context.starting bare "Main" .program).Ordinary ∧
      ∃ cx', (Tree.ofBool true).toExpr.compile (.starting bare "Main" .program) = .ok () cx' ∧
        cx'.types.entries = Pile.empty.push .boolean := by
  obtain ⟨c, after, h, -⟩ := compileNamed_countdown
  obtain ⟨haccepts, hfit, htypes⟩ := compileNamed_iff_wellTyped bare "Main" .countdown
  have hsize : Tree.countdown.size ≤ 2 ^ 31 := by decide
  have hstart : (Context.starting bare "Main" .program).Ordinary :=
    (Context.At.starting (At.forget bare) "Main" .program).ordinary (SymbolTable.tidy_fresh [])
  refine ⟨hsize, hfit hsize, (haccepts.1 ⟨c, after, h⟩).2.1, hstart, ?_⟩
  exact (htypes (.ofBool true) _ .boolean hstart).2 (.literal rfl rfl)

end StackUnits
