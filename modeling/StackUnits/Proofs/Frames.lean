import StackUnits.Proofs.Extension

/-!
# What compiling leaves behind

A compilation in the middle of a unit extends its context, also if it fails
(`StackUnits.Proofs.Extension`). If it succeeds, more is true:

* an **expression** has put one type onto the type stack and has not touched the symbol table
  (`StackUnits.Context.Pushes`);
* a **statement** has left the type stack as it was, and has at most declared new names in the
  innermost frame (`StackUnits.Context.Settles`). All other names stand for what they stood for
  (`StackUnits.SymbolTable.Gains`).

Both are read off the runs that succeed, construct by construct, and hold in every context. Together
with the extension they say what compiling a tree does to the context it is compiled in
(`StackUnits.Tree.compile_extends`).
-/

namespace StackUnits

open StackUnits.Action Emit

/-! ### Tables with more declarations -/

/-- **A table with more declarations**, newest first: the new names stand in the innermost frame,
none of them was known before, each stands for its variable now, and all others for what they stood
for. Nothing else has changed but the counts of slots. -/
structure SymbolTable.Gains (table : SymbolTable) (new : List LocalVariable)
    (table' : SymbolTable) : Prop where
  frames : new = [] ∧ table'.frames = table.frames ∨ ∃ frame frame' rest,
    table.frames = frame :: rest ∧ table'.frames = frame' :: rest ∧
      frame'.entries = new.map LocalVariable.entry ++ frame.entries
  declared : table'.declared = new ++ table.declared
  nextSlot : table'.nextSlot = table.nextSlot + .ofNat new.length
  unknown : ∀ v ∈ new, table.lookup v.name = none
  known : ∀ v ∈ new, table'.lookup v.name = some ⟨v.slot, v.type⟩
  within : table.Within table'

namespace SymbolTable.Gains

variable {table table₁ table₂ : SymbolTable} {new new' : List LocalVariable}

theorem refl (table : SymbolTable) : table.Gains [] table where
  frames := .inl ⟨rfl, rfl⟩
  declared := rfl
  nextSlot := (UInt16.add_zero _).symm
  unknown _ hv := (List.not_mem_nil hv).elim
  known _ hv := (List.not_mem_nil hv).elim
  within _ _ hlookup := hlookup

/-- Declarations that are made one after the other are all in the innermost frame, since the frames
in between are the same. -/
theorem trans (h : table.Gains new table₁) (h' : table₁.Gains new' table₂) :
    table.Gains (new' ++ new) table₂ where
  frames := by
    obtain ⟨rfl, hframes⟩ | ⟨frame, frame₁, rest, hframes, hframes₁, hentries⟩ := h.frames
    · rw [List.append_nil, ← hframes]
      exact h'.frames
    · right
      obtain ⟨rfl, hframes₂⟩ | ⟨_, frame₂, _, hframes₁', hframes₂, hentries₂⟩ := h'.frames
      · exact ⟨frame, frame₁, rest, hframes, hframes₂.trans hframes₁, hentries⟩
      · obtain ⟨rfl, rfl⟩ := List.cons.inj (hframes₁.symm.trans hframes₁')
        refine ⟨frame, frame₂, rest, hframes, hframes₂, ?_⟩
        rw [hentries₂, hentries, List.map_append, List.append_assoc]
  declared := by rw [h'.declared, h.declared, List.append_assoc]
  nextSlot := by
    rw [h'.nextSlot, h.nextSlot, List.length_append, Nat.add_comm, UInt16.ofNat_add,
      UInt16.add_assoc]
  unknown := by
    intro v hv
    rcases List.mem_append.1 hv with hv | hv
    -- What is unknown later was unknown before, since no name is lost.
    · rw [Option.eq_none_iff_forall_ne_some]
      intro info hinfo
      have hknown := h.within hinfo
      rw [h'.unknown v hv] at hknown
      cases hknown
    · exact h.unknown v hv
  known := by
    intro v hv
    rcases List.mem_append.1 hv with hv | hv
    · exact h'.known v hv
    · exact h'.within (h.known v hv)
  within := h.within.trans h'.within

end SymbolTable.Gains

/-- An assignment declares its name, if it is new, and nothing else. An assignment to a name that is
known declares nothing. -/
theorem SymbolTable.Assigns.exists_gains {table table' : SymbolTable} {name : String}
    {type : OperandType} {slot : UInt16} (h : table.Assigns name type slot table') :
    ∃ new, table.Gains new table' := by
  have hwithin := h.within
  have hname := h.lookup_eq name
  rw [if_pos rfl] at hname
  obtain ⟨-, rfl⟩ | ⟨hlookup, rfl, frame, rest, hframes, rfl⟩ := h.cases
  · exact ⟨[], .refl table'⟩
  · refine ⟨[⟨name, table.nextSlot, type⟩], ?_, rfl, rfl, ?_, ?_, hwithin⟩
    · exact .inr ⟨frame, _, rest, hframes, rfl, rfl⟩
    · intro v hv
      rw [List.mem_singleton.1 hv]
      exact hlookup
    · intro v hv
      rw [List.mem_singleton.1 hv]
      exact hname

/-! ### Runs that succeed -/

/-- **One value more**: one type has been pushed, and the symbol table is the same. -/
def Context.Pushes (cx cx' : Context) : Prop :=
  (∃ type, cx'.types.entries = cx.types.entries.push type) ∧ cx'.symbols = cx.symbols

/-- **Nothing left behind**: the types are the same, and the symbol table has at most gained new
names in its innermost frame. -/
def Context.Settles (cx cx' : Context) : Prop :=
  cx'.types.entries = cx.types.entries ∧ ∃ new, cx.symbols.Gains new cx'.symbols

namespace Context

variable {cx cx₁ cx₂ : Context} {type : OperandType} {rest : Pile OperandType}

/-- What is below the type that was pushed is what was there before. -/
theorem Pushes.rest_eq (h : cx.Pushes cx₁) (hentries : cx₁.types.entries = rest.push type) :
    rest = cx.types.entries := by
  obtain ⟨⟨type', htypes⟩, -⟩ := h
  exact (Pile.push_inj.1 (hentries.symm.trans htypes)).1

/-- Only the types and the symbol table count. -/
theorem Settles.congr (h : cx.Settles cx₁) (hentries : cx₂.types.entries = cx₁.types.entries)
    (hsymbols : cx₂.symbols = cx₁.symbols) : cx.Settles cx₂ :=
  ⟨hentries.trans h.1, hsymbols ▸ h.2⟩

theorem Settles.refl (cx : Context) : cx.Settles cx :=
  ⟨rfl, [], .refl cx.symbols⟩

theorem Settles.trans (h : cx.Settles cx₁) (h' : cx₁.Settles cx₂) : cx.Settles cx₂ := by
  obtain ⟨hentries, new, hgains⟩ := h
  obtain ⟨hentries', new', hgains'⟩ := h'
  exact ⟨hentries'.trans hentries, _, hgains.trans hgains'⟩

/-- A value that is taken off again leaves nothing behind, since an expression declares no names. -/
theorem Pushes.settles_popped (h : cx.Pushes cx₁) (hentries : cx₁.types.entries = rest.push type) :
    cx.Settles (cx₁.popped rest) := by
  refine ⟨h.rest_eq hentries, [], ?_⟩
  change cx.symbols.Gains [] cx₁.symbols
  rw [h.2]
  exact .refl _

/-! ### Names and types in contexts -/

section Fields

variable (cx : Context)

@[simp]
theorem symbols_noted (event : Event) : (cx.noted event).symbols = cx.symbols := rfl

@[simp]
theorem symbols_wrote (instr : Instruction) : (cx.wrote instr).symbols = cx.symbols := rfl

@[simp]
theorem symbols_pushed (type : OperandType) : (cx.pushed type).symbols = cx.symbols := rfl

@[simp]
theorem symbols_popped (rest : Pile OperandType) : (cx.popped rest).symbols = cx.symbols := rfl

@[simp]
theorem symbols_labelled : cx.labelled.symbols = cx.symbols := rfl

@[simp]
theorem entries_wrote (instr : Instruction) :
    (cx.wrote instr).types.entries = cx.types.entries := rfl

@[simp]
theorem entries_popped (rest : Pile OperandType) : (cx.popped rest).types.entries = rest := rfl

@[simp]
theorem symbols_opened (skip : ZeroTest) : (cx.opened skip).symbols = cx.symbols := rfl

@[simp]
theorem symbols_turned (start : Context) : (cx.turned start).symbols = cx.symbols := rfl

@[simp]
theorem symbols_decided (n : Int32) : (cx.decided n).symbols = cx.symbols := rfl

@[simp]
theorem symbols_joined (start : Context) : (cx.joined start true).symbols = cx.symbols := rfl

@[simp]
theorem entries_opened (skip : ZeroTest) :
    (cx.opened skip).types.entries = cx.types.entries := rfl

@[simp]
theorem entries_turned (start : Context) :
    (cx.turned start).types.entries = cx.types.entries := rfl

@[simp]
theorem entries_decided (n : Int32) : (cx.decided n).types.entries = cx.types.entries := rfl

@[simp]
theorem entries_joined (start : Context) :
    (cx.joined start true).types.entries = cx.types.entries.push .boolean := rfl

theorem Settles.asserted : cx.Settles cx.asserted := by
  refine (Settles.refl cx).congr ?_ ?_
  · simp [Context.asserted]
  · simp [Context.asserted, Context.called, Context.created]

theorem Settles.slept : cx.Settles cx.slept := by
  refine (Settles.refl cx).congr ?_ ?_
  · simp [Context.slept, Context.called]
  · simp [Context.slept, Context.called]

theorem Settles.spawned (task : String) : cx.Settles (cx.spawned task) := by
  refine (Settles.refl cx).congr ?_ ?_
  · simp [Context.spawned, Context.called]
  · simp [Context.spawned, Context.called, Context.created]

end Fields

end Context

namespace Emit

variable {tag : Tag} {x y : Emit Unit}

/-- The action leaves one value wherever it succeeds. -/
def Pushing (x : Emit Unit) : Prop :=
  ∀ ⦃cx cx'⦄, x cx = .ok () cx' → cx.Pushes cx'

/-- The action leaves nothing behind wherever it succeeds. -/
def Settling (x : Emit Unit) : Prop :=
  ∀ ⦃cx cx'⦄, x cx = .ok () cx' → cx.Settles cx'

/-! ### Expressions that compile -/

namespace Pushing

theorem entered (h : Pushing x) : Pushing (do enterExpr tag; x) := by
  intro cx cx' hrun
  obtain ⟨⟨⟩, cx₁, henter, hrun⟩ := bind_eq_ok.1 hrun
  obtain rfl := enterExpr_eq_ok.1 henter
  -- The journal is no part of what is said of a context.
  have hpushes := h hrun
  exact hpushes

theorem throw (e : CompileError) : Pushing (throw e) :=
  fun _ _ hrun => (throw_eq_ok.1 hrun).elim

theorem pushConstant (constant : Constant) (type : OperandType) :
    Pushing (pushConstant constant type) := by
  intro cx cx' hrun
  obtain rfl := pushConstant_eq_ok.1 hrun
  exact ⟨⟨type, rfl⟩, rfl⟩

theorem variableValue (name : String) : Pushing (variableValue tag name) := by
  intro cx cx' hrun
  obtain ⟨info, kind, -, -, rfl⟩ := variableValue_eq_ok.1 hrun
  exact ⟨⟨info.type, rfl⟩, rfl⟩

/-- An operation puts its result in the place of its two operands. -/
theorem arith {op : ArithOp} (hx : Pushing x) (hy : Pushing y) :
    Pushing (arith tag op x y) := by
  intro cx cx' hrun
  obtain ⟨cx₁, cx₂, type, rest, family, hleft, hright, hentries, -, rfl⟩ := arith_eq_ok.1 hrun
  have hleft := hx hleft
  have hright := hy hright
  obtain rfl := hleft.rest_eq (hright.rest_eq hentries).symm
  exact ⟨⟨type, rfl⟩, hright.2.trans hleft.2⟩

theorem cast {target : OperandType} (hx : Pushing x) : Pushing (cast tag target x) := by
  intro cx cx' hrun
  obtain ⟨cx₁, source, rest, conversion, hoperand, hentries, -, rfl⟩ := cast_eq_ok.1 hrun
  have hoperand := hx hoperand
  obtain rfl := hoperand.rest_eq hentries
  -- The identity is written as nothing, and the others as one instruction.
  rcases conversion
  all_goals exact ⟨⟨target, rfl⟩, hoperand.2⟩

/-- A connective takes its first operand off before the second is computed, and leaves one value
after both arms, though each of them has left one. -/
theorem connective {skip : ZeroTest} {n : Int32} (hx : Pushing x) (hy : Pushing y) :
    Pushing (conditional tag x skip (.value tag y) (some (.constant tag n))) := by
  intro cx cx' hrun
  obtain ⟨cx₁, _, rest, cx₂, _, rest', hleft, hentries, -, hright, hentries', -, rfl⟩ :=
    connective_eq_ok.1 hrun
  have hleft := hx hleft
  have hright := hy hright
  have hrest : rest' = cx.types.entries :=
    (hright.rest_eq hentries').trans (hleft.rest_eq hentries)
  have hsymbols : cx₂.symbols = cx.symbols := hright.2.trans hleft.2
  exact ⟨⟨.boolean, by simp [hrest]⟩, by simp [hsymbols]⟩

/-- A verdict is put in the place of the value it is about. -/
theorem verdict {skip : ZeroTest} {m n : Int32} (hx : Pushing x) :
    Pushing (conditional tag x skip (.constant tag m) (some (.constant tag n))) := by
  intro cx cx' hrun
  obtain ⟨cx₁, _, rest, hvalue, hentries, -, rfl⟩ := verdict_eq_ok.1 hrun
  have hvalue := hx hvalue
  have hrest := hvalue.rest_eq hentries
  exact ⟨⟨.boolean, by simp [hrest]⟩, by simp [hvalue.2]⟩

end Pushing

/-! ### Statements that compile -/

namespace Settling

theorem entered (h : Settling x) : Settling (do enterStmt tag; x) := by
  intro cx cx' hrun
  obtain ⟨⟨⟩, cx₁, henter, hrun⟩ := bind_eq_ok.1 hrun
  obtain rfl := Stmt.enterStmt_eq_ok.1 henter
  have hsettles := h hrun
  exact hsettles

theorem pure : Settling (pure ()) := by
  intro cx cx' hrun
  obtain ⟨-, rfl⟩ := pure_eq_ok.1 hrun
  exact .refl cx'

theorem throw (e : CompileError) : Settling (throw e) :=
  fun _ _ hrun => (throw_eq_ok.1 hrun).elim

/-- **One statement after the other** leaves nothing behind, and what the second declares is known
as new after the first. -/
theorem bind (hx : Settling x) (hy : Settling y) : Settling (do x; y) := by
  intro cx cx' hrun
  obtain ⟨⟨⟩, cx₁, hfirst, hrest⟩ := bind_eq_ok.1 hrun
  exact (hx hfirst).trans (hy hrest)

/-- Only an assignment declares a name; the value is taken off by it. -/
theorem assign {name : String} (hx : Pushing x) : Settling (assign tag name x) := by
  intro cx cx' hrun
  obtain ⟨cx₁, _, rest, slot, table, kind, hvalue, hentries, hslot, -, rfl⟩ := assign_eq_ok.1 hrun
  have hvalue := hx hvalue
  have hgains := hslot.exists_gains
  rw [hvalue.2] at hgains
  exact ⟨hvalue.rest_eq hentries, hgains⟩

/-- What is printed is taken off together with the printer below it. -/
theorem print (hx : Pushing x) : Settling (print tag x) := by
  intro cx cx' hrun
  obtain ⟨cx₁, _, rest, _, descriptor, hvalue, hentries, -, rfl⟩ := print_eq_ok.1 hrun
  have hvalue := hx hvalue
  obtain ⟨hrest, -⟩ := Pile.push_inj.1 (hvalue.rest_eq hentries)
  exact ⟨hrest, (hvalue.settles_popped hentries).2⟩

theorem assert (hx : Pushing x) : Settling (assert tag x) := by
  intro cx cx' hrun
  obtain ⟨cx₁, _, rest, hcondition, hentries, -, rfl⟩ := assert_eq_ok.1 hrun
  exact ((hx hcondition).settles_popped hentries).trans (.asserted _)

theorem sleep (hx : Pushing x) : Settling (sleep tag x) := by
  intro cx cx' hrun
  obtain ⟨cx₁, _, rest, hduration, hentries, -, rfl⟩ := sleep_eq_ok.1 hrun
  exact ((hx hduration).settles_popped hentries).trans (.slept _)

theorem option {skip : ZeroTest} (hx : Pushing x) (hy : Settling y) :
    Settling (conditional tag x skip (.statement y) none) := by
  intro cx cx' hrun
  obtain ⟨cx₁, _, rest, cx₂, hcondition, hentries, -, hbranch, rfl⟩ := option_eq_ok.1 hrun
  have hbranch := hy hbranch
  exact ((hx hcondition).settles_popped hentries).trans hbranch

/-- What the first arm declares is still there when the second arm is compiled. -/
theorem choice {skip : ZeroTest} {z : Emit Unit} (hx : Pushing x) (hy : Settling y)
    (hz : Settling z) :
    Settling (conditional tag x skip (.statement y) (some (.statement z))) := by
  intro cx cx' hrun
  obtain ⟨cx₁, _, rest, cx₂, cx₃, hcondition, hentries, -, hthen, helse, rfl⟩ :=
    choice_eq_ok.1 hrun
  have hthen := hy hthen
  have helse := hz helse
  exact (((hx hcondition).settles_popped hentries).trans hthen).trans helse

theorem loop (hx : Pushing x) (hy : Settling y) : Settling (loop tag x y) := by
  intro cx cx' hrun
  obtain ⟨cx₁, _, rest, cx₂, hcondition, hentries, -, hbody, rfl⟩ := loop_eq_ok.1 hrun
  have hcondition := (hx hcondition).settles_popped hentries
  have hbody := hy hbody
  exact hcondition.trans hbody

/-- The session has no part in the types and the names of a context. -/
theorem inSession (action : SessionM Unit) : Settling (inSession action) := by
  intro cx cx' hrun
  obtain ⟨session, -, rfl⟩ := inSession_eq_ok.1 hrun
  exact .refl cx

theorem requireTask (name : String) : Settling (requireTask tag name) := by
  intro cx cx' hrun
  obtain ⟨notes, rfl⟩ := requireTask_notes hrun
  exact .refl cx

/-- All references by which a task is started are taken off again. -/
theorem spawn (task : String) : Settling (spawn tag task) := by
  intro cx cx' hrun
  rw [spawn_run] at hrun
  obtain rfl : cx.spawned task = cx' := (EStateM.Result.ok.inj hrun).2
  exact .spawned cx task

end Settling

end Emit

/-- **An expression that compiles leaves one value**, in every context in which it compiles. By
induction on the expression. -/
theorem Expr.pushing_compile (e : Expr) : Pushing e.compile := by
  induction e with
  | fault tag error => exact .entered (.throw error)
  | literal tag constant type => exact .entered (.pushConstant constant type)
  | var tag name => exact .entered (.variableValue name)
  | arith tag op left right ihl ihr => exact .entered (.arith ihl ihr)
  | cast tag target operand ih => exact .entered (.cast ih)
  | and tag left right ihl ihr | or tag left right ihl ihr => exact .entered (.connective ihl ihr)
  | not tag operand ih => exact .entered (.verdict ih)
  | compare tag test left right ihl ihr => exact .entered (.verdict (.arith ihl ihr))

/-- **A statement that compiles leaves nothing**, and declares names in the innermost frame only. A
block is no scope of its own: what is declared in it stays. -/
theorem Stmt.settling_compile (s : Stmt) : Settling s.compile := by
  induction s with
  | nothing => exact .pure
  | fault tag error => exact .entered (.throw error)
  | sequence tag first rest ih₁ ih₂ => exact .entered (.bind ih₁ ih₂)
  | block tag body ih => exact .entered ih
  | assign tag name value => exact .entered (.assign value.pushing_compile)
  | print tag value => exact .entered (.print value.pushing_compile)
  | assert tag condition => exact .entered (.assert condition.pushing_compile)
  | sleep tag duration => exact .entered (.sleep duration.pushing_compile)
  | ifThen tag condition branch ih => exact .entered (.option condition.pushing_compile ih)
  | ifElse tag condition thenBranch elseBranch iht ihe =>
    exact .entered (.choice condition.pushing_compile iht ihe)
  | loop tag condition body ih => exact .entered (.loop condition.pushing_compile ih)
  | spawn tag name => exact .entered (.bind (.requireTask name) (.spawn name))
  | spawnInline tag name bodyTag body => exact .entered (.bind (.inSession _) (.spawn name))

/-! ### Trees -/

/-- **What compiling a tree does to its context**, whatever the context: there may be code, types on
the type stack and open frames. However the call ends, the context is extended; if it succeeds, one
type has been pushed by an expression, and nothing but new names in the innermost frame is left by a
statement. The same is true of the readings of a tree as a conditional and as a loop.

Those readings are calls of their own, and are therefore listed with the statement. Nothing is asked
of the context, so that the result can be used in the middle of any compilation. -/
theorem Tree.compile_extends (t : Tree) (cx : Context) :
    (cx.Extends t.toExpr.labelCount (final (t.toExpr.compile cx)) ∧
      ∀ cx', t.toExpr.compile cx = .ok () cx' → cx.Pushes cx') ∧
    ∀ s ∈ [t.toStmt, t.toIf, t.toIfElse, t.toLoop],
      cx.Extends s.labelCount (final (s.compile cx)) ∧
        ∀ cx', s.compile cx = .ok () cx' → cx.Settles cx' := by
  refine ⟨⟨t.toExpr.extending_compile cx, fun cx' h => t.toExpr.pushing_compile h⟩, ?_⟩
  intro s _
  exact ⟨s.extending_compile cx, fun cx' h => s.settling_compile h⟩

/-- In the middle of a unit: there is an instruction, a `long` is on the stack, and there are two
frames, the outer one with a variable. -/
def Context.midway : Context where
  session := .bare
  unitName := "Main"
  types := TypeStack.push {} .long
  symbols :=
    { frames := [.empty, Frame.empty.insert "i" ⟨0, .int⟩]
      nextSlot := 1
      slotCount := 1
      declared := [⟨"i", 0, .int⟩] }
  code := { emitted := Pile.empty.push .dup, nextLabel := 7 }

/-- Whether `i` is positive. -/
def Tree.positive : Tree :=
  .binary .greater (.ofName "i") (.ofInteger "0")

/-- A loop that copies `i` as long as it is positive. -/
def Tree.copying : Tree :=
  .binary .loop positive (.ofAssign "n" (.ofName "i"))

/-- A condition and a loop are compiled on top of what is there, and so is the attempt to read the
loop as an expression, which fails. -/
theorem Tree.compile_extends_midway :
    (∃ cx', positive.toExpr.compile .midway = .ok () cx' ∧
      Context.midway.Extends 2 cx' ∧ Context.midway.Pushes cx') ∧
    (∃ cx', copying.toLoop.compile .midway = .ok () cx' ∧
      Context.midway.Extends 4 cx' ∧ Context.midway.Settles cx') ∧
    ∃ e cx', copying.toExpr.compile .midway = .error e cx' ∧ Context.midway.Extends 0 cx' := by
  obtain ⟨⟨hextends, hpushes⟩, -⟩ := compile_extends positive .midway
  obtain ⟨⟨hfails, -⟩, hstmt⟩ := compile_extends copying .midway
  obtain ⟨hloop, hsettles⟩ := hstmt copying.toLoop (by simp)
  obtain ⟨cx₁, h₁⟩ : ∃ cx', positive.toExpr.compile .midway = .ok () cx' :=
    exists_of_run'_eq_some (by decide +kernel)
  obtain ⟨cx₂, h₂⟩ : ∃ cx', copying.toLoop.compile .midway = .ok () cx' :=
    exists_of_run'_eq_some (by decide +kernel)
  obtain ⟨e, cx₃, h₃⟩ : ∃ e cx', copying.toExpr.compile .midway = .error e cx' :=
    exists_of_run'_eq_none (by decide +kernel)
  rw [h₁] at hextends
  rw [h₂] at hloop
  rw [h₃] at hfails
  exact ⟨⟨cx₁, h₁, hextends, hpushes cx₁ h₁⟩, ⟨cx₂, h₂, hloop, hsettles cx₂ h₂⟩, e, cx₃, h₃, hfails⟩

end StackUnits
