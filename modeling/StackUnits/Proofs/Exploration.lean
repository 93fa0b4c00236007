import StackUnits.Proofs.Exposure

/-!
# Walks through compiled code

The certificates of `StackUnits.Proofs.Exposure` say what no walk does. This file is about what
some walk does: the limits that are shown there are met, as long as each walk may choose its way
at every branch.

* Some walk gets through the code of a statement, and one that does without a variable of choice,
  unless the statement settles it (`StackUnits.Stmt.HasCode.passes`);
* some walk gets as high as the compiler has counted (`StackUnits.Stmt.HasCode.attains`);
* each exposed variable is read by some walk that has not set it, if it has a slot of its own
  (`StackUnits.Stmt.HasCode.exposes`).
-/

namespace StackUnits

/-! ### Steps of a walk -/

namespace CodeUnit

variable {unit : CodeUnit} {pc height height' : Nat} {stored : List UInt16} {instr : Instruction}
  {code code' condition thenArm elseArm body : List Instruction} {k : Nat} {skip : ZeroTest}

namespace Walks

/-- On to the next instruction, with no slot set. All steps below are of this kind, except for jumps
and for assignments. -/
theorem step (h : unit.Walks pc height stored) (hat : unit.HasAt pc (instr :: code))
    (hgoes : instr.goesOn = true) (hstored : instr.stored? = none)
    (hshift : instr.Shifts height height') : unit.Walks (pc + 1) height' stored := by
  have hnext := h.next hat.head hgoes hshift
  rwa [hstored] at hnext

theorem plain (h : unit.Walks pc height stored) (hat : unit.HasAt pc (instr :: code))
    (hplain : instr.isPlain = true) (hshift : instr.Shifts height height') :
    unit.Walks (pc + 1) height' stored := by
  refine h.step hat ?_ (Instruction.stored?_of_isPlain hplain) hshift
  cases instr <;> first | rfl | cases hplain

theorem push {constant : Constant} (h : unit.Walks pc height stored)
    (hat : unit.HasAt pc (.push constant :: code)) : unit.Walks (pc + 1) (height + 1) stored :=
  h.plain hat rfl ⟨0, height, rfl, rfl, rfl⟩

theorem arith {op : ArithOp} {family : Family} (h : unit.Walks pc (height + 2) stored)
    (hat : unit.HasAt pc (.arith op family :: code)) :
    unit.Walks (pc + 1) (height + 1) stored :=
  h.plain hat rfl ⟨2, height, rfl, rfl, rfl⟩

/-- Past a conversion, if it has an instruction. -/
theorem conversion {conversion : Conversion} (h : unit.Walks pc (height + 1) stored)
    (hat : unit.HasAt pc (Code.conversion conversion)) :
    unit.Walks (pc + (Code.conversion conversion).length) (height + 1) stored := by
  cases conversion with
  | identity => exact h
  | _ => exact h.plain hat rfl ⟨1, height, rfl, rfl, rfl⟩

theorem label {place : Label} (h : unit.Walks pc height stored)
    (hat : unit.HasAt pc (.label place :: code)) : unit.Walks (pc + 1) height stored :=
  h.step hat rfl rfl ⟨0, height, rfl, rfl, rfl⟩

/-- Past a conditional jump: a walk may choose, whatever number is tested. -/
theorem passJump {test : ZeroTest} {target : Label} (h : unit.Walks pc (height + 1) stored)
    (hat : unit.HasAt pc (.jumpIf test target :: code)) : unit.Walks (pc + 1) height stored :=
  h.step hat rfl rfl ⟨1, height, rfl, rfl, rfl⟩

/-- Or to where it leads. -/
theorem jumpIf {test : ZeroTest} {target : Label} {pc' : Nat}
    (h : unit.Walks pc (height + 1) stored) (hat : unit.HasAt pc (.jumpIf test target :: code))
    (hplace : unit.HasAt pc' (.label target :: code')) : unit.Walks (pc' + 1) height stored :=
  (h.jump hat.head rfl ⟨1, height, rfl, rfl, rfl⟩ hplace.head).label hplace

theorem jumpTo {target : Label} {pc' : Nat} (h : unit.Walks pc height stored)
    (hat : unit.HasAt pc (.jump target :: code))
    (hplace : unit.HasAt pc' (.label target :: code')) : unit.Walks (pc' + 1) height stored :=
  (h.jump hat.head rfl ⟨0, height, rfl, rfl, rfl⟩ hplace.head).label hplace

/-- The height after an instruction is attained, even if the walk does not go on from there. -/
theorem attains (h : unit.Walks pc height stored) (hat : unit.HasAt pc (instr :: code))
    (hshift : instr.Shifts height height') : unit.Attains height' :=
  ⟨pc, height, stored, instr, h, hat.head, hshift⟩

theorem printer (h : unit.Walks pc height stored) (hat : unit.HasAt pc (Code.printer :: code)) :
    unit.Walks (pc + 1) (height + 1) stored :=
  h.plain hat rfl ⟨0, height, rfl, rfl, rfl⟩

theorem println {type : OperandType} {descriptor : String}
    (hprint : type.printDescriptor? = some descriptor) (h : unit.Walks pc (height + 2) stored)
    (hat : unit.HasAt pc (Code.println descriptor :: code)) : unit.Walks (pc + 1) height stored :=
  h.plain hat rfl ⟨2, height, Code.takes?_println hprint, rfl, rfl⟩

theorem sleep (h : unit.Walks pc (height + 1) stored) (hat : unit.HasAt pc Code.sleep) :
    unit.Walks (pc + Code.sleep.length) height stored := by
  have hlong : unit.Walks (pc + 1) (height + 1) stored :=
    h.plain hat rfl ⟨1, height, rfl, rfl, rfl⟩
  exact hlong.plain hat.tail rfl ⟨1, height, rfl, rfl, rfl⟩

/-- A walk gets past an assertion as if it held. -/
theorem assertion (h : unit.Walks pc (height + 1) stored) (hat : unit.HasAt pc (Code.assertion k)) :
    unit.Walks (pc + (Code.assertion k).length) height stored :=
  h.jumpIf hat hat.tail.tail.tail.tail.tail.tail

/-- Or it looks at the failure, where there are three values more: the error, twice, and its
message. -/
theorem assertion_attains (h : unit.Walks pc (height + 1) stored)
    (hat : unit.HasAt pc (Code.assertion k)) : unit.Attains (height + 3) := by
  have hnew : unit.Walks (pc + 1 + 1) (height + 1) stored :=
    (h.passJump hat).plain hat.tail rfl ⟨0, height, rfl, rfl, rfl⟩
  have hdup : unit.Walks (pc + 1 + 1 + 1) (height + 2) stored :=
    hnew.plain hat.tail.tail rfl ⟨1, height, rfl, rfl, rfl⟩
  exact hdup.attains hat.tail.tail.tail ⟨0, height + 2, rfl, rfl, rfl⟩

/-- Up to where the start of a task needs most room: thread and task, each referred to twice, but
for the last reference. -/
theorem spawn_created {task : String} (h : unit.Walks pc height stored)
    (hat : unit.HasAt pc (Code.spawn task)) : unit.Walks (pc + 3) (height + 3) stored := by
  have hthread : unit.Walks (pc + 1) (height + 1) stored :=
    h.plain hat rfl ⟨0, height, rfl, rfl, rfl⟩
  have hdup : unit.Walks (pc + 1 + 1) (height + 2) stored :=
    hthread.plain hat.tail rfl ⟨1, height, rfl, rfl, rfl⟩
  exact hdup.plain hat.tail.tail rfl ⟨0, height + 2, rfl, rfl, rfl⟩

theorem spawn_attains {task : String} (h : unit.Walks pc height stored)
    (hat : unit.HasAt pc (Code.spawn task)) : unit.Attains (height + 4) :=
  (h.spawn_created hat).attains hat.tail.tail.tail ⟨1, height + 2, rfl, rfl, rfl⟩

theorem spawn {task : String} (h : unit.Walks pc height stored)
    (hat : unit.HasAt pc (Code.spawn task)) :
    unit.Walks (pc + (Code.spawn task).length) height stored := by
  have hdup : unit.Walks (pc + 3 + 1) (height + 4) stored :=
    (h.spawn_created hat).plain hat.tail.tail.tail rfl ⟨1, height + 2, rfl, rfl, rfl⟩
  have hinit : unit.Walks (pc + 3 + 1 + 1) (height + 3) stored :=
    hdup.plain hat.tail.tail.tail.tail rfl ⟨1, height + 3, Code.takes?_init task, rfl, rfl⟩
  have hbind : unit.Walks (pc + 3 + 1 + 1 + 1) (height + 1) stored :=
    hinit.plain hat.tail.tail.tail.tail.tail rfl ⟨2, height + 1, rfl, rfl, rfl⟩
  exact hbind.plain hat.tail.tail.tail.tail.tail.tail rfl ⟨1, height, rfl, rfl, rfl⟩

end Walks

/-! ### Branches -/

/-- **The two arms of a choice**, for walks: where they stand, how a walk comes to either of them,
and how it leaves. -/
structure WalkForks (unit : CodeUnit) (pc : Nat) (condition thenArm elseArm : List Instruction)
    (thenPc elsePc endPc : Nat) : Prop where
  conditionAt : unit.HasAt pc condition
  thenAt : unit.HasAt thenPc thenArm
  elseAt : unit.HasAt elsePc elseArm
  enterThen : ∀ {height stored}, unit.Walks (pc + condition.length) (height + 1) stored →
    unit.Walks thenPc height stored
  enterElse : ∀ {height stored}, unit.Walks (pc + condition.length) (height + 1) stored →
    unit.Walks elsePc height stored
  leaveThen : ∀ {height stored}, unit.Walks (thenPc + thenArm.length) height stored →
    unit.Walks endPc height stored
  leaveElse : ∀ {height stored}, unit.Walks (elsePc + elseArm.length) height stored →
    unit.Walks endPc height stored

/-- Either arm of a choice can be walked: a walk does not know what the condition is, and goes both
ways. -/
theorem walkForks_choice (h : unit.HasAt pc (Code.choice k skip condition thenArm elseArm)) :
    ∃ thenPc elsePc, unit.WalkForks pc condition thenArm elseArm thenPc elsePc
      (pc + (Code.choice k skip condition thenArm elseArm).length) := by
  have hif := h.left.left.left.left.right
  have hthen := h.left.left.left.right
  have hjump := h.left.left.right
  have helse := h.left.right
  have hend := h.right
  simp only [List.length_append, List.length_cons, List.length_nil, ← Nat.add_assoc,
    Nat.zero_add] at hthen hjump helse hend
  have hlength : pc + (Code.choice k skip condition thenArm elseArm).length =
      pc + condition.length + 1 + thenArm.length + 1 + 1 + elseArm.length + 1 := by
    simp only [Code.choice, List.length_append, List.length_cons, List.length_nil]
    omega
  rw [hlength]
  exact ⟨_, _, h.left.left.left.left.left, hthen, helse, fun hwalk => hwalk.passJump hif,
    fun hwalk => hwalk.jumpIf hif hjump.tail, fun hwalk => hwalk.jumpTo hjump hend,
    fun hwalk => hwalk.label hend⟩

/-- An arm that may be skipped is a choice whose second arm is empty. The walk that skips it is one
that goes through the empty arm. -/
theorem walkForks_option (h : unit.HasAt pc (Code.option k skip condition thenArm)) :
    ∃ thenPc elsePc, unit.WalkForks pc condition thenArm [] thenPc elsePc
      (pc + (Code.option k skip condition thenArm).length) := by
  have hif := h.left.left.right
  have hthen := h.left.right
  have hend := h.right
  simp only [List.length_append, List.length_cons, List.length_nil, ← Nat.add_assoc,
    Nat.zero_add] at hthen hend
  have hlength : pc + (Code.option k skip condition thenArm).length =
      pc + condition.length + 1 + thenArm.length + 1 := by
    simp only [Code.option, List.length_append, List.length_cons, List.length_nil]
    omega
  rw [hlength]
  exact ⟨_, _, h.left.left.left, hthen, hend.tail, fun hwalk => hwalk.passJump hif,
    fun hwalk => hwalk.jumpIf hif hend, fun hwalk => hwalk.label hend, id⟩

/-- **The way through a loop**, for walks; one that turns back comes to nothing new. -/
structure WalkCircles (unit : CodeUnit) (pc : Nat) (condition body : List Instruction)
    (bodyPc endPc : Nat) : Prop where
  conditionAt : unit.HasAt (pc + 1) condition
  bodyAt : unit.HasAt bodyPc body
  start : ∀ {height stored}, unit.Walks pc height stored → unit.Walks (pc + 1) height stored
  enter : ∀ {height stored}, unit.Walks (pc + 1 + condition.length) (height + 1) stored →
    unit.Walks bodyPc height stored
  leave : ∀ {height stored}, unit.Walks (pc + 1 + condition.length) (height + 1) stored →
    unit.Walks endPc height stored

/-- A loop can be walked once, or not at all, which is enough to come to every place of it. -/
theorem walkCircles_loop (h : unit.HasAt pc (Code.loop k condition body)) :
    ∃ bodyPc, unit.WalkCircles pc condition body bodyPc
      (pc + (Code.loop k condition body).length) := by
  have htop : unit.HasAt pc (.label (.nth k) :: (condition ++ _)) := h.left.left
  have hcondition := h.left.left.left.right
  have hif := h.left.left.right
  have hbody := h.left.right
  have hjump := h.right
  simp only [List.length_append, List.length_cons, List.length_nil, ← Nat.add_assoc,
    Nat.zero_add] at hcondition hif hbody hjump
  have hlength : pc + (Code.loop k condition body).length =
      pc + 1 + condition.length + 1 + body.length + 1 + 1 := by
    simp only [Code.loop, List.length_append, List.length_cons, List.length_nil]
    omega
  rw [hlength]
  exact ⟨_, hcondition, hbody, fun hwalk => hwalk.label htop, fun hwalk => hwalk.passJump hif,
    fun hwalk => hwalk.jumpIf hif hjump.tail⟩

end CodeUnit

variable {unit : CodeUnit} {table : SymbolTable} {pc height : Nat} {stored : List UInt16}
  {code : List Instruction}

/-! ### Expressions -/

/-- **What walks do with some names**: each that stands for a slot not set so far is read by some
walk before it is set. -/
def CodeUnit.Exposes (unit : CodeUnit) (table : SymbolTable) (stored : List UInt16)
    (names : List String) : Prop :=
  ∀ name ∈ names, ∃ info, table.lookup name = some info ∧
    (info.slot ∉ stored → unit.ReadsUnset info.slot)

theorem CodeUnit.Exposes.append {names names' : List String}
    (h : unit.Exposes table stored names) (h' : unit.Exposes table stored names') :
    unit.Exposes table stored (names ++ names') :=
  List.forall_mem_append.2 ⟨h, h'⟩

/-- Of two heights that are attained the greater one is. -/
theorem CodeUnit.Attains.join {m n : Nat} (h : unit.Attains (height + m))
    (h' : unit.Attains (height + n)) : unit.Attains (height + max m n) := by
  rcases Nat.le_total m n with hle | hle
  · rwa [Nat.max_eq_right hle]
  · rwa [Nat.max_eq_left hle]

namespace Expr.HasCode

variable {e : Expr} {k k' : Nat} {type : OperandType}

/-- **Some walk gets through an expression**, with one value more and no slot set. At a branch it
takes the first arm. -/
theorem passes (h : e.HasCode table k code type k') (hat : unit.HasAt pc code)
    (hwalk : unit.Walks pc height stored) :
    unit.Walks (pc + code.length) (height + 1) stored := by
  induction h generalizing pc height with
  | literal => exact hwalk.push hat
  | var => exact hwalk.step hat rfl rfl ⟨0, height, rfl, rfl, rfl⟩
  | arith _ _ _ ihl ihr =>
    have hoperands := ihr hat.left.right (ihl hat.left.left hwalk)
    rw [Nat.add_assoc, ← List.length_append] at hoperands
    have hresult := hoperands.arith hat.right
    rwa [List.length_append, ← Nat.add_assoc]
  | cast _ _ ih =>
    have hresult := (ih hat.left hwalk).conversion hat.right
    rwa [List.length_append, ← Nat.add_assoc]
  | and _ _ _ _ ihl ihr | or _ _ _ _ ihl ihr =>
    obtain ⟨thenPc, elsePc, hforks⟩ := CodeUnit.walkForks_choice hat
    have hleft := ihl hforks.conditionAt hwalk
    exact hforks.leaveThen (ihr hforks.thenAt (hforks.enterThen hleft))
  | not _ _ ih =>
    obtain ⟨thenPc, elsePc, hforks⟩ := CodeUnit.walkForks_choice hat
    have hoperand := ih hforks.conditionAt hwalk
    exact hforks.leaveThen ((hforks.enterThen hoperand).push hforks.thenAt)
  | compare _ _ _ ihl ihr =>
    obtain ⟨thenPc, elsePc, hforks⟩ := CodeUnit.walkForks_choice hat
    have hcondition := hforks.conditionAt
    have hoperands := ihr hcondition.left.right (ihl hcondition.left.left hwalk)
    rw [Nat.add_assoc, ← List.length_append] at hoperands
    have hdifference := hoperands.arith hcondition.right
    rw [Nat.add_assoc, ← List.length_singleton, ← List.length_append] at hdifference
    exact hforks.leaveThen ((hforks.enterThen hdifference).push hforks.thenAt)

/-- **Some walk gets as high in an expression** as the compiler has counted. Where both arms of a
branch are counted, the walk takes the higher one. -/
theorem attains (h : e.HasCode table k code type k') (hat : unit.HasAt pc code)
    (hwalk : unit.Walks pc height stored) : unit.Attains (height + e.peak) := by
  induction h generalizing pc height with
  | literal | var => exact hwalk.attains hat ⟨0, height, rfl, rfl, rfl⟩
  | arith hl _ _ ihl ihr =>
    have hright := ihr hat.left.right (hl.passes hat.left.left hwalk)
    rw [Nat.add_assoc] at hright
    exact (ihl hat.left.left hwalk).join hright
  | cast _ _ ih => exact ih hat.left hwalk
  | and hl _ _ _ ihl ihr | or hl _ _ _ ihl ihr =>
    obtain ⟨thenPc, elsePc, hforks⟩ := CodeUnit.walkForks_choice hat
    have hleft := hl.passes hforks.conditionAt hwalk
    exact (ihl hforks.conditionAt hwalk).join (ihr hforks.thenAt (hforks.enterThen hleft))
  | not _ _ ih =>
    obtain ⟨thenPc, elsePc, hforks⟩ := CodeUnit.walkForks_choice hat
    exact ih hforks.conditionAt hwalk
  | compare hl _ _ ihl ihr =>
    obtain ⟨thenPc, elsePc, hforks⟩ := CodeUnit.walkForks_choice hat
    have hcondition := hforks.conditionAt
    have hright := ihr hcondition.left.right (hl.passes hcondition.left.left hwalk)
    rw [Nat.add_assoc] at hright
    exact (ihl hcondition.left.left hwalk).join hright

/-- **What stands in an expression is read** by some walk: also the right operand of a connective,
which a run may skip. -/
theorem exposes (h : e.HasCode table k code type k') (hat : unit.HasAt pc code)
    (hwalk : unit.Walks pc height stored) : unit.Exposes table stored e.reads := by
  induction h generalizing pc height with
  | literal => exact nofun
  | @var _ _ name info kind hinfo _ =>
    rintro _ (_ | ⟨_, ⟨⟩⟩)
    exact ⟨info, hinfo, fun hunset => ⟨pc, height, stored, kind, hwalk, hat.head, hunset⟩⟩
  | arith hl _ _ ihl ihr =>
    have hleft := hl.passes hat.left.left hwalk
    exact (ihl hat.left.left hwalk).append (ihr hat.left.right hleft)
  | cast _ _ ih => exact ih hat.left hwalk
  | and hl _ _ _ ihl ihr | or hl _ _ _ ihl ihr =>
    obtain ⟨thenPc, elsePc, hforks⟩ := CodeUnit.walkForks_choice hat
    have hleft := hl.passes hforks.conditionAt hwalk
    exact (ihl hforks.conditionAt hwalk).append (ihr hforks.thenAt (hforks.enterThen hleft))
  | not _ _ ih =>
    obtain ⟨thenPc, elsePc, hforks⟩ := CodeUnit.walkForks_choice hat
    exact ih hforks.conditionAt hwalk
  | compare hl _ _ ihl ihr =>
    obtain ⟨thenPc, elsePc, hforks⟩ := CodeUnit.walkForks_choice hat
    have hcondition := hforks.conditionAt
    have hleft := hl.passes hcondition.left.left hwalk
    exact (ihl hcondition.left.left hwalk).append (ihr hcondition.left.right hleft)

end Expr.HasCode

/-! ### Statements -/

/-- **A variable with a slot of its own.** -/
def SymbolTable.KeepsApart (table : SymbolTable) (name : String) : Prop :=
  ∀ ⦃other info info'⦄, table.lookup name = some info → table.lookup other = some info' →
    info.slot = info'.slot → name = other

/-- **A place that a walk comes to without setting a variable**, if there is one to avoid. -/
def CodeUnit.WalksAround (unit : CodeUnit) (table : SymbolTable) (avoided : Option String)
    (pc height : Nat) : Prop :=
  ∃ stored, unit.Walks pc height stored ∧
    ∀ name ∈ avoided, ∀ info, table.lookup name = some info → info.slot ∉ stored

namespace CodeUnit.WalksAround

variable {avoided : Option String} {pc' height' : Nat}

/-- A part of the way on which no slot is set. -/
theorem on (h : unit.WalksAround table avoided pc height)
    (hway : ∀ {stored}, unit.Walks pc height stored → unit.Walks pc' height' stored) :
    unit.WalksAround table avoided pc' height' := by
  obtain ⟨stored, hwalk, havoided⟩ := h
  exact ⟨stored, hway hwalk, havoided⟩

end CodeUnit.WalksAround

namespace Stmt.HasCode

variable {s : Stmt} {w : World} {d d' : Draft} {avoided : Option String}

/-- **Some walk gets through a statement**, and around a variable with a slot of its own, unless the
statement settles that. What a statement settles is what is assigned on each of its ways; for
another variable there is a way around, and it is found arm by arm. -/
theorem passes (h : s.HasCode w d code d') (hd : d'.table.Within table)
    (hapart : ∀ name ∈ avoided, table.KeepsApart name)
    (havoided : ∀ name ∈ avoided, name ∉ s.settles)
    (hat : unit.HasAt pc code) (hwalk : unit.WalksAround table avoided pc 0) :
    unit.WalksAround table avoided (pc + code.length) 0 := by
  induction h generalizing pc with
  | nothing => exact hwalk
  | sequence _ h₂ ih₁ ih₂ =>
    simp only [Stmt.settles, List.mem_append, not_or] at havoided
    have hfirst := ih₁ (h₂.within.trans hd) (fun name hname => (havoided name hname).1) hat.left
      hwalk
    have hrest := ih₂ hd (fun name hname => (havoided name hname).2) hat.right hfirst
    rwa [List.length_append, ← Nat.add_assoc]
  | block _ ih => exact ih hd havoided hat hwalk
  | @assign _ _ _ _ name _ _ _ _ slot _ hc hslot _ =>
    obtain ⟨stored, hwalk, hclear⟩ := hwalk
    have hvalue := hc.passes hat.left hwalk
    have hlookup := hd ((hslot.lookup_eq name).trans (if_pos rfl))
    rw [List.length_append, ← Nat.add_assoc]
    refine ⟨slot :: stored, hvalue.next hat.right.head rfl ⟨1, 0, rfl, rfl, rfl⟩, ?_⟩
    -- The slot that is set belongs to another variable than the one to avoid.
    intro other hother info hinfo hmem
    rcases List.mem_cons.1 hmem with heq | hmem
    · obtain rfl := hapart other hother hinfo hlookup heq
      exact havoided other hother List.mem_cons_self
    · exact hclear other hother info hinfo hmem
  | print hc hprint =>
    refine hwalk.on fun hwalk => ?_
    have hvalue := hc.passes hat.left.right (hwalk.printer hat.left.left)
    rw [Nat.add_assoc, ← List.length_append] at hvalue
    have hend := hvalue.println hprint hat.right
    rwa [List.length_append, ← Nat.add_assoc]
  | assert hc _ =>
    refine hwalk.on fun hwalk => ?_
    have hend := (hc.passes hat.left hwalk).assertion hat.right
    rwa [List.length_append, ← Nat.add_assoc]
  | sleep hc _ =>
    refine hwalk.on fun hwalk => ?_
    have hend := (hc.passes hat.left hwalk).sleep hat.right
    rwa [List.length_append, ← Nat.add_assoc]
  | ifThen hc _ _ _ =>
    obtain ⟨thenPc, elsePc, hforks⟩ := CodeUnit.walkForks_option hat
    refine hwalk.on fun hwalk => ?_
    exact hforks.leaveElse (hforks.enterElse (hc.passes hforks.conditionAt hwalk))
  | @ifElse _ _ _ _ _ _ _ thenBranch elseBranch _ _ _ _ hc _ ht he iht ihe =>
    obtain ⟨thenPc, elsePc, hforks⟩ := CodeUnit.walkForks_choice hat
    have hcondition := hwalk.on fun hwalk => hc.passes hforks.conditionAt hwalk
    simp only [Stmt.settles, List.mem_filter, decide_eq_true_eq, not_and] at havoided
    -- One of the branches does not settle the variable; the walk takes that one.
    by_cases hthen : ∀ name ∈ avoided, name ∉ thenBranch.settles
    · have hend := iht (he.within.trans hd) hthen hforks.thenAt (hcondition.on hforks.enterThen)
      exact hend.on hforks.leaveThen
    · obtain ⟨name, hname⟩ : ∃ name, avoided = some name := by
        rcases avoided with _ | name
        · exact (hthen (by rintro _ ⟨⟩)).elim
        · exact ⟨name, rfl⟩
      subst hname
      have helse : ∀ other ∈ some name, other ∉ elseBranch.settles := by
        rintro _ ⟨⟩
        exact havoided name rfl (by simpa using hthen)
      have hend := ihe hd helse hforks.elseAt (hcondition.on hforks.enterElse)
      exact hend.on hforks.leaveElse
  | loop hc _ _ _ =>
    obtain ⟨bodyPc, hcircles⟩ := CodeUnit.walkCircles_loop hat
    refine hwalk.on fun hwalk => ?_
    exact hcircles.leave (hc.passes hcircles.conditionAt (hcircles.start hwalk))
  | spawn | spawnInline => exact hwalk.on fun hwalk => hwalk.spawn hat

/-- Without a variable to avoid, some walk gets through every statement. -/
theorem exists_walks (h : s.HasCode w d code d') (hat : unit.HasAt pc code)
    (hwalk : unit.Walks pc 0 stored) : ∃ stored', unit.Walks (pc + code.length) 0 stored' := by
  have hstart : unit.WalksAround d'.table none pc 0 := ⟨stored, hwalk, nofun⟩
  have hend : unit.WalksAround d'.table none (pc + code.length) 0 :=
    h.passes (fun _ _ => id) nofun nofun hat hstart
  obtain ⟨stored', hwalk', -⟩ := hend
  exact ⟨stored', hwalk'⟩

/-- **Some walk gets as high in a statement** as the compiler has counted, if the stack is ever
empty. Between statements it is, and a statement that does nothing has the height zero. -/
theorem attains (h : s.HasCode w d code d') (hzero : unit.Attains 0) (hat : unit.HasAt pc code)
    (hwalk : unit.Walks pc 0 stored) : unit.Attains (0 + s.peak) := by
  induction h generalizing pc stored with
  | nothing => exact hzero
  | sequence h₁ _ ih₁ ih₂ =>
    obtain ⟨stored', hfirst⟩ := h₁.exists_walks hat.left hwalk
    exact (ih₁ hat.left hwalk).join (ih₂ hat.right hfirst)
  | block _ ih => exact ih hat hwalk
  | assign hc | sleep hc => exact hc.attains hat.left hwalk
  | print hc _ =>
    have hvalue := hc.attains hat.left.right (hwalk.printer hat.left.left)
    rwa [Nat.add_assoc] at hvalue
  | assert hc _ =>
    have hcondition := hc.passes hat.left hwalk
    exact (hc.attains hat.left hwalk).join (hcondition.assertion_attains hat.right)
  | ifThen hc _ _ ih =>
    obtain ⟨thenPc, elsePc, hforks⟩ := CodeUnit.walkForks_option hat
    have hcondition := hc.passes hforks.conditionAt hwalk
    exact (hc.attains hforks.conditionAt hwalk).join
      (ih hforks.thenAt (hforks.enterThen hcondition))
  | ifElse hc _ _ _ iht ihe =>
    obtain ⟨thenPc, elsePc, hforks⟩ := CodeUnit.walkForks_choice hat
    have hcondition := hc.passes hforks.conditionAt hwalk
    exact (hc.attains hforks.conditionAt hwalk).join
      ((iht hforks.thenAt (hforks.enterThen hcondition)).join
        (ihe hforks.elseAt (hforks.enterElse hcondition)))
  | loop hc _ _ ih =>
    obtain ⟨bodyPc, hcircles⟩ := CodeUnit.walkCircles_loop hat
    have hstart := hcircles.start hwalk
    have hcondition := hc.passes hcircles.conditionAt hstart
    exact (hc.attains hcircles.conditionAt hstart).join
      (ih hcircles.bodyAt (hcircles.enter hcondition))
  | spawn | spawnInline => exact hwalk.spawn_attains hat

/-- **An exposed variable is read** by some walk that has not set it, if it has a slot of its own
and was not set before. A walk goes around the variable up to the statement that reads it, and into
that. -/
theorem exposes {name : String} (h : s.HasCode w d code d') (hd : d'.table.Within table)
    (hapart : table.KeepsApart name) (hexposed : name ∈ s.exposed) (hat : unit.HasAt pc code)
    (hwalk : unit.WalksAround table (some name) pc 0) :
    ∃ info, table.lookup name = some info ∧ unit.ReadsUnset info.slot := by
  -- In an expression that stands in the statement, as far as the walk has come.
  have hread : ∀ {T k e c type k' pc height}, Expr.HasCode T k e c type k' → T.Within table →
      name ∈ e.reads → unit.HasAt pc c → unit.WalksAround table (some name) pc height →
      ∃ info, table.lookup name = some info ∧ unit.ReadsUnset info.slot := by
    intro T k e c type k' pc height hc hT hmem hat hwalk
    obtain ⟨stored, hwalk, hclear⟩ := hwalk
    obtain ⟨info, hinfo, hreads⟩ := hc.exposes hat hwalk name hmem
    exact ⟨info, hT hinfo, hreads (hclear name rfl info (hT hinfo))⟩
  induction h generalizing pc with
  | nothing | spawn | spawnInline => cases hexposed
  | @sequence _ _ _ _ _ first rest _ _ h₁ h₂ ih₁ ih₂ =>
    simp only [Stmt.exposed, List.mem_append, List.mem_filter, decide_eq_true_eq] at hexposed
    have hd₁ := h₂.within.trans hd
    rcases hexposed with hfirst | ⟨hrest, hsettled⟩
    · exact ih₁ hd₁ hfirst hat.left hwalk
    · have hpast := h₁.passes hd₁ (by rintro _ ⟨⟩; exact hapart) (by rintro _ ⟨⟩; exact hsettled)
        hat.left hwalk
      exact ih₂ hd hrest hat.right hpast
  | block _ ih => exact ih hd hexposed hat hwalk
  | assign hc hslot _ => exact hread hc (hslot.within.trans hd) hexposed hat.left hwalk
  | assert hc _ | sleep hc _ => exact hread hc hd hexposed hat.left hwalk
  | print hc _ =>
    have hprinter := hwalk.on fun hwalk => hwalk.printer hat.left.left
    exact hread hc hd hexposed hat.left.right hprinter
  | ifThen hc _ hb ih =>
    obtain ⟨thenPc, elsePc, hforks⟩ := CodeUnit.walkForks_option hat
    rcases List.mem_append.1 hexposed with hcond | hbranch
    · exact hread hc (hb.within.trans hd) hcond hforks.conditionAt hwalk
    · have hcondition := hwalk.on fun hwalk => hc.passes hforks.conditionAt hwalk
      exact ih hd hbranch hforks.thenAt (hcondition.on hforks.enterThen)
  | ifElse hc _ ht he iht ihe =>
    obtain ⟨thenPc, elsePc, hforks⟩ := CodeUnit.walkForks_choice hat
    have hd₁ := he.within.trans hd
    have hcondition := hwalk.on fun hwalk => hc.passes hforks.conditionAt hwalk
    simp only [Stmt.exposed, List.mem_append, or_assoc] at hexposed
    rcases hexposed with hcond | hthen | helse
    · exact hread hc (ht.within.trans hd₁) hcond hforks.conditionAt hwalk
    · exact iht hd₁ hthen hforks.thenAt (hcondition.on hforks.enterThen)
    · exact ihe hd helse hforks.elseAt (hcondition.on hforks.enterElse)
  | loop hc _ hb ih =>
    obtain ⟨bodyPc, hcircles⟩ := CodeUnit.walkCircles_loop hat
    have hstart := hwalk.on hcircles.start
    rcases List.mem_append.1 hexposed with hcond | hbody
    · exact hread hc (hb.within.trans hd) hcond hcircles.conditionAt hstart
    · have hcondition := hstart.on fun hwalk => hc.passes hcircles.conditionAt hwalk
      exact ih hd hbody hcircles.bodyAt (hcondition.on hcircles.enter)

end Stmt.HasCode

end StackUnits
