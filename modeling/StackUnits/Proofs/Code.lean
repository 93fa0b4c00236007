import StackUnits.Compile.Program

/-!
# The code of a program

The compiler says *how* code is written: step by step, with a type stack, a symbol
table and a supply of labels on the side, failing where something is not right. This
file says *what* is written, form by form, as two relations between a program and its
code: `StackUnits.Expr.HasCode` and `StackUnits.Stmt.HasCode`. A form with code is one
that compiles, so the requirements on types and names are premises here; that the
relations describe the compiler, in both directions, is
`StackUnits.Proofs.Compiled`. Everything that is proved about emitted code is proved by
induction on them.

What the code of a statement depends on besides the statement is a **draft**
(`StackUnits.Draft`): the symbol table, the number of labels used, and the tasks
finished so far. Labels are counted in `ℕ`; the label with number `k` carries `k` in 32
bits (`StackUnits.Label.nth`), so that two numbers may stand for one label. That this
does not happen in a unit is a premise about the finished unit, not about the numbers.
-/

namespace StackUnits

/-! ### Pieces of code -/

/-- The label with a number. -/
def Label.nth (k : Nat) : Label :=
  ⟨UInt32.ofNat k⟩

namespace Code

/-- The instructions of a conversion; the identity needs none. -/
def conversion : Conversion → List Instruction
  | .identity => []
  | c => [.convert c]

/-- **A choice between two arms.** The labels with numbers `k` and `k + 1` are its end
and the start of the second arm; the first arm is skipped if the condition passes the
test. -/
def choice (k : Nat) (skip : ZeroTest) (condition thenArm elseArm : List Instruction) :
    List Instruction :=
  condition ++ [.jumpIf skip (.nth (k + 1))] ++ thenArm
    ++ [.jump (.nth k), .label (.nth (k + 1))] ++ elseArm ++ [.label (.nth k)]

/-- An arm that may be skipped; the label with number `k` is its end. -/
def option (k : Nat) (skip : ZeroTest) (condition arm : List Instruction) : List Instruction :=
  condition ++ [.jumpIf skip (.nth k)] ++ arm ++ [.label (.nth k)]

/-- **A loop.** The labels with numbers `k` and `k + 1` are its start and its end. -/
def loop (k : Nat) (condition body : List Instruction) : List Instruction :=
  [.label (.nth k)] ++ condition ++ [.jumpIf .eq (.nth (k + 1))] ++ body
    ++ [.jump (.nth k), .label (.nth (k + 1))]

/-- The field that holds the line printer. -/
def printer : Instruction :=
  .getStatic ⟨"java/lang/System", "out", "Ljava/io/PrintStream;"⟩

/-- The call that prints a value, given the signature for its type. -/
def println (descriptor : String) : Instruction :=
  .invoke .virtual ⟨Emit.printerClass, "println", descriptor⟩

/-- What follows the condition of an assertion; the label with number `k` is its end. -/
def assertion (k : Nat) : List Instruction :=
  [.jumpIf .ne (.nth k), .new Emit.assertionClass, .dup, .push (.string "Assertion failed"),
    .invoke .special ⟨Emit.assertionClass, "<init>", "(Ljava/lang/Object;)V"⟩, .throw,
    .label (.nth k)]

/-- What follows the duration of a sleep. -/
def sleep : List Instruction :=
  [.convert .i2l, .invoke .static ⟨Emit.threadClass, "sleep", "(J)V"⟩]

/-- The start of a task. -/
def spawn (task : String) : List Instruction :=
  [.new Emit.threadClass, .dup, .new task, .dup, .invoke .special ⟨task, "<init>", "()V"⟩,
    .invoke .special ⟨Emit.threadClass, "<init>", "(Ljava/lang/Runnable;)V"⟩,
    .invoke .virtual ⟨Emit.threadClass, "start", "()V"⟩]

end Code

/-! ### Expressions -/

namespace Expr

/-- **The code of an expression**, with its type. The symbol table stays as it is; the two
numbers are those of the labels used before and after. -/
inductive HasCode (table : SymbolTable) :
    Nat → Expr → List Instruction → OperandType → Nat → Prop
  | literal {k tag c type} : HasCode table k (.literal tag c type) [.push c] type k
  | var {k tag name info kind} (hinfo : table.lookup name = some info)
      (hkind : info.type.slotKind? = some kind) :
      HasCode table k (.var tag name) [.load kind info.slot] info.type k
  | arith {k k₁ k₂ tag op left right cl cr type family} (hl : HasCode table k left cl type k₁)
      (hr : HasCode table k₁ right cr type k₂) (hfamily : type.family? = some family) :
      HasCode table k (.arith tag op left right) (cl ++ cr ++ [.arith op family]) type k₂
  | cast {k k₁ tag target operand c source conversion} (h : HasCode table k operand c source k₁)
      (hconv : source.conversionTo? target = some conversion) :
      HasCode table k (.cast tag target operand) (c ++ Code.conversion conversion) target k₁
  | and {k k₁ k₂ tag left right cl cr tl tr} (hl : HasCode table k left cl tl k₁)
      (htl : tl.isIntCategory = true) (hr : HasCode table (k₁ + 2) right cr tr k₂)
      (htr : tr.isIntCategory = true) :
      HasCode table k (.and tag left right) (Code.choice k₁ .eq cl cr [.push (.int 0)]) .boolean k₂
  | or {k k₁ k₂ tag left right cl cr tl tr} (hl : HasCode table k left cl tl k₁)
      (htl : tl.isIntCategory = true) (hr : HasCode table (k₁ + 2) right cr tr k₂)
      (htr : tr.isIntCategory = true) :
      HasCode table k (.or tag left right) (Code.choice k₁ .ne cl cr [.push (.int 1)]) .boolean k₂
  | not {k k₁ tag operand c type} (h : HasCode table k operand c type k₁)
      (htype : type.isIntCategory = true) :
      HasCode table k (.not tag operand)
        (Code.choice k₁ .eq c [.push (.int 0)] [.push (.int 1)]) .boolean (k₁ + 2)
  | compare {k k₁ k₂ tag test left right cl cr type} (hl : HasCode table k left cl type k₁)
      (hr : HasCode table k₁ right cr type k₂) (htype : type.isIntCategory = true) :
      HasCode table k (.compare tag test left right)
        (Code.choice k₂ test.negate (cl ++ cr ++ [.arith .sub .int]) [.push (.int 1)]
          [.push (.int 0)]) .boolean (k₂ + 2)

/-- How many values the code of an expression needs room for. -/
def peak : Expr → Nat
  | .fault _ _ | .literal _ _ _ | .var _ _ => 1
  | .arith _ _ left right | .compare _ _ left right => max left.peak (1 + right.peak)
  | .cast _ _ operand | .not _ operand => operand.peak
  | .and _ left right | .or _ left right => max left.peak right.peak

/-- Every expression needs room for its own value at least. -/
theorem peak_pos (e : Expr) : 0 < e.peak := by
  induction e with
  | fault | literal | var => exact Nat.one_pos
  | arith _ _ left right ihl | compare _ _ left right ihl | and _ left right ihl
  | or _ left right ihl => exact Nat.lt_of_lt_of_le ihl (Nat.le_max_left _ _)
  | cast _ _ _ ih | not _ _ ih => exact ih

end Expr

/-! ### Names -/

/-- A name that can serve as a file name. -/
def PlainName (name : String) : Prop :=
  name ≠ "" ∧ '/' ∉ name.toList ∧ '\\' ∉ name.toList ∧ name ≠ "." ∧ name ≠ ".."

/-- **What is fixed while the body of a unit is compiled**: the settings, the resolver, and
the units begun and not finished, innermost first. -/
structure World where
  config : Config
  resolver : Resolver
  begun : List (String × UnitKind)

/-- The world in which the body of one more unit is compiled. -/
def World.begin (w : World) (name : String) (kind : UnitKind) : World :=
  { w with begun := (name, kind) :: w.begun }

/-- The resolver knows a task by this name that can be started. -/
def World.Resolves (w : World) (name : String) : Prop :=
  ∃ list path task, w.config.taskSearchPath = some list ∧ SearchPath.parse list = .ok path ∧
    (w.resolver name path).outcome = .ok task ∧ task.name = name ∧
    task.hasConstructor = true ∧ task.runnable = true

/-- **A task that can be started by name**: one of the finished units, or else one that is
begun, or else one that the resolver knows. -/
def World.CanStart (w : World) (units : List CodeUnit) (name : String) : Prop :=
  match units.find? fun unit => unit.name == name with
  | some unit => unit.kind = .task
  | none =>
    match w.begun.lookup name with
    | some kind => kind = .task
    | none => w.Resolves name

/-- A name that no unit of the compilation has. -/
def World.Unused (w : World) (units : List CodeUnit) (name : String) : Prop :=
  (∀ unit ∈ units, unit.name ≠ name) ∧ ∀ entry ∈ w.begun, entry.1 ≠ name

/-! ### Statements -/

/-- **What the code of a statement depends on**: the symbol table, the number of labels
used, and the finished tasks. -/
structure Draft where
  table : SymbolTable
  labels : Nat
  units : List CodeUnit

namespace Draft

/-- The draft with which the body of a unit begins: no variables, no labels. -/
def fresh (units : List CodeUnit) : Draft :=
  { table := SymbolTable.enterScope {}, labels := 0, units := units }

/-- The unit with the given code, when its body has led to this draft. -/
def unit (d : Draft) (name : String) (kind : UnitKind) (peak : Nat) (code : List Instruction) :
    CodeUnit where
  name := name
  kind := kind
  maxLocals := d.table.slotCount
  maxStack := UInt16.ofNat peak
  locals := d.table.locals
  instructions := code ++ [.ret]

end Draft

/-- The slot that an assignment to a name goes to, and the table after it: the slot of the
name if it has one, of the same type, and a new one otherwise. -/
def SymbolTable.Assigns (table : SymbolTable) (name : String) (type : OperandType) (slot : UInt16)
    (table' : SymbolTable) : Prop :=
  match table.lookup name with
  | some info => info = ⟨slot, type⟩ ∧ table' = table
  | none => table.declare name type = .ok (slot, table')

namespace Stmt

/-- How many values the code of a statement needs room for. -/
def peak : Stmt → Nat
  | .nothing | .fault _ _ => 0
  | .sequence _ first rest => max first.peak rest.peak
  | .block _ body => body.peak
  | .assign _ _ value => value.peak
  | .print _ value => 1 + value.peak
  | .assert _ condition => max condition.peak 3
  | .sleep _ duration => duration.peak
  | .ifThen _ condition branch => max condition.peak branch.peak
  | .ifElse _ condition thenBranch elseBranch =>
    max condition.peak (max thenBranch.peak elseBranch.peak)
  | .loop _ condition body => max condition.peak body.peak
  | .spawn _ _ | .spawnInline _ _ _ _ => 4

/-- **The code of a statement**, and the draft after it. A task given on the spot is a unit
of its own, with code of its own; in the code around it stands only its start. -/
inductive HasCode : World → Draft → Stmt → List Instruction → Draft → Prop
  | nothing {w d} : HasCode w d .nothing [] d
  | sequence {w d d₁ d₂ tag first rest c₁ c₂} (h₁ : HasCode w d first c₁ d₁)
      (h₂ : HasCode w d₁ rest c₂ d₂) : HasCode w d (.sequence tag first rest) (c₁ ++ c₂) d₂
  | block {w d d₁ tag body c} (h : HasCode w d body c d₁) : HasCode w d (.block tag body) c d₁
  | assign {w d k tag name value c type kind slot table}
      (h : Expr.HasCode d.table d.labels value c type k)
      (hslot : d.table.Assigns name type slot table) (hkind : type.slotKind? = some kind) :
      HasCode w d (.assign tag name value) (c ++ [.store kind slot])
        { d with table := table, labels := k }
  | print {w d k tag value c type descriptor} (h : Expr.HasCode d.table d.labels value c type k)
      (hprint : type.printDescriptor? = some descriptor) :
      HasCode w d (.print tag value) ([Code.printer] ++ c ++ [Code.println descriptor])
        { d with labels := k }
  | assert {w d k tag condition c type} (h : Expr.HasCode d.table d.labels condition c type k)
      (htype : type.isIntCategory = true) :
      HasCode w d (.assert tag condition) (c ++ Code.assertion k) { d with labels := k + 1 }
  | sleep {w d k tag duration c type} (h : Expr.HasCode d.table d.labels duration c type k)
      (htype : type.isIntCategory = true) :
      HasCode w d (.sleep tag duration) (c ++ Code.sleep) { d with labels := k }
  | ifThen {w d d₁ k tag condition branch c cb type}
      (h : Expr.HasCode d.table d.labels condition c type k) (htype : type.isIntCategory = true)
      (hb : HasCode w { d with labels := k + 1 } branch cb d₁) :
      HasCode w d (.ifThen tag condition branch) (Code.option k .eq c cb) d₁
  | ifElse {w d d₁ d₂ k tag condition thenBranch elseBranch c ct ce type}
      (h : Expr.HasCode d.table d.labels condition c type k) (htype : type.isIntCategory = true)
      (ht : HasCode w { d with labels := k + 2 } thenBranch ct d₁)
      (he : HasCode w d₁ elseBranch ce d₂) :
      HasCode w d (.ifElse tag condition thenBranch elseBranch) (Code.choice k .eq c ct ce) d₂
  | loop {w d d₁ k tag condition body c cb type}
      (h : Expr.HasCode d.table (d.labels + 2) condition c type k)
      (htype : type.isIntCategory = true) (hb : HasCode w { d with labels := k } body cb d₁) :
      HasCode w d (.loop tag condition body) (Code.loop d.labels c cb) d₁
  | spawn {w d tag name} (hplain : PlainName name) (hstart : w.CanStart d.units name) :
      HasCode w d (.spawn tag name) (Code.spawn name) d
  | spawnInline {w d d₁ tag name bodyTag body c} (hplain : PlainName name)
      (hunused : w.Unused d.units name)
      (h : HasCode (w.begin name .task) (.fresh d.units) body c d₁)
      (hlabels : (d₁.unit name .task body.peak c).checkLabels = .ok ()) :
      HasCode w d (.spawnInline tag name bodyTag body) (Code.spawn name)
        { d with units := d₁.units ++ [d₁.unit name .task body.peak c] }

end Stmt

end StackUnits
