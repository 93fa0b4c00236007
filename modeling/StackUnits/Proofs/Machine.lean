import StackUnits.Compile.Program

/-!
# The stack machine

What the instructions of a unit do. A **state** (`StackUnits.Machine.State`) has the place in
the code, the evaluation stack, the local variables, none of which is set at the start, and
the objects created so far. `StackUnits.Machine.step` takes one instruction: it leads to the
next state, perhaps with an effect that can be seen from outside, or it ends the run, or it
is **stuck**, if the instruction does not find what it needs.

What a run shows of itself is its effects in order and how it ends
(`StackUnits.CodeUnit.Halts`). Numbers of the two integer widths wrap; what the two
floating-point widths do is not looked into, and is a parameter (`StackUnits.Floats`).

Of the library, the machine has what units call: the line printer, threads, and the error of
a failed assertion (`StackUnits.Machine.Routine`). A thread remembers the task it was created
for, and starting it is the effect.
-/

namespace StackUnits

/-! ### Values -/

/-- **A value of the machine.** Objects are told apart by number. -/
inductive Value
  | int (n : Int32)
  | long (n : Int64)
  | float (bits : UInt32)
  | double (bits : UInt64)
  | string (text : String)
  | printer
  | object (cls : String) (id : Nat)
  deriving DecidableEq, Inhabited

/-- How the machine represents a value. -/
def Value.kind : Value → SlotKind
  | .int _ => .int
  | .long _ => .long
  | .float _ => .float
  | .double _ => .double
  | .string _ | .printer | .object _ _ => .reference

/-- The value of a constant. -/
def Constant.toValue : Constant → Value
  | .int n => .int n
  | .long n => .long n
  | .float bits => .float bits
  | .double bits => .double bits
  | .string text => .string text

/-- **What is left open about floating-point numbers**: arithmetic, and the conversions
from and to them. -/
structure Floats where
  float : ArithOp → UInt32 → UInt32 → UInt32
  double : ArithOp → UInt64 → UInt64 → UInt64
  i2f : Int32 → UInt32
  i2d : Int32 → UInt64
  l2f : Int64 → UInt32
  l2d : Int64 → UInt64
  f2i : UInt32 → Int32
  f2l : UInt32 → Int64
  f2d : UInt32 → UInt64
  d2i : UInt64 → Int32
  d2l : UInt64 → Int64
  d2f : UInt64 → UInt32

/-- **How a run can end.** -/
inductive Ending
  | returned
  | assertionError
  | dividedByZero
  | unassigned
  deriving DecidableEq, Inhabited

/-- **What can be seen of a run** from outside. -/
inductive Effect
  | println (value : Value) (descriptor : String)
  | sleep (milliseconds : Int64)
  | spawn (task : String)
  deriving DecidableEq, Inhabited

/-! ### Operations -/

namespace ArithOp

/-- Arithmetic in 32 bits, which wraps; quotients go toward zero. -/
def int32 (op : ArithOp) (a b : Int32) : Except Ending Int32 :=
  match op with
  | .add => .ok (a + b)
  | .sub => .ok (a - b)
  | .mul => .ok (a * b)
  | .div => if b = 0 then .error .dividedByZero else .ok (a / b)
  | .rem => if b = 0 then .error .dividedByZero else .ok (a % b)

/-- Arithmetic in 64 bits, which wraps; quotients go toward zero. -/
def int64 (op : ArithOp) (a b : Int64) : Except Ending Int64 :=
  match op with
  | .add => .ok (a + b)
  | .sub => .ok (a - b)
  | .mul => .ok (a * b)
  | .div => if b = 0 then .error .dividedByZero else .ok (a / b)
  | .rem => if b = 0 then .error .dividedByZero else .ok (a % b)

/-- **Arithmetic of a family**, on two values of that family. -/
def run (floats : Floats) (op : ArithOp) :
    Family → Value → Value → Option (Except Ending Value)
  | .int, .int a, .int b => some ((op.int32 a b).map .int)
  | .long, .long a, .long b => some ((op.int64 a b).map .long)
  | .float, .float a, .float b => some (.ok (.float (floats.float op a b)))
  | .double, .double a, .double b => some (.ok (.double (floats.double op a b)))
  | _, _, _ => none

end ArithOp

/-- **A change of representation.** The integers are cut off or extended; characters have no
sign. -/
def Conversion.run (floats : Floats) : Conversion → Value → Option Value
  | .identity, v => some v
  | .i2l, .int n => some (.long n.toInt64)
  | .i2f, .int n => some (.float (floats.i2f n))
  | .i2d, .int n => some (.double (floats.i2d n))
  | .l2i, .long n => some (.int n.toInt32)
  | .l2f, .long n => some (.float (floats.l2f n))
  | .l2d, .long n => some (.double (floats.l2d n))
  | .f2i, .float x => some (.int (floats.f2i x))
  | .f2l, .float x => some (.long (floats.f2l x))
  | .f2d, .float x => some (.double (floats.f2d x))
  | .d2i, .double x => some (.int (floats.d2i x))
  | .d2l, .double x => some (.long (floats.d2l x))
  | .d2f, .double x => some (.float (floats.d2f x))
  | .i2b, .int n => some (.int n.toInt8.toInt32)
  | .i2c, .int n => some (.int (n &&& 0xFFFF))
  | .i2s, .int n => some (.int n.toInt16.toInt32)
  | _, _ => none

/-! ### Representations -/

/-- The representation that a family works on. -/
def Family.slotKind : Family → SlotKind
  | .int => .int
  | .long => .long
  | .float => .float
  | .double => .double

/-- A type with arithmetic is represented as its family works on. -/
theorem OperandType.slotKind?_of_family? {type : OperandType} {family : Family}
    (h : type.family? = some family) : type.slotKind? = some family.slotKind := by
  cases type <;> cases h <;> rfl

theorem OperandType.slotKind?_of_isIntCategory {type : OperandType}
    (h : type.isIntCategory = true) : type.slotKind? = some .int := by
  cases type <;> cases h <;> rfl

/-- A literal is represented as its type says. This is by cases on the kind of the literal, and does
not depend on its text. -/
theorem Tag.slotKind?_of_literal {tag : Tag} {raw : String} {constant : Constant}
    {type : OperandType} (h : tag.literal raw = .ok (constant, type)) :
    type.slotKind? = some constant.toValue.kind := by
  unfold Tag.literal at h
  -- One case for each kind of literal; what is not one has been read as no literal at all.
  split at h
  · split at h
    · cases h; rfl
    · split at h <;> cases h
      rfl
  · split at h
    · split at h <;> cases h
      rfl
    · cases h
  · split at h <;> cases h
    rfl
  · split at h <;> cases h
    rfl
  · cases h
    rfl
  · cases h

/-- A value of a family's representation is a number of that family, so that the operation has a
result of the same representation, or ends the run. -/
theorem ArithOp.exists_run {floats : Floats} {op : ArithOp} {family : Family} {a b : Value}
    (ha : a.kind = family.slotKind) (hb : b.kind = family.slotKind) :
    ∃ result, op.run floats family a b = some result ∧
      ∀ v, result = .ok v → v.kind = family.slotKind := by
  -- The two values fix each other: one case is left for each family.
  cases family <;> cases a <;> cases ha <;> cases b <;> cases hb
  · rename_i m n
    refine ⟨_, rfl, fun v hv => ?_⟩
    rcases h : op.int32 m n with e | r <;> rw [h] at hv <;> cases hv
    rfl
  · rename_i m n
    refine ⟨_, rfl, fun v hv => ?_⟩
    rcases h : op.int64 m n with e | r <;> rw [h] at hv <;> cases hv
    rfl
  · exact ⟨_, rfl, fun v hv => by cases hv; rfl⟩
  · exact ⟨_, rfl, fun v hv => by cases hv; rfl⟩

/-- The representation that a conversion makes of another. -/
def Conversion.result? : Conversion → SlotKind → Option SlotKind
  | .identity, kind => some kind
  | .i2l, .int => some .long
  | .i2f, .int => some .float
  | .i2d, .int => some .double
  | .l2i, .long => some .int
  | .l2f, .long => some .float
  | .l2d, .long => some .double
  | .f2i, .float => some .int
  | .f2l, .float => some .long
  | .f2d, .float => some .double
  | .d2i, .double => some .int
  | .d2l, .double => some .long
  | .d2f, .double => some .float
  | .i2b, .int | .i2c, .int | .i2s, .int => some .int
  | _, _ => none

/-- What a conversion makes of a value is known from the representation alone. -/
theorem Conversion.kind_run {floats : Floats} (conversion : Conversion) (v : Value) :
    (conversion.run floats v).map Value.kind = conversion.result? v.kind := by
  cases conversion <;> cases v <;> rfl

/-- **The table of casts fits the representations**: a cast that it has can be carried out, and
leads to the representation of its target. -/
theorem OperandType.result?_of_conversionTo? {source target : OperandType} {conversion : Conversion}
    {kind : SlotKind} (h : source.conversionTo? target = some conversion)
    (hkind : source.slotKind? = some kind) :
    ∃ kind', conversion.result? kind = some kind' ∧ target.slotKind? = some kind' := by
  cases source <;> cases hkind <;> cases target <;> simp [conversionTo?] at h <;> subst h <;>
    exact ⟨_, rfl, rfl⟩

/-! ### Signatures -/

/-- The arguments in the rest of the signature of a method without a result; `inClass`
says whether the name of a class is being read. -/
def argumentKinds : (inClass : Bool) → List Char → Option (List SlotKind)
  | true, ';' :: rest => (argumentKinds false rest).map (.reference :: ·)
  | true, _ :: rest => argumentKinds true rest
  | false, 'L' :: rest => argumentKinds true rest
  | false, 'Z' :: rest | false, 'C' :: rest | false, 'B' :: rest | false, 'S' :: rest
  | false, 'I' :: rest => (argumentKinds false rest).map (.int :: ·)
  | false, 'J' :: rest => (argumentKinds false rest).map (.long :: ·)
  | false, 'F' :: rest => (argumentKinds false rest).map (.float :: ·)
  | false, 'D' :: rest => (argumentKinds false rest).map (.double :: ·)
  | false, [')', 'V'] => some []
  | _, _ => none

/-- **The representations of a method's arguments**, first to last, by its signature. The
method has no result. -/
def MemberRef.arguments? (method : MemberRef) : Option (List SlotKind) :=
  match method.descriptor.toList with
  | '(' :: rest => argumentKinds false rest
  | _ => none

/-- A value fits the signature by which values of its type are printed. -/
theorem OperandType.arguments?_of_printDescriptor? {type : OperandType} {descriptor : String}
    {kind : SlotKind} (h : type.printDescriptor? = some descriptor)
    (hkind : type.slotKind? = some kind) :
    MemberRef.arguments? ⟨Emit.printerClass, "println", descriptor⟩ = some [kind] := by
  cases type <;> cases h <;> cases hkind <;> rfl

namespace Machine

/-! ### The library -/

/-- **The objects created so far**: how many, and the tasks that threads were created
for. -/
structure Heap where
  size : Nat
  task : Nat → Option String

/-- The heap at the start of a run. -/
def Heap.empty : Heap :=
  ⟨0, fun _ => none⟩

/-- The heap with one more object. -/
def Heap.create (heap : Heap) : Heap :=
  { heap with size := heap.size + 1 }

/-- The heap with a task for a thread. -/
def Heap.bind (heap : Heap) (thread : Nat) (cls : String) : Heap :=
  { heap with task := fun id => if id = thread then some cls else heap.task id }

/-- **What units call.** -/
inductive Routine
  | println
  | sleep
  | initObject
  | initError
  | initThread
  | startThread
  deriving DecidableEq

/-- The routine that a method is; a constructor without arguments does nothing, for any
class. -/
def routine? (kind : InvokeKind) (method : MemberRef) : Option Routine :=
  if kind = .special ∧ method.name = "<init>" ∧ method.descriptor = "()V" then some .initObject
  else if kind = .virtual ∧ method.owner = Emit.printerClass ∧ method.name = "println" then
    some .println
  else if kind = .static ∧ method = ⟨Emit.threadClass, "sleep", "(J)V"⟩ then some .sleep
  else if kind = .special ∧ method = ⟨Emit.assertionClass, "<init>", "(Ljava/lang/Object;)V"⟩ then
    some .initError
  else if kind = .special ∧ method = ⟨Emit.threadClass, "<init>", "(Ljava/lang/Runnable;)V"⟩ then
    some .initThread
  else if kind = .virtual ∧ method = ⟨Emit.threadClass, "start", "()V"⟩ then some .startThread
  else none

/-- **What a routine does**: its effects, the stack without its arguments, and the
heap. -/
def Routine.run (method : MemberRef) (stack : List Value) (heap : Heap) :
    Routine → Option (List Effect × List Value × Heap)
  | .println =>
    match stack with
    | v :: .printer :: rest =>
      if method.arguments? = some [v.kind] then
        some ([.println v method.descriptor], rest, heap)
      else none
    | _ => none
  | .sleep =>
    match stack with
    | .long n :: rest => some ([.sleep n], rest, heap)
    | _ => none
  | .initObject =>
    match stack with
    | .object cls _ :: rest => if cls = method.owner then some ([], rest, heap) else none
    | _ => none
  | .initError =>
    match stack with
    | .string _ :: .object cls _ :: rest =>
      if cls = method.owner then some ([], rest, heap) else none
    | _ => none
  | .initThread =>
    match stack with
    | .object task _ :: .object cls id :: rest =>
      if cls = method.owner then some ([], rest, heap.bind id task) else none
    | _ => none
  | .startThread =>
    match stack with
    | .object _ id :: rest => (heap.task id).map fun task => ([.spawn task], rest, heap)
    | _ => none

/-! ### Steps -/

/-- The variables of a run: the slots that are set, and to what. -/
abbrev Locals := UInt16 → Option Value

/-- The variables with one more slot set. -/
def Locals.set (locals : Locals) (slot : UInt16) (v : Value) : Locals :=
  fun other => if other = slot then some v else locals other

/-- **A state of a run.** -/
structure State where
  pc : Nat
  stack : List Value
  locals : Locals
  heap : Heap

/-- The state at the start of a run. -/
def State.start : State :=
  ⟨0, [], fun _ => none, .empty⟩

/-- Where a step leads. -/
inductive Outcome
  | next (effects : List Effect) (state : State)
  | ends (ending : Ending)
  | stuck

/-- Go on with the next instruction and another stack. -/
def State.goOn (s : State) (stack : List Value) : Outcome :=
  .next [] { s with pc := s.pc + 1, stack := stack }

/-- Go on at a label, with another stack. -/
def State.goTo (s : State) (offsets : List (Label × Nat)) (target : Label) (stack : List Value) :
    Outcome :=
  match offsets.lookup target with
  | some pc => .next [] { s with pc := pc, stack := stack }
  | none => .stuck

/-- **What an instruction does.** -/
def State.perform (floats : Floats) (offsets : List (Label × Nat)) (s : State) :
    Instruction → Outcome
  | .push constant => s.goOn (constant.toValue :: s.stack)
  | .dup =>
    match s.stack with
    | v :: rest => s.goOn (v :: v :: rest)
    | _ => .stuck
  | .load kind slot =>
    match s.locals slot with
    | none => .ends .unassigned
    | some v => if v.kind = kind then s.goOn (v :: s.stack) else .stuck
  | .store kind slot =>
    match s.stack with
    | v :: rest =>
      if v.kind = kind then
        .next [] { s with pc := s.pc + 1, stack := rest, locals := s.locals.set slot v }
      else .stuck
    | _ => .stuck
  | .arith op family =>
    match s.stack with
    | b :: a :: rest =>
      match op.run floats family a b with
      | some (.ok v) => s.goOn (v :: rest)
      | some (.error ending) => .ends ending
      | none => .stuck
    | _ => .stuck
  | .convert conversion =>
    match s.stack with
    | v :: rest =>
      match conversion.run floats v with
      | some v' => s.goOn (v' :: rest)
      | none => .stuck
    | _ => .stuck
  | .jumpIf test target =>
    match s.stack with
    | .int n :: rest => if test.holds n.toInt then s.goTo offsets target rest else s.goOn rest
    | _ => .stuck
  | .jump target => s.goTo offsets target s.stack
  | .label _ => s.goOn s.stack
  | .new cls =>
    .next []
      { s with
        pc := s.pc + 1
        stack := .object cls s.heap.size :: s.stack
        heap := s.heap.create }
  | .getStatic field =>
    if field = ⟨"java/lang/System", "out", "Ljava/io/PrintStream;"⟩ then
      s.goOn (.printer :: s.stack)
    else .stuck
  | .invoke kind method =>
    match routine? kind method with
    | none => .stuck
    | some routine =>
      match routine.run method s.stack s.heap with
      | none => .stuck
      | some (effects, stack, heap) =>
        .next effects { s with pc := s.pc + 1, stack := stack, heap := heap }
  | .throw =>
    match s.stack with
    | .object cls _ :: _ =>
      if cls = Emit.assertionClass then .ends .assertionError else .stuck
    | _ => .stuck
  | .ret => .ends .returned

/-- **One step of a unit.** -/
def step (floats : Floats) (unit : CodeUnit) (s : State) : Outcome :=
  match unit.instructions[s.pc]? with
  | some instr => s.perform floats unit.labelOffsets instr
  | none => .stuck

/-! ### Runs -/

/-- **Where a number of steps leads**: to a state, or to an end, with the effects on the
way. -/
inductive Leads (floats : Floats) (unit : CodeUnit) :
    Nat → State → List Effect → Except Ending State → Prop
  | here {s} : Leads floats unit 0 s [] (.ok s)
  | ends {s ending} (h : step floats unit s = .ends ending) :
      Leads floats unit 1 s [] (.error ending)
  | next {n s s' effects effects' result} (h : step floats unit s = .next effects s')
      (hrest : Leads floats unit n s' effects' result) :
      Leads floats unit (n + 1) s (effects ++ effects') result

variable {floats : Floats} {unit : CodeUnit} {m n : Nat} {s s' : State}
  {effects effects' : List Effect} {result : Except Ending State} {ending ending' : Ending}

namespace Leads

theorem one (h : step floats unit s = .next effects s') :
    Leads floats unit 1 s effects (.ok s') := by
  have hrun := next h here
  rwa [List.append_nil] at hrun

/-- Runs are put together, and the steps and effects add up. -/
theorem trans (h : Leads floats unit m s effects (.ok s'))
    (h' : Leads floats unit n s' effects' result) :
    Leads floats unit (m + n) s (effects ++ effects') result := by
  generalize hr : Except.ok s' = r at h
  induction h with
  | here =>
    cases hr
    rwa [Nat.zero_add]
  | ends => cases hr
  | next hstep _ ih =>
    rw [Nat.add_right_comm, List.append_assoc]
    exact .next hstep (ih hr)

/-- **A run that ends goes on from any state that it leads to.** A state has one next step at most,
so that the two runs agree as long as both last. -/
theorem after (h : Leads floats unit m s effects (.ok s'))
    (h' : Leads floats unit n s effects' (.error ending)) :
    ∃ k rest, n = m + k ∧ effects' = effects ++ rest ∧
      Leads floats unit k s' rest (.error ending) := by
  generalize hr : Except.ok s' = r at h
  -- On the steps to the middle: the two runs start alike, so each takes the step of the other.
  induction h generalizing n effects' with
  | here =>
    cases hr
    exact ⟨n, effects', (Nat.zero_add n).symm, rfl, h'⟩
  | ends => cases hr
  | next hstep _ ih =>
    cases h' with
    | ends hends => cases hstep.symm.trans hends
    | next hstep' hrest =>
      cases hstep.symm.trans hstep'
      obtain ⟨k, rest, rfl, rfl, hk⟩ := ih hrest hr
      exact ⟨k, rest, by omega, (List.append_assoc _ _ _).symm, hk⟩

/-- **A run ends in one way**, with one list of effects. The number of steps need not be known to be
the same. -/
theorem unique (h : Leads floats unit m s effects (.error ending))
    (h' : Leads floats unit n s effects' (.error ending')) :
    effects = effects' ∧ ending = ending' := by
  generalize hr : Except.error ending = r at h
  induction h generalizing n effects' with
  | here => cases hr
  | ends hends =>
    cases hr
    cases h' with
    | ends hends' =>
      cases hends.symm.trans hends'
      exact ⟨rfl, rfl⟩
    | next hstep => cases hends.symm.trans hstep
  | next hstep _ ih =>
    cases h' with
    | ends hends => cases hstep.symm.trans hends
    | next hstep' hrest =>
      cases hstep.symm.trans hstep'
      obtain ⟨rfl, rfl⟩ := ih hrest hr
      exact ⟨rfl, rfl⟩

/-- A run that gets stuck does not end. -/
theorem not_ends (h : Leads floats unit m s effects (.ok s'))
    (hstuck : step floats unit s' = .stuck) :
    ¬Leads floats unit n s effects' (.error ending) := by
  intro h'
  obtain ⟨k, rest, -, -, hrest⟩ := h.after h'
  cases hrest with
  | ends hends => cases hstuck.symm.trans hends
  | next hstep => cases hstuck.symm.trans hstep

/-- **A run gets stuck in one state**, with one list of effects on the way. -/
theorem eq_of_stuck {s₁ s₂ : State} (h : Leads floats unit m s effects (.ok s₁))
    (hstuck : step floats unit s₁ = .stuck) (h' : Leads floats unit n s effects' (.ok s₂))
    (hstuck' : step floats unit s₂ = .stuck) : effects = effects' ∧ s₁ = s₂ := by
  generalize hr : Except.ok s₁ = r at h
  induction h generalizing n effects' with
  | here =>
    cases hr
    cases h' with
    | here => exact ⟨rfl, rfl⟩
    | next hstep => cases hstuck.symm.trans hstep
  | ends => cases hr
  | next hstep _ ih =>
    cases h' with
    | here => cases hstuck'.symm.trans hstep
    | next hstep' hrest =>
      cases hstep.symm.trans hstep'
      obtain ⟨rfl, heq⟩ := ih hrest hr
      exact ⟨rfl, heq⟩

end Leads

end Machine

/-- **A unit halts**: run from its start, with an empty stack and no variable set, it shows
these effects and ends so. -/
def CodeUnit.Halts (floats : Floats) (unit : CodeUnit) (effects : List Effect) (ending : Ending) :
    Prop :=
  ∃ n, Machine.Leads floats unit n .start effects (.error ending)

end StackUnits
