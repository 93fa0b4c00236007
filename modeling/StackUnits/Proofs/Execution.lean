import StackUnits.Proofs.Labels
import StackUnits.Proofs.Machine

/-!
# Running a piece of code

A unit is made of pieces of code, and so is a run of it. `StackUnits.CodeUnit.HasAt` says that
a piece stands at a place of a unit; the lemmas of this file say what the machine does when it
comes to that place, for the single instructions and for the pieces of
`StackUnits.Code`.

Pieces that branch have labels. Where those lead is known from the check of the unit: each is
placed once, so it stands where the piece has it. That check is the one assumption that is
made here about the rest of the unit.
-/

namespace StackUnits

namespace ZeroTest

theorem holds_eq (n : Int32) : ZeroTest.eq.holds n.toInt = decide (n = 0) := by
  rw [holds, decide_eq_decide.2 (Int32.toInt_inj (y := 0)).symm]
  rfl

theorem holds_ne (n : Int32) : ZeroTest.ne.holds n.toInt = decide (n ≠ 0) := by
  change ZeroTest.eq.negate.holds n.toInt = _
  rw [holds_negate, holds_eq, decide_not]

end ZeroTest

/-! ### Where code stands -/

namespace CodeUnit

/-- **A piece of code stands at a place** of a unit. -/
def HasAt (unit : CodeUnit) (pc : Nat) (code : List Instruction) : Prop :=
  ∃ before after, unit.instructions = before ++ code ++ after ∧ before.length = pc

namespace HasAt

variable {unit : CodeUnit} {pc : Nat} {code code' : List Instruction} {instr : Instruction}

/-- A piece that stands at a place has its first part there. -/
theorem left (h : unit.HasAt pc (code ++ code')) : unit.HasAt pc code := by
  obtain ⟨before, after, heq, hlength⟩ := h
  exact ⟨before, code' ++ after, by rw [heq]; simp only [List.append_assoc], hlength⟩

/-- And its second part stands behind the first. -/
theorem right (h : unit.HasAt pc (code ++ code')) : unit.HasAt (pc + code.length) code' := by
  obtain ⟨before, after, heq, hlength⟩ := h
  refine ⟨before ++ code, after, by rw [heq]; simp only [List.append_assoc], ?_⟩
  rw [List.length_append, hlength]

theorem head (h : unit.HasAt pc (instr :: code)) : unit.instructions[pc]? = some instr := by
  obtain ⟨before, after, heq, rfl⟩ := h
  rw [heq, List.append_assoc, List.getElem?_append_right (Nat.le_refl _), Nat.sub_self]
  rfl

theorem tail (h : unit.HasAt pc (instr :: code)) : unit.HasAt (pc + 1) code :=
  (show unit.HasAt pc ([instr] ++ code) from h).right

/-- In a unit that passed its check, a label that stands at a place leads there. This is all that is
ever used of the check. -/
theorem label {place : Label} (h : unit.HasAt pc (.label place :: code))
    (hlabels : unit.checkLabels = .ok ()) : unit.labelOffsets.lookup place = some pc :=
  lookup_labelOffsets hlabels h.head

end HasAt

end CodeUnit

namespace Machine

/-- **A state is reached** from another, with the effects on the way. -/
def Reaches (floats : Floats) (unit : CodeUnit) (s : State) (effects : List Effect) (s' : State) :
    Prop :=
  ∃ n, Leads floats unit n s effects (.ok s')

/-- **A run ends** from a state, with the effects on the way. -/
def Ends (floats : Floats) (unit : CodeUnit) (s : State) (effects : List Effect)
    (ending : Ending) : Prop :=
  ∃ n, Leads floats unit n s effects (.error ending)

variable {floats : Floats} {unit : CodeUnit} {s s' s'' : State} {effects effects' : List Effect}
  {ending : Ending} {pc : Nat} {stack rest : List Value} {locals : Locals} {heap : Heap}
  {code : List Instruction} {instr : Instruction}

theorem Reaches.refl : Reaches floats unit s [] s :=
  ⟨0, .here⟩

/-- Runs are put together, and so are their effects. -/
theorem Reaches.trans (h : Reaches floats unit s effects s')
    (h' : Reaches floats unit s' effects' s'') :
    Reaches floats unit s (effects ++ effects') s'' := by
  obtain ⟨m, hm⟩ := h
  obtain ⟨n, hn⟩ := h'
  exact ⟨m + n, hm.trans hn⟩

theorem Reaches.ends (h : Reaches floats unit s effects s')
    (h' : Ends floats unit s' effects' ending) :
    Ends floats unit s (effects ++ effects') ending := by
  obtain ⟨m, hm⟩ := h
  obtain ⟨n, hn⟩ := h'
  exact ⟨m + n, hm.trans hn⟩

/-- **A run stops** within a number of steps. -/
def Stops (floats : Floats) (unit : CodeUnit) (n : Nat) (s : State) : Prop :=
  ∃ m ≤ n, ∃ effects ending, Leads floats unit m s effects (.error ending)

namespace Stops

variable {n k : Nat}

theorem not_zero : ¬Stops floats unit 0 s := by
  rintro ⟨m, hm, effects, ending, hrun⟩
  cases hrun <;> exact Nat.not_succ_le_zero _ hm

/-- A run that stops has fewer steps to go after each of them. Since steps are determined, every run
from the same state is a part of the one that stops. -/
theorem leads (h : Stops floats unit (k + n) s) (hrun : Leads floats unit k s effects (.ok s')) :
    Stops floats unit n s' := by
  obtain ⟨m, hm, effects', ending, hends⟩ := h
  obtain ⟨j, rest, rfl, -, hrest⟩ := hrun.after hends
  exact ⟨j, Nat.le_of_add_le_add_left hm, rest, ending, hrest⟩

theorem reaches (h : Stops floats unit n s) (hrun : Reaches floats unit s effects s') :
    Stops floats unit n s' := by
  obtain ⟨k, hk⟩ := hrun
  obtain ⟨m, hm, effects', ending, hends⟩ := h
  exact leads ⟨m, Nat.le_trans hm (Nat.le_add_left n k), effects', ending, hends⟩ hk

end Stops

/-! ### Single instructions -/

/-- The step at a place is that of the instruction which stands there. -/
theorem step_eq (h : unit.HasAt s.pc (instr :: code)) :
    step floats unit s = s.perform floats unit.labelOffsets instr := by
  rw [step, h.head]

/-- There is no step after the last instruction. -/
theorem step_eq_stuck (h : unit.instructions.length ≤ s.pc) : step floats unit s = .stuck := by
  rw [step, List.getElem?_eq_none h]

theorem reaches_push {constant : Constant} (h : unit.HasAt pc (.push constant :: code)) :
    Reaches floats unit ⟨pc, stack, locals, heap⟩ []
      ⟨pc + 1, constant.toValue :: stack, locals, heap⟩ :=
  ⟨1, .one ((step_eq h).trans rfl)⟩

/-- A variable that is set is loaded, if it is of the kind that the instruction is for. -/
theorem reaches_load {kind : SlotKind} {slot : UInt16} {v : Value}
    (h : unit.HasAt pc (.load kind slot :: code)) (hv : locals slot = some v)
    (hkind : v.kind = kind) :
    Reaches floats unit ⟨pc, stack, locals, heap⟩ [] ⟨pc + 1, v :: stack, locals, heap⟩ := by
  refine ⟨1, .one ((step_eq h).trans ?_)⟩
  simp only [State.perform, hv, hkind, if_true]
  rfl

/-- A variable that is not set ends the run. -/
theorem ends_load {kind : SlotKind} {slot : UInt16} (h : unit.HasAt pc (.load kind slot :: code))
    (hv : locals slot = none) :
    Ends floats unit ⟨pc, stack, locals, heap⟩ [] .unassigned := by
  refine ⟨1, .ends ((step_eq h).trans ?_)⟩
  simp only [State.perform, hv]

theorem reaches_store {kind : SlotKind} {slot : UInt16} {v : Value}
    (h : unit.HasAt pc (.store kind slot :: code)) (hkind : v.kind = kind) :
    Reaches floats unit ⟨pc, v :: stack, locals, heap⟩ []
      ⟨pc + 1, stack, locals.set slot v, heap⟩ := by
  refine ⟨1, .one ((step_eq h).trans ?_)⟩
  simp only [State.perform, hkind, if_true]

theorem reaches_arith {op : ArithOp} {family : Family} {a b v : Value}
    (h : unit.HasAt pc (.arith op family :: code)) (hv : op.run floats family a b = some (.ok v)) :
    Reaches floats unit ⟨pc, b :: a :: stack, locals, heap⟩ []
      ⟨pc + 1, v :: stack, locals, heap⟩ := by
  refine ⟨1, .one ((step_eq h).trans ?_)⟩
  simp only [State.perform, hv]
  rfl

theorem ends_arith {op : ArithOp} {family : Family} {a b : Value}
    (h : unit.HasAt pc (.arith op family :: code))
    (hv : op.run floats family a b = some (.error ending)) :
    Ends floats unit ⟨pc, b :: a :: stack, locals, heap⟩ [] ending := by
  refine ⟨1, .ends ((step_eq h).trans ?_)⟩
  simp only [State.perform, hv]

/-- A conversion, with or without an instruction of its own. -/
theorem reaches_conversion {conversion : Conversion} {v v' : Value}
    (h : unit.HasAt pc (Code.conversion conversion)) (hv : conversion.run floats v = some v') :
    Reaches floats unit ⟨pc, v :: stack, locals, heap⟩ []
      ⟨pc + (Code.conversion conversion).length, v' :: stack, locals, heap⟩ := by
  have hstep : ∀ {c : Conversion}, unit.HasAt pc [.convert c] → c.run floats v = some v' →
      Reaches floats unit ⟨pc, v :: stack, locals, heap⟩ []
        ⟨pc + 1, v' :: stack, locals, heap⟩ := by
    intro c hc hrun
    refine ⟨1, .one ((step_eq hc).trans ?_)⟩
    simp only [State.perform, hrun]
    rfl
  -- The identity has no instruction; every other conversion has one.
  cases conversion with
  | identity =>
    cases hv
    exact .refl
  | _ => exact hstep h hv

/-- A jump to a label that stands at a place. The label may stand before the jump or behind it. -/
theorem reaches_jump {target : Label} {pc' : Nat} (h : unit.HasAt pc (.jump target :: code))
    (hlabels : unit.checkLabels = .ok ()) {code' : List Instruction}
    (htarget : unit.HasAt pc' (.label target :: code')) :
    Reaches floats unit ⟨pc, stack, locals, heap⟩ [] ⟨pc', stack, locals, heap⟩ := by
  refine ⟨1, .one ((step_eq h).trans ?_)⟩
  simp only [State.perform, State.goTo, htarget.label hlabels]

theorem reaches_label {place : Label} (h : unit.HasAt pc (.label place :: code)) :
    Reaches floats unit ⟨pc, stack, locals, heap⟩ [] ⟨pc + 1, stack, locals, heap⟩ :=
  ⟨1, .one ((step_eq h).trans rfl)⟩

/-- A conditional jump that is taken. The number that was tested is off the stack in either case. -/
theorem reaches_jumpIf {test : ZeroTest} {target : Label} {pc' : Nat} {n : Int32}
    (h : unit.HasAt pc (.jumpIf test target :: code)) (hlabels : unit.checkLabels = .ok ())
    {code' : List Instruction} (htarget : unit.HasAt pc' (.label target :: code'))
    (hn : test.holds n.toInt = true) :
    Reaches floats unit ⟨pc, .int n :: stack, locals, heap⟩ [] ⟨pc', stack, locals, heap⟩ := by
  refine ⟨1, .one ((step_eq h).trans ?_)⟩
  simp only [State.perform, State.goTo, htarget.label hlabels, hn, if_true]

/-- A conditional jump that is not taken. -/
theorem reaches_passJump {test : ZeroTest} {target : Label} {n : Int32}
    (h : unit.HasAt pc (.jumpIf test target :: code)) (hn : test.holds n.toInt = false) :
    Reaches floats unit ⟨pc, .int n :: stack, locals, heap⟩ [] ⟨pc + 1, stack, locals, heap⟩ := by
  refine ⟨1, .one ((step_eq h).trans ?_)⟩
  simp only [State.perform, hn, Bool.false_eq_true, if_false]
  rfl

theorem ends_ret (h : unit.HasAt pc (.ret :: code)) :
    Ends floats unit ⟨pc, stack, locals, heap⟩ [] .returned :=
  ⟨1, .ends ((step_eq h).trans rfl)⟩

/-! ### Objects and calls -/

/-- An object is created, and referred to twice: one reference is used up by its construction. -/
theorem reaches_new {cls : String} (h : unit.HasAt pc (.new cls :: .dup :: code)) :
    Reaches floats unit ⟨pc, stack, locals, heap⟩ []
      ⟨pc + 2, .object cls heap.size :: .object cls heap.size :: stack, locals, heap.create⟩ := by
  have hnew : Reaches floats unit ⟨pc, stack, locals, heap⟩ []
      ⟨pc + 1, .object cls heap.size :: stack, locals, heap.create⟩ :=
    ⟨1, .one ((step_eq h).trans rfl)⟩
  exact hnew.trans ⟨1, .one ((step_eq h.tail).trans rfl)⟩

/-- A call of a routine that the machine knows. -/
theorem reaches_invoke {kind : InvokeKind} {method : MemberRef} {routine : Routine}
    {heap' : Heap} (h : unit.HasAt pc (.invoke kind method :: code))
    (hroutine : routine? kind method = some routine)
    (hrun : routine.run method stack heap = some (effects, rest, heap')) :
    Reaches floats unit ⟨pc, stack, locals, heap⟩ effects ⟨pc + 1, rest, locals, heap'⟩ := by
  refine ⟨1, .one ((step_eq h).trans ?_)⟩
  simp only [State.perform, hroutine, hrun]

/-- The line printer is put below the value that it prints. -/
theorem reaches_printer (h : unit.HasAt pc (Code.printer :: code)) :
    Reaches floats unit ⟨pc, stack, locals, heap⟩ [] ⟨pc + 1, .printer :: stack, locals, heap⟩ :=
  ⟨1, .one ((step_eq h).trans rfl)⟩

/-- The value and the printer below it are taken off, and the value is shown as the descriptor
says. -/
theorem reaches_println {descriptor : String} {v : Value}
    (h : unit.HasAt pc (Code.println descriptor :: code))
    (hv : MemberRef.arguments? ⟨Emit.printerClass, "println", descriptor⟩ = some [v.kind]) :
    Reaches floats unit ⟨pc, v :: .printer :: stack, locals, heap⟩ [.println v descriptor]
      ⟨pc + 1, stack, locals, heap⟩ := by
  have hroutine :
      routine? .virtual ⟨Emit.printerClass, "println", descriptor⟩ = some .println := rfl
  refine reaches_invoke h hroutine ?_
  simp only [Routine.run, hv, if_true]

/-- **A sleep**, after its duration, which is extended to 64 bits. -/
theorem reaches_sleep {n : Int32} (h : unit.HasAt pc Code.sleep) :
    Reaches floats unit ⟨pc, .int n :: stack, locals, heap⟩ [.sleep n.toInt64]
      ⟨pc + Code.sleep.length, stack, locals, heap⟩ := by
  have hconvert : Reaches floats unit ⟨pc, .int n :: stack, locals, heap⟩ []
      ⟨pc + 1, .long n.toInt64 :: stack, locals, heap⟩ := ⟨1, .one ((step_eq h).trans rfl)⟩
  exact hconvert.trans (reaches_invoke h.tail rfl rfl)

/-- **A failed assertion**: the error is created and thrown. What is on the stack by then is of no
account, since the run ends. -/
theorem ends_assertion {k : Nat} (h : unit.HasAt pc (Code.assertion k)) :
    Ends floats unit ⟨pc + 1, stack, locals, heap⟩ [] .assertionError := by
  have hnew : Reaches floats unit ⟨pc + 1, stack, locals, heap⟩ [] _ := reaches_new h.tail
  have hpush := hnew.trans (reaches_push h.tail.tail.tail)
  have hinit := hpush.trans (reaches_invoke h.tail.tail.tail.tail rfl rfl)
  exact hinit.ends ⟨1, .ends ((step_eq h.tail.tail.tail.tail.tail).trans rfl)⟩

/-- **The start of a task**: it is created, a thread is created for it, and the thread is started.
What is left of this is the heap, about which nothing needs to be known. -/
theorem reaches_spawn {task : String} (h : unit.HasAt pc (Code.spawn task)) :
    ∃ heap', Reaches floats unit ⟨pc, stack, locals, heap⟩ [.spawn task]
      ⟨pc + (Code.spawn task).length, stack, locals, heap'⟩ := by
  -- The thread is created before its task, so it has the first free number of the heap.
  have hthread : Reaches floats unit ⟨pc, stack, locals, heap⟩ [] _ := reaches_new h
  have htask := hthread.trans (reaches_new h.tail.tail)
  have hroutine : routine? .special ⟨task, "<init>", "()V"⟩ = some .initObject := by simp [routine?]
  have hinit := htask.trans (reaches_invoke h.tail.tail.tail.tail hroutine (if_pos rfl))
  have hbind := hinit.trans (reaches_invoke h.tail.tail.tail.tail.tail rfl rfl)
  refine ⟨heap.create.create.bind heap.size task,
    hbind.trans (reaches_invoke h.tail.tail.tail.tail.tail.tail rfl ?_)⟩
  simp only [Routine.run, Heap.bind, if_true]
  rfl

/-! ### Branching -/

variable {k : Nat} {skip : ZeroTest} {condition thenArm elseArm body : List Instruction}

/-- **The two arms of a choice**: where they stand, how control comes to one of them, and how
it leaves. -/
structure Forks (floats : Floats) (unit : CodeUnit) (pc : Nat) (skip : ZeroTest)
    (condition thenArm elseArm : List Instruction) (thenPc elsePc endPc : Nat) : Prop where
  conditionAt : unit.HasAt pc condition
  thenAt : unit.HasAt thenPc thenArm
  elseAt : unit.HasAt elsePc elseArm
  enterThen : ∀ {n stack locals heap}, skip.holds (Int32.toInt n) = false → Reaches floats unit
    ⟨pc + condition.length, .int n :: stack, locals, heap⟩ [] ⟨thenPc, stack, locals, heap⟩
  enterElse : ∀ {n stack locals heap}, skip.holds (Int32.toInt n) = true → Reaches floats unit
    ⟨pc + condition.length, .int n :: stack, locals, heap⟩ [] ⟨elsePc, stack, locals, heap⟩
  leaveThen : ∀ {stack locals heap}, Reaches floats unit
    ⟨thenPc + thenArm.length, stack, locals, heap⟩ [] ⟨endPc, stack, locals, heap⟩
  leaveElse : ∀ {stack locals heap}, Reaches floats unit
    ⟨elsePc + elseArm.length, stack, locals, heap⟩ [] ⟨endPc, stack, locals, heap⟩

/-- **A choice forks** into its two arms. The offsets of the arms are not named: it is enough that
they stand somewhere and that control comes there. -/
theorem forks_choice (floats : Floats) (hlabels : unit.checkLabels = .ok ())
    (h : unit.HasAt pc (Code.choice k skip condition thenArm elseArm)) :
    ∃ thenPc elsePc, Forks floats unit pc skip condition thenArm elseArm thenPc elsePc
      (pc + (Code.choice k skip condition thenArm elseArm).length) := by
  -- Where the five parts after the condition stand, first as they come out of the list.
  have hif := h.left.left.left.left.right
  have hthen := h.left.left.left.right
  have hjump := h.left.left.right
  have helse := h.left.right
  have hend := h.right
  simp only [List.length_append, List.length_cons, List.length_nil, ← Nat.add_assoc,
    Nat.zero_add] at hthen hjump helse hend
  have hlength : pc + (Code.choice k skip condition thenArm elseArm).length =
      pc + condition.length + 1 + thenArm.length + 1 + 1 + elseArm.length + 1 := by
    simp only [Code.choice, List.length_append, List.length_cons, List.length_nil]
    omega
  rw [hlength]
  exact ⟨_, _, h.left.left.left.left.left, hthen, helse, reaches_passJump hif,
    fun hn => (reaches_jumpIf hif hlabels hjump.tail hn).trans (reaches_label hjump.tail),
    (reaches_jump hjump hlabels hend).trans (reaches_label hend), reaches_label hend⟩

/-- **An arm that may be skipped** is a choice whose second arm is empty, so that one description of
branching serves for both. -/
theorem forks_option (floats : Floats) (hlabels : unit.checkLabels = .ok ())
    (h : unit.HasAt pc (Code.option k skip condition thenArm)) :
    ∃ thenPc elsePc, Forks floats unit pc skip condition thenArm [] thenPc elsePc
      (pc + (Code.option k skip condition thenArm).length) := by
  have hif := h.left.left.right
  have hthen := h.left.right
  have hend := h.right
  simp only [List.length_append, List.length_cons, List.length_nil, ← Nat.add_assoc,
    Nat.zero_add] at hthen hend
  have hlength : pc + (Code.option k skip condition thenArm).length =
      pc + condition.length + 1 + thenArm.length + 1 := by
    simp only [Code.option, List.length_append, List.length_cons, List.length_nil]
    omega
  rw [hlength]
  exact ⟨_, _, h.left.left.left, hthen, hend.left, reaches_passJump hif,
    fun hn => (reaches_jumpIf hif hlabels hend hn).trans .refl, reaches_label hend,
    reaches_label hend⟩

/-- **The way around a loop.** -/
structure Circles (floats : Floats) (unit : CodeUnit) (pc : Nat)
    (condition body : List Instruction) (bodyPc endPc : Nat) : Prop where
  conditionAt : unit.HasAt (pc + 1) condition
  bodyAt : unit.HasAt bodyPc body
  start : ∀ {stack locals heap}, Leads floats unit 1 ⟨pc, stack, locals, heap⟩ []
    (.ok ⟨pc + 1, stack, locals, heap⟩)
  enter : ∀ {n stack locals heap}, n ≠ (0 : Int32) → Reaches floats unit
    ⟨pc + 1 + condition.length, .int n :: stack, locals, heap⟩ [] ⟨bodyPc, stack, locals, heap⟩
  leave : ∀ {stack locals heap}, Reaches floats unit
    ⟨pc + 1 + condition.length, .int 0 :: stack, locals, heap⟩ [] ⟨endPc, stack, locals, heap⟩
  back : ∀ {stack locals heap}, Reaches floats unit
    ⟨bodyPc + body.length, stack, locals, heap⟩ [] ⟨pc, stack, locals, heap⟩

/-- **A loop circles**: it tests its condition, runs through its body and is back at its
beginning. -/
theorem circles_loop (floats : Floats) (hlabels : unit.checkLabels = .ok ())
    (h : unit.HasAt pc (Code.loop k condition body)) :
    ∃ bodyPc, Circles floats unit pc condition body bodyPc
      (pc + (Code.loop k condition body).length) := by
  -- The label at the top is the target of the jump at the bottom.
  have htop : unit.HasAt pc (.label (.nth k) :: (condition ++ _)) := h.left.left
  have hcondition := h.left.left.left.right
  have hif := h.left.left.right
  have hbody := h.left.right
  have hjump := h.right
  simp only [List.length_append, List.length_cons, List.length_nil, ← Nat.add_assoc,
    Nat.zero_add] at hcondition hif hbody hjump
  have hlength : pc + (Code.loop k condition body).length =
      pc + 1 + condition.length + 1 + body.length + 1 + 1 := by
    simp only [Code.loop, List.length_append, List.length_cons, List.length_nil]
    omega
  rw [hlength]
  refine ⟨_, hcondition, hbody, .one ((step_eq htop).trans rfl), fun hn => ?_, ?_,
    reaches_jump hjump hlabels htop⟩
  · exact reaches_passJump hif (by rw [ZeroTest.holds_eq, decide_eq_false hn])
  · exact (reaches_jumpIf hif hlabels hjump.tail (by rw [ZeroTest.holds_eq]; rfl)).trans
      (reaches_label hjump.tail)

end Machine

end StackUnits
