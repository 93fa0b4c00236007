import StackUnits.Proofs.Evaluation
import StackUnits.Proofs.Execution
import StackUnits.Proofs.Tables

/-!
# Compiled expressions deliver their values

Run on the stack machine, the code of an expression comes to its end with the value of the
expression on top of a stack that is otherwise as it was, or it ends as the evaluation does
(`StackUnits.Expr.HasCode.delivers`, by induction on the code).

The two sides know variables in different ways: a tree by name, the machine by slot. They are held
together by `StackUnits.Agrees`, for the symbol table *at the end of the unit*: it has every
variable that the unit ever names, and its slots differ as long as there are no more than `2 ^ 16`
variables, so that one table serves for all of the code.
-/

namespace StackUnits

open Machine

/-! ### Values of a type -/

namespace TypedValue

/-- **A value is represented as its type says.** -/
def Tagged (v : TypedValue) : Prop :=
  v.type.slotKind? = some v.value.kind

variable {floats : Floats} {a b v : TypedValue}

/-- A value of the int category is a number of 32 bits. -/
theorem Tagged.toInt (h : v.Tagged) (hint : v.type.isIntCategory = true) :
    ∃ n, v.value = .int n ∧ v.toInt = some (.ok n) := by
  obtain ⟨type, value⟩ := v
  have hkind := h.symm.trans (OperandType.slotKind?_of_isIntCategory hint)
  cases value with
  | int n => exact ⟨n, rfl, if_pos hint⟩
  | _ => cases hkind

/-- Two numbers of one type are compared by their difference, which may overflow. -/
theorem compare_eq {test : ZeroTest} {m n : Int32} (ha : a.toInt = some (.ok m))
    (hb : b.toInt = some (.ok n)) (htype : a.type = b.type) :
    compare test a b = some (.ok (ofBool (test.holds (m - n).toInt))) := by
  rw [compare, ha, hb]
  exact if_pos htype

/-- **Arithmetic on two values of one type** has a result, of that type; it may be that the run
ends, as a division by zero does, but never that there is no meaning. -/
theorem Tagged.arith {op : ArithOp} {family : Family} (ha : a.Tagged) (hb : b.Tagged)
    (htype : a.type = b.type) (hfamily : a.type.family? = some family) :
    ∃ result, op.run floats family a.value b.value = some result ∧
      a.arith floats op b = some (result.map (⟨a.type, ·⟩)) ∧
      ∀ v, result = .ok v → (⟨a.type, v⟩ : TypedValue).Tagged := by
  have hslot := OperandType.slotKind?_of_family? hfamily
  have hka : a.value.kind = family.slotKind := Option.some.inj (ha.symm.trans hslot)
  have hkb : b.value.kind = family.slotKind :=
    Option.some.inj (hb.symm.trans ((congrArg _ htype.symm).trans hslot))
  obtain ⟨result, hrun, hkind⟩ := ArithOp.exists_run hka hkb
  refine ⟨result, hrun, ?_, fun v hv => ?_⟩
  · rw [TypedValue.arith, if_pos htype, hfamily]
    simp only [hrun]
    rfl
  · exact hslot.trans (congrArg some (hkind v hv).symm)

/-- **A cast that the table has** leads to a value of its target, and never ends the run. So a cast
can only fail to compile. -/
theorem Tagged.cast {target : OperandType} {conversion : Conversion} (h : v.Tagged)
    (hconv : v.type.conversionTo? target = some conversion) :
    ∃ result, conversion.run floats v.value = some result ∧
      v.cast floats target = some (.ok ⟨target, result⟩) ∧
      (⟨target, result⟩ : TypedValue).Tagged := by
  obtain ⟨kind, hresult, htarget⟩ := OperandType.result?_of_conversionTo? hconv h
  rw [← Conversion.kind_run, Option.map_eq_some_iff] at hresult
  obtain ⟨result, hrun, rfl⟩ := hresult
  refine ⟨result, hrun, ?_, htarget⟩
  rw [TypedValue.cast, hconv]
  simp only [hrun]
  rfl

end TypedValue

/-! ### Variables by name and by slot -/

/-- **The variables agree**: by the table of the finished unit, a slot holds what the name
stands for, and nothing if the name was never assigned. -/
def Agrees (table : SymbolTable) (env : Env) (locals : Locals) : Prop :=
  ∀ ⦃name info⦄, table.lookup name = some info →
    locals info.slot = (env name).map TypedValue.value ∧
      ∀ v, env name = some v → v.type = info.type ∧ v.Tagged

/-- At the start of a unit nothing is assigned, by name or by slot. -/
theorem Agrees.empty (table : SymbolTable) : Agrees table .empty (fun _ => none) :=
  fun _ _ _ => ⟨rfl, fun _ hv => nomatch hv⟩

/-- The variables still agree after an assignment. It is here that slots have to be different:
another name with the same slot would change its value along with this one. -/
theorem Agrees.set {table : SymbolTable} {env : Env} {locals : Locals} (h : Agrees table env locals)
    (hsep : table.Separates) {name : String} {info : VarInfo} {v : TypedValue}
    (hname : table.lookup name = some info) (htype : v.type = info.type) (hv : v.Tagged) :
    Agrees table (env.set name v) (locals.set info.slot v.value) := by
  intro other info' hother
  -- By slot and not by name: what the machine has changed is a slot.
  by_cases hslot : info'.slot = info.slot
  · obtain rfl := hsep hother hname hslot
    obtain rfl := Option.some.inj (hother.symm.trans hname)
    simp only [Locals.set, Env.set, if_true]
    refine ⟨rfl, ?_⟩
    rintro _ ⟨⟩
    exact ⟨htype, hv⟩
  · have hne : other ≠ name := by
      rintro rfl
      exact hslot (congrArg VarInfo.slot (Option.some.inj (hother.symm.trans hname)))
    simp only [Locals.set, Env.set, if_neg hslot, if_neg hne]
    exact h hother

/-! ### Expressions -/

/-- **An expression is delivered**: the run from a state comes to a place with the value of
the expression on the stack and all else as it was, or it ends as the evaluation does. -/
inductive Delivers (floats : Floats) (unit : CodeUnit) (t : Tree) (env : Env) (type : OperandType)
    (s : State) (pc : Nat) : Prop
  | value {v} (heval : t.eval floats env = some (.ok v)) (htype : v.type = type) (hv : v.Tagged)
      (hrun : Reaches floats unit s [] ⟨pc, v.value :: s.stack, s.locals, s.heap⟩)
  | ends {ending} (heval : t.eval floats env = some (.error ending))
      (hrun : Ends floats unit s [] ending)

variable {floats : Floats} {unit : CodeUnit} {table : SymbolTable} {env : Env} {locals : Locals}
  {heap : Heap} {stack : List Value} {pc : Nat}

/-- A choice between two constants, after a number. It is made in the code of comparisons and of
negations. -/
theorem Machine.Forks.verdict {skip : ZeroTest} {condition : List Instruction}
    {thenPc elsePc endPc : Nat} {m c : Int32}
    (hforks : Forks floats unit pc skip condition [.push (.int m)] [.push (.int c)] thenPc elsePc
      endPc) (n : Int32) (stack : List Value) (locals : Locals) (heap : Heap) :
    Reaches floats unit ⟨pc + condition.length, .int n :: stack, locals, heap⟩ []
      ⟨endPc, .int (if skip.holds n.toInt then c else m) :: stack, locals, heap⟩ := by
  cases hskip : skip.holds n.toInt with
  | true =>
    exact ((hforks.enterElse hskip).trans (reaches_push hforks.elseAt)).trans hforks.leaveElse
  | false =>
    exact ((hforks.enterThen hskip).trans (reaches_push hforks.thenAt)).trans hforks.leaveThen

namespace Delivers

variable {tag : Tag} {l r : Tree} {right : Option Tree} {type tl tr : OperandType} {s : State}
  {pc₁ pc₂ : Nat}

/-- A value of the int category that is delivered is a number. The conditions of branches and the
operands of connectives are used in this form. -/
theorem int_cases {t : Tree} (h : Delivers floats unit t env type s pc)
    (hint : type.isIntCategory = true) :
    (∃ n, (t.eval floats env).toInt = some (.ok n) ∧
        Reaches floats unit s [] ⟨pc, .int n :: s.stack, s.locals, s.heap⟩) ∨
      ∃ ending, t.eval floats env = some (.error ending) ∧
        (t.eval floats env).toInt = some (.error ending) ∧ Ends floats unit s [] ending := by
  cases h with
  | value heval htype hv hrun =>
    subst htype
    obtain ⟨n, hn, htoInt⟩ := hv.toInt hint
    rw [hn] at hrun
    rw [heval]
    exact .inl ⟨n, htoInt, hrun⟩
  | ends heval hrun =>
    rw [heval]
    exact .inr ⟨_, rfl, rfl, hrun⟩

/-- **Arithmetic**: the operands are delivered one above the other, and the instruction takes them
off. -/
theorem arith {op : ArithOp} {family : Family} (hkind : tag.kind.arithOp? = some op)
    (hfamily : type.family? = some family) (hl : Delivers floats unit l env type s pc₁)
    (hr : ∀ v, Delivers floats unit r env type { s with pc := pc₁, stack := v :: s.stack } pc₂)
    (hcode : unit.HasAt pc₂ [.arith op family]) :
    Delivers floats unit (.node tag (some l) (some r)) env type s (pc₂ + 1) := by
  have heq : (Tree.node tag (some l) (some r)).eval floats env = _ := Tree.eval_arith hkind
  cases hl with
  | ends heval hrun =>
    rw [heval] at heq
    exact .ends heq hrun
  | @value a heval htype ha hrun =>
    rw [heval] at heq
    cases hr a.value with
    | ends heval' hrun' =>
      rw [heval'] at heq
      exact .ends heq (hrun.ends hrun')
    | @value b heval' htype' hb hrun' =>
      rw [heval'] at heq
      subst htype
      obtain ⟨result, hop, harith, htagged⟩ := ha.arith hb htype'.symm hfamily
      have heq := heq.trans harith
      have hreach := hrun.trans hrun'
      rcases result with ending | v
      · exact .ends heq (hreach.ends (ends_arith hcode hop))
      · exact .value heq rfl (htagged v rfl) (hreach.trans (reaches_arith hcode hop))

/-- **A cast**: the operand is delivered, and converted if that takes an instruction. -/
theorem cast {target : OperandType} {conversion : Conversion}
    (hkind : tag.kind.castTarget? = some target)
    (hconv : type.conversionTo? target = some conversion)
    (hl : Delivers floats unit l env type s pc₁)
    (hcode : unit.HasAt pc₁ (Code.conversion conversion)) :
    Delivers floats unit (.node tag (some l) right) env target s
      (pc₁ + (Code.conversion conversion).length) := by
  have heq : (Tree.node tag (some l) right).eval floats env = _ := Tree.eval_cast hkind
  cases hl with
  | ends heval hrun =>
    rw [heval] at heq
    exact .ends heq hrun
  | value heval htype hv hrun =>
    rw [heval] at heq
    subst htype
    obtain ⟨result, hresult, hcast, htagged⟩ := hv.cast hconv
    exact .value (heq.trans hcast) rfl htagged (hrun.trans (reaches_conversion hcode hresult))

section Branching

variable {t : Tree} {skip : ZeroTest} {condition thenArm elseArm : List Instruction}
  {thenPc elsePc endPc : Nat}

/-- **A connective**: if the left operand passes the test, a constant, and otherwise the right
operand, with the number that it has. -/
theorem connective {c : Int32} (htl : tl.isIntCategory = true) (htr : tr.isIntCategory = true)
    (heq : t.eval floats env = do
      let n ← (l.eval floats env).toInt
      if skip.holds n.toInt then pure ⟨.boolean, .int c⟩
      else return ⟨.boolean, .int (← (r.eval floats env).toInt)⟩)
    (hforks : Forks floats unit pc skip condition thenArm [.push (.int c)] thenPc elsePc endPc)
    (hl : Delivers floats unit l env tl ⟨pc, stack, locals, heap⟩ (pc + condition.length))
    (hr : Delivers floats unit r env tr ⟨thenPc, stack, locals, heap⟩ (thenPc + thenArm.length)) :
    Delivers floats unit t env .boolean ⟨pc, stack, locals, heap⟩ endPc := by
  obtain ⟨n, hn, hrun⟩ | ⟨ending, -, hn, hrun⟩ := hl.int_cases htl
  · rw [hn] at heq
    cases hskip : skip.holds n.toInt with
    | true =>
      have henter := hrun.trans (hforks.enterElse hskip)
      exact .value (heq.trans (if_pos hskip)) rfl rfl
        ((henter.trans (reaches_push hforks.elseAt)).trans hforks.leaveElse)
    | false =>
      have henter := hrun.trans (hforks.enterThen hskip)
      have heq := heq.trans (if_neg (Bool.eq_false_iff.1 hskip))
      obtain ⟨m, hm, hrun'⟩ | ⟨ending, -, hm, hrun'⟩ := hr.int_cases htr
      · rw [hm] at heq
        exact .value heq rfl rfl ((henter.trans hrun').trans hforks.leaveThen)
      · rw [hm] at heq
        exact .ends heq (henter.ends hrun')
  · rw [hn] at heq
    exact .ends heq hrun

theorem and (hkind : tag.kind = .and) (htl : tl.isIntCategory = true)
    (htr : tr.isIntCategory = true)
    (hforks : Forks floats unit pc .eq condition thenArm [.push (.int 0)] thenPc elsePc endPc)
    (hl : Delivers floats unit l env tl ⟨pc, stack, locals, heap⟩ (pc + condition.length))
    (hr : Delivers floats unit r env tr ⟨thenPc, stack, locals, heap⟩ (thenPc + thenArm.length)) :
    Delivers floats unit (.node tag (some l) (some r)) env .boolean ⟨pc, stack, locals, heap⟩
      endPc := by
  refine connective htl htr ((Tree.eval_and hkind).trans ?_) hforks hl hr
  simp only [ZeroTest.holds_eq, decide_eq_true_eq]
  rfl

theorem or (hkind : tag.kind = .or) (htl : tl.isIntCategory = true)
    (htr : tr.isIntCategory = true)
    (hforks : Forks floats unit pc .ne condition thenArm [.push (.int 1)] thenPc elsePc endPc)
    (hl : Delivers floats unit l env tl ⟨pc, stack, locals, heap⟩ (pc + condition.length))
    (hr : Delivers floats unit r env tr ⟨thenPc, stack, locals, heap⟩ (thenPc + thenArm.length)) :
    Delivers floats unit (.node tag (some l) (some r)) env .boolean ⟨pc, stack, locals, heap⟩
      endPc := by
  refine connective htl htr ((Tree.eval_or hkind).trans ?_) hforks hl hr
  simp only [ZeroTest.holds_ne, decide_eq_true_eq, ite_not]
  rfl

theorem not (hkind : tag.kind = .not) (htl : tl.isIntCategory = true)
    (hforks : Forks floats unit pc .eq condition [.push (.int 0)] [.push (.int 1)] thenPc elsePc
      endPc)
    (hl : Delivers floats unit l env tl ⟨pc, stack, locals, heap⟩ (pc + condition.length)) :
    Delivers floats unit (.node tag (some l) right) env .boolean ⟨pc, stack, locals, heap⟩
      endPc := by
  have heq : (Tree.node tag (some l) right).eval floats env = _ := Tree.eval_not hkind
  obtain ⟨n, hn, hrun⟩ | ⟨ending, -, hn, hrun⟩ := hl.int_cases htl
  · rw [hn] at heq
    have hend := hrun.trans (hforks.verdict n stack locals heap)
    rw [ZeroTest.holds_eq] at hend
    exact .value heq rfl rfl hend
  · rw [hn] at heq
    exact .ends heq hrun

/-- **A comparison**: the difference of its operands is tested, and the verdict is one of two
constants. -/
theorem compare {test : ZeroTest} {cl cr : List Instruction}
    (hkind : tag.kind.comparison? = some test) (htype : type.isIntCategory = true)
    (hforks : Forks floats unit pc test.negate (cl ++ cr ++ [.arith .sub .int]) [.push (.int 1)]
      [.push (.int 0)] thenPc elsePc endPc)
    (hl : Delivers floats unit l env type ⟨pc, stack, locals, heap⟩ (pc + cl.length))
    (hr : ∀ v, Delivers floats unit r env type ⟨pc + cl.length, v :: stack, locals, heap⟩
      (pc + cl.length + cr.length)) :
    Delivers floats unit (.node tag (some l) (some r)) env .boolean ⟨pc, stack, locals, heap⟩
      endPc := by
  have heq : (Tree.node tag (some l) (some r)).eval floats env = _ := Tree.eval_compare hkind
  have hsub := hforks.conditionAt.right
  rw [List.length_append, ← Nat.add_assoc] at hsub
  cases hl with
  | ends heval hrun =>
    rw [heval] at heq
    exact .ends heq hrun
  | @value a heval htype' ha hrun =>
    rw [heval] at heq
    cases hr a.value with
    | ends heval' hrun' =>
      rw [heval'] at heq
      exact .ends heq (hrun.ends hrun')
    | @value b heval' htype'' hb hrun' =>
      rw [heval'] at heq
      obtain ⟨m, hm, hm'⟩ := ha.toInt (htype' ▸ htype)
      obtain ⟨n, hn, hn'⟩ := hb.toInt (htype'' ▸ htype)
      have heq := heq.trans (TypedValue.compare_eq hm' hn' (htype'.trans htype''.symm))
      rw [hm] at hrun hrun'
      rw [hn] at hrun'
      -- The jump skips to 0 if the test fails, so it is made with the opposite test.
      have hdiff := (hrun.trans hrun').trans (reaches_arith hsub rfl)
      have hverdict := hforks.verdict (m - n) stack locals heap
      rw [List.length_append, List.length_append, ← Nat.add_assoc, ← Nat.add_assoc,
        ZeroTest.holds_negate] at hverdict
      have hend := hdiff.trans hverdict
      cases hholds : test.holds (m - n).toInt <;> rw [hholds] at heq hend
      · exact .value heq rfl rfl hend
      · exact .value heq rfl rfl hend

end Branching

/-! What a delivery does, once the evaluation is known. -/

theorem ends_of_eval {t : Tree} {ending : Ending} (h : Delivers floats unit t env type s pc)
    (heval : t.eval floats env = some (.error ending)) : Ends floats unit s [] ending := by
  cases h with
  | value heval' => cases heval.symm.trans heval'
  | ends heval' hrun =>
    cases heval.symm.trans heval'
    exact hrun

theorem reaches_of_eval {t : Tree} {v : TypedValue} (h : Delivers floats unit t env type s pc)
    (heval : t.eval floats env = some (.ok v)) :
    v.type = type ∧ v.Tagged ∧
      Reaches floats unit s [] ⟨pc, v.value :: s.stack, s.locals, s.heap⟩ := by
  cases h with
  | value heval' htype hv hrun =>
    cases heval.symm.trans heval'
    exact ⟨htype, hv, hrun⟩
  | ends heval' => cases heval.symm.trans heval'

theorem reaches_of_toInt {t : Tree} {n : Int32} (h : Delivers floats unit t env type s pc)
    (hint : type.isIntCategory = true) (hn : (t.eval floats env).toInt = some (.ok n)) :
    Reaches floats unit s [] ⟨pc, .int n :: s.stack, s.locals, s.heap⟩ := by
  obtain ⟨m, hm, hrun⟩ | ⟨ending, -, hm, -⟩ := h.int_cases hint
  · cases hn.symm.trans hm
    exact hrun
  · cases hn.symm.trans hm

end Delivers

/-- **The code of an expression delivers it.** It may stand anywhere in a unit whose labels are in
order, and may find anything on the stack and in the heap; neither is changed below the value. The
table `T` at this point of the unit may know less than the table of the whole unit, in whose terms
the variables agree. -/
theorem Expr.HasCode.delivers {t : Tree} {e : Expr} {T : SymbolTable} {k k' : Nat}
    {code : List Instruction} {type : OperandType} (h : e.HasCode T k code type k')
    (ht : t.toExpr = e) (hlabels : unit.checkLabels = .ok ()) (hcode : unit.HasAt pc code)
    (hT : T.Within table) (hagrees : Agrees table env locals) (stack : List Value) (heap : Heap) :
    Delivers floats unit t env type ⟨pc, stack, locals, heap⟩ (pc + code.length) := by
  -- The stack is any, since the right operand is evaluated on top of the left one.
  induction h generalizing t pc stack with
  | literal =>
    cases Tree.readsExpr_iff.2 ht with
    | literal hraw hliteral =>
      exact .value (Tree.eval_literal hraw hliteral) rfl (Tag.slotKind?_of_literal hliteral)
        (reaches_push hcode)
  | @var _ tag name info kind hinfo hkind =>
    cases Tree.readsExpr_iff.2 ht with
    | var hid hname =>
      obtain ⟨hslot, htagged⟩ := hagrees (hT hinfo)
      rcases henv : env name with _ | v
      · rw [henv] at hslot
        exact .ends ((Tree.eval_var hid hname).trans (by rw [henv]; rfl)) (ends_load hcode hslot)
      · obtain ⟨htype, hv⟩ := htagged v henv
        rw [henv] at hslot
        have hvk : v.value.kind = kind := by
          have := hv.symm.trans ((congrArg _ htype).trans hkind)
          exact Option.some.inj this
        exact .value ((Tree.eval_var hid hname).trans (by rw [henv]; rfl)) htype hv
          (reaches_load hcode hslot hvk)
  | arith _ _ hfamily ihl ihr =>
    cases Tree.readsExpr_iff.2 ht with
    | arith hop =>
      have hright := hcode.right
      rw [List.length_append, ← Nat.add_assoc] at hright
      rw [List.length_append, List.length_append, ← Nat.add_assoc, ← Nat.add_assoc]
      exact .arith hop hfamily (ihl rfl hcode.left.left stack)
        (fun v => ihr rfl hcode.left.right (v :: stack)) hright
  | cast _ hconv ih =>
    cases Tree.readsExpr_iff.2 ht with
    | cast htarget =>
      rw [List.length_append, ← Nat.add_assoc]
      exact .cast htarget hconv (ih rfl hcode.left stack) hcode.right
  | and _ htl _ htr ihl ihr =>
    cases Tree.readsExpr_iff.2 ht with
    | and hkind =>
      obtain ⟨thenPc, elsePc, hforks⟩ := forks_choice floats hlabels hcode
      exact .and hkind htl htr hforks (ihl rfl hforks.conditionAt stack)
        (ihr rfl hforks.thenAt stack)
  | or _ htl _ htr ihl ihr =>
    cases Tree.readsExpr_iff.2 ht with
    | or hkind =>
      obtain ⟨thenPc, elsePc, hforks⟩ := forks_choice floats hlabels hcode
      exact .or hkind htl htr hforks (ihl rfl hforks.conditionAt stack)
        (ihr rfl hforks.thenAt stack)
  | not _ htype ih =>
    cases Tree.readsExpr_iff.2 ht with
    | not hkind =>
      obtain ⟨thenPc, elsePc, hforks⟩ := forks_choice floats hlabels hcode
      exact .not hkind htype hforks (ih rfl hforks.conditionAt stack)
  | compare _ _ htype ihl ihr =>
    cases Tree.readsExpr_iff.2 ht with
    | compare hkind =>
      obtain ⟨thenPc, elsePc, hforks⟩ := forks_choice floats hlabels hcode
      exact .compare hkind htype hforks (ihl rfl hforks.conditionAt.left.left stack)
        (fun v => ihr rfl hforks.conditionAt.left.right (v :: stack))

end StackUnits
