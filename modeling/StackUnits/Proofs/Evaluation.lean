import StackUnits.Proofs.Forms
import StackUnits.Proofs.Machine

/-!
# What a program does

A program is evaluated on its tree, without any code. Variables are kept by **name**
(`StackUnits.Env`), and a value carries its type (`StackUnits.TypedValue`), since how a value
is printed depends on it.

* `StackUnits.Tree.eval` – the value of an expression. This is a function, as expressions
  come to an end; what has no value is a tree that is no expression or has operands of the
  wrong types. Operands are evaluated from left to right, and the first that ends the run
  ends it; a connective evaluates its right operand only if it matters, and then has the
  value of it.
* `StackUnits.Exec` – **big-step evaluation** of statements: a relation between the variables
  before, the effects, and the variables after or the way in which the run has ended. A loop
  that goes on forever is related to nothing.
-/

namespace StackUnits

/-- **A value and its type.** -/
structure TypedValue where
  type : OperandType
  value : Value
  deriving DecidableEq, Inhabited

/-- The variables of a program, by name. -/
abbrev Env := String → Option TypedValue

/-- No variable is assigned. -/
def Env.empty : Env :=
  fun _ => none

/-- The variables after an assignment. -/
def Env.set (env : Env) (name : String) (v : TypedValue) : Env :=
  fun other => if other = name then some v else env other

/-- What an evaluation results in: a value, or an end of the run; or nothing, where there is
no meaning. -/
abbrev Eval := ExceptT Ending Option

namespace Eval

/-- Nothing. -/
def nonsense {α : Type} : Eval α :=
  (none : Option (Except Ending α))

end Eval

namespace TypedValue

/-- A truth value. -/
def ofBool (b : Bool) : TypedValue :=
  ⟨.boolean, .int (if b then 1 else 0)⟩

/-- The number that a value of the int category is. -/
def toInt (v : TypedValue) : Eval Int32 :=
  match v.value with
  | .int n => if v.type.isIntCategory then pure n else .nonsense
  | _ => .nonsense

/-- **Arithmetic** on two values of one type. -/
def arith (floats : Floats) (op : ArithOp) (a b : TypedValue) : Eval TypedValue :=
  if a.type = b.type then
    match a.type.family? with
    | some family =>
      match op.run floats family a.value b.value with
      | some result => (result.map (⟨a.type, ·⟩) : Except Ending TypedValue)
      | none => .nonsense
    | none => .nonsense
  else .nonsense

/-- **A cast.** -/
def cast (floats : Floats) (target : OperandType) (v : TypedValue) : Eval TypedValue :=
  match v.type.conversionTo? target with
  | some conversion =>
    match conversion.run floats v.value with
    | some result => pure ⟨target, result⟩
    | none => .nonsense
  | none => .nonsense

/-- **A comparison** of two values of one type: a test of their difference, in 32 bits. -/
def compare (test : ZeroTest) (a b : TypedValue) : Eval TypedValue := do
  let m ← a.toInt
  let n ← b.toInt
  if a.type = b.type then pure (ofBool (test.holds (m - n).toInt)) else .nonsense

end TypedValue

/-- The number that a value of the int category is, once it is evaluated. -/
def Eval.toInt (result : Eval TypedValue) : Eval Int32 :=
  result >>= TypedValue.toInt

/-! ### Expressions -/

namespace Tree

/-- **The value of an expression.** -/
def eval (floats : Floats) (env : Env) : Tree → Eval TypedValue
  | .node tag left right =>
    let l : Eval TypedValue := match left with | some l => l.eval floats env | none => .nonsense
    let r : Eval TypedValue := match right with | some r => r.eval floats env | none => .nonsense
    let arith (op : ArithOp) : Eval TypedValue := do TypedValue.arith floats op (← l) (← r)
    let cast (target : OperandType) : Eval TypedValue := do TypedValue.cast floats target (← l)
    let compare (test : ZeroTest) : Eval TypedValue := do TypedValue.compare test (← l) (← r)
    match tag.kind with
    | .identifier =>
      match tag.value with
      | some name =>
        match env name with
        | some v => pure v
        | none => throw .unassigned
      | none => .nonsense
    | .literalBoolean | .literalCharacter | .literalInteger | .literalFloat | .literalString =>
      match tag.value with
      | some raw =>
        match tag.literal raw with
        | .ok (constant, type) => pure ⟨type, constant.toValue⟩
        | .error _ => .nonsense
      | none => .nonsense
    | .add => arith .add
    | .subtract => arith .sub
    | .multiply => arith .mul
    | .divide => arith .div
    | .modulo => arith .rem
    | .castChar => cast .char
    | .castByte => cast .byte
    | .castShort => cast .short
    | .castInt => cast .int
    | .castLong => cast .long
    | .castFloat => cast .float
    | .castDouble => cast .double
    | .equal => compare .eq
    | .less => compare .lt
    | .greater => compare .gt
    -- A connective keeps the number of its right operand, whatever truth value it stands for.
    | .and => do
      if (← l.toInt) = 0 then pure (.ofBool false) else return ⟨.boolean, .int (← r.toInt)⟩
    | .or => do
      if (← l.toInt) = 0 then return ⟨.boolean, .int (← r.toInt)⟩ else pure (.ofBool true)
    | .not => do return .ofBool ((← l.toInt) = 0)
    | .sequence | .block | .assign | .ifThen | .ifElse | .loop | .assert | .print | .multitask
    | .sleep => .nonsense

section Forms

variable {floats : Floats} {env : Env} {tag : Tag} {l r : Tree} {left right : Option Tree}

/-- A literal has the value that its text is read as; the variables do not matter, nor does what
hangs below it. -/
theorem eval_literal {raw : String} {constant : Constant} {type : OperandType}
    (hraw : tag.value = some raw) (h : tag.literal raw = .ok (constant, type)) :
    (Tree.node tag left right).eval floats env = some (.ok ⟨type, constant.toValue⟩) := by
  have hkind := isLiteral_of_literal h
  rw [eval.eq_def]
  cases hk : tag.kind <;> simp_all [Kind.isLiteral] <;> rfl

/-- **A variable has the value that it was assigned last.** Reading one that was not assigned ends
the run; it is not without meaning. -/
theorem eval_var {name : String} (hkind : tag.kind = .identifier) (hname : tag.value = some name) :
    (Tree.node tag left right).eval floats env =
      match env name with
      | some v => pure v
      | none => throw .unassigned := by
  rw [eval.eq_def]
  simp only [hkind, hname]

/-- Both operands are evaluated, the left one first, so that of two that end the run it is the left
one that does. -/
theorem eval_arith {op : ArithOp} (hkind : tag.kind.arithOp? = some op) :
    (Tree.node tag (some l) (some r)).eval floats env =
      (do TypedValue.arith floats op (← l.eval floats env) (← r.eval floats env)) := by
  rw [eval.eq_def]
  cases hk : tag.kind <;> simp_all [Kind.arithOp?]

/-- A cast has one operand; a right child is not looked at. -/
theorem eval_cast {target : OperandType} (hkind : tag.kind.castTarget? = some target) :
    (Tree.node tag (some l) right).eval floats env =
      (do TypedValue.cast floats target (← l.eval floats env)) := by
  rw [eval.eq_def]
  cases hk : tag.kind <;> simp_all [Kind.castTarget?]

theorem eval_compare {test : ZeroTest} (hkind : tag.kind.comparison? = some test) :
    (Tree.node tag (some l) (some r)).eval floats env =
      (do TypedValue.compare test (← l.eval floats env) (← r.eval floats env)) := by
  rw [eval.eq_def]
  cases hk : tag.kind <;> simp_all [Kind.comparison?]

/-- **A conjunction** has the value of its right operand if it gets that far. The number is kept as
it is, also if it is neither 0 nor 1. -/
theorem eval_and (hkind : tag.kind = .and) :
    (Tree.node tag (some l) (some r)).eval floats env =
      (do
        if (← (l.eval floats env).toInt) = 0 then pure (.ofBool false)
        else return ⟨.boolean, .int (← (r.eval floats env).toInt)⟩) := by
  rw [eval.eq_def]
  simp only [hkind]

/-- **A disjunction** evaluates its right operand only if the left one is 0, and then has its
value. -/
theorem eval_or (hkind : tag.kind = .or) :
    (Tree.node tag (some l) (some r)).eval floats env =
      (do
        if (← (l.eval floats env).toInt) = 0 then
          return ⟨.boolean, .int (← (r.eval floats env).toInt)⟩
        else pure (.ofBool true)) := by
  rw [eval.eq_def]
  simp only [hkind]

theorem eval_not (hkind : tag.kind = .not) :
    (Tree.node tag (some l) right).eval floats env =
      (do return .ofBool ((← (l.eval floats env).toInt) = 0)) := by
  rw [eval.eq_def]
  simp only [hkind]

end Forms

/-- The expression that a statement evaluates before anything else. -/
def operand? : Tree → Option Tree
  | .node tag left right =>
    match tag.kind with
    | .assign => right
    | .print | .assert | .sleep | .ifThen | .ifElse | .loop => left
    | _ => none

end Tree

/-! ### Statements -/

/-- **Evaluation of a statement**, which may be absent: from the variables before, with these
effects, to the variables after, or to an end of the run. -/
inductive Exec (floats : Floats) : Env → Option Tree → List Effect → Except Ending Env → Prop
  | absent {env} : Exec floats env none [] (.ok env)
  | sequence {env env₁ tag left right E₁ E₂ result} (hkind : tag.kind = .sequence)
      (h₁ : Exec floats env left E₁ (.ok env₁)) (h₂ : Exec floats env₁ right E₂ result) :
      Exec floats env (some (.node tag left right)) (E₁ ++ E₂) result
  | sequenceEnds {env tag left right E ending} (hkind : tag.kind = .sequence)
      (h₁ : Exec floats env left E (.error ending)) :
      Exec floats env (some (.node tag left right)) E (.error ending)
  | block {env tag left E result} (hkind : tag.kind = .block) (h : Exec floats env left E result) :
      Exec floats env (some (.node tag left none)) E result
  | assign {env tag target left right value name v} (hkind : tag.kind = .assign)
      (htarget : target.kind = .identifier) (hname : target.value = some name)
      (h : value.eval floats env = some (.ok v)) :
      Exec floats env (some (.node tag (some (.node target left right)) (some value))) []
        (.ok (env.set name v))
  | print {env tag value right v descriptor} (hkind : tag.kind = .print)
      (h : value.eval floats env = some (.ok v))
      (hprint : v.type.printDescriptor? = some descriptor) :
      Exec floats env (some (.node tag (some value) right)) [.println v.value descriptor] (.ok env)
  | assert {env tag condition right n} (hkind : tag.kind = .assert)
      (h : (condition.eval floats env).toInt = some (.ok n)) (hn : n ≠ 0) :
      Exec floats env (some (.node tag (some condition) right)) [] (.ok env)
  | assertFails {env tag condition right} (hkind : tag.kind = .assert)
      (h : (condition.eval floats env).toInt = some (.ok 0)) :
      Exec floats env (some (.node tag (some condition) right)) [] (.error .assertionError)
  | sleep {env tag duration right n} (hkind : tag.kind = .sleep)
      (h : (duration.eval floats env).toInt = some (.ok n)) :
      Exec floats env (some (.node tag (some duration) right)) [.sleep n.toInt64] (.ok env)
  | ifThen {env tag condition branch n E result} (hkind : tag.kind = .ifThen)
      (h : (condition.eval floats env).toInt = some (.ok n)) (hn : n ≠ 0)
      (hb : Exec floats env (some branch) E result) :
      Exec floats env (some (.node tag (some condition) (some branch))) E result
  | ifSkips {env tag condition branch} (hkind : tag.kind = .ifThen)
      (h : (condition.eval floats env).toInt = some (.ok 0)) :
      Exec floats env (some (.node tag (some condition) (some branch))) [] (.ok env)
  | ifElse {env tag condition inner thenBranch elseBranch n E result} (hkind : tag.kind = .ifElse)
      (hinner : inner.kind = .sequence) (h : (condition.eval floats env).toInt = some (.ok n))
      (hb : Exec floats env (some (if n = 0 then elseBranch else thenBranch)) E result) :
      Exec floats env
        (some (.node tag (some condition)
          (some (.node inner (some thenBranch) (some elseBranch))))) E result
  | loopDone {env tag condition body} (hkind : tag.kind = .loop)
      (h : (condition.eval floats env).toInt = some (.ok 0)) :
      Exec floats env (some (.node tag (some condition) (some body))) [] (.ok env)
  | loopTurn {env env₁ tag condition body n E₁ E₂ result} (hkind : tag.kind = .loop)
      (h : (condition.eval floats env).toInt = some (.ok n)) (hn : n ≠ 0)
      (hb : Exec floats env (some body) E₁ (.ok env₁))
      (hl : Exec floats env₁ (some (.node tag (some condition) (some body))) E₂ result) :
      Exec floats env (some (.node tag (some condition) (some body))) (E₁ ++ E₂) result
  | loopEnds {env tag condition body n E ending} (hkind : tag.kind = .loop)
      (h : (condition.eval floats env).toInt = some (.ok n)) (hn : n ≠ 0)
      (hb : Exec floats env (some body) E (.error ending)) :
      Exec floats env (some (.node tag (some condition) (some body))) E (.error ending)
  | spawn {env tag left right name} (hkind : tag.kind = .multitask)
      (hname : tag.value = some name) :
      Exec floats env (some (.node tag left right)) [.spawn name] (.ok env)
  | operandEnds {env t operand ending} (hoperand : t.operand? = some operand)
      (h : operand.eval floats env = some (.error ending)) :
      Exec floats env (some t) [] (.error ending)

/-- How a run ends whose statements have this result: one that goes through returns. -/
def Ending.ofResult : Except Ending Env → Ending
  | .ok _ => .returned
  | .error ending => ending

/-- **A program evaluates**, from no variable assigned: it shows these effects and ends
so. -/
def Tree.Evaluates (floats : Floats) (t : Tree) (effects : List Effect) (ending : Ending) : Prop :=
  ∃ result, Exec floats .empty (some t) effects result ∧ .ofResult result = ending

end StackUnits
