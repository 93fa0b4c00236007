import StackUnits.Proofs.Acceptance
import StackUnits.Proofs.Delivery

/-!
# What comparisons and connectives leave

The machine tests a number against zero, and has no other test. A comparison is therefore made of a
subtraction and a test of the difference, and the difference is one in 32 bits. As long as it fits
there, the test has the sign of the true difference. If it does not, the sign is the opposite one,
and `less` and `greater` both say the opposite of what they ask (`StackUnits.Kind.verdict`); only
equality is always told right.

A connective, too, tests its left operand only. Where the right one decides, its number is what is
left, and not the truth value that it stands for. So what is left by a chain of connectives is 0 or
1 unless the operand at the end of the chain decides, and it is some number then
(`StackUnits.Tree.deciding?`).

Both are facts about the code that an expression adds to a context, wherever that code stands in a
unit: `StackUnits.comparison_leaves`, `StackUnits.operator_leaves`.
-/

namespace StackUnits

open Machine

/-! ### Differences in 32 bits -/

/-- The difference of two numbers is a number of 32 bits. -/
def DifferenceFits (a b : Int32) : Prop :=
  Int32.minValue.toInt ≤ a.toInt - b.toInt ∧ a.toInt - b.toInt ≤ Int32.maxValue.toInt

instance (a b : Int32) : Decidable (DifferenceFits a b) :=
  inferInstanceAs (Decidable (_ ∧ _))

theorem differenceFits_iff {a b : Int32} :
    DifferenceFits a b ↔ -2147483648 ≤ a.toInt - b.toInt ∧ a.toInt - b.toInt ≤ 2147483647 :=
  Iff.rfl

/-- A difference that fits is the true one, so that its sign is the answer. -/
theorem DifferenceFits.toInt_sub {a b : Int32} (h : DifferenceFits a b) :
    (a - b).toInt = a.toInt - b.toInt := by
  obtain ⟨hlower, hupper⟩ := differenceFits_iff.1 h
  rw [Int32.toInt_sub]
  exact Int.bmod_eq_of_le (by omega) (by omega)

/-- **A difference that does not fit has the wrong sign**: it is off by `2 ^ 32`. It is never zero,
so that a test for equality is not misled. -/
theorem sign_of_not_fits {a b : Int32} (h : ¬DifferenceFits a b) :
    a.toInt < b.toInt ∧ 0 < (a - b).toInt ∨ b.toInt < a.toInt ∧ (a - b).toInt < 0 := by
  have hal := a.le_toInt
  have hau := a.toInt_lt
  have hbl := b.le_toInt
  have hbu := b.toInt_lt
  rw [differenceFits_iff] at h
  rw [Int32.toInt_sub, Int.bmod_def]
  split <;> omega

namespace Kind

/-- **What a comparison asks** of two numbers. -/
def relates : Kind → Int → Int → Bool
  | equal, a, b => a = b
  | less, a, b => a < b
  | greater, a, b => b < a
  | _, _, _ => false

/-- **What a comparison answers**: what it asks, but the other way round if it is one of order and
the difference does not fit. -/
def verdict (kind : Kind) (a b : Int32) : Bool :=
  if kind = equal ∨ DifferenceFits a b then kind.relates a.toInt b.toInt
  else kind.relates b.toInt a.toInt

/-- **The test of the difference** gives the answer of the comparison: the right one, if the
difference fits, and the opposite one between numbers too far apart. -/
theorem holds_sub {kind : Kind} {test : ZeroTest} (h : kind.comparison? = some test)
    (a b : Int32) : test.holds (a - b).toInt = kind.verdict a b := by
  rw [verdict, Bool.eq_iff_iff]
  by_cases hfits : DifferenceFits a b
  · rw [if_pos (.inr hfits), hfits.toInt_sub]
    cases kind <;> cases h <;>
      simp only [ZeroTest.holds, relates, beq_iff_eq, decide_eq_true_eq] <;> omega
  · have hsign := sign_of_not_fits hfits
    cases kind <;> cases h <;>
      simp only [ZeroTest.holds, relates, hfits, beq_iff_eq, decide_eq_true_eq, or_false, if_true,
        if_false, reduceCtorEq] <;> omega

end Kind

/-! ### Evaluations that come to a number -/

/-- An evaluation in two steps has a value if both have. -/
theorem Eval.bind_eq_ok {α β : Type} {x : Eval α} {f : α → Eval β} {b : β} :
    (x >>= f) = some (.ok b) ↔ ∃ a, x = some (.ok a) ∧ f a = some (.ok b) := by
  constructor
  · intro h
    rcases x with _ | _ | a
    · cases h
    · cases h
    · exact ⟨a, rfl, h⟩
  · rintro ⟨a, rfl, h⟩
    exact h

theorem Eval.toInt_eq_ok {result : Eval TypedValue} {n : Int32} :
    result.toInt = some (.ok n) ↔ ∃ v, result = some (.ok v) ∧ v.toInt = some (.ok n) :=
  bind_eq_ok

section Values

variable {floats : Floats} {env : Env} {tag : Tag} {t l r : Tree} {v : TypedValue}

/-- **A comparison of two numbers** that has a meaning has its verdict as a value. It has none if
the types of its operands are different. -/
theorem Tree.eval_verdict {test : ZeroTest} {a b : Int32} (hkind : tag.kind.comparison? = some test)
    (ha : (l.eval floats env).toInt = some (.ok a)) (hb : (r.eval floats env).toInt = some (.ok b))
    (hsome : (node tag (some l) (some r)).eval floats env ≠ none) :
    (node tag (some l) (some r)).eval floats env = some (.ok (.ofBool (tag.kind.verdict a b))) := by
  obtain ⟨va, hva, ha⟩ := Eval.toInt_eq_ok.1 ha
  obtain ⟨vb, hvb, hb⟩ := Eval.toInt_eq_ok.1 hb
  have heval : (node tag (some l) (some r)).eval floats env = va.compare test vb := by
    rw [eval_compare hkind, hva, hvb]
    rfl
  by_cases htypes : va.type = vb.type
  · rw [heval, TypedValue.compare_eq ha hb htypes, Kind.holds_sub hkind]
  · have hnone : va.compare test vb = none := by
      rw [TypedValue.compare, ha, hb]
      exact if_neg htypes
    exact absurd (heval.trans hnone) hsome

/-! ### The operand that decides -/

/-- **The operand that decides** a chain of connectives: the last one, unless it is a negation or a
comparison, which has a truth value of its own. -/
def Tree.deciding? : Tree → Option Tree
  | .node tag _ right =>
    match tag.kind, right with
    | .and, some r | .or, some r => if r.kind.isBooleanOperator then r.deciding? else some r
    | _, _ => none

/-- A number is a truth value, or that of the operand that decides. -/
def Tree.MayLeave (floats : Floats) (env : Env) (t : Tree) (n : Int32) : Prop :=
  n = 0 ∨ n = 1 ∨ ∃ d, t.deciding? = some d ∧ (d.eval floats env).toInt = some (.ok n)

namespace Tree

theorem MayLeave.ofBool (b : Bool) : t.MayLeave floats env (if b then 1 else 0) := by
  cases b with
  | false => exact .inl rfl
  | true => exact .inr (.inl rfl)

/-- What is left by a connective that its right operand decides. If that is a boolean operator
itself, the number is one that it may leave. -/
theorem MayLeave.connective {left : Option Tree} {n : Int32}
    (hkind : tag.kind = .and ∨ tag.kind = .or) (hn : (r.eval floats env).toInt = some (.ok n))
    (h : ∀ {v}, r.kind.isBooleanOperator = true → r.eval floats env = some (.ok v) →
      ∃ n, v = ⟨.boolean, .int n⟩ ∧ r.MayLeave floats env n) :
    (node tag left (some r)).MayLeave floats env n := by
  have hdeciding : (node tag left (some r)).deciding? =
      if r.kind.isBooleanOperator then r.deciding? else some r := by
    rw [deciding?.eq_def]
    rcases hkind with hkind | hkind <;> simp only [hkind]
  rw [MayLeave, hdeciding]
  by_cases hr : r.kind.isBooleanOperator
  · rw [if_pos hr]
    obtain ⟨v, hv, htoInt⟩ := Eval.toInt_eq_ok.1 hn
    obtain ⟨m, rfl, hleave⟩ := h hr hv
    cases htoInt
    exact hleave
  · rw [if_neg hr]
    exact .inr (.inr ⟨r, rfl, hn⟩)

/-- A comparison has a truth value. -/
theorem exists_of_compare {test : ZeroTest} {a b : TypedValue}
    (h : a.compare test b = some (.ok v)) : ∃ c, v = .ofBool c := by
  obtain ⟨m, -, h⟩ := Eval.bind_eq_ok.1 h
  obtain ⟨n, -, h⟩ := Eval.bind_eq_ok.1 h
  by_cases htypes : a.type = b.type
  · cases (if_pos htypes).symm.trans h
    exact ⟨_, rfl⟩
  · cases (if_neg htypes).symm.trans h

/-- A connective has a constant or the number of its second operand as a value. One statement serves
both connectives, which differ in the test and in the constant. -/
theorem number_of_connective {first second : Eval Int32} {p : Int32 → Prop} [DecidablePred p]
    {c : Int32}
    (h : (do
      if p (← first) then pure ⟨.boolean, .int c⟩
      else return ⟨.boolean, .int (← second)⟩ : Eval TypedValue) = some (.ok v)) :
    v = ⟨.boolean, .int c⟩ ∨ ∃ n, second = some (.ok n) ∧ v = ⟨.boolean, .int n⟩ := by
  obtain ⟨m, -, h⟩ := Eval.bind_eq_ok.1 h
  by_cases hm : p m
  · cases (if_pos hm).symm.trans h
    exact .inl rfl
  · obtain ⟨n, hn, hv⟩ := Eval.bind_eq_ok.1 ((if_neg hm).symm.trans h)
    cases hv
    exact .inr ⟨n, hn, rfl⟩

/-- **The value of a boolean operator** is a number that it may leave. By induction on the typing,
as a connective may have connectives as its operands. -/
theorem HasType.mayLeave_of_eval {Γ : TypeEnv} {type : OperandType} (h : t.HasType Γ type)
    (hkind : t.kind.isBooleanOperator = true) (heval : t.eval floats env = some (.ok v)) :
    ∃ n, v = ⟨.boolean, .int n⟩ ∧ t.MayLeave floats env n := by
  -- On the type: along the right operands, which are what a connective may leave.
  induction h generalizing v with
  | @literal tag _ _ _ _ _ _ hliteral =>
    have hnot := isLiteral_of_literal hliteral
    change tag.kind.isBooleanOperator = true at hkind
    cases hk : tag.kind <;> rw [hk] at hkind hnot <;> cases hkind <;> cases hnot
  | @var tag _ _ _ _ hid =>
    change tag.kind.isBooleanOperator = true at hkind
    rw [hid] at hkind
    cases hkind
  | @arith tag _ _ _ _ _ hop =>
    change tag.kind.isBooleanOperator = true at hkind
    cases hk : tag.kind <;> rw [hk] at hkind hop <;> cases hkind <;> cases hop
  | @cast tag _ _ _ _ _ htarget =>
    change tag.kind.isBooleanOperator = true at hkind
    cases hk : tag.kind <;> rw [hk] at hkind htarget <;> cases hkind <;> cases htarget
  | @and tag l r _ _ hand _ _ _ _ _ ih =>
    rw [eval_and hand] at heval
    rcases number_of_connective heval with rfl | ⟨n, hn, rfl⟩
    · exact ⟨0, rfl, .inl rfl⟩
    · exact ⟨n, rfl, .connective (.inl hand) hn ih⟩
  | @or tag l r _ _ hor _ _ _ _ _ ih =>
    have heq : (node tag (some l) (some r)).eval floats env = (do
        if (← (l.eval floats env).toInt) ≠ 0 then pure ⟨.boolean, .int 1⟩
        else return ⟨.boolean, .int (← (r.eval floats env).toInt)⟩) := by
      simp only [eval_or hor, ne_eq, ite_not]
      rfl
    rcases number_of_connective (heq.symm.trans heval) with rfl | ⟨n, hn, rfl⟩
    · exact ⟨1, rfl, .inr (.inl rfl)⟩
    · exact ⟨n, rfl, .connective (.inr hor) hn ih⟩
  | not hnot =>
    rw [eval_not hnot] at heval
    obtain ⟨n, -, hv⟩ := Eval.bind_eq_ok.1 heval
    cases hv
    exact ⟨_, rfl, .ofBool _⟩
  | compare hcompare =>
    rw [eval_compare hcompare] at heval
    obtain ⟨a, -, heval⟩ := Eval.bind_eq_ok.1 heval
    obtain ⟨b, -, heval⟩ := Eval.bind_eq_ok.1 heval
    obtain ⟨c, rfl⟩ := exists_of_compare heval
    exact ⟨_, rfl, .ofBool c⟩

end Tree

end Values

/-! ### The code that an expression adds to a context -/

section Running

variable {floats : Floats} {unit : CodeUnit} {cx cx' : Context} {tag : Tag} {t l r : Tree}
  {type : OperandType} {env : Env} {locals : Locals} {code : List Instruction} {pc : Nat}

theorem Delivers.eval_ne_none {s : State} (h : Delivers floats unit t env type s pc) :
    t.eval floats env ≠ none := by
  cases h with
  | value heval | ends heval =>
    rw [heval]
    rintro ⟨⟩

/-- **What an expression adds to a context is code that delivers it**, wherever it stands. So the
compiler may be run in a context that has nothing to do with the unit in which the code is. -/
theorem Expr.delivers_of_compile (hcx : cx.Ordinary)
    (hcompile : t.toExpr.compile cx = .ok () cx') :
    ∃ code type, cx'.code.instructions = cx.code.instructions ++ code ∧
      t.HasType cx.symbols.typeOf type ∧
      ∀ (floats : Floats) {unit pc env locals}, unit.checkLabels = .ok () → unit.HasAt pc code →
        Agrees cx.symbols env locals → ∀ stack heap,
          Delivers floats unit t env type ⟨pc, stack, locals, heap⟩ (pc + code.length) := by
  obtain ⟨code, type, k, hcode, harrives⟩ := compile_sound hcx.stands hcompile
  exact ⟨code, type, harrives.wrote.instructions, hcode.hasType rfl,
    fun floats _ _ _ _ hlabels hat hagrees =>
      hcode.delivers rfl hlabels hat (fun _ _ h => h) hagrees⟩

theorem Context.ordinary_bare : (Context.starting .bare "Main" .program).Ordinary :=
  (At.starting (Session.At.forget .bare) "Main" .program).ordinary (SymbolTable.tidy_fresh [])

/-- A unit that is nothing but a piece of code. -/
def CodeUnit.ofCode (code : List Instruction) : CodeUnit where
  name := "Main"
  kind := .program
  instructions := code

theorem CodeUnit.hasAt_ofCode (code : List Instruction) : (CodeUnit.ofCode code).HasAt 0 code :=
  ⟨[], [], (List.append_nil code).symm, rfl⟩

/-- **The code of an expression without variables**, run on its own. Fixed expressions are computed
in this way, with whatever floating-point numbers there are. -/
theorem Expr.HasCode.exists_reaches {t : Tree} {code : List Instruction} {type : OperandType}
    {k : Nat} {v : TypedValue} (h : t.toExpr.HasCode (.enterScope {}) 0 code type k)
    (hlabels : (CodeUnit.ofCode code).checkLabels = .ok ())
    (heval : ∀ floats, t.eval floats .empty = some (.ok v)) :
    ∃ cx', t.toExpr.compile (.starting .bare "Main" .program) = .ok () cx' ∧
      cx'.code.instructions = code ∧
      ∀ floats, Reaches floats (.ofCode code) .start []
        ⟨code.length, [v.value], fun _ => none, .empty⟩ := by
  obtain ⟨cx', hcompile, harrives⟩ := Expr.compile_complete h
    (Context.At.starting (Session.At.forget .bare) "Main" .program) rfl rfl
  refine ⟨cx', hcompile, harrives.wrote.instructions, fun floats => ?_⟩
  have hdelivered : Delivers floats (.ofCode code) t .empty type .start (0 + code.length) :=
    h.delivers rfl hlabels (CodeUnit.hasAt_ofCode code) (fun _ _ h => h) (.empty _) [] .empty
  rw [Nat.zero_add] at hdelivered
  exact (hdelivered.reaches_of_eval (heval floats)).2.2

/-! ### Comparisons -/

/-- **Comparisons compare, up to differences that do not fit.** Two operands of one type of the int
category can be compared; and the code of the comparison leaves 1 if its answer is yes, and 0 if it
is no, whatever numbers the operands have as values.

The answer is that of `Kind.verdict`, which is the true one as long as the difference of the numbers
has 32 bits. It is stated for code that stands anywhere in a unit, above any stack. -/
theorem comparison_leaves (hcx : cx.Ordinary)
    (hkind : tag.kind = .equal ∨ tag.kind = .less ∨ tag.kind = .greater)
    (hl : l.HasType cx.symbols.typeOf type) (hr : r.HasType cx.symbols.typeOf type)
    (htype : type.isIntCategory = true) :
    ∃ code cx', (Tree.node tag (some l) (some r)).toExpr.compile cx = .ok () cx' ∧
      cx'.code.instructions = cx.code.instructions ++ code ∧
      ∀ (floats : Floats) {unit pc env locals} {a b : Int32}, unit.checkLabels = .ok () →
        unit.HasAt pc code → Agrees cx.symbols env locals →
        (l.eval floats env).toInt = some (.ok a) → (r.eval floats env).toInt = some (.ok b) →
        ∀ stack heap, Reaches floats unit ⟨pc, stack, locals, heap⟩ []
          ⟨pc + code.length, .int (if tag.kind.verdict a b then 1 else 0) :: stack, locals,
            heap⟩ := by
  obtain ⟨test, htest⟩ : ∃ test, tag.kind.comparison? = some test := by
    rcases hkind with h | h | h <;> exact ⟨_, congrArg Kind.comparison? h⟩
  obtain ⟨cx', hcompile, -⟩ := (Expr.compile_iff_hasType hcx).2 (.compare htest hl hr htype)
  obtain ⟨code, _, hcode, -, hdelivers⟩ := Expr.delivers_of_compile hcx hcompile
  refine ⟨code, cx', hcompile, hcode, ?_⟩
  intro floats unit pc env locals a b hlabels hat hagrees ha hb stack heap
  have hdelivered := hdelivers floats hlabels hat hagrees stack heap
  have heval := Tree.eval_verdict htest ha hb hdelivered.eval_ne_none
  exact (hdelivered.reaches_of_eval heval).2.2

/-- Whether 3 is less than 2 + 4. -/
def Tree.threeLessSum : Tree :=
  .binary .less (.ofInteger "3") (.binary .add (.ofInteger "2") (.ofInteger "4"))

theorem comparison_leaves_three :
    ∃ cx', Tree.threeLessSum.toExpr.compile (.starting .bare "Main" .program) = .ok () cx' ∧
      (∀ floats, Reaches floats (.ofCode cx'.code.instructions) .start []
        ⟨cx'.code.instructions.length, [.int 1], fun _ => none, .empty⟩) ∧
      Kind.less.relates 3 6 = true := by
  have hkind : (Tag.mk .less none).kind = .equal ∨ (Tag.mk .less none).kind = .less ∨
      (Tag.mk .less none).kind = .greater := .inr (.inl rfl)
  have hleft : (Tree.ofInteger "3").HasType
      (Context.starting .bare "Main" .program).symbols.typeOf .int := .literal rfl rfl
  have hright : (Tree.binary .add (.ofInteger "2") (.ofInteger "4")).HasType
      (Context.starting .bare "Main" .program).symbols.typeOf .int :=
    .arith rfl (.literal rfl rfl) (.literal rfl rfl) rfl
  obtain ⟨code, cx', hcompile, hcode, hleaves⟩ :=
    comparison_leaves Context.ordinary_bare hkind hleft hright rfl
  have hhas : Tree.threeLessSum.toExpr.HasCode (.enterScope {}) 0
      (Code.choice 0 .ge [.push (.int 3), .push (.int 2), .push (.int 4), .arith .add .int,
        .arith .sub .int] [.push (.int 1)] [.push (.int 0)]) .boolean 2 :=
    .compare .literal (.arith .literal .literal rfl) rfl
  obtain ⟨cx'', hcompile', hcode', -⟩ :=
    hhas.exists_reaches rfl (v := ⟨.boolean, .int 1⟩) fun _ => rfl
  cases hcompile.symm.trans hcompile'
  obtain rfl : cx'.code.instructions = code := hcode
  refine ⟨cx', hcompile, fun floats => ?_, rfl⟩
  rw [hcode'] at hleaves ⊢
  exact hleaves floats rfl (CodeUnit.hasAt_ofCode _) (.empty _) rfl rfl [] .empty

/-- Whether the greatest number is less than -1. -/
def Tree.farApart : Tree :=
  .binary .less (.ofInteger "2147483647") (.ofInteger "-1")

/-- **The greatest number is found to be less than -1**: their difference does not fit. Both are
numbers of 32 bits, so the exception cannot be left out. -/
theorem leaves_one_farApart :
    ∃ cx', Tree.farApart.toExpr.compile (.starting .bare "Main" .program) = .ok () cx' ∧
      (∀ floats, (Tree.ofInteger "2147483647").eval floats .empty =
          some (.ok ⟨.int, .int 2147483647⟩) ∧
        (Tree.ofInteger "-1").eval floats .empty = some (.ok ⟨.int, .int (-1)⟩) ∧
        Reaches floats (.ofCode cx'.code.instructions) .start []
          ⟨cx'.code.instructions.length, [.int 1], fun _ => none, .empty⟩) ∧
      Kind.less.relates 2147483647 (-1) = false := by
  have hhas : Tree.farApart.toExpr.HasCode (.enterScope {}) 0
      (Code.choice 0 .ge [.push (.int 2147483647), .push (.int (-1)), .arith .sub .int]
        [.push (.int 1)] [.push (.int 0)]) .boolean 2 := .compare .literal .literal rfl
  obtain ⟨cx', hcompile, hcode, hreaches⟩ :=
    hhas.exists_reaches rfl (v := ⟨.boolean, .int 1⟩) fun _ => rfl
  rw [← hcode] at hreaches
  exact ⟨cx', hcompile, fun floats => ⟨rfl, rfl, hreaches floats⟩, rfl⟩

/-! ### Boolean operators -/

/-- **What boolean operators leave.** Any run of the code of a boolean operator that comes to the
end of it has there, on top of the stack, the number that the operator has as a value: 0 or 1, or
the number of the operand that decides.

Nothing is said about runs that do not come to the end, such as one that divides by zero on the
way. -/
theorem operator_leaves (hcx : cx.Ordinary) (hkind : t.kind.isBooleanOperator = true)
    (hcompile : t.toExpr.compile cx = .ok () cx')
    (hcode : cx'.code.instructions = cx.code.instructions ++ code) {before : List Instruction}
    (hunit : unit.instructions = before ++ code) (hlabels : unit.checkLabels = .ok ())
    (hagrees : Agrees cx.symbols env locals) {stack : List Value} {heap : Heap} {steps : Nat}
    {effects : List Effect} {s : State}
    (hrun : Leads floats unit steps ⟨before.length, stack, locals, heap⟩ effects (.ok s))
    (hend : s.pc = before.length + code.length) :
    ∃ n, effects = [] ∧ s = ⟨before.length + code.length, .int n :: stack, locals, heap⟩ ∧
      t.eval floats env = some (.ok ⟨.boolean, .int n⟩) ∧ t.MayLeave floats env n := by
  obtain ⟨added, type, hadded, htype, hdelivers⟩ := Expr.delivers_of_compile hcx hcompile
  obtain rfl : code = added := List.append_cancel_left (hcode.symm.trans hadded)
  have hat : unit.HasAt before.length code := ⟨before, [], by rw [hunit, List.append_nil], rfl⟩
  -- There is nothing after the code, so a run that comes to its end stays there.
  have hlength : unit.instructions.length = before.length + code.length := by
    rw [hunit, List.length_append]
  have hstuck : step floats unit s = .stuck := step_eq_stuck (by omega)
  cases hdelivers floats hlabels hat hagrees stack heap with
  | ends _ hends =>
    obtain ⟨n, hends⟩ := hends
    exact absurd hends (hrun.not_ends hstuck)
  | value heval _ _ hreaches =>
    obtain ⟨n, hreaches⟩ := hreaches
    obtain ⟨heffects, heq⟩ :=
      hrun.eq_of_stuck hstuck hreaches (step_eq_stuck (Nat.le_of_eq hlength))
    obtain ⟨n, rfl, hleave⟩ := htype.mayLeave_of_eval hkind heval
    exact ⟨n, heffects, heq, heval, hleave⟩

/-- A chain of connectives with a number at its end. -/
def Tree.endsInFive : Tree :=
  .binary .or (.ofInteger "0") (.binary .and (.ofInteger "7") (.ofInteger "5"))

theorem operator_leaves_endsInFive :
    ∃ cx', Tree.endsInFive.toExpr.compile (.starting .bare "Main" .program) = .ok () cx' ∧
      ∀ floats, Reaches floats (.ofCode cx'.code.instructions) .start []
          ⟨cx'.code.instructions.length, [.int 5], fun _ => none, .empty⟩ ∧
        Tree.endsInFive.MayLeave floats .empty 5 := by
  have hhas : Tree.endsInFive.toExpr.HasCode (.enterScope {}) 0
      (Code.choice 0 .ne [.push (.int 0)]
        (Code.choice 2 .eq [.push (.int 7)] [.push (.int 5)] [.push (.int 0)])
        [.push (.int 1)]) .boolean 4 := .or .literal rfl (.and .literal rfl .literal rfl) rfl
  obtain ⟨cx', hcompile, hcode, hreaches⟩ :=
    hhas.exists_reaches rfl (v := ⟨.boolean, .int 5⟩) fun _ => rfl
  have hunit : (CodeUnit.ofCode cx'.code.instructions).instructions =
      [] ++ cx'.code.instructions := rfl
  refine ⟨cx', hcompile, fun floats => ?_⟩
  rw [hcode] at hunit ⊢
  obtain ⟨steps, hrun⟩ := hreaches floats
  obtain ⟨n, -, hs, -, hleave⟩ := operator_leaves Context.ordinary_bare rfl hcompile hcode hunit rfl
    (.empty _) hrun (Nat.zero_add _).symm
  cases congrArg State.stack hs
  exact ⟨⟨steps, hrun⟩, hleave⟩

/-- The conjunction of 1 and 5. -/
def Tree.oneAndFive : Tree :=
  .binary .and (.ofInteger "1") (.ofInteger "5")

/-- **A conjunction leaves the number of its second operand**, which need not be a truth value: here
it is 5. -/
theorem leaves_five_oneAndFive :
    ∃ cx', Tree.oneAndFive.toExpr.compile (.starting .bare "Main" .program) = .ok () cx' ∧
      ∀ floats, Reaches floats (.ofCode cx'.code.instructions) .start []
        ⟨cx'.code.instructions.length, [.int 5], fun _ => none, .empty⟩ := by
  have hhas : Tree.oneAndFive.toExpr.HasCode (.enterScope {}) 0
      (Code.choice 0 .eq [.push (.int 1)] [.push (.int 5)] [.push (.int 0)]) .boolean 2 :=
    .and .literal rfl .literal rfl
  obtain ⟨cx', hcompile, hcode, hreaches⟩ :=
    hhas.exists_reaches rfl (v := ⟨.boolean, .int 5⟩) fun _ => rfl
  rw [← hcode] at hreaches
  exact ⟨cx', hcompile, hreaches⟩

end Running

end StackUnits
