import StackUnits.Program.Reading

/-!
# The forms of a program, seen from the tree

Reading a tree as a program goes through the kinds one by one. What is said about
programs, on the other hand, is said form by form: an arithmetic node has an operation
and two operands, whichever of the five kinds it is. This file goes over the kinds once
and for all.

`StackUnits.Tree.ReadsExpr` and `StackUnits.Tree.ReadsStmt` relate a tree to the form it is
read as, with one rule for each form; `StackUnits.Tree.readsExpr_iff` and
`StackUnits.Tree.readsStmt_iff` say that they are the reading itself. A proof about all
trees is then a case analysis over the forms, never over the kinds.

At the end is what is needed to compare two trees: if a relation holds between any two
faults and is kept by a form, then it holds between what two nodes of that form are read
as, whichever of their parts are missing (`StackUnits.Stmt.ofIf_rel` and the others).
-/

namespace StackUnits

namespace Kind

/-- The operation of an arithmetic node. -/
def arithOp? : Kind → Option ArithOp
  | add => some .add
  | subtract => some .sub
  | multiply => some .mul
  | divide => some .div
  | modulo => some .rem
  | _ => none

/-- The type that a cast leads to. -/
def castTarget? : Kind → Option OperandType
  | castChar => some .char
  | castByte => some .byte
  | castShort => some .short
  | castInt => some .int
  | castLong => some .long
  | castFloat => some .float
  | castDouble => some .double
  | _ => none

/-- The test against zero that a comparison makes of the difference of its operands. -/
def comparison? : Kind → Option ZeroTest
  | equal => some .eq
  | less => some .lt
  | greater => some .gt
  | _ => none

end Kind

namespace Tree

/-! ### Expressions -/

/-- **The form of an expression**, at its root and below. -/
inductive ReadsExpr : Tree → Expr → Prop
  | fault {t tag error} (h : t.toExpr = .fault tag error) : ReadsExpr t (.fault tag error)
  | literal {tag left right raw constant type} (hraw : tag.value = some raw)
      (h : tag.literal raw = .ok (constant, type)) :
      ReadsExpr (.node tag left right) (.literal tag constant type)
  | var {tag left right name} (hkind : tag.kind = .identifier) (hname : tag.value = some name) :
      ReadsExpr (.node tag left right) (.var tag name)
  | arith {tag op l r} (hkind : tag.kind.arithOp? = some op) :
      ReadsExpr (.node tag (some l) (some r)) (.arith tag op l.toExpr r.toExpr)
  | cast {tag target l right} (hkind : tag.kind.castTarget? = some target) :
      ReadsExpr (.node tag (some l) right) (.cast tag target l.toExpr)
  | and {tag l r} (hkind : tag.kind = .and) :
      ReadsExpr (.node tag (some l) (some r)) (.and tag l.toExpr r.toExpr)
  | or {tag l r} (hkind : tag.kind = .or) :
      ReadsExpr (.node tag (some l) (some r)) (.or tag l.toExpr r.toExpr)
  | not {tag l right} (hkind : tag.kind = .not) :
      ReadsExpr (.node tag (some l) right) (.not tag l.toExpr)
  | compare {tag test l r} (hkind : tag.kind.comparison? = some test) :
      ReadsExpr (.node tag (some l) (some r)) (.compare tag test l.toExpr r.toExpr)

/-- A node is read from its tag and from what its children are read as. -/
theorem toExpr_node (tag : Tag) (left right : Option Tree) :
    (Tree.node tag left right).toExpr = Expr.ofParts tag (left.map toExpr) (right.map toExpr) := by
  cases left <;> cases right <;> rfl

theorem readsExpr_fault {t : Tree} {e : Expr} {tag : Tag} {error : CompileError}
    (he : t.toExpr = e) (h : .fault tag error = e) : ReadsExpr t e := by
  subst h
  exact .fault he

/-- A node with two operands is read as it says, or else as a fault: one of the operands is
missing. -/
theorem readsExpr_ofOperands {tag : Tag} {left right : Option Tree} {make : Expr → Expr → Expr}
    {e : Expr} (he : (Tree.node tag left right).toExpr = e)
    (hparts : Expr.ofOperands tag make (left.map toExpr) (right.map toExpr) = e)
    (h : ∀ l r, left = some l → right = some r →
      ReadsExpr (.node tag left right) (make l.toExpr r.toExpr)) :
    ReadsExpr (.node tag left right) e := by
  subst hparts
  rcases left with _ | l
  · exact .fault he
  · rcases right with _ | r
    · exact .fault he
    · exact h l r rfl rfl

/-- A node with one operand is read as it says, or else as a fault. -/
theorem readsExpr_ofOperand {tag : Tag} {left right : Option Tree} {missing : Malformation}
    {make : Expr → Expr} {e : Expr} (he : (Tree.node tag left right).toExpr = e)
    (hparts : Expr.ofOperand tag missing make (left.map toExpr) = e)
    (h : ∀ l, left = some l → ReadsExpr (.node tag left right) (make l.toExpr)) :
    ReadsExpr (.node tag left right) e := by
  subst hparts
  rcases left with _ | l
  · exact .fault he
  · exact h l rfl

/-- **Every reading has a form**, of expressions. This is the one place where the kinds are gone
through for it. -/
theorem readsExpr_of_eq {t : Tree} {e : Expr} (he : t.toExpr = e) : ReadsExpr t e := by
  obtain ⟨tag, left, right⟩ := t
  have hparts := he
  rw [toExpr_node, Expr.ofParts] at hparts
  cases hkind : tag.kind
  all_goals simp only [hkind] at hparts
  case identifier =>
    rw [Expr.ofIdentifier] at hparts
    rcases hname : tag.value with _ | name
    · simp only [hname] at hparts
      exact readsExpr_fault he hparts
    · simp only [hname] at hparts
      subst hparts
      exact .var hkind hname
  case literalBoolean | literalCharacter | literalInteger | literalFloat | literalString =>
    rw [Expr.ofLiteral] at hparts
    rcases hraw : tag.value with _ | raw
    · simp only [hraw] at hparts
      exact readsExpr_fault he hparts
    · rcases hliteral : tag.literal raw with error | ⟨constant, type⟩
      · simp only [hraw, hliteral] at hparts
        exact readsExpr_fault he hparts
      · simp only [hraw, hliteral] at hparts
        subst hparts
        exact .literal hraw hliteral
  case add | subtract | multiply | divide | modulo =>
    refine readsExpr_ofOperands he hparts fun l r hl hr => ?_
    subst hl hr
    exact .arith (by rw [hkind]; rfl)
  case castChar | castByte | castShort | castInt | castLong | castFloat | castDouble =>
    refine readsExpr_ofOperand he hparts fun l hl => ?_
    subst hl
    exact .cast (by rw [hkind]; rfl)
  case equal | less | greater =>
    refine readsExpr_ofOperands he hparts fun l r hl hr => ?_
    subst hl hr
    exact .compare (by rw [hkind]; rfl)
  case and =>
    refine readsExpr_ofOperands he hparts fun l r hl hr => ?_
    subst hl hr
    exact .and hkind
  case or =>
    refine readsExpr_ofOperands he hparts fun l r hl hr => ?_
    subst hl hr
    exact .or hkind
  case not =>
    refine readsExpr_ofOperand he hparts fun l hl => ?_
    subst hl
    exact .not hkind
  -- Every other kind is that of a statement.
  all_goals exact readsExpr_fault he hparts

/-- A kind that is read as a literal is one of a literal. -/
theorem isLiteral_of_literal {tag : Tag} {raw : String} {result : Constant × OperandType}
    (h : tag.literal raw = .ok result) : tag.kind.isLiteral = true := by
  unfold Tag.literal at h
  cases hkind : tag.kind <;> simp_all [Kind.isLiteral]

/-- **What has a form is read so**, of expressions. With the converse this makes the forms a second
definition of the reading, as a relation. -/
theorem ReadsExpr.eq {t : Tree} {e : Expr} (h : ReadsExpr t e) : t.toExpr = e := by
  cases h with
  | fault h => exact h
  | @literal tag left right raw constant type hraw h =>
    have hkind := isLiteral_of_literal h
    rw [toExpr_node, Expr.ofParts]
    cases hk : tag.kind <;> simp_all [Kind.isLiteral, Expr.ofLiteral]
  | @var tag left right name hkind hname =>
    rw [toExpr_node, Expr.ofParts, hkind]
    simp only [Expr.ofIdentifier, hname]
  | @arith tag op l r hkind =>
    rw [toExpr_node, Expr.ofParts]
    cases hk : tag.kind <;> simp_all [Kind.arithOp?, Expr.ofOperands]
  | @cast tag target l right hkind =>
    rw [toExpr_node, Expr.ofParts]
    cases hk : tag.kind <;> simp_all [Kind.castTarget?, Expr.ofCast, Expr.ofOperand]
  | and hkind | or hkind | not hkind =>
    rw [toExpr_node, Expr.ofParts, hkind]
    rfl
  | @compare tag test l r hkind =>
    rw [toExpr_node, Expr.ofParts]
    cases hk : tag.kind <;> simp_all [Kind.comparison?, Expr.ofOperands]

/-- **The forms are the reading**, for expressions: with the two directions above, a tree has
exactly one form. -/
theorem readsExpr_iff {t : Tree} {e : Expr} : ReadsExpr t e ↔ t.toExpr = e :=
  ⟨ReadsExpr.eq, readsExpr_of_eq⟩

/-! ### Statements -/

/-- A child read as a statement; an absent one is no statement at all. -/
def body : Option Tree → Stmt
  | some t => t.toStmt
  | none => .nothing

theorem body_some (t : Tree) : body (some t) = t.toStmt :=
  rfl

/-- **The form of a statement**, at its root. -/
inductive ReadsStmt : Tree → Stmt → Prop
  | fault {t tag error} (h : t.toStmt = .fault tag error) : ReadsStmt t (.fault tag error)
  | sequence {tag left right} (hkind : tag.kind = .sequence) :
      ReadsStmt (.node tag left right) (.sequence tag (body left) (body right))
  | block {tag left} (hkind : tag.kind = .block) :
      ReadsStmt (.node tag left none) (.block tag (body left))
  | assign {tag target left right value name} (hkind : tag.kind = .assign)
      (htarget : target.kind = .identifier) (hname : target.value = some name) :
      ReadsStmt (.node tag (some (.node target left right)) (some value))
        (.assign tag name value.toExpr)
  | print {tag value right} (hkind : tag.kind = .print) :
      ReadsStmt (.node tag (some value) right) (.print tag value.toExpr)
  | assert {tag condition right} (hkind : tag.kind = .assert) :
      ReadsStmt (.node tag (some condition) right) (.assert tag condition.toExpr)
  | sleep {tag duration right} (hkind : tag.kind = .sleep) :
      ReadsStmt (.node tag (some duration) right) (.sleep tag duration.toExpr)
  | ifThen {tag condition branch} (hkind : tag.kind = .ifThen) :
      ReadsStmt (.node tag (some condition) (some branch))
        (.ifThen tag condition.toExpr branch.toStmt)
  | ifElse {tag condition inner thenBranch elseBranch} (hkind : tag.kind = .ifElse)
      (hinner : inner.kind = .sequence) :
      ReadsStmt
        (.node tag (some condition) (some (.node inner (some thenBranch) (some elseBranch))))
        (.ifElse tag condition.toExpr thenBranch.toStmt elseBranch.toStmt)
  | loop {tag condition body} (hkind : tag.kind = .loop) :
      ReadsStmt (.node tag (some condition) (some body)) (.loop tag condition.toExpr body.toStmt)
  | spawn {tag right name} (hkind : tag.kind = .multitask) (hname : tag.value = some name) :
      ReadsStmt (.node tag none right) (.spawn tag name)
  | spawnInline {tag task right name} (hkind : tag.kind = .multitask)
      (hname : tag.value = some name) :
      ReadsStmt (.node tag (some task) right) (.spawnInline tag name task.tag task.toStmt)

theorem readsStmt_fault {t : Tree} {s : Stmt} {tag : Tag} {error : CompileError}
    (hs : t.toStmt = s) (h : .fault tag error = s) : ReadsStmt t s := by
  subst h
  exact .fault hs

/-- A statement with one operand is read as it says, or else as a fault. -/
theorem readsStmt_ofOperand {tag : Tag} {left right : Option Tree} {missing : Malformation}
    {make : Expr → Stmt} {s : Stmt} (hs : (Tree.node tag left right).toStmt = s)
    (hparts : Stmt.ofOperand tag missing make (left.map toExpr) = s)
    (h : ∀ l, left = some l → ReadsStmt (.node tag left right) (make l.toExpr)) :
    ReadsStmt (.node tag left right) s := by
  subst hparts
  rcases left with _ | l
  · exact .fault hs
  · exact h l rfl

/-- An assignment is read from the tag of its target, which has to be a name, and its value. -/
theorem readsStmt_ofAssign {tag : Tag} {left right : Option Tree} {s : Stmt}
    (hkind : tag.kind = .assign) (hs : (Tree.node tag left right).toStmt = s)
    (hparts : Stmt.ofAssign tag (left.map Tree.tag) (right.map toExpr) = s) :
    ReadsStmt (.node tag left right) s := by
  rcases left with _ | ⟨target, tl, tr⟩
  · exact readsStmt_fault hs hparts
  · simp only [Option.map_some, Tree.tag, Stmt.ofAssign] at hparts
    split at hparts
    · exact readsStmt_fault hs hparts
    · rename_i htarget
      rcases hname : target.value with _ | name
      · simp only [hname] at hparts
        exact readsStmt_fault hs hparts
      · simp only [hname] at hparts
        rcases right with _ | value
        · exact readsStmt_fault hs hparts
        · subst hparts
          exact .assign hkind (Decidable.not_not.1 htarget) hname

/-- The start of a task is read with or without the body of the task. -/
theorem readsStmt_ofSpawn {tag : Tag} {left right : Option Tree} {s : Stmt}
    (hkind : tag.kind = .multitask) (hs : (Tree.node tag left right).toStmt = s)
    (hparts : Stmt.ofSpawn tag (left.map fun t => (t.tag, t.toStmt)) = s) :
    ReadsStmt (.node tag left right) s := by
  rw [Stmt.ofSpawn.eq_def] at hparts
  rcases hname : tag.value with _ | name
  · simp only [hname] at hparts
    exact readsStmt_fault hs hparts
  · simp only [hname] at hparts
    subst hparts
    rcases left with _ | task
    · exact .spawn hkind hname
    · exact .spawnInline hkind hname

/-- The branches of a conditional are read from a node of their own, which has to be a sequence. The
node is no statement by itself, and nothing in it is compiled as one. -/
theorem readsStmt_ofIfElse {tag inner : Tag} {condition l r : Option Tree} {s : Stmt}
    (hkind : tag.kind = .ifElse)
    (hs : (Tree.node tag condition (some (.node inner l r))).toStmt = s)
    (hparts : Stmt.ofIfElse tag (condition.map toExpr)
      (some ⟨inner.kind, l.map toStmt, r.map toStmt⟩) = s) :
    ReadsStmt (.node tag condition (some (.node inner l r))) s := by
  rcases condition with _ | c
  · exact readsStmt_fault hs hparts
  · simp only [Option.map_some, Stmt.ofIfElse] at hparts
    split at hparts
    · exact readsStmt_fault hs hparts
    · rename_i hinner
      rcases l with _ | l
      · exact readsStmt_fault hs hparts
      · rcases r with _ | r
        · exact readsStmt_fault hs hparts
        · subst hparts
          exact .ifElse hkind (Decidable.not_not.1 hinner)

/-- **Every reading has a form**, of statements. By cases on the kind of the node, and on which of
its children are there. -/
theorem readsStmt_of_eq {t : Tree} {s : Stmt} (hs : t.toStmt = s) : ReadsStmt t s := by
  obtain ⟨tag, left, right⟩ := t
  have hparts := hs
  rw [toStmt.eq_def] at hparts
  cases hkind : tag.kind
  all_goals simp only [hkind] at hparts
  case sequence =>
    subst hparts
    cases left <;> cases right <;> exact .sequence hkind
  case block =>
    subst hparts
    rcases right with _ | r
    · cases left <;> exact .block hkind
    · exact .fault hs
  case assign => exact readsStmt_ofAssign hkind hs hparts
  case print =>
    refine readsStmt_ofOperand hs hparts fun l hl => ?_
    subst hl
    exact .print hkind
  case assert =>
    refine readsStmt_ofOperand hs hparts fun l hl => ?_
    subst hl
    exact .assert hkind
  case sleep =>
    refine readsStmt_ofOperand hs hparts fun l hl => ?_
    subst hl
    exact .sleep hkind
  case multitask =>
    refine readsStmt_ofSpawn hkind hs ?_
    cases left <;> exact hparts
  case ifThen =>
    rcases left with _ | c
    · exact readsStmt_fault hs hparts
    · rcases right with _ | b
      · exact readsStmt_fault hs hparts
      · subst hparts
        exact .ifThen hkind
  case ifElse =>
    rcases right with _ | ⟨inner, l, r⟩
    · cases left <;> exact readsStmt_fault hs hparts
    · refine readsStmt_ofIfElse hkind hs ?_
      cases l <;> cases r <;> exact hparts
  case loop =>
    rcases left with _ | c
    · exact readsStmt_fault hs hparts
    · rcases right with _ | b
      · exact readsStmt_fault hs hparts
      · subst hparts
        exact .loop hkind
  -- Every other kind is that of an expression.
  all_goals exact readsStmt_fault hs hparts

/-- **What has a form is read so**, of statements: each form names the kind of its node and its
children, from which the reading can be computed. -/
theorem ReadsStmt.eq {t : Tree} {s : Stmt} (h : ReadsStmt t s) : t.toStmt = s := by
  cases h with
  | fault h => exact h
  | @sequence tag left right hkind =>
    rw [toStmt.eq_def]
    simp only [hkind]
    cases left <;> cases right <;> rfl
  | @block tag left hkind =>
    rw [toStmt.eq_def]
    simp only [hkind]
    cases left <;> rfl
  | assign hkind htarget hname =>
    rw [toStmt.eq_def]
    simp [hkind, htarget, hname, Stmt.ofAssign, Tree.tag]
  | ifElse hkind hinner =>
    rw [toStmt.eq_def]
    simp [hkind, hinner, Stmt.ofIfElse]
  | spawn hkind hname | spawnInline hkind hname =>
    rw [toStmt.eq_def]
    simp only [hkind, Stmt.ofSpawn, hname]
  | print hkind | assert hkind | sleep hkind | ifThen hkind | loop hkind =>
    rw [toStmt.eq_def]
    simp only [hkind]
    rfl

/-- **The forms are the reading**, for statements. Proofs about programs go by the forms, which name
the parts of a node, rather than by the reading, which looks for them. -/
theorem readsStmt_iff {t : Tree} {s : Stmt} : ReadsStmt t s ↔ t.toStmt = s :=
  ⟨ReadsStmt.eq, readsStmt_of_eq⟩

/-- A statement that is not nothing was read from a tree. -/
theorem exists_readsStmt {o : Option Tree} {s : Stmt} (h : body o = s) (hs : s ≠ .nothing) :
    ∃ t, o = some t ∧ ReadsStmt t s := by
  rcases o with _ | t
  · exact absurd h.symm hs
  · exact ⟨t, rfl, readsStmt_of_eq h⟩

end Tree

/-! ### Related statements -/

namespace Stmt

variable {E : Expr → Expr → Prop} {S : Stmt → Stmt → Prop} {tag tag' : Tag}
  {e e' : Option Expr} {s s' t t' : Option Stmt}

/-- **Two conditionals are related** if their parts are, whichever of these are missing. A missing
part is a fault of the conditional, and faults are related to each other. -/
theorem ofIf_rel (hfault : ∀ {tag tag' e e'}, S (.fault tag e) (.fault tag' e'))
    (hform : ∀ {e e' s s'}, E e e' → S s s' → S (.ifThen tag e s) (.ifThen tag' e' s'))
    (he : Option.Rel E e e') (hs : Option.Rel S s s') : S (ofIf tag e s) (ofIf tag' e' s') := by
  rcases he with ⟨he⟩ | _
  · rcases hs with ⟨hs⟩ | _
    · exact hform he hs
    · exact hfault
  · exact hfault

theorem ofLoop_rel (hfault : ∀ {tag tag' e e'}, S (.fault tag e) (.fault tag' e'))
    (hform : ∀ {e e' s s'}, E e e' → S s s' → S (.loop tag e s) (.loop tag' e' s'))
    (he : Option.Rel E e e') (hs : Option.Rel S s s') : S (ofLoop tag e s) (ofLoop tag' e' s') := by
  rcases he with ⟨he⟩ | _
  · rcases hs with ⟨hs⟩ | _
    · exact hform he hs
    · exact hfault
  · exact hfault

/-- The branches matter only if the node that holds them is a sequence; otherwise both conditionals
are faults, and those are related. -/
theorem ofIfElse_rel {kind : Kind} (hfault : ∀ {tag tag' e e'}, S (.fault tag e) (.fault tag' e'))
    (hform : ∀ {e e' s s' t t'}, E e e' → S s s' → S t t' →
      S (.ifElse tag e s t) (.ifElse tag' e' s' t'))
    (he : Option.Rel E e e')
    (hbranches : kind = .sequence → Option.Rel S s s' ∧ Option.Rel S t t') :
    S (ofIfElse tag e (some ⟨kind, s, t⟩)) (ofIfElse tag' e' (some ⟨kind, s', t'⟩)) := by
  rcases he with ⟨he⟩ | _
  · by_cases hkind : kind = .sequence
    · simp only [ofIfElse, hkind, ne_eq, not_true, if_false]
      obtain ⟨hs, ht⟩ := hbranches hkind
      rcases hs with ⟨hs⟩ | _
      · rcases ht with ⟨ht⟩ | _
        · exact hform he hs ht
        · exact hfault
      · exact hfault
    · simp only [ofIfElse, hkind, ne_eq, not_false_eq_true, if_true]
      exact hfault
  · exact hfault

theorem ofSpawn_rel {body body' : Option (Tag × Stmt)}
    (hfault : ∀ {tag tag' e e'}, S (.fault tag e) (.fault tag' e'))
    (hspawn : ∀ {name}, S (.spawn tag name) (.spawn tag name))
    (hform : ∀ {name bodyTag bodyTag' s s'}, S s s' →
      S (.spawnInline tag name bodyTag s) (.spawnInline tag name bodyTag' s'))
    (h : Option.Rel (fun b b' => S b.2 b'.2) body body') :
    S (ofSpawn tag body) (ofSpawn tag body') := by
  unfold ofSpawn
  rcases tag.value with _ | name
  · exact hfault
  · rcases h with ⟨h⟩ | _
    · exact hform h
    · exact hspawn

end Stmt

end StackUnits
