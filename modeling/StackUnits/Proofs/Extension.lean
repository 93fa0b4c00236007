import Mathlib.Algebra.Group.Nat.Defs
import StackUnits.Proofs.Acceptance

/-!
# Compiling only adds

An expression or a statement is compiled in the middle of a unit: there is code already, there are
types on the type stack, frames are open. Whatever becomes of the attempt, the context is only
**extended** by it (`StackUnits.Context.Extends`): instructions are added at the end, labels are
taken one after the other, the greatest depth and the number of slots do not shrink, and as many
frames are open as before.

This is proved of the actions of the compiler (`StackUnits.Emit.Extending`), from the single steps
up. Nothing has to be known for it about the type stack, so that it can be said of runs that fail.
The number of labels that are taken at most is part of the notion, and adds up along a run
(`StackUnits.Emit.Extending.bind`); for a whole construct it is the number of labels in its code
(`StackUnits.Expr.extending_compile`, `StackUnits.Stmt.extending_compile`).
-/

namespace StackUnits

open StackUnits.Action

/-! ### Contexts that are extended -/

/-- A counter of labels does not decrease as long as it does not run over. Its numbers have 32 bits,
and after the last one it starts from zero. -/
theorem CodeBuffer.nextLabel_le_add {a : UInt32} {n : Nat} (h : a.toNat + n < 2 ^ 32) :
    a ≤ a + UInt32.ofNat n := by
  rw [UInt32.le_iff_toNat_le, UInt32.toNat_add, UInt32.toNat_ofNat']
  omega

/-- **A context is extended by another**, with at most the given number of labels taken. The
counter of labels runs over after `2 ^ 32` of them, and does not decrease before. -/
structure Context.Extends (labels : Nat) (cx cx' : Context) : Prop where
  code : cx.code.instructions <+: cx'.code.instructions
  nextLabel : ∃ taken ≤ labels, cx'.code.nextLabel = cx.code.nextLabel + .ofNat taken ∧
    (cx.code.nextLabel.toNat + taken < 2 ^ 32 → cx.code.nextLabel ≤ cx'.code.nextLabel)
  maxDepth : cx.types.maxDepth ≤ cx'.types.maxDepth
  slotCount : cx.symbols.slotCount ≤ cx'.symbols.slotCount
  scopes : cx'.symbols.frames.length = cx.symbols.frames.length

namespace Context.Extends

variable {m n : Nat} {cx cx₁ cx₂ : Context}

/-- Nothing is written, and no name is declared; the type stack may have been deeper in between. -/
theorem of_eq (hcode : cx₁.code = cx.code) (htypes : cx.types.maxDepth ≤ cx₁.types.maxDepth)
    (hsymbols : cx₁.symbols = cx.symbols) : cx.Extends 0 cx₁ := by
  have hlabel : cx₁.code.nextLabel = cx.code.nextLabel := congrArg CodeBuffer.nextLabel hcode
  refine ⟨hcode ▸ List.prefix_rfl, ⟨0, Nat.le_refl 0, ?_, ?_⟩, htypes, ?_, ?_⟩
  · exact hlabel.trans (UInt32.add_zero _).symm
  · intro _
    exact UInt32.le_of_eq hlabel.symm
  · exact UInt16.le_of_eq (congrArg SymbolTable.slotCount hsymbols.symm)
  · rw [hsymbols]

theorem refl (cx : Context) : cx.Extends 0 cx :=
  of_eq rfl (Nat.le_refl _) rfl

theorem mono (h : cx.Extends m cx₁) (hmn : m ≤ n) : cx.Extends n cx₁ := by
  obtain ⟨taken, hle, hlabel⟩ := h.nextLabel
  exact ⟨h.code, ⟨taken, Nat.le_trans hle hmn, hlabel⟩, h.maxDepth, h.slotCount, h.scopes⟩

/-- The labels of two extensions add up; that the counter does not decrease is asked for as long as
both of them together do not make it run over. -/
theorem trans (h : cx.Extends m cx₁) (h' : cx₁.Extends n cx₂) : cx.Extends (m + n) cx₂ where
  code := h.code.trans h'.code
  nextLabel := by
    obtain ⟨k, hk, hlabel, -⟩ := h.nextLabel
    obtain ⟨k', hk', hlabel', -⟩ := h'.nextLabel
    have hsum : cx₂.code.nextLabel = cx.code.nextLabel + .ofNat (k + k') := by
      rw [hlabel', hlabel, UInt32.ofNat_add, UInt32.add_assoc]
    exact ⟨k + k', Nat.add_le_add hk hk', hsum, fun hlt => hsum ▸ CodeBuffer.nextLabel_le_add hlt⟩
  maxDepth := Nat.le_trans h.maxDepth h'.maxDepth
  slotCount := UInt16.le_trans h.slotCount h'.slotCount
  scopes := h'.scopes.trans h.scopes

theorem wrote (cx : Context) (instr : Instruction) : cx.Extends 0 (cx.wrote instr) where
  code := ⟨[instr], (Pile.toList_push _ _).symm⟩
  nextLabel := (refl cx).nextLabel
  maxDepth := Nat.le_refl _
  slotCount := UInt16.le_refl _
  scopes := rfl

theorem labelled (cx : Context) : cx.Extends 1 cx.labelled where
  code := List.prefix_rfl
  nextLabel := ⟨1, Nat.le_refl 1, rfl, CodeBuffer.nextLabel_le_add⟩
  maxDepth := Nat.le_refl _
  slotCount := UInt16.le_refl _
  scopes := rfl

end Context.Extends

/-- A declaration leaves the frames open, and gives no slot back. If the name is known in the
innermost frame, the table stays as it is. -/
theorem SymbolTable.declare_extends {table table' : SymbolTable} {name : String}
    {type : OperandType} {slot : UInt16} (h : table.declare name type = .ok (slot, table')) :
    table.slotCount ≤ table'.slotCount ∧ table'.frames.length = table.frames.length := by
  unfold declare at h
  rcases hframes : table.frames with _ | ⟨frame, rest⟩
  · rw [hframes] at h
    cases h
  rw [hframes] at h
  dsimp only at h
  rcases hfind : frame.find? name with _ | info
  · rw [hfind] at h
    cases h
    refine ⟨?_, rfl⟩
    change table.slotCount ≤ ite _ _ _
    split
    · assumption
    · exact UInt16.le_refl _
  · rw [hfind] at h
    dsimp only at h
    by_cases htype : info.type = type
    · rw [if_pos htype] at h
      cases h
      exact ⟨UInt16.le_refl _, by rw [hframes]⟩
    · rw [if_neg htype] at h
      cases h

/-! ### Actions that extend -/

/-- The state in which a run ends, whether it succeeds or fails. -/
def Action.final {ε σ α : Type} : EStateM.Result ε σ α → σ
  | .ok _ s => s
  | .error _ s => s

/-- **An action extends the context** if all its runs do, also those that fail. -/
def Emit.Extending {α : Type} (labels : Nat) (x : Emit α) : Prop :=
  ∀ cx : Context, cx.Extends labels (final (x cx))

namespace Emit.Extending

variable {α β : Type} {m n : Nat} {x y : Emit α} {f : α → Emit β} {tag : Tag}

theorem mono (hx : Extending m x) (hmn : m ≤ n) : Extending n x :=
  fun cx => (hx cx).mono hmn

theorem pure (a : α) : Extending 0 (pure a : Emit α) :=
  Context.Extends.refl

theorem throw (e : CompileError) : Extending n (throw e : Emit α) :=
  fun cx => (Context.Extends.refl cx).mono (Nat.zero_le n)

/-- **The labels of two actions add up.** If the first one fails, the second takes none. -/
theorem bind (hx : Extending m x) (hf : ∀ a, Extending n (f a)) : Extending (m + n) (x >>= f) := by
  intro cx
  have h := hx cx
  change cx.Extends (m + n) (final (EStateM.bind x f cx))
  unfold EStateM.bind
  rcases hrun : x cx with ⟨a, cx₁⟩ | ⟨e, cx₁⟩
  · rw [hrun] at h
    exact h.trans (hf a cx₁)
  · rw [hrun] at h
    exact h.mono (Nat.le_add_right m n)

/-- Only the first of two actions takes labels. -/
theorem bind_left (hx : Extending n x) (hf : ∀ a, Extending 0 (f a)) : Extending n (x >>= f) :=
  hx.bind hf

/-- Only the second of two actions takes labels. -/
theorem bind_right (hx : Extending 0 x) (hf : ∀ a, Extending n (f a)) : Extending n (x >>= f) :=
  (hx.bind hf).mono (Nat.le_of_eq (Nat.zero_add n))

theorem read {f : Context → Emit α} (hf : ∀ cx, Extending n (f cx)) : Extending n (get >>= f) :=
  fun cx => hf cx cx

theorem discard (hx : Extending n x) : Extending n (discard x) := by
  intro cx
  have h := hx cx
  change cx.Extends n (final (EStateM.map _ x cx))
  unfold EStateM.map
  rcases hrun : x cx with ⟨a, cx₁⟩ | ⟨e, cx₁⟩
  · rw [hrun] at h
    exact h
  · rw [hrun] at h
    exact h

theorem ite {p : Prop} [Decidable p] (hx : Extending n x) (hy : Extending n y) :
    Extending n (if p then x else y) := by
  split
  · exact hx
  · exact hy

/-! ### Single steps -/

theorem note (event : Event) : Extending 0 (note event) :=
  fun _ => .of_eq rfl (Nat.le_refl _) rfl

theorem enterExpr : Extending 0 (enterExpr tag) :=
  fun _ => .of_eq rfl (Nat.le_refl _) rfl

theorem emit (instr : Instruction) : Extending 0 (emit instr) :=
  fun cx => .wrote cx instr

theorem pushType (type : OperandType) : Extending 0 (pushType type) :=
  fun _ => .of_eq rfl (Nat.le_max_left _ _) rfl

theorem newLabel : Extending 1 newLabel :=
  Context.Extends.labelled

theorem lookup (name : String) : Extending 0 (lookup name) :=
  Context.Extends.refl

theorem pop : Extending 0 (pop tag) := by
  intro cx
  unfold Emit.pop
  rcases cx.types.entries.pop? with _ | ⟨type, rest⟩
  · exact .refl cx
  · exact .of_eq rfl (Nat.le_refl _) rfl

theorem declare (name : String) (type : OperandType) : Extending 0 (declare name type) := by
  intro cx
  unfold Emit.declare
  rcases hdeclare : cx.symbols.declare name type with e | ⟨slot, table⟩
  · exact .refl cx
  · obtain ⟨hcount, hframes⟩ := SymbolTable.declare_extends hdeclare
    exact ⟨List.prefix_rfl, (Context.Extends.refl cx).nextLabel, Nat.le_refl _, hcount, hframes⟩

theorem require (result : Except CompileError α) : Extending 0 (require tag result) := by
  rcases result with e | a
  · exact throw _
  · exact pure a

/-- The session is apart from what is extended, whatever happens to it. So a task that is compiled
on the spot, with a context of its own, makes no difference here. -/
theorem inSession (action : SessionM α) : Extending 0 (inSession action) := by
  intro cx
  unfold Emit.inSession
  rcases action cx.session with ⟨a, session⟩ | ⟨e, session⟩
  · exact .of_eq rfl (Nat.le_refl _) rfl
  · exact .of_eq rfl (Nat.le_refl _) rfl

theorem popInt : Extending 0 (popInt tag) :=
  pop.bind_right fun _ => ite (pure _) (throw _)

theorem convert (conversion : Conversion) : Extending 0 (convert conversion) := by
  cases conversion with
  | identity => exact pure ()
  | _ => exact emit _

theorem pushConstant (constant : Constant) (type : OperandType) :
    Extending 0 (pushConstant constant type) :=
  (emit _).bind_right fun _ => pushType type

theorem newObject (cls : String) : Extending 0 (newObject cls) :=
  (emit _).bind_right fun _ => (pushType _).bind_right fun _ => (emit _).bind_right fun _ =>
    pushType _

/-! ### Expressions and branching -/

/-- **Arithmetic** takes the labels of its operands. -/
theorem arith {op : ArithOp} {left right : Emit Unit} (hleft : Extending m left)
    (hright : Extending n right) : Extending (m + n) (arith tag op left right) := by
  refine hleft.bind fun _ => hright.bind_left fun _ => pop.bind_right fun rhs =>
    pop.bind_right fun lhs => ite ((throw _).bind_right fun _ => ?_) ?_
  all_goals exact (require _).bind_right fun _ => (emit _).bind_right fun _ => pushType _

theorem cast {target : OperandType} {operand : Emit Unit} (h : Extending n operand) :
    Extending n (cast tag target operand) :=
  h.bind_left fun _ => pop.bind_right fun _ => (require _).bind_right fun conversion =>
    (convert conversion).bind_right fun _ => pushType target

theorem variableValue (name : String) : Extending 0 (variableValue tag name) := by
  refine (lookup name).bind_right fun info => ?_
  rcases info with _ | info
  · exact throw _
  · exact (require _).bind_right fun _ => (emit _).bind_right fun _ => pushType _

theorem value {action : Emit Unit} (h : Extending n action) :
    Extending n (Arm.value tag action).action :=
  h.bind_left fun _ => popInt.discard

theorem constant (k : Int32) : Extending 0 (Arm.constant tag k).action :=
  (pushConstant _ _).bind_right fun _ => pop.discard

/-- The end of a conditional. -/
theorem joined (done : Label) (yields : Bool) : Extending 0
    (do Emit.emit (.label done); if yields then Emit.pushType .boolean : Emit Unit) :=
  (emit _).bind_right fun _ => ite (pushType _) (pure ())

/-- **A conditional with one arm** takes a label, after those of its condition. -/
theorem option {condition : Emit Unit} {skip : ZeroTest} {arm : Arm}
    (hcondition : Extending m condition) (harm : Extending n arm.action) :
    Extending (m + 1 + n) (conditional tag condition skip arm none) := by
  refine (hcondition.bind fun _ => popInt.discard.bind_right fun _ => newLabel.bind fun done =>
    (emit _).bind_right fun _ => harm.bind fun _ => joined done arm.yields).mono ?_
  omega

/-- **A conditional with two arms** takes two labels, after those of its condition. -/
theorem choice {l : Nat} {condition : Emit Unit} {skip : ZeroTest} {thenArm elseArm : Arm}
    (hcondition : Extending l condition) (hthen : Extending m thenArm.action)
    (helse : Extending n elseArm.action) :
    Extending (l + 2 + m + n) (conditional tag condition skip thenArm (some elseArm)) := by
  have harms : ∀ done, Extending (1 + (m + n)) (do
      let otherwise ← Emit.newLabel
      Emit.emit (.jumpIf skip otherwise)
      thenArm.action
      Emit.emit (.jump done)
      Emit.emit (.label otherwise)
      elseArm.action
      Emit.emit (.label done)
      if thenArm.yields then Emit.pushType .boolean : Emit Unit) :=
    fun done => newLabel.bind fun _ => (emit _).bind_right fun _ => hthen.bind fun _ =>
      (emit _).bind_right fun _ => (emit _).bind_right fun _ => helse.bind fun _ =>
        joined done thenArm.yields
  refine (hcondition.bind fun _ => popInt.discard.bind_right fun _ => newLabel.bind fun done =>
    ite ((throw _).bind_right fun _ => harms done) (harms done)).mono ?_
  omega

/-- **A loop** takes two labels, before those of its condition. -/
theorem loop {condition body : Emit Unit} (hcondition : Extending m condition)
    (hbody : Extending n body) : Extending (m + 2 + n) (loop tag condition body) := by
  refine (newLabel.bind fun _ => newLabel.bind fun _ => (emit _).bind_right fun _ =>
    hcondition.bind fun _ => popInt.discard.bind_right fun _ => (emit _).bind_right fun _ =>
      hbody.bind fun _ => (emit _).bind_right fun _ => emit _).mono ?_
  omega

/-! ### Statements -/

theorem call (kind : InvokeKind) (owner name descriptor : String) :
    Extending 0 (call kind owner name descriptor) :=
  emit _

theorem assign {name : String} {value : Emit Unit} (h : Extending n value) :
    Extending n (assign tag name value) := by
  have hstore : ∀ (type : OperandType) (slot : UInt16), Extending 0
      (do let kind ← Emit.require tag type.slotKind; Emit.emit (.store kind slot) : Emit Unit) :=
    fun type slot => (require _).bind_right fun _ => emit _
  refine h.bind_left fun _ => pop.bind_right fun type => (lookup name).bind_right fun info => ?_
  rcases info with _ | info
  · exact (declare name type).bind_right fun slot => hstore type slot
  · exact ite ((throw _).bind_right fun slot => hstore type slot) (hstore type info.slot)

theorem print {value : Emit Unit} (h : Extending n value) : Extending n (print tag value) := by
  refine (emit _).bind_right fun _ => (pushType _).bind_right fun _ => h.bind_left fun _ =>
    pop.bind_right fun type => ?_
  rcases type.printDescriptor? with _ | descriptor
  · exact throw _
  · exact pop.discard.bind_right fun _ => call _ _ _ _

/-- **An assertion** takes a label. -/
theorem assert {condition : Emit Unit} (h : Extending n condition) :
    Extending (n + 1) (assert tag condition) :=
  h.bind fun _ => popInt.discard.bind_right fun _ => newLabel.bind_left fun _ =>
    (emit _).bind_right fun _ => (newObject _).bind_right fun _ =>
      (pushConstant _ _).bind_right fun _ => (call _ _ _ _).bind_right fun _ =>
        pop.discard.bind_right fun _ => pop.discard.bind_right fun _ =>
          (emit _).bind_right fun _ => pop.discard.bind_right fun _ => emit _

theorem sleep {duration : Emit Unit} (h : Extending n duration) :
    Extending n (sleep tag duration) :=
  h.bind_left fun _ => popInt.discard.bind_right fun _ => (convert _).bind_right fun _ =>
    (pushType _).bind_right fun _ => (call _ _ _ _).bind_right fun _ => pop.discard

theorem spawn (task : String) : Extending 0 (spawn tag task) :=
  read fun cx => (note (.spawn cx.unitName task)).bind_right fun _ =>
    (newObject _).bind_right fun _ => (newObject _).bind_right fun _ =>
      (call _ _ _ _).bind_right fun _ => pop.discard.bind_right fun _ =>
        (call _ _ _ _).bind_right fun _ => pop.discard.bind_right fun _ =>
          pop.discard.bind_right fun _ => (call _ _ _ _).bind_right fun _ => pop.discard

theorem requireTask (name : String) : Extending 0 (requireTask tag name) := by
  refine (inSession _).bind_right fun task => ite ((throw _).bind_right fun _ => ?_) ?_
  all_goals exact ite (throw _) (pure ())

end Emit.Extending

open Emit

/-- **Compiling an expression extends the context**, and takes at most as many labels as its code
has. It takes fewer if it fails on the way. -/
theorem Expr.extending_compile (e : Expr) : Extending e.labelCount e.compile := by
  induction e with
  | fault tag error => exact .bind_right .enterExpr fun _ => .throw error
  | literal tag constant type => exact .bind_right .enterExpr fun _ => .pushConstant _ _
  | var tag name => exact .bind_right .enterExpr fun _ => .variableValue name
  | arith tag op left right ihl ihr => exact .bind_right .enterExpr fun _ => .arith ihl ihr
  | cast tag target operand ih => exact .bind_right .enterExpr fun _ => .cast ih
  | and tag left right ihl ihr | or tag left right ihl ihr =>
    refine .bind_right .enterExpr fun _ => (Extending.choice ihl (.value ihr) (.constant _)).mono ?_
    simp only [labelCount]
    omega
  | not tag operand ih =>
    exact .bind_right .enterExpr fun _ => .choice ih (.constant _) (.constant _)
  | compare tag test left right ihl ihr =>
    exact .bind_right .enterExpr fun _ => .choice (.arith ihl ihr) (.constant _) (.constant _)

/-- **Compiling a statement extends the context.** The labels of a task given on the spot are not
taken from it: the task is compiled in a context of its own. -/
theorem Stmt.extending_compile (s : Stmt) : Extending s.labelCount s.compile := by
  induction s with
  | nothing => exact .pure ()
  | fault tag error => exact .bind_right (.note _) fun _ => .throw error
  | sequence tag first rest ih₁ ih₂ => exact .bind_right (.note _) fun _ => ih₁.bind fun _ => ih₂
  | block tag body ih => exact .bind_right (.note _) fun _ => ih
  | assign tag name value =>
    exact .bind_right (.note _) fun _ => .assign value.extending_compile
  | print tag value => exact .bind_right (.note _) fun _ => .print value.extending_compile
  | assert tag condition =>
    exact .bind_right (.note _) fun _ => .assert condition.extending_compile
  | sleep tag duration => exact .bind_right (.note _) fun _ => .sleep duration.extending_compile
  | ifThen tag condition branch ih =>
    exact .bind_right (.note _) fun _ => .option condition.extending_compile ih
  | ifElse tag condition thenBranch elseBranch iht ihe =>
    exact .bind_right (.note _) fun _ => .choice condition.extending_compile iht ihe
  | loop tag condition body ih =>
    exact .bind_right (.note _) fun _ => .loop condition.extending_compile ih
  | spawn tag name =>
    exact .bind_right (.note _) fun _ => .bind_right (.requireTask name) fun _ => .spawn name
  | spawnInline tag name bodyTag body =>
    exact .bind_right (.note _) fun _ => .bind_right (.inSession _) fun _ => .spawn name

end StackUnits
