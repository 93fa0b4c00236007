import StackUnits.Proofs.Frames
import StackUnits.Proofs.TwoRuns

/-!
# Code that can be moved

A piece of code is written in the middle of a unit, and what is written there does not depend on the
middle: on the types that are on the stack, on the code that is there already, or on the number of
labels that are taken. Only the numbers of the labels are moved along.

This is about two runs of the compiler in **different** contexts, of which not much is the same. The
runs are looked at in step: as long as neither fails they are at the same point, and there the
contexts have grown by the same (`StackUnits.Context.Moved`): the same types are on top of the two
stacks, and the code that was added is the same after the labels are shifted
(`StackUnits.Instruction.shift`). A run that fails is left out of account from there on, but the two
fail together, with the same error (`StackUnits.Action.InStep`).

What has to be followed is the depth of the stack. An expression leaves one type on it, whichever
(`StackUnits.Emit.MovesValue`), and a statement leaves none (`StackUnits.Emit.Moves`), so all types
that are popped have been pushed by the code itself.
-/

namespace StackUnits

/-! ### Two runs in step -/

namespace Action

variable {ε σ α β : Type}

/-- **Two runs are in step**: they have the same answer, in states that are related, or they fail
with the same error. -/
inductive InStep (Q : σ → σ → Prop) : EStateM.Result ε σ α → EStateM.Result ε σ α → Prop
  | ok {a : α} {s t : σ} (h : Q s t) : InStep Q (.ok a s) (.ok a t)
  | error {e : ε} {s t : σ} : InStep Q (.error e s) (.error e t)

/-- Two runs in step both succeed, with one result, or both fail, with one error. -/
theorem InStep.cases {Q : σ → σ → Prop} {r r' : EStateM.Result ε σ α} (h : InStep Q r r') :
    (∃ a s t, r = .ok a s ∧ r' = .ok a t ∧ Q s t) ∨
      ∃ e s t, r = .error e s ∧ r' = .error e t := by
  rcases h with ⟨h⟩ | _
  · exact .inl ⟨_, _, _, rfl, rfl, h⟩
  · exact .inr ⟨_, _, _, rfl, rfl⟩

/-- **Two actions are paired** by a relation before and one after if they run in step. -/
def Paired (P : σ → σ → Prop) (x y : EStateM ε σ α) (Q : σ → σ → Prop) : Prop :=
  ∀ ⦃s t⦄, P s t → InStep Q (x s) (y t)

namespace Paired

variable {P Q R : σ → σ → Prop} {x y : EStateM ε σ α} {f g : α → EStateM ε σ β}

/-- What returns a result, or fails, does so in both runs alike. -/
theorem pure (a : α) : Paired P (pure a : EStateM ε σ α) (pure a) P :=
  fun _ _ h => .ok h

theorem throw (e : ε) : Paired P (throw e : EStateM ε σ α) (throw e) Q :=
  fun _ _ _ => .error

theorem modify {f g : σ → σ} (hfg : ∀ ⦃s t⦄, P s t → Q (f s) (g t)) :
    Paired P (modify f : EStateM ε σ PUnit) (modify g) Q :=
  fun _ _ h => .ok (hfg h)

/-- **Two runs stay in step** from one action to the next. What is known of the states after the
first is what the second begins with. -/
theorem bind (hx : Paired P x y Q) (hf : ∀ a, Paired Q (f a) (g a) R) :
    Paired P (x >>= f) (y >>= g) R := by
  intro s t h
  change InStep R (EStateM.bind x f s) (EStateM.bind y g t)
  unfold EStateM.bind
  rcases (hx h).cases with ⟨a, s', t', hs, ht, h'⟩ | ⟨e, s', t', hs, ht⟩
  · rw [hs, ht]
    exact hf a h'
  · rw [hs, ht]
    exact .error

/-- What is known of the states between two actions may be known of something. -/
theorem bind_of_exists {ι : Type} {Q : ι → σ → σ → Prop}
    (hx : Paired P x y fun s t => ∃ i, Q i s t) (hf : ∀ i a, Paired (Q i) (f a) (g a) R) :
    Paired P (x >>= f) (y >>= g) R := by
  refine hx.bind fun a => ?_
  rintro s t ⟨i, h⟩
  exact hf i a h

theorem mono (hx : Paired P x y Q) (hQR : ∀ ⦃s t⦄, Q s t → R s t) : Paired P x y R := by
  intro s t h
  rcases (hx h).cases with ⟨a, s', t', hs, ht, h'⟩ | ⟨e, s', t', hs, ht⟩
  · rw [hs, ht]
    exact .ok (hQR h')
  · rw [hs, ht]
    exact .error

theorem discard (hx : Paired P x y Q) : Paired P (discard x) (discard y) Q := by
  intro s t h
  change InStep Q (EStateM.map _ x s) (EStateM.map _ y t)
  unfold EStateM.map
  rcases (hx h).cases with ⟨a, s', t', hs, ht, h'⟩ | ⟨e, s', t', hs, ht⟩
  · rw [hs, ht]
    exact .ok h'
  · rw [hs, ht]
    exact .error

theorem ite {p : Prop} [Decidable p] {x' y' : EStateM ε σ α} (hx : Paired P x y Q)
    (hy : Paired P x' y' Q) : Paired P (if p then x else x') (if p then y else y') Q := by
  split
  · exact hx
  · exact hy

/-- What is read from the two states need not be the same: the rest is compared for all pairs of
states. -/
theorem read {f g : σ → EStateM ε σ α} (hfg : ∀ s t, Paired P (f s) (g t) Q) :
    Paired P (get >>= f) (get >>= g) Q :=
  fun s t h => hfg s t h

end Paired

end Action

open StackUnits.Action

/-! ### Shifted code -/

/-- The label whose number is larger by the given one. -/
def Label.shift (n : UInt32) (label : Label) : Label :=
  ⟨label.id + n⟩

/-- **The instruction with its label shifted**, if it has one. -/
def Instruction.shift (n : UInt32) : Instruction → Instruction
  | .jumpIf test target => .jumpIf test (target.shift n)
  | .jump target => .jump (target.shift n)
  | .label place => .label (place.shift n)
  | instr => instr

/-- By how much the labels of one context are ahead of those of another. -/
def Context.ahead (start start' : Context) : UInt32 :=
  start'.code.nextLabel - start.code.nextLabel

/-- **Two contexts have grown by the same** since two earlier ones: the given types are on top of
the stacks, the same names are declared, the sessions have the same units, and the code that was
added is the same but for the numbers of the labels, which are shifted by the difference that there
was at first. -/
structure Context.Moved (start start' : Context) (new : List OperandType) (cx cx' : Context) :
    Prop where
  types : cx.types.entries.items = new ++ start.types.entries.items
  types' : cx'.types.entries.items = new ++ start'.types.entries.items
  symbols : cx'.symbols = cx.symbols
  session : cx.session.Alike start.session.outside start.session.outside cx'.session
  nextLabel : cx'.code.nextLabel = cx.code.nextLabel + start.ahead start'
  code : ∃ added, cx.code.instructions = start.code.instructions ++ added ∧
    cx'.code.instructions = start'.code.instructions ++ added.map (.shift (start.ahead start'))

/-- A pile with an element on top is one that was pushed on. -/
theorem Pile.exists_push {α : Type} {p : Pile α} {a : α} {rest : List α}
    (h : p.items = a :: rest) : ∃ q : Pile α, p = q.push a ∧ q.items = rest :=
  ⟨⟨rest, rest.length, rfl⟩, Pile.ext h, rfl⟩

namespace Context.Moved

variable {start start' cx cx' : Context} {new : List OperandType}

/-- Nothing is added yet. -/
theorem refl (hsymbols : cx'.symbols = cx.symbols)
    (hsession : cx.session.Alike cx.session.outside cx.session.outside cx'.session) :
    Moved cx cx' [] cx cx' where
  types := rfl
  types' := rfl
  symbols := hsymbols
  session := hsession
  nextLabel := by rw [ahead, UInt32.add_comm, UInt32.sub_add_cancel]
  code := ⟨[], (List.append_nil _).symm, (List.append_nil _).symm⟩

theorem noted (h : Moved start start' new cx cx') (event event' : Event) :
    Moved start start' new (cx.noted event) (cx'.noted event') :=
  { h with session := h.session.noteAll [event] [event'] }

/-- An instruction is added in both, with its label shifted if it has one. -/
theorem wrote (h : Moved start start' new cx cx') (instr : Instruction) :
    Moved start start' new (cx.wrote instr) (cx'.wrote (instr.shift (start.ahead start'))) where
  types := h.types
  types' := h.types'
  symbols := h.symbols
  session := h.session.noteAll [_] [_]
  nextLabel := h.nextLabel
  code := by
    obtain ⟨added, hadded, hadded'⟩ := h.code
    refine ⟨added ++ [instr], ?_, ?_⟩
    · rw [← List.append_assoc, ← hadded]
      exact Pile.toList_push _ _
    · rw [List.map_append, ← List.append_assoc, ← hadded']
      exact Pile.toList_push _ _

theorem pushed (h : Moved start start' new cx cx') (type : OperandType) :
    Moved start start' (type :: new) (cx.pushed type) (cx'.pushed type) :=
  { h with
    types := congrArg (type :: ·) h.types
    types' := congrArg (type :: ·) h.types' }

/-- What is popped was pushed in both runs, and what is below is there still. Of the types below the
common ones nothing is known, and no step gets down to them. -/
theorem exists_popped {type : OperandType} (h : Moved start start' (type :: new) cx cx') :
    ∃ rest rest', cx.types.entries = rest.push type ∧ cx'.types.entries = rest'.push type ∧
      Moved start start' new (cx.popped rest) (cx'.popped rest') := by
  obtain ⟨rest, hrest, hitems⟩ := Pile.exists_push h.types
  obtain ⟨rest', hrest', hitems'⟩ := Pile.exists_push h.types'
  exact ⟨rest, rest', hrest, hrest', { h with types := hitems, types' := hitems' }⟩

theorem labelled (h : Moved start start' new cx cx') :
    Moved start start' new cx.labelled cx'.labelled :=
  { h with
    nextLabel := by
      change cx'.code.nextLabel + 1 = cx.code.nextLabel + 1 + start.ahead start'
      rw [h.nextLabel, UInt32.add_assoc, UInt32.add_assoc, UInt32.add_comm 1] }

/-- The next label of the one context is that of the other after the shift. The difference of the
counters stays what it was at the start. -/
theorem label (h : Moved start start' new cx cx') :
    cx'.label = cx.label.shift (start.ahead start') :=
  congrArg Label.mk h.nextLabel

theorem retabled (h : Moved start start' new cx cx') (table : SymbolTable) :
    Moved start start' new (cx.retabled table) (cx'.retabled table) :=
  { h with symbols := rfl }

theorem inSession (h : Moved start start' new cx cx') {session session' : Session}
    (hsession : session.Alike start.session.outside start.session.outside session') :
    Moved start start' new { cx with session := session } { cx' with session := session' } :=
  { h with session := hsession }

end Context.Moved

/-! ### The steps of the compiler -/

namespace Emit

variable {start start' : Context} {new : List OperandType} {tag : Tag} {α β : Type}

/-- **An action is moved**: its runs stay in step, and leave the stacks as they were. -/
def Moves (start start' : Context) (x : Emit α) : Prop :=
  ∀ new, Paired (Context.Moved start start' new) x x (Context.Moved start start' new)

/-- **An action that yields a value is moved**: its runs stay in step, and leave one more type on
the stacks. -/
def MovesValue (start start' : Context) (x : Emit Unit) : Prop :=
  ∀ new, Paired (Context.Moved start start' new) x x
    fun cx cx' => ∃ type, Context.Moved start start' (type :: new) cx cx'

/-- The notes that are made need not be the same. -/
theorem moves_note (event event' : Event) :
    Paired (Context.Moved start start' new) (note event) (note event')
      (Context.Moved start start' new) :=
  .modify fun _ _ h => h.noted event event'

/-- An expression is moved if what comes after it was entered is. -/
theorem MovesValue.entered {x : Emit Unit} (h : MovesValue start start' x) :
    MovesValue start start' (do enterExpr tag; x) :=
  fun new => (Paired.modify fun _ _ h => h.noted _ _).bind fun _ => h new

/-- A statement is moved if what comes after it was entered is. -/
theorem Moves.entered {x : Emit Unit} (h : Moves start start' x) :
    Moves start start' (do enterStmt tag; x) :=
  fun new => (moves_note _ _).bind fun _ => h new

theorem moves_emit (instr : Instruction) :
    Paired (Context.Moved start start' new) (emit instr)
      (emit (instr.shift (start.ahead start'))) (Context.Moved start start' new) :=
  .modify fun _ _ h => h.wrote instr

theorem moves_pushType (type : OperandType) :
    Paired (Context.Moved start start' new) (pushType type) (pushType type)
      (Context.Moved start start' (type :: new)) :=
  .modify fun _ _ h => h.pushed type

/-- There is always something of the two runs' own to pop. -/
theorem moves_pop {type : OperandType} :
    Paired (Context.Moved start start' (type :: new)) (pop tag) (pop tag)
      (Context.Moved start start' new) := by
  intro cx cx' h
  obtain ⟨rest, rest', hrest, hrest', hmoved⟩ := h.exists_popped
  rw [pop_eq_ok.2 ⟨rest, hrest, rfl⟩, pop_eq_ok.2 ⟨rest', hrest', rfl⟩]
  exact .ok hmoved

theorem moves_popInt {type : OperandType} :
    Paired (Context.Moved start start' (type :: new)) (popInt tag) (popInt tag)
      (Context.Moved start start' new) :=
  moves_pop.bind fun _ => .ite (.pure _) (.throw _)

/-- **A new label** is the same one after the shift. Since the label itself is not, this is stated
with the action that goes on with it. -/
theorem moves_newLabel {Q : Context → Context → Prop} {f g : Label → Emit β}
    (h : ∀ label, Paired (Context.Moved start start' new) (f label)
      (g (label.shift (start.ahead start'))) Q) :
    Paired (Context.Moved start start' new) (newLabel >>= f) (newLabel >>= g) Q := by
  intro cx cx' hmoved
  rw [bind_run (newLabel_eq_ok.2 ⟨rfl, rfl⟩), bind_run (newLabel_eq_ok.2 ⟨rfl, rfl⟩)]
  rw [hmoved.label]
  exact h cx.label hmoved.labelled

theorem moves_lookup (name : String) : Moves start start' (lookup name) := by
  intro new cx cx' h
  change InStep _ (.ok (cx.symbols.lookup name) cx) (.ok (cx'.symbols.lookup name) cx')
  rw [h.symbols]
  exact .ok h

/-- The symbol tables are the same, so that a name has the same slot in both. -/
theorem moves_declare (name : String) (type : OperandType) :
    Moves start start' (declare name type) := by
  intro new cx cx' h
  unfold declare
  rw [h.symbols]
  rcases cx.symbols.declare name type with e | ⟨slot, table⟩
  · exact .error
  · exact .ok (h.retabled table)

theorem moves_require (result : Except CompileError α) :
    Moves start start' (require tag result) := by
  intro new
  rcases result with e | a
  · exact .throw _
  · exact .pure a

/-- An action on the session is moved if it does not look at the notes. These are what the sessions
of the two contexts differ in. -/
theorem moves_inSession {action : SessionM α}
    (h : Respects (Session.Alike start.session.outside start.session.outside) action) :
    Moves start start' (inSession action) := by
  intro new cx cx' hmoved
  unfold inSession
  rcases (h hmoved.session).cases with ⟨a, s, t, hs, ht, halike⟩ | ⟨e, s, t, hs, ht, -⟩
  · rw [hs, ht]
    exact .ok (hmoved.inSession halike)
  · rw [hs, ht]
    exact .error

theorem moves_convert (conversion : Conversion) :
    Moves start start' (convert conversion) := by
  intro new
  cases conversion with
  | identity => exact .pure ()
  | _ => exact moves_emit _

theorem moves_pushConstant (constant : Constant) (type : OperandType) :
    Paired (Context.Moved start start' new) (pushConstant constant type)
      (pushConstant constant type) (Context.Moved start start' (type :: new)) :=
  (moves_emit _).bind fun _ => moves_pushType type

theorem moves_call (kind : InvokeKind) (owner name descriptor : String) :
    Moves start start' (call kind owner name descriptor) :=
  fun _ => moves_emit _

theorem moves_newObject (cls : String) :
    Paired (Context.Moved start start' new) (newObject cls) (newObject cls)
      (Context.Moved start start' (.reference :: .reference :: new)) :=
  (moves_emit _).bind fun _ => (moves_pushType _).bind fun _ =>
    (moves_emit _).bind fun _ => moves_pushType _

/-! ### Expressions and branching -/

/-- What is left by a push is one type. -/
theorem movesValue_pushType (type : OperandType) :
    MovesValue start start' (pushType type) :=
  fun _ => .modify fun _ _ h => ⟨type, h.pushed type⟩

/-- Two operands leave two types and the operation one; whether the types go together is seen in the
same way in both runs. -/
theorem movesValue_arith {op : ArithOp} {left right : Emit Unit}
    (hleft : MovesValue start start' left) (hright : MovesValue start start' right) :
    MovesValue start start' (arith tag op left right) := by
  intro new
  have hend : ∀ lhs : OperandType, MovesValue start start'
      (do let family ← require tag lhs.arithmeticFamily; emit (.arith op family); pushType lhs) :=
    fun lhs new => (moves_require _ new).bind fun _ => (moves_emit _).bind fun _ =>
      movesValue_pushType lhs new
  -- The operands have pushed one type each, so these are what is popped.
  refine (hleft new).bind_of_exists fun l _ => (hright (l :: new)).bind_of_exists fun r _ =>
    moves_pop.bind fun rhs => moves_pop.bind fun lhs => .ite ?_ (hend lhs new)
  exact (Paired.throw (Q := Context.Moved start start' new) _).bind fun _ => hend lhs new

theorem movesValue_cast {target : OperandType} {operand : Emit Unit}
    (h : MovesValue start start' operand) :
    MovesValue start start' (cast tag target operand) := by
  intro new
  exact (h new).bind_of_exists fun _ _ => moves_pop.bind fun _ => (moves_require _ new).bind
    fun conversion => (moves_convert conversion new).bind fun _ => movesValue_pushType target new

theorem movesValue_variableValue (name : String) :
    MovesValue start start' (variableValue tag name) := by
  intro new
  refine (moves_lookup name new).bind fun info => ?_
  rcases info with _ | info
  · exact .throw _
  · exact (moves_require _ new).bind fun _ => (moves_emit _).bind fun _ =>
      movesValue_pushType info.type new

theorem moves_value {action : Emit Unit} (h : MovesValue start start' action) :
    Moves start start' (Arm.value tag action).action :=
  fun new => (h new).bind_of_exists fun _ _ => moves_popInt.discard

theorem moves_constant (n : Int32) :
    Moves start start' (Arm.constant tag n).action :=
  fun _ => (moves_pushConstant _ _).bind fun _ => moves_pop.discard

/-- **A conditional** leaves what its arms leave, once. Its labels are made before the arms are
compiled, so that those of the arms are shifted by as much. -/
theorem moves_conditional {condition : Emit Unit} {skip : ZeroTest} {thenArm : Arm}
    {elseArm : Option Arm} (hcondition : MovesValue start start' condition)
    (hthen : Moves start start' thenArm.action)
    (helse : ∀ arm, elseArm = some arm → Moves start start' arm.action) :
    Paired (Context.Moved start start' new) (conditional tag condition skip thenArm elseArm)
      (conditional tag condition skip thenArm elseArm)
      (Context.Moved start start' ((if thenArm.yields then [.boolean] else []) ++ new)) := by
  have hend : ∀ done : Label, Paired (Context.Moved start start' new)
      (do emit (.label done); if thenArm.yields then pushType .boolean)
      (do emit (.label (done.shift (start.ahead start'))); if thenArm.yields then pushType .boolean)
      (Context.Moved start start' ((if thenArm.yields then [.boolean] else []) ++ new)) := by
    intro done
    refine (moves_emit _).bind fun _ => ?_
    cases thenArm.yields with
    | true => exact moves_pushType _
    | false => exact .pure ()
  refine (hcondition new).bind_of_exists fun _ _ => moves_popInt.discard.bind fun _ =>
    moves_newLabel fun done => ?_
  rcases elseArm with _ | arm
  · exact (moves_emit _).bind fun _ => (hthen new).bind fun _ => hend done
  · have harms : Paired (Context.Moved start start' new)
        (do
          let otherwise ← newLabel
          emit (.jumpIf skip otherwise)
          thenArm.action
          emit (.jump done)
          emit (.label otherwise)
          arm.action
          emit (.label done)
          if thenArm.yields then pushType .boolean)
        (do
          let otherwise ← newLabel
          emit (.jumpIf skip otherwise)
          thenArm.action
          emit (.jump (done.shift (start.ahead start')))
          emit (.label otherwise)
          arm.action
          emit (.label (done.shift (start.ahead start')))
          if thenArm.yields then pushType .boolean)
        (Context.Moved start start' ((if thenArm.yields then [.boolean] else []) ++ new)) :=
      moves_newLabel fun _ => (moves_emit _).bind fun _ => (hthen new).bind fun _ =>
        (moves_emit _).bind fun _ => (moves_emit _).bind fun _ =>
          (helse arm rfl new).bind fun _ => hend done
    exact .ite ((Paired.throw (Q := Context.Moved start start' new) _).bind fun _ => harms) harms

/-- A conditional with values as its arms leaves a truth value. -/
theorem movesValue_conditional {condition : Emit Unit} {skip : ZeroTest} {a b : Arm}
    (hyields : a.yields = true) (hcondition : MovesValue start start' condition)
    (ha : Moves start start' a.action) (hb : Moves start start' b.action) :
    MovesValue start start' (conditional tag condition skip a (some b)) := by
  intro new
  have hboth : Paired (Context.Moved start start' new) (conditional tag condition skip a (some b))
      (conditional tag condition skip a (some b)) (Context.Moved start start' _) :=
    moves_conditional hcondition ha fun arm harm => Option.some.inj harm ▸ hb
  refine hboth.mono fun cx cx' h => ⟨.boolean, ?_⟩
  rw [hyields] at h
  exact h

/-- **A loop** leaves nothing, and has two labels of its own. -/
theorem moves_loop {condition body : Emit Unit}
    (hcondition : MovesValue start start' condition)
    (hbody : Moves start start' body) :
    Moves start start' (loop tag condition body) := by
  intro new
  exact moves_newLabel fun _ => moves_newLabel fun _ => (moves_emit _).bind fun _ =>
    (hcondition new).bind_of_exists fun _ _ => moves_popInt.discard.bind fun _ =>
      (moves_emit _).bind fun _ => (hbody new).bind fun _ => (moves_emit _).bind fun _ =>
        moves_emit _

/-! ### Statements -/

theorem moves_assign {name : String} {value : Emit Unit} (h : MovesValue start start' value) :
    Moves start start' (assign tag name value) := by
  intro new
  have hstore : ∀ (type : OperandType) (slot : UInt16), Moves start start'
      (do let kind ← require tag type.slotKind; emit (.store kind slot)) :=
    fun type slot new => (moves_require _ new).bind fun _ => moves_emit _
  refine (h new).bind_of_exists fun _ _ => moves_pop.bind fun type =>
    (moves_lookup name new).bind fun info => ?_
  rcases info with _ | info
  · exact (moves_declare name type new).bind fun slot => hstore type slot new
  · exact .ite ((Paired.throw (Q := Context.Moved start start' new) _).bind fun slot =>
      hstore type slot new) (hstore type info.slot new)

theorem moves_print {value : Emit Unit} (h : MovesValue start start' value) :
    Moves start start' (print tag value) := by
  intro new
  refine (moves_emit _).bind fun _ => (moves_pushType _).bind fun _ =>
    (h _).bind_of_exists fun _ _ => moves_pop.bind fun type => ?_
  rcases type.printDescriptor? with _ | descriptor
  · exact .throw _
  · exact moves_pop.discard.bind fun _ => moves_call _ _ _ _ new

theorem moves_assert {condition : Emit Unit} (h : MovesValue start start' condition) :
    Moves start start' (assert tag condition) := by
  intro new
  exact (h new).bind_of_exists fun _ _ => moves_popInt.discard.bind fun _ =>
    moves_newLabel fun _ => (moves_emit _).bind fun _ => (moves_newObject _).bind fun _ =>
      (moves_pushConstant _ _).bind fun _ => (moves_call _ _ _ _ _).bind fun _ =>
        moves_pop.discard.bind fun _ => moves_pop.discard.bind fun _ =>
          (moves_emit _).bind fun _ => moves_pop.discard.bind fun _ => moves_emit _

theorem moves_sleep {duration : Emit Unit} (h : MovesValue start start' duration) :
    Moves start start' (sleep tag duration) := by
  intro new
  exact (h new).bind_of_exists fun _ _ => moves_popInt.discard.bind fun _ =>
    (moves_convert _ new).bind fun _ => (moves_pushType _).bind fun _ =>
      (moves_call _ _ _ _ _).bind fun _ => moves_pop.discard

/-- The start of a task takes off what it has put on the stack. -/
theorem moves_spawn (task : String) : Moves start start' (spawn tag task) := by
  intro new
  refine .read fun cx cx' => ?_
  exact (moves_note _ _).bind fun _ => (moves_newObject _).bind fun _ =>
    (moves_newObject _).bind fun _ => (moves_call _ _ _ _ _).bind fun _ =>
      moves_pop.discard.bind fun _ => (moves_call _ _ _ _ _).bind fun _ =>
        moves_pop.discard.bind fun _ => moves_pop.discard.bind fun _ =>
          (moves_call _ _ _ _ _).bind fun _ => moves_pop.discard

theorem moves_requireTask (name : String) :
    Moves start start' (requireTask tag name) := by
  intro new
  refine (moves_inSession (Session.respects_resolveTask (.refl _)) new).bind fun task =>
    .ite ((Paired.throw (Q := Context.Moved start start' new) _).bind fun _ => ?_) ?_
  all_goals exact .ite (.throw _) (.pure ())

end Emit

/-! ### The walk -/

section Walk

open Emit

variable {start start' : Context}

/-- **The code of an expression can be moved.** By induction on the expression, with one lemma for
each of its forms. -/
theorem Expr.movesValue_compile (e : Expr) : MovesValue start start' e.compile := by
  induction e with
  | fault tag error => exact MovesValue.entered fun _ => .throw error
  | literal tag constant type =>
    refine MovesValue.entered fun new => ?_
    exact (moves_emit _).bind fun _ => movesValue_pushType type new
  | var tag name => exact (movesValue_variableValue name).entered
  | arith tag op left right ihl ihr => exact (movesValue_arith ihl ihr).entered
  | cast tag target operand ih => exact (movesValue_cast ih).entered
  | and tag left right ihl ihr | or tag left right ihl ihr =>
    exact (movesValue_conditional rfl ihl (moves_value ihr) (moves_constant _)).entered
  | not tag operand ih =>
    exact (movesValue_conditional rfl ih (moves_constant _) (moves_constant _)).entered
  | compare tag test left right ihl ihr =>
    exact (movesValue_conditional rfl (movesValue_arith ihl ihr) (moves_constant _)
      (moves_constant _)).entered

/-- **The code of a statement can be moved.** A task that is compiled on the way has a context of
its own, so there the two runs do the same. -/
theorem Stmt.moves_compile (s : Stmt) : Moves start start' s.compile := by
  induction s with
  | nothing => exact fun _ => .pure ()
  | fault tag error => exact Moves.entered fun _ => .throw error
  | sequence tag first rest ih₁ ih₂ =>
    exact Moves.entered fun new => (ih₁ new).bind fun _ => ih₂ new
  | block tag body ih => exact ih.entered
  | assign tag name value => exact (moves_assign value.movesValue_compile).entered
  | print tag value => exact (moves_print value.movesValue_compile).entered
  | assert tag condition => exact (moves_assert condition.movesValue_compile).entered
  | sleep tag duration => exact (moves_sleep duration.movesValue_compile).entered
  | ifThen tag condition branch ih =>
    refine Moves.entered fun new => moves_conditional condition.movesValue_compile ih ?_
    rintro _ ⟨⟩
  | ifElse tag condition thenBranch elseBranch iht ihe =>
    refine Moves.entered fun new => moves_conditional condition.movesValue_compile iht ?_
    rintro _ ⟨⟩
    exact ihe
  | loop tag condition body ih => exact (moves_loop condition.movesValue_compile ih).entered
  | spawn tag name =>
    exact Moves.entered fun new => (moves_requireTask name new).bind fun _ => moves_spawn name new
  | spawnInline tag name bodyTag body =>
    have htask : Respects (Session.Alike start.session.outside start.session.outside)
        (Session.compileTask name bodyTag body.compile) :=
      Session.respects_compileTask (body.steady_compile (.refl _))
    exact Moves.entered fun new => (moves_inSession htask new).bind fun _ => moves_spawn name new

end Walk

/-- **Code can be moved.** In two contexts with the same symbol table and sessions that are the same
but for the notes, a tree is compiled in step, whatever types, code and labels there are: both runs
fail, with the same error, or both succeed. Then the contexts have grown by the same: one type for
an expression and none for a statement, the same declarations, and the same instructions after the
labels are shifted by the difference of the two counters.

Labels have 32 bits and the shift is one modulo `2 ^ 32`, so that it need not be known which of the
counters is ahead. -/
theorem Tree.compile_relocates (t : Tree) {cx cx' : Context} (hsymbols : cx'.symbols = cx.symbols)
    (hsession : cx.session.Alike cx.session.outside cx.session.outside cx'.session) :
    InStep (fun cx₁ cx₁' => ∃ type, cx.Moved cx' [type] cx₁ cx₁') (t.toExpr.compile cx)
        (t.toExpr.compile cx') ∧
      InStep (cx.Moved cx' []) (t.toStmt.compile cx) (t.toStmt.compile cx') := by
  have hstart : cx.Moved cx' [] cx cx' := .refl hsymbols hsession
  exact ⟨t.toExpr.movesValue_compile [] hstart, t.toStmt.moves_compile [] hstart⟩

/-- Another place in a unit with the variables of `Context.midway`: there are two instructions, and
fewer labels are taken. -/
def Context.elsewhere : Context where
  session := Session.note .bare (.statement ⟨.block, none⟩)
  unitName := "Worker"
  types := (TypeStack.push {} .reference).push .int
  symbols := midway.symbols
  code := { emitted := (Pile.empty.push .dup).push (.label ⟨3⟩), nextLabel := 4 }

/-- A condition and a loop are compiled in both places, and the loop is an expression in neither. -/
theorem Tree.compile_relocates_elsewhere :
    (∃ cx cx' type, positive.toExpr.compile .midway = .ok () cx ∧
      positive.toExpr.compile .elsewhere = .ok () cx' ∧
      Context.midway.Moved .elsewhere [type] cx cx') ∧
    (∃ cx cx', copying.toStmt.compile .midway = .ok () cx ∧
      copying.toStmt.compile .elsewhere = .ok () cx' ∧
      Context.midway.Moved .elsewhere [] cx cx') ∧
    ∃ e cx cx', copying.toExpr.compile .midway = .error e cx ∧
      copying.toExpr.compile .elsewhere = .error e cx' := by
  have halike : Session.Alike Context.midway.session.outside Context.midway.session.outside
      Context.midway.session Context.elsewhere.session := ⟨rfl, rfl, rfl, rfl⟩
  have hsymbols : Context.elsewhere.symbols = Context.midway.symbols := rfl
  obtain ⟨hexpr, -⟩ := compile_relocates positive hsymbols halike
  obtain ⟨hfails, hstmt⟩ := compile_relocates copying hsymbols halike
  obtain ⟨cx₁, h₁⟩ : ∃ cx, positive.toExpr.compile .midway = .ok () cx :=
    exists_of_run'_eq_some (by decide +kernel)
  obtain ⟨cx₂, h₂⟩ : ∃ cx, copying.toStmt.compile .midway = .ok () cx :=
    exists_of_run'_eq_some (by decide +kernel)
  obtain ⟨e, cx₃, h₃⟩ : ∃ e cx, copying.toExpr.compile .midway = .error e cx :=
    exists_of_run'_eq_none (by decide +kernel)
  refine ⟨?_, ?_, ?_⟩
  · rcases hexpr.cases with ⟨_, s, s', hs, hs', type, hmoved⟩ | ⟨_, s, s', hs, -⟩
    · exact ⟨s, s', type, hs, hs', hmoved⟩
    · rw [h₁] at hs
      cases hs
  · rcases hstmt.cases with ⟨_, s, s', hs, hs', hmoved⟩ | ⟨_, s, s', hs, -⟩
    · exact ⟨s, s', hs, hs', hmoved⟩
    · rw [h₂] at hs
      cases hs
  · rcases hfails.cases with ⟨_, s, s', hs, -⟩ | ⟨e, s, s', hs, hs'⟩
    · rw [h₃] at hs
      cases hs
    · exact ⟨e, s, s', hs, hs'⟩

end StackUnits
