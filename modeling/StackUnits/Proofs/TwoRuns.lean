import StackUnits.Proofs.Sessions

/-!
# Two runs of the compiler

What a compilation depends on is shown by two runs of the compiler side by side, failing runs as
much as those that succeed. An action **respects** a relation between states if two runs from
related states end alike, with the same answer or the same error, in related states
(`StackUnits.Action.Respects`). That the compiler respects a relation is proved piece by piece,
from the single steps up: what an action is put together from respects the relation, hence so does
the action.

The relation is that the same units are finished and begun (`StackUnits.Session.Alike`). The notes
may differ, and so may the settings and the resolver, as long as the two sides look for tasks on the
same search path and get the same answer there for every name that a task can have
(`StackUnits.Outside.Alike`). They are fixed in the relation, so that the same proofs show that no
run changes them.
-/

namespace StackUnits

/-! ### Two runs of an action -/

namespace Action

variable {ε σ α β : Type} {R : σ → σ → Prop}

/-- **Two runs end alike**: with the same answer or the same error, in related states. -/
inductive Agree (R : σ → σ → Prop) : EStateM.Result ε σ α → EStateM.Result ε σ α → Prop
  | ok {a : α} {s t : σ} (h : R s t) : Agree R (.ok a s) (.ok a t)
  | error {e : ε} {s t : σ} (h : R s t) : Agree R (.error e s) (.error e t)

/-- Two runs agree if both succeed, with one result, or both fail, with one error. -/
theorem Agree.cases {r r' : EStateM.Result ε σ α} (h : Agree R r r') :
    (∃ a s t, r = .ok a s ∧ r' = .ok a t ∧ R s t) ∨
      ∃ e s t, r = .error e s ∧ r' = .error e t ∧ R s t := by
  rcases h with ⟨h⟩ | ⟨h⟩
  · exact .inl ⟨_, _, _, rfl, rfl, h⟩
  · exact .inr ⟨_, _, _, rfl, rfl, h⟩

/-- **An action respects a relation** if its runs from related states end alike. -/
def Respects (R : σ → σ → Prop) (x : EStateM ε σ α) : Prop :=
  ∀ ⦃s t⦄, R s t → Agree R (x s) (x t)

namespace Respects

variable {x y : EStateM ε σ α} {f : α → EStateM ε σ β}

theorem pure (a : α) : Respects R (pure a : EStateM ε σ α) :=
  fun _ _ h => .ok h

theorem throw (e : ε) : Respects R (throw e : EStateM ε σ α) :=
  fun _ _ h => .error h

theorem modify {f : σ → σ} (hf : ∀ ⦃s t⦄, R s t → R (f s) (f t)) :
    Respects R (modify f : EStateM ε σ PUnit) :=
  fun _ _ h => .ok (hf h)

/-- What comes after the first of two actions starts from related states again. This is how every
action of the compiler is taken apart. -/
theorem bind (hx : Respects R x) (hf : ∀ a, Respects R (f a)) : Respects R (x >>= f) := by
  intro s t h
  change Agree R (EStateM.bind x f s) (EStateM.bind x f t)
  unfold EStateM.bind
  rcases (hx h).cases with ⟨a, s', t', hs, ht, h'⟩ | ⟨e, s', t', hs, ht, h'⟩
  · rw [hs, ht]
    exact hf a h'
  · rw [hs, ht]
    exact .error h'

theorem discard (hx : Respects R x) : Respects R (discard x) := by
  intro s t h
  change Agree R (EStateM.map _ x s) (EStateM.map _ x t)
  unfold EStateM.map
  rcases (hx h).cases with ⟨a, s', t', hs, ht, h'⟩ | ⟨e, s', t', hs, ht, h'⟩
  · rw [hs, ht]
    exact .ok h'
  · rw [hs, ht]
    exact .error h'

theorem ite {p : Prop} [Decidable p] (hx : Respects R x) (hy : Respects R y) :
    Respects R (if p then x else y) := by
  split
  · exact hx
  · exact hy

/-- An action that begins by reading the state has to be looked at for each pair of states: what is
read may be different in the two. -/
theorem read {f : σ → EStateM ε σ α} (hf : ∀ ⦃s t⦄, R s t → Agree R (f s s) (f t t)) :
    Respects R (get >>= f) :=
  fun _ _ h => hf h

end Respects

end Action

/-! ### What lies outside -/

/-- **What lies outside of a compilation**: the settings, and the resolver that is asked for
tasks. -/
structure Outside where
  config : Config
  resolver : Resolver

/-- **No compilation can tell two outsides apart** if tasks are looked for on the same search path,
and if a name that a task can have is answered alike there. -/
structure Outside.Alike (o o' : Outside) : Prop where
  searchPath : o'.config.taskSearchPath = o.config.taskSearchPath
  outcome : ∀ {name list path}, PlainName name → o.config.taskSearchPath = some list →
    SearchPath.parse list = .ok path →
      (o'.resolver name path).outcome = (o.resolver name path).outcome

protected theorem Outside.Alike.refl (o : Outside) : o.Alike o :=
  ⟨rfl, fun _ _ _ => rfl⟩

/-- The settings and the resolver of a session. -/
def Session.outside (session : Session) : Outside :=
  ⟨session.config, session.resolver⟩

/-- **Two sessions are alike** if they have the given outsides and the same units, finished and
begun. -/
structure Session.Alike (o o' : Outside) (session session' : Session) : Prop where
  left : session.outside = o
  right : session'.outside = o'
  units : session'.units = session.units
  inProgress : session'.inProgress = session.inProgress

/-- **Two contexts are alike** if they are the same but for sessions that are alike. -/
def Context.Alike (o o' : Outside) (cx cx' : Context) : Prop :=
  ∃ session', cx.session.Alike o o' session' ∧ cx' = { cx with session := session' }

namespace Session.Alike

variable {o o' : Outside} {session session' : Session}

theorem note (h : session.Alike o o' session') (event : Event) :
    (session.note event).Alike o o' (session'.note event) :=
  ⟨h.left, h.right, h.units, h.inProgress⟩

/-- The notes that are made need not be the same, as nothing reads them. -/
theorem noteAll (h : session.Alike o o' session') (events events' : List Event) :
    (session.noteAll events).Alike o o' (session'.noteAll events') := by
  rw [noteAll_eq, noteAll_eq]
  exact ⟨h.left, h.right, h.units, h.inProgress⟩

end Session.Alike

/-- **An action of the compiler is steady** if it makes no difference to it which of the two
outsides there is, and which notes there are. -/
abbrev Emit.Steady (o o' : Outside) {α : Type} (x : Emit α) : Prop :=
  Action.Respects (Context.Alike o o') x

/-! ### The steps of the compiler -/

open StackUnits.Action

namespace Emit

variable {o o' : Outside} {α : Type} {tag : Tag}

theorem steady_note (event : Event) : Steady o o' (note event) := by
  refine .modify ?_
  rintro cx _ ⟨session', h, rfl⟩
  exact ⟨_, h.note event, rfl⟩

theorem steady_enterExpr : Steady o o' (enterExpr tag) := by
  refine .modify ?_
  rintro cx _ ⟨session', h, rfl⟩
  exact ⟨_, h.note _, rfl⟩

theorem steady_emit (instr : Instruction) : Steady o o' (emit instr) := by
  refine .modify ?_
  rintro cx _ ⟨session', h, rfl⟩
  exact ⟨_, h.note _, rfl⟩

theorem steady_pushType (type : OperandType) : Steady o o' (pushType type) := by
  refine .modify ?_
  rintro cx _ ⟨session', h, rfl⟩
  exact ⟨session', h, rfl⟩

theorem steady_enterScope : Steady o o' enterScope := by
  refine .modify ?_
  rintro cx _ ⟨session', h, rfl⟩
  exact ⟨session', h, rfl⟩

theorem steady_newLabel : Steady o o' newLabel := by
  rintro cx _ ⟨session', h, rfl⟩
  exact .ok ⟨session', h, rfl⟩

theorem steady_lookup (name : String) : Steady o o' (lookup name) := by
  rintro cx _ ⟨session', h, rfl⟩
  exact .ok ⟨session', h, rfl⟩

theorem steady_pop : Steady o o' (pop tag) := by
  rintro cx _ ⟨session', h, rfl⟩
  unfold pop
  rcases cx.types.entries.pop? with _ | ⟨type, rest⟩
  · exact .error ⟨session', h, rfl⟩
  · exact .ok ⟨session', h, rfl⟩

theorem steady_exitScope : Steady o o' exitScope := by
  rintro cx _ ⟨session', h, rfl⟩
  unfold exitScope
  rcases cx.symbols.exitScope with e | table
  · exact .error ⟨session', h, rfl⟩
  · exact .ok ⟨session', h, rfl⟩

theorem steady_declare (name : String) (type : OperandType) :
    Steady o o' (declare name type) := by
  rintro cx _ ⟨session', h, rfl⟩
  unfold declare
  rcases cx.symbols.declare name type with e | ⟨slot, table⟩
  · exact .error ⟨session', h, rfl⟩
  · exact .ok ⟨session', h, rfl⟩

theorem steady_require (result : Except CompileError α) :
    Steady o o' (require tag result) := by
  rcases result with e | a
  · exact .throw _
  · exact .pure a

/-- An action on the session respects what it respects there, and leaves the rest of the context
alone. -/
theorem steady_inSession {action : SessionM α}
    (haction : Respects (Session.Alike o o') action) :
    Steady o o' (inSession action) := by
  rintro cx _ ⟨session', h, rfl⟩
  unfold inSession
  rcases (haction h).cases with ⟨a, s', t', hs, ht, h'⟩ | ⟨e, s', t', hs, ht, h'⟩
  · rw [hs, ht]
    exact .ok ⟨t', h', rfl⟩
  · rw [hs, ht]
    exact .error ⟨t', h', rfl⟩

theorem steady_popInt : Steady o o' (popInt tag) :=
  steady_pop.bind fun _ => .ite (.pure _) (.throw _)

theorem steady_convert (conversion : Conversion) : Steady o o' (convert conversion) := by
  cases conversion with
  | identity => exact .pure ()
  | _ => exact steady_emit _

theorem steady_pushConstant (constant : Constant) (type : OperandType) :
    Steady o o' (pushConstant constant type) :=
  (steady_emit _).bind fun _ => steady_pushType type

theorem steady_newObject (cls : String) : Steady o o' (newObject cls) :=
  (steady_emit _).bind fun _ => (steady_pushType _).bind fun _ =>
    (steady_emit _).bind fun _ => steady_pushType _

/-! ### Expressions and branching -/

theorem steady_arith {op : ArithOp} {left right : Emit Unit}
    (hleft : Steady o o' left)
    (hright : Steady o o' right) :
    Steady o o' (arith tag op left right) := by
  refine hleft.bind fun _ => hright.bind fun _ => steady_pop.bind fun rhs =>
    steady_pop.bind fun lhs => .ite ((Respects.throw _).bind fun _ => ?_) ?_
  all_goals
    exact (steady_require _).bind fun _ => (steady_emit _).bind fun _ => steady_pushType _

theorem steady_cast {target : OperandType} {operand : Emit Unit}
    (h : Steady o o' operand) :
    Steady o o' (cast tag target operand) :=
  h.bind fun _ => steady_pop.bind fun _ => (steady_require _).bind fun conversion =>
    (steady_convert conversion).bind fun _ => steady_pushType target

theorem steady_variableValue (name : String) : Steady o o' (variableValue tag name) := by
  refine (steady_lookup name).bind fun info => ?_
  rcases info with _ | info
  · exact .throw _
  · exact (steady_require _).bind fun _ => (steady_emit _).bind fun _ => steady_pushType _

theorem steady_value {action : Emit Unit}
    (h : Steady o o' action) :
    Steady o o' (Arm.value tag action).action :=
  h.bind fun _ => steady_popInt.discard

theorem steady_constant (n : Int32) : Steady o o' (Arm.constant tag n).action :=
  (steady_pushConstant _ _).bind fun _ => steady_pop.discard

/-- **A conditional** respects what its condition and its arms do. The arms are actions, so this
serves connectives and branches alike. -/
theorem steady_conditional {condition : Emit Unit} {skip : ZeroTest} {thenArm : Arm}
    {elseArm : Option Arm} (hcondition : Steady o o' condition)
    (hthen : Steady o o' thenArm.action)
    (helse : ∀ arm, elseArm = some arm → Steady o o' arm.action) :
    Steady o o'
      (conditional tag condition skip thenArm elseArm) := by
  have hend : ∀ done, Steady o o'
      (do emit (.label done); if thenArm.yields then pushType .boolean : Emit Unit) :=
    fun done => (steady_emit _).bind fun _ => .ite (steady_pushType _) (.pure ())
  refine hcondition.bind fun _ => steady_popInt.discard.bind fun _ =>
    steady_newLabel.bind fun done => ?_
  rcases elseArm with _ | arm
  · exact (steady_emit _).bind fun _ => hthen.bind fun _ => hend done
  · have harms : Steady o o' (do
        let otherwise ← newLabel
        emit (.jumpIf skip otherwise)
        thenArm.action
        emit (.jump done)
        emit (.label otherwise)
        arm.action
        emit (.label done)
        if thenArm.yields then pushType .boolean : Emit Unit) :=
      steady_newLabel.bind fun _ => (steady_emit _).bind fun _ => hthen.bind fun _ =>
        (steady_emit _).bind fun _ => (steady_emit _).bind fun _ =>
          (helse arm rfl).bind fun _ => hend done
    exact .ite ((Respects.throw _).bind fun _ => harms) harms

/-- **A loop** respects what its condition and its body do. -/
theorem steady_loop {condition body : Emit Unit}
    (hcondition : Steady o o' condition)
    (hbody : Steady o o' body) :
    Steady o o' (loop tag condition body) :=
  steady_newLabel.bind fun _ => steady_newLabel.bind fun _ => (steady_emit _).bind fun _ =>
    hcondition.bind fun _ => steady_popInt.discard.bind fun _ => (steady_emit _).bind fun _ =>
      hbody.bind fun _ => (steady_emit _).bind fun _ => steady_emit _

/-! ### Statements -/

theorem steady_call (kind : InvokeKind) (owner name descriptor : String) :
    Steady o o' (call kind owner name descriptor) :=
  steady_emit _

theorem steady_assign {name : String} {value : Emit Unit} (h : Steady o o' value) :
    Steady o o' (assign tag name value) := by
  have hstore : ∀ (type : OperandType) (slot : UInt16), Steady o o'
      (do let kind ← require tag type.slotKind; emit (.store kind slot) : Emit Unit) :=
    fun type slot => (steady_require _).bind fun _ => steady_emit _
  refine h.bind fun _ => steady_pop.bind fun type => (steady_lookup name).bind fun info => ?_
  rcases info with _ | info
  · exact (steady_declare name type).bind fun slot => hstore type slot
  · exact .ite ((Respects.throw _).bind fun slot => hstore type slot) (hstore type info.slot)

theorem steady_print {value : Emit Unit} (h : Steady o o' value) :
    Steady o o' (print tag value) := by
  refine (steady_emit _).bind fun _ => (steady_pushType _).bind fun _ => h.bind fun _ =>
    steady_pop.bind fun type => ?_
  rcases type.printDescriptor? with _ | descriptor
  · exact .throw _
  · exact steady_pop.discard.bind fun _ => steady_call _ _ _ _

theorem steady_assert {condition : Emit Unit} (h : Steady o o' condition) :
    Steady o o' (assert tag condition) :=
  h.bind fun _ => steady_popInt.discard.bind fun _ => steady_newLabel.bind fun _ =>
    (steady_emit _).bind fun _ => (steady_newObject _).bind fun _ =>
      (steady_pushConstant _ _).bind fun _ => (steady_call _ _ _ _).bind fun _ =>
        steady_pop.discard.bind fun _ => steady_pop.discard.bind fun _ =>
          (steady_emit _).bind fun _ => steady_pop.discard.bind fun _ => steady_emit _

theorem steady_sleep {duration : Emit Unit} (h : Steady o o' duration) :
    Steady o o' (sleep tag duration) :=
  h.bind fun _ => steady_popInt.discard.bind fun _ => (steady_convert _).bind fun _ =>
    (steady_pushType _).bind fun _ => (steady_call _ _ _ _).bind fun _ => steady_pop.discard

theorem steady_spawn (task : String) : Steady o o' (spawn tag task) := by
  refine .read ?_
  rintro cx _ ⟨session', h, rfl⟩
  exact ((steady_note (.spawn cx.unitName task)).bind fun _ => (steady_newObject _).bind fun _ =>
    (steady_newObject _).bind fun _ => (steady_call _ _ _ _).bind fun _ =>
      steady_pop.discard.bind fun _ => (steady_call _ _ _ _).bind fun _ =>
        steady_pop.discard.bind fun _ => steady_pop.discard.bind fun _ =>
          (steady_call _ _ _ _).bind fun _ => steady_pop.discard) ⟨session', h, rfl⟩

/-! ### Units -/

theorem steady_checked (unit : CodeUnit) : Steady o o'
    (match unit.checkLabels with | .ok () => pure unit | .error e => throw e : Emit CodeUnit) := by
  rcases unit.checkLabels with e | ⟨⟩
  · exact .throw e
  · exact .pure unit

/-- **The whole of a unit** is steady if its body is, with the check of labels at its end. -/
theorem steady_wholeUnit {name : String} {kind : UnitKind} {body : Emit Unit}
    (hbody : Steady o o' body) :
    Steady o o' (wholeUnit name kind tag body) := by
  have hfinish : Steady o o' (do
      emit .ret
      let cx ← get
      let unit := cx.finish kind
      match unit.checkLabels with
      | .ok () => return unit
      | .error e => throw e : Emit CodeUnit) := by
    refine (steady_emit _).bind fun _ => .read ?_
    rintro cx _ ⟨session', h, rfl⟩
    -- The unit is made of what the two contexts have in common.
    exact steady_checked (cx.finish kind) ⟨session', h, rfl⟩
  refine steady_enterScope.bind fun _ => hbody.bind fun _ => steady_exitScope.bind fun _ => .read ?_
  rintro cx _ ⟨session', h, rfl⟩
  exact (Respects.ite ((Respects.throw _).bind fun _ => hfinish) hfinish) ⟨session', h, rfl⟩

end Emit

namespace Session

variable {o o' : Outside} {name : String} {tag : Tag} {kind : UnitKind}
  {body : Emit Unit}

theorem respects_record (event : Event) : Respects (Alike o o') (record event) :=
  .modify fun _ _ h => h.note event

/-- What is made of the answer of the resolver, which is the same in both runs. -/
theorem respects_outcome (outcome : Except CompileError TaskInfo) : Respects (Alike o o')
    (match outcome with
    | .error e => throw e
    | .ok task =>
      if task.name = name then pure task
      else throw (.invalidTaskUnit name (.holdsUnit task.name)) : SessionM TaskInfo) := by
  rcases outcome with e | task
  · exact .throw e
  · exact .ite (.pure task) (.throw _)

/-- **Asking for a task** depends on the units of the session, and on what lies outside. This is the
only place where the resolver and the search path are looked at. -/
theorem respects_resolveTask (ho : o.Alike o') :
    Respects (Alike o o') (resolveTask name tag) := by
  unfold resolveTask
  rcases hname : checkUnitName name tag with e | ⟨⟩
  · exact .throw e
  refine .read ?_
  intro session session' h
  obtain ⟨rfl, rfl, hunits, hbegun⟩ := id h
  dsimp only
  rw [hunits, hbegun]
  cases session.units.find? (fun unit => unit.name == name) with
  | some unit => exact .ok h
  | none =>
    cases session.inProgress.lookup name with
    | some kind => exact .ok h
    | none =>
      rw [show session'.config.taskSearchPath = session.config.taskSearchPath from ho.searchPath]
      cases hlist : session.config.taskSearchPath with
      | none => exact .error h
      | some list =>
        dsimp only
        cases hparse : SearchPath.parse list with
        | error e => exact .error h
        | ok path =>
          have houtcome : (session'.resolver name path).outcome =
              (session.resolver name path).outcome :=
            ho.outcome (checkUnitName_eq_ok.1 hname) hlist hparse
          dsimp only
          rw [houtcome]
          exact respects_outcome _ (h.noteAll _ _)

theorem respects_compileBody (h : Emit.Steady o o' body) :
    Respects (Alike o o') (compileBody name kind tag body) := by
  intro session session' halike
  have hcx : Context.Alike o o' { session := session, unitName := name }
      { session := session', unitName := name } := ⟨session', halike, rfl⟩
  unfold compileBody
  rcases (Emit.steady_wholeUnit h hcx).cases with
    ⟨unit, cx, _, hs, ht, session'', h', rfl⟩ | ⟨e, cx, _, hs, ht, session'', h', rfl⟩
  · rw [hs, ht]
    exact .ok h'
  · rw [hs, ht]
    exact .error h'

/-- A unit is begun in both runs, and is no longer begun in either when its body ends, also by an
error. -/
theorem respects_compileBegun (h : Emit.Steady o o' body) :
    Respects (Alike o o') (compileBegun name kind tag body) := by
  intro session session' halike
  have hbegun : Alike o o'
      { session with inProgress := (name, kind) :: session.inProgress }
      { session' with inProgress := (name, kind) :: session'.inProgress } :=
    ⟨halike.left, halike.right, halike.units, congrArg ((name, kind) :: ·) halike.inProgress⟩
  have hbody : Agree (Alike o o') (compileBody name kind tag body _)
      (compileBody name kind tag body _) := respects_compileBody h hbegun
  unfold compileBegun
  rcases hbody.cases with ⟨unit, after, after', hs, ht, h'⟩ | ⟨e, after, after', hs, ht, h'⟩
  · rw [hs, ht]
    exact .ok ⟨h'.left, h'.right, h'.units, congrArg List.tail h'.inProgress⟩
  · rw [hs, ht]
    exact .error ⟨h'.left, h'.right, h'.units, congrArg List.tail h'.inProgress⟩

theorem respects_compileUnit (h : Emit.Steady o o' body) :
    Respects (Alike o o') (compileUnit name kind tag body) := by
  unfold compileUnit
  rcases checkUnitName name tag with e | ⟨⟩
  · exact .throw e
  · exact (respects_record _).bind fun _ => (respects_compileBegun h).bind fun unit =>
      (respects_record _).bind fun _ => .pure unit

/-- A task is added to the finished units of both sessions, and it is the same one. -/
theorem respects_compileTask (h : Emit.Steady o o' body) :
    Respects (Alike o o') (compileTask name tag body) := by
  have hcompile : Respects (Alike o o') (do
      let unit ← compileUnit name .task tag body
      modify fun session => { session with units := session.units ++ [unit] } : SessionM Unit) := by
    refine (respects_compileUnit h).bind fun unit => .modify ?_
    intro session session' halike
    exact ⟨halike.left, halike.right, congrArg (· ++ [unit]) halike.units, halike.inProgress⟩
  refine .read ?_
  intro session session' halike
  have htaken : session'.hasUnit name = session.hasUnit name := by
    rw [hasUnit, hasUnit, halike.units, halike.inProgress]
  rw [htaken]
  exact (Respects.ite ((Respects.throw _).bind fun _ => hcompile) hcompile) halike

end Session

/-! ### The walk -/

section Walk

variable {o o' : Outside}

theorem Emit.steady_requireTask (ho : o.Alike o') (tag : Tag) (name : String) :
    Steady o o' (requireTask tag name) := by
  refine (steady_inSession (Session.respects_resolveTask ho)).bind fun task =>
    .ite ((Respects.throw _).bind fun _ => ?_) ?_
  all_goals exact .ite (.throw _) (.pure ())

open Emit

/-- **Expressions are steady**, by induction on the expression. No task is asked for in them, so
that the resolver plays no part. -/
theorem Expr.steady_compile (e : Expr) : Steady o o' e.compile := by
  induction e with
  | fault tag error => exact steady_enterExpr.bind fun _ => .throw error
  | literal tag constant type => exact steady_enterExpr.bind fun _ => steady_pushConstant _ _
  | var tag name => exact steady_enterExpr.bind fun _ => steady_variableValue name
  | arith tag op left right ihl ihr => exact steady_enterExpr.bind fun _ => steady_arith ihl ihr
  | cast tag target operand ih => exact steady_enterExpr.bind fun _ => steady_cast ih
  | and tag left right ihl ihr | or tag left right ihl ihr =>
    refine steady_enterExpr.bind fun _ => steady_conditional ihl (steady_value ihr) ?_
    rintro _ ⟨⟩
    exact steady_constant _
  | not tag operand ih =>
    refine steady_enterExpr.bind fun _ => steady_conditional ih (steady_constant _) ?_
    rintro _ ⟨⟩
    exact steady_constant _
  | compare tag test left right ihl ihr =>
    refine steady_enterExpr.bind fun _ =>
      steady_conditional (steady_arith ihl ihr) (steady_constant _) ?_
    rintro _ ⟨⟩
    exact steady_constant _

/-- **Statements are steady**, also those that compile a task on the way. By induction on the
statement, for all contexts at once, since a task is compiled in one of its own. -/
theorem Stmt.steady_compile (ho : o.Alike o') (s : Stmt) : Steady o o' s.compile := by
  induction s with
  | nothing => exact .pure ()
  | fault tag error => exact (steady_note _).bind fun _ => .throw error
  | sequence tag first rest ih₁ ih₂ => exact (steady_note _).bind fun _ => ih₁.bind fun _ => ih₂
  | block tag body ih => exact (steady_note _).bind fun _ => ih
  | assign tag name value => exact (steady_note _).bind fun _ => steady_assign value.steady_compile
  | print tag value => exact (steady_note _).bind fun _ => steady_print value.steady_compile
  | assert tag condition =>
    exact (steady_note _).bind fun _ => steady_assert condition.steady_compile
  | sleep tag duration => exact (steady_note _).bind fun _ => steady_sleep duration.steady_compile
  | ifThen tag condition branch ih =>
    exact (steady_note _).bind fun _ => steady_conditional condition.steady_compile ih nofun
  | ifElse tag condition thenBranch elseBranch iht ihe =>
    refine (steady_note _).bind fun _ => steady_conditional condition.steady_compile iht ?_
    rintro _ ⟨⟩
    exact ihe
  | loop tag condition body ih =>
    exact (steady_note _).bind fun _ => steady_loop condition.steady_compile ih
  | spawn tag name =>
    exact (steady_note _).bind fun _ => (steady_requireTask ho tag name).bind fun _ =>
      steady_spawn name
  | spawnInline tag name bodyTag body ih =>
    exact (steady_note _).bind fun _ => (steady_inSession (Session.respects_compileTask ih)).bind
      fun _ => steady_spawn name

end Walk

/-! ### The whole of a compilation -/

namespace Session

/-- **Two sessions whose outsides cannot be told apart** answer a call alike, whatever units and
notes they hold: the call begins by forgetting the units. -/
theorem agree_compileNamed (name : String) (tree : Tree) {session session' : Session}
    (ho : session.outside.Alike session'.outside) :
    Agree (Alike session.outside session'.outside) (compileNamed name tree session)
      (compileNamed name tree session') := by
  have hforget : Alike session.outside session'.outside session.forget session'.forget :=
    ⟨rfl, rfl, rfl, rfl⟩
  have hunit : Respects (Alike session.outside session'.outside)
      (compileUnit name .program tree.tag tree.toStmt.compile) :=
    respects_compileUnit (tree.toStmt.steady_compile ho)
  unfold compileNamed
  rcases (hunit hforget).cases with
    ⟨program, after, after', hs, ht, h⟩ | ⟨e, after, after', hs, ht, h⟩
  · rw [hs, ht]
    dsimp only
    rw [h.units]
    exact .ok ⟨h.left, h.right, rfl, rfl⟩
  · rw [hs, ht]
    exact .error ⟨h.left, h.right, rfl, rfl⟩

/-- **A session compiles a program as a fresh one does**, whatever units and notes it holds. So what
is proved about the plain function holds for sessions. -/
theorem cases_compile (tree : Tree) (session : Session) :
    (∃ c after, compile tree session = .ok c after ∧
      StackUnits.compile session.config session.resolver tree = .ok c) ∨
    ∃ e after, compile tree session = .error e after ∧
      StackUnits.compile session.config session.resolver tree = .error e := by
  have halike : session.outside.Alike (outside ⟨session.config, session.resolver, [], [], []⟩) :=
    .refl _
  unfold StackUnits.compile compile
  rcases (agree_compileNamed session.config.programName tree halike).cases with
    ⟨c, s, t, hs, ht, -⟩ | ⟨e, s, t, hs, ht, -⟩
  · exact .inl ⟨c, s, hs, by rw [ht]⟩
  · exact .inr ⟨e, s, hs, by rw [ht]⟩

end Session

/-- **A program is compiled alike** with outsides that cannot be told apart. Settings that the
compiler does not look at may be different. -/
theorem compile_congr {config config' : Config} {resolver resolver' : Resolver}
    (ho : Outside.Alike ⟨config, resolver⟩ ⟨config', resolver'⟩)
    (hname : config'.programName = config.programName) (tree : Tree) :
    compile config' resolver' tree = compile config resolver tree := by
  have hagree := Session.agree_compileNamed config.programName tree
    (show Outside.Alike (Session.outside { config := config, resolver := resolver })
      (Session.outside { config := config', resolver := resolver' }) from ho)
  unfold compile Session.compile
  rw [hname]
  rcases hagree.cases with ⟨c, s, t, hs, ht, -⟩ | ⟨e, s, t, hs, ht, -⟩
  · rw [hs, ht]
  · rw [hs, ht]

end StackUnits
