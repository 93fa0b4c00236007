import StackUnits.Proofs.Review

/-!
# Where a run of the compiler fails

A run that fails has succeeded up to some point. This file says, for every action of the compiler,
which of its parts that may be: if it is a part that is given as an action, then that is where the
run fails; if it is a check that the action makes itself, then it is one of the checks of
`StackUnits.Proofs.Review`. So nothing is said about the parts that a run has passed, other than
that they have succeeded; what they have left on the type stack is to be supplied, and with it no
value can be missing (`StackUnits.Emit.fails_arith`, `StackUnits.Emit.fails_assign`).

Units are treated in the same way: a unit fails in its body, or when it is finished and its labels
are looked at (`StackUnits.Session.fails_compileUnit`).
-/

namespace StackUnits

/-! ### Actions that fail -/

namespace Action

variable {ε σ α β : Type} {x : EStateM ε σ α} {f : α → EStateM ε σ β} {s s' : σ} {e e' : ε} {a : α}

/-- **An action fails** with an error, whatever state it has reached by then. -/
def Fails (x : EStateM ε σ α) (s : σ) (e : ε) : Prop :=
  ∃ s', x s = .error e s'

/-- **One action after the other fails** in the first, or in the second after the first has
succeeded. -/
theorem fails_bind :
    Fails (x >>= f) s e ↔ Fails x s e ∨ ∃ a s', x s = .ok a s' ∧ Fails (f a) s' e := by
  simp only [Fails, bind_eq_error]
  constructor
  · rintro ⟨t, h | ⟨a, s', hx, h⟩⟩
    · exact .inl ⟨t, h⟩
    · exact .inr ⟨a, s', hx, t, h⟩
  · rintro (⟨t, h⟩ | ⟨a, s', hx, t, h⟩)
    · exact ⟨t, .inl h⟩
    · exact ⟨t, .inr ⟨a, s', hx, h⟩⟩

/-- What comes after an action that succeeds may fail, and then the whole fails in the same way. -/
theorem fails_bind_of_ok (h : x s = .ok a s') : Fails (x >>= f) s e ↔ Fails (f a) s' e := by
  rw [Fails, Fails, bind_run h]

theorem fails_throw : Fails (throw e' : EStateM ε σ α) s e ↔ e' = e := by
  constructor
  · rintro ⟨t, ht⟩
    cases ht
    rfl
  · rintro rfl
    exact ⟨s, rfl⟩

theorem not_fails (h : x s = .ok a s') : ¬Fails x s e := by
  rintro ⟨t, ht⟩
  rw [h] at ht
  cases ht

theorem fails_discard (h : Fails (discard x : EStateM ε σ PUnit) s e) : Fails x s e := by
  obtain ⟨t, ht⟩ := h
  change EStateM.map _ x s = .error e t at ht
  unfold EStateM.map at ht
  rcases hx : x s with ⟨a, s₁⟩ | ⟨e₁, s₁⟩
  · rw [hx] at ht
    cases ht
  · rw [hx] at ht
    cases ht
    exact ⟨_, hx⟩

/-- A guard fails, or it lets through and what comes after it fails. -/
theorem fails_guard {p : Prop} [Decidable p] {x : EStateM ε σ α} {f : β → EStateM ε σ α} :
    Fails (if p then ((throw e' : EStateM ε σ β) >>= f) else x) s e ↔
      p ∧ e' = e ∨ ¬p ∧ Fails x s e := by
  split
  · rename_i hp
    rw [fails_bind, fails_throw]
    simp [hp]
  · rename_i hp
    simp [hp]

end Action

/-! ### Where the actions of the compiler fail

Each lemma takes the run of an action up to the part that fails, for any actions as its parts. What
is on the type stack then is left to be supplied. -/

namespace OperandType

variable {type target : OperandType} {e : CompileError}

/-- There is no arithmetic for the type, and the error says so without naming a node yet. -/
theorem arithmeticFamily_eq_error (h : type.arithmeticFamily = .error e) :
    type.family? = none ∧ e = .unsupportedOperation "arithmetic" type none := by
  unfold arithmeticFamily at h
  split at h
  · cases h
  · rename_i hnone
    cases h
    exact ⟨hnone, rfl⟩

theorem slotKind_eq_error (h : type.slotKind = .error e) :
    type.slotKind? = none ∧ e = .unsupportedOperation "local variable access" type none := by
  unfold slotKind at h
  split at h
  · cases h
  · rename_i hnone
    cases h
    exact ⟨hnone, rfl⟩

theorem conversionTo_eq_error (h : type.conversionTo target = .error e) :
    type.conversionTo? target = none ∧ e = .unsupportedConversion type target none := by
  unfold conversionTo at h
  split at h
  · cases h
  · rename_i hnone
    cases h
    exact ⟨hnone, rfl⟩

end OperandType

namespace Emit

open StackUnits.Action OperandType

variable {α : Type} {cx cx' : Context} {tag : Tag} {e : CompileError}

/-! Single steps that cannot fail are passed; the run goes on in the context after them. -/

theorem fails_emit_bind {instr : Instruction} {f : Unit → Emit α} :
    Fails (emit instr >>= f) cx e ↔ Fails (f ()) (cx.wrote instr) e :=
  fails_bind_of_ok rfl

theorem fails_newLabel_bind {f : Label → Emit α} :
    Fails (newLabel >>= f) cx e ↔ Fails (f cx.label) cx.labelled e :=
  fails_bind_of_ok rfl

theorem fails_enterExpr_bind {f : Unit → Emit α} :
    Fails (enterExpr tag >>= f) cx e ↔
      Fails (f ()) (cx.noted (.expression tag cx.types.depth)) e :=
  fails_bind_of_ok rfl

theorem fails_enterStmt_bind {f : Unit → Emit α} :
    Fails (enterStmt tag >>= f) cx e ↔ Fails (f ()) (cx.noted (.statement tag)) e :=
  fails_bind_of_ok rfl

/-- A value that is there is taken off. -/
theorem fails_pop_bind {type : OperandType} {rest : Pile OperandType} {f : OperandType → Emit α}
    (h : cx.types.entries = rest.push type) :
    Fails (pop tag >>= f) cx e ↔ Fails (f type) (cx.popped rest) e :=
  fails_bind_of_ok (pop_eq_ok.2 ⟨rest, h, rfl⟩)

/-- A requirement that is not met fails with its error, which now names the node. -/
theorem fails_require {result : Except CompileError α} :
    Fails (require tag result) cx e ↔ ∃ e', result = .error e' ∧ e = e'.located tag := by
  rcases result with e' | a
  · refine fails_throw.trans ⟨fun h => ⟨e', rfl, h.symm⟩, ?_⟩
    rintro ⟨_, ⟨⟩, rfl⟩
    rfl
  · refine ⟨fun h => absurd h (not_fails rfl), ?_⟩
    rintro ⟨_, ⟨⟩, -⟩

/-- A value that is there can be taken off; it may be of the wrong type. That nothing is there is an
error of its own, which is excluded by what is known of the type stack. -/
theorem tested_of_fails {type : OperandType} {rest : Pile OperandType}
    (hentries : cx.types.entries = rest.push type) (h : Fails (popInt tag) cx e) :
    tested tag type = .error e := by
  rw [popInt, fails_pop_bind hentries] at h
  by_cases htype : type.isIntCategory = true
  · rw [if_pos htype] at h
    exact absurd h (not_fails rfl)
  · rw [if_neg htype, fails_throw] at h
    rw [tested, if_neg htype, h]

theorem fails_inSession {action : SessionM α} (h : Fails (inSession action) cx e) :
    Fails action cx.session e := by
  obtain ⟨t, ht⟩ := h
  unfold inSession at ht
  rcases hrun : action cx.session with ⟨a, s⟩ | ⟨e', s⟩
  · rw [hrun] at ht
    cases ht
  · rw [hrun] at ht
    cases ht
    exact ⟨s, hrun⟩

/-- A value that is tested: its code fails, or it is of the wrong type, or what follows fails. -/
theorem fails_value_bind {value f : Emit Unit} :
    Fails (do value; discard (popInt tag); f) cx e ↔
      Fails (Arm.value tag value).action cx e ∨
        ∃ start, (Arm.value tag value).action cx = .ok () start ∧ Fails f start e := by
  have hassoc : (do value; discard (popInt tag); f) =
      ((Arm.value tag value).action >>= fun _ => f) := (bind_assoc _ _ _).symm
  rw [hassoc, fails_bind]
  exact or_congr_right ⟨fun ⟨_, h⟩ => h, fun h => ⟨(), h⟩⟩

theorem fails_value {value : Emit Unit} (h : Fails (Arm.value tag value).action cx e) :
    Fails value cx e ∨ ∃ cx₁, value cx = .ok () cx₁ ∧ Fails (popInt tag) cx₁ e := by
  rcases fails_bind.1 h with h | ⟨⟨⟩, cx₁, hv, h⟩
  · exact .inl h
  · exact .inr ⟨cx₁, hv, fails_discard h⟩

/-- **Arithmetic fails** in one of its operands, or because the two do not go together. The context
is that in which the operand is compiled, so the right one fails in what the left one has left. -/
theorem fails_arith {op : ArithOp} {l r : Emit Unit} (h : Fails (Emit.arith tag op l r) cx e) :
    Fails l cx e ∨ ∃ cx₁, l cx = .ok () cx₁ ∧ (Fails r cx₁ e ∨
      ∃ cx₂, r cx₁ = .ok () cx₂ ∧ ∀ {rest : Pile OperandType} {tl tr : OperandType},
        cx₂.types.entries = (rest.push tl).push tr → combined tag tl tr = .error e) := by
  rcases fails_bind.1 h with h | ⟨⟨⟩, cx₁, hl, h⟩
  · exact .inl h
  refine .inr ⟨cx₁, hl, ?_⟩
  rcases fails_bind.1 h with h | ⟨⟨⟩, cx₂, hr, h⟩
  · exact .inl h
  refine .inr ⟨cx₂, hr, fun {rest tl tr} hentries => ?_⟩
  have hbelow : (cx₂.popped (rest.push tl)).types.entries = rest.push tl := rfl
  rw [fails_pop_bind hentries, fails_pop_bind hbelow, fails_guard] at h
  rcases h with ⟨hne, rfl⟩ | ⟨heq, h⟩
  · rw [combined, if_neg hne]
  · obtain rfl := Decidable.not_not.1 heq
    rw [combined, if_pos rfl]
    rcases fails_bind.1 h with h | ⟨family, _, -, h⟩
    · obtain ⟨_, hresult, rfl⟩ := fails_require.1 h
      obtain ⟨hnone, rfl⟩ := arithmeticFamily_eq_error hresult
      rw [hnone]
      rfl
    · exact absurd h (not_fails rfl)

/-- **A cast fails** in its operand, or because the table has no conversion. Which type the operand
has left is a premise of the second case, and is known from elsewhere. -/
theorem fails_cast {target : OperandType} {operand : Emit Unit}
    (h : Fails (Emit.cast tag target operand) cx e) :
    Fails operand cx e ∨ ∃ cx₁, operand cx = .ok () cx₁ ∧
      ∀ {rest : Pile OperandType} {source : OperandType}, cx₁.types.entries = rest.push source →
        converted tag source target = .error e := by
  rcases fails_bind.1 h with h | ⟨⟨⟩, cx₁, hv, h⟩
  · exact .inl h
  refine .inr ⟨cx₁, hv, fun {rest source} hentries => ?_⟩
  rw [fails_pop_bind hentries] at h
  rcases fails_bind.1 h with h | ⟨conversion, _, -, h⟩
  · obtain ⟨_, hresult, rfl⟩ := fails_require.1 h
    obtain ⟨hnone, rfl⟩ := conversionTo_eq_error hresult
    rw [converted, hnone]
    rfl
  · rw [fails_bind_of_ok (convert_eq_ok (u := ()).2 rfl)] at h
    exact absurd h (not_fails rfl)

/-- A variable is not known, or it is of a type that no variable has; the second never happens with
a tidy table. -/
theorem fails_variableValue {name : String} (h : Fails (variableValue tag name) cx e) :
    cx.symbols.lookup name = none ∧ e = .unknownVariable name ∨
      ∃ info, cx.symbols.lookup name = some info ∧ info.type.slotKind? = none := by
  rw [variableValue, fails_bind_of_ok (lookup_eq_ok.2 ⟨rfl, rfl⟩)] at h
  rcases hinfo : cx.symbols.lookup name with _ | info
  · rw [hinfo] at h
    exact .inl ⟨rfl, (fails_throw.1 h).symm⟩
  · rw [hinfo] at h
    refine .inr ⟨info, rfl, ?_⟩
    rcases fails_bind.1 h with h | ⟨kind, _, -, h⟩
    · obtain ⟨_, hresult, -⟩ := fails_require.1 h
      exact (slotKind_eq_error hresult).1
    · exact absurd h (not_fails rfl)

/-- **A conditional with two arms** fails in its condition or in one of its arms. That the arms
agree on leaving a value is asked for, since that they do not would be a failure as well. -/
theorem fails_conditional {condition : Emit Unit} {skip : ZeroTest} {a b : Arm}
    (hyields : b.yields = a.yields)
    (h : Fails (conditional tag condition skip a (some b)) cx e) :
    Fails (Arm.value tag condition).action cx e ∨
      ∃ start, (Arm.value tag condition).action cx = .ok () start ∧
        (Fails a.action (start.opened skip) e ∨
          ∃ cx₂, a.action (start.opened skip) = .ok () cx₂ ∧
            Fails b.action (cx₂.turned start) e) := by
  rcases fails_value_bind.1 h with h | ⟨start, hstart, h⟩
  · exact .inl h
  refine .inr ⟨start, hstart, ?_⟩
  rw [fails_newLabel_bind] at h
  -- The arms agree, so the check that they do goes through.
  dsimp only at h
  rw [hyields, bne_self_eq_false, if_neg Bool.false_ne_true, fails_newLabel_bind,
    fails_emit_bind] at h
  rcases fails_bind.1 h with h | ⟨⟨⟩, cx₂, ha, h⟩
  · exact .inl h
  refine .inr ⟨cx₂, ha, ?_⟩
  rw [fails_emit_bind, fails_emit_bind] at h
  rcases fails_bind.1 h with h | ⟨⟨⟩, cx₃, -, h⟩
  · exact h
  · rw [fails_emit_bind] at h
    cases hy : a.yields with
    | true =>
      rw [hy] at h
      exact absurd h (not_fails rfl)
    | false =>
      rw [hy] at h
      exact absurd h (not_fails rfl)

/-- **A conditional with two arms** that are statements. -/
theorem fails_choice {condition first second : Emit Unit} {skip : ZeroTest}
    (h : Fails (conditional tag condition skip (.statement first) (some (.statement second))) cx
      e) :
    Fails (Arm.value tag condition).action cx e ∨
      ∃ start, (Arm.value tag condition).action cx = .ok () start ∧
        (Fails first (start.opened skip) e ∨
          ∃ cx₂, first (start.opened skip) = .ok () cx₂ ∧ Fails second (cx₂.turned start) e) :=
  fails_conditional (b := .statement second) (a := .statement first) rfl h

/-- **A conditional with one arm** fails in its condition or in its arm. -/
theorem fails_option {condition body : Emit Unit} {skip : ZeroTest}
    (h : Fails (conditional tag condition skip (.statement body) none) cx e) :
    Fails (Arm.value tag condition).action cx e ∨
      ∃ start, (Arm.value tag condition).action cx = .ok () start ∧
        Fails body (start.labelled.wrote (.jumpIf skip start.label)) e := by
  rcases fails_value_bind.1 h with h | ⟨start, hstart, h⟩
  · exact .inl h
  refine .inr ⟨start, hstart, ?_⟩
  rw [fails_newLabel_bind] at h
  dsimp only at h
  rw [fails_emit_bind] at h
  rcases fails_bind.1 h with h | ⟨⟨⟩, cx₂, -, h⟩
  · exact h
  · exact absurd h (not_fails rfl)

/-- **A loop** fails in its condition or in its body. The labels are made before, which does not
fail. -/
theorem fails_loop {condition body : Emit Unit} (h : Fails (loop tag condition body) cx e) :
    Fails (Arm.value tag condition).action (cx.labelled.labelled.wrote (.label cx.label)) e ∨
      ∃ start, (Arm.value tag condition).action (cx.labelled.labelled.wrote (.label cx.label)) =
          .ok () start ∧
        Fails body (start.wrote (.jumpIf .eq cx.labelled.label)) e := by
  rw [loop, fails_newLabel_bind, fails_newLabel_bind, fails_emit_bind] at h
  rcases fails_value_bind.1 h with h | ⟨start, hstart, h⟩
  · exact .inl h
  refine .inr ⟨start, hstart, ?_⟩
  rw [fails_emit_bind] at h
  rcases fails_bind.1 h with h | ⟨⟨⟩, cx₂, -, h⟩
  · exact h
  · exact absurd h (not_fails rfl)

/-- What follows the condition of an assertion cannot fail. -/
theorem fails_assert {condition : Emit Unit} (h : Fails (Emit.assert tag condition) cx e) :
    Fails (Arm.value tag condition).action cx e := by
  rcases fails_value_bind.1 h with hv | ⟨start, hstart, -⟩
  · exact hv
  · obtain ⟨cx₁, type, rest, hv, hentries, htype, rfl⟩ := value_eq_ok.1 hstart
    exact absurd h (not_fails (assert_eq_ok (u := ()).2
      ⟨cx₁, type, rest, hv, hentries, htype, rfl⟩))

/-- What follows the duration of a sleep cannot fail. -/
theorem fails_sleep {duration : Emit Unit} (h : Fails (Emit.sleep tag duration) cx e) :
    Fails (Arm.value tag duration).action cx e := by
  rcases fails_value_bind.1 h with hv | ⟨start, hstart, -⟩
  · exact hv
  · obtain ⟨cx₁, type, rest, hv, hentries, htype, rfl⟩ := value_eq_ok.1 hstart
    exact absurd h (not_fails (sleep_eq_ok (u := ()).2
      ⟨cx₁, type, rest, hv, hentries, htype, rfl⟩))

/-- **Printing fails** in the value, or because values of its type cannot be printed. The line
printer has been pushed by then. -/
theorem fails_print {value : Emit Unit} (h : Fails (Emit.print tag value) cx e) :
    Fails value ((cx.wrote Code.printer).pushed .reference) e ∨
      ∃ cx₁, value ((cx.wrote Code.printer).pushed .reference) = .ok () cx₁ ∧
        ∀ {rest : Pile OperandType} {printer type : OperandType},
          cx₁.types.entries = (rest.push printer).push type →
            type.printDescriptor? = none ∧ e = .unsupportedPrintType type tag.text := by
  have hrun := h
  rw [Emit.print, fails_emit_bind, fails_bind_of_ok (pushType_eq_ok (u := ()).2 rfl)] at hrun
  rcases fails_bind.1 hrun with hrun | ⟨⟨⟩, cx₁, hv, hrun⟩
  · exact .inl hrun
  refine .inr ⟨cx₁, hv, fun {rest printer type} hentries => ?_⟩
  rw [fails_pop_bind hentries] at hrun
  rcases hdescriptor : type.printDescriptor? with _ | descriptor
  · rw [hdescriptor] at hrun
    exact ⟨rfl, (fails_throw.1 hrun).symm⟩
  · exact absurd h (not_fails (print_eq_ok (u := ()).2
      ⟨cx₁, type, rest, printer, descriptor, hv, hentries, hdescriptor, rfl⟩))

/-- **An assignment fails** in its value or because its name is known with another type. A
declaration never does, if there is a frame for it; and the type of a value is always one that a
variable can have. -/
theorem fails_assign {name : String} {value : Emit Unit} (h : Fails (assign tag name value) cx e) :
    Fails value cx e ∨ ∃ cx₁, value cx = .ok () cx₁ ∧
      ∀ {rest : Pile OperandType} {type : OperandType} {kind : SlotKind},
        cx₁.types.entries = rest.push type → type.slotKind? = some kind →
          cx₁.symbols.frames ≠ [] →
            ∃ info, cx₁.symbols.lookup name = some info ∧ info.type ≠ type ∧
              e = .typeMismatch (SymbolTable.nameText name) (.type info.type) type := by
  rcases fails_bind.1 h with hv | ⟨⟨⟩, cx₁, hv, hrun⟩
  · exact .inl hv
  refine .inr ⟨cx₁, hv, fun {rest type kind} hentries hkind hframes => ?_⟩
  by_cases hsame : ∀ info, cx₁.symbols.lookup name = some info → info.type = type
  · obtain ⟨slot, table, hslot⟩ := SymbolTable.exists_assigns hframes hsame
    exact absurd h (not_fails (assign_eq_ok (u := ()).2
      ⟨cx₁, type, rest, slot, table, kind, hv, hentries, hslot, hkind, rfl⟩))
  · simp only [not_forall] at hsame
    obtain ⟨info, hinfo, hne⟩ := hsame
    have hlookup : lookup name (cx₁.popped rest) = .ok (some info) (cx₁.popped rest) :=
      lookup_eq_ok.2 ⟨hinfo.symm, rfl⟩
    rw [fails_pop_bind hentries, fails_bind_of_ok hlookup] at hrun
    rcases fails_guard.1 hrun with ⟨-, he⟩ | ⟨hsame, -⟩
    · exact ⟨info, hinfo, hne, he.symm⟩
    · exact absurd hne hsame

end Emit

/-! ### Tasks and units -/

/-- A task that is asked for is not found, or it cannot be created or run. -/
theorem Emit.fails_requireTask {cx : Context} {tag : Tag} {name : String} {e : CompileError}
    (h : Action.Fails (requireTask tag name) cx e) :
    Action.Fails (Session.resolveTask name tag) cx.session e ∨
      ∃ task session, Session.resolveTask name tag cx.session = .ok task session ∧
        task.startable name = .error e := by
  rcases Action.fails_bind.1 h with h | ⟨task, cx₁, hok, h⟩
  · exact .inl (fails_inSession h)
  obtain ⟨session, hresolve, rfl⟩ := inSession_eq_ok.1 hok
  refine .inr ⟨task, session, hresolve, ?_⟩
  rw [TaskInfo.startable]
  rcases Action.fails_guard.1 h with ⟨hnot, rfl⟩ | ⟨hconstructor, h⟩
  · rw [if_neg (by simpa using hnot)]
  rw [if_pos (by simpa using hconstructor)]
  split at h
  · rename_i hnot
    rw [if_neg (by simpa using hnot), Action.fails_throw.1 h]
  · exact absurd h (Action.not_fails rfl)

/-- **A unit fails** in its body, or because its labels are not in order; a scope that is open can
be left, and no value is left on a type stack that is empty. The two conditions are to be supplied,
as they are known of a body that has succeeded. -/
theorem Emit.fails_wholeUnit {name : String} {kind : UnitKind} {tag : Tag} {body : Emit Unit}
    {cx : Context} {e : CompileError} (h : Action.Fails (wholeUnit name kind tag body) cx e) :
    Action.Fails body (cx.retabled cx.symbols.enterScope) e ∨
      ∃ cx₁, body (cx.retabled cx.symbols.enterScope) = .ok () cx₁ ∧
        ∀ {table : SymbolTable}, cx₁.symbols.exitScope = .ok table → cx₁.types.depth = 0 →
          (((cx₁.retabled table).wrote .ret).finish kind).checkLabels = .error e := by
  have henter : enterScope cx = .ok () (cx.retabled cx.symbols.enterScope) := rfl
  rw [wholeUnit, Action.fails_bind_of_ok henter] at h
  rcases Action.fails_bind.1 h with h | ⟨⟨⟩, cx₁, hbody, h⟩
  · exact .inl h
  refine .inr ⟨cx₁, hbody, fun {table} htable hdepth => ?_⟩
  have hexit : exitScope cx₁ = .ok () (cx₁.retabled table) := by
    unfold exitScope
    rw [htable]
    rfl
  rw [Action.fails_bind_of_ok hexit, Action.fails_bind_of_ok (Action.get_eq_ok.2 ⟨rfl, rfl⟩)] at h
  rcases Action.fails_guard.1 h with ⟨hne, -⟩ | ⟨-, h⟩
  · exact absurd hdepth hne
  rw [fails_emit_bind, Action.fails_bind_of_ok (Action.get_eq_ok.2 ⟨rfl, rfl⟩)] at h
  rcases hcheck : (((cx₁.retabled table).wrote .ret).finish kind).checkLabels with e' | ⟨⟩
  · simp only [hcheck] at h
    rw [Action.fails_throw.1 h]
  · simp only [hcheck] at h
    exact absurd h (Action.not_fails rfl)

namespace Session

open StackUnits.Action Emit

variable {session : Session} {w : World} {units : List CodeUnit} {name : String}
  {kind : UnitKind} {tag : Tag} {e : CompileError}

theorem fails_compileBegun {body : Emit Unit}
    (h : Fails (compileBegun name kind tag body) session e) :
    Fails body (Context.starting session name kind) e ∨
      ∃ cx, body (Context.starting session name kind) = .ok () cx ∧
        ∀ {table : SymbolTable}, cx.symbols.exitScope = .ok table → cx.types.depth = 0 →
          (((cx.retabled table).wrote .ret).finish kind).checkLabels = .error e := by
  obtain ⟨after, h⟩ := h
  unfold compileBegun compileBody at h
  rcases hrun : wholeUnit name kind tag body _ with ⟨unit, cx⟩ | ⟨e', cx⟩
  · rw [hrun] at h
    cases h
  · rw [hrun] at h
    cases h
    exact fails_wholeUnit ⟨cx, hrun⟩

/-- **Where a unit fails to compile**: its name will not do, or its body fails, or it is finished
and its labels are not in order. In the last two cases the body is that of a statement, and is
compiled from a draft with nothing in it. -/
theorem fails_compileUnit {body : Stmt} (hs : session.At w units)
    (h : Fails (compileUnit name kind tag body.compile) session e) :
    checkUnitName name tag = .error e ∨ checkUnitName name tag = .ok () ∧
      ((∃ cx : Context, cx.At (w.begin name kind) (.fresh units) ∧ Fails body.compile cx e) ∨
        ∃ code d, body.HasCode (w.begin name kind) (.fresh units) code d ∧
          (d.unit name kind body.peak code).checkLabels = .error e) := by
  unfold compileUnit at h
  rcases hname : checkUnitName name tag with e' | ⟨⟩
  · rw [hname] at h
    exact .inl (congrArg Except.error (fails_throw.1 h))
  rw [hname] at h
  refine .inr ⟨rfl, ?_⟩
  have hrecord : record (.unitBegun name kind) session =
      .ok () (session.note (.unitBegun name kind)) := rfl
  change Fails (record _ >>= fun _ => _) session e at h
  rw [fails_bind_of_ok hrecord] at h
  rcases fails_bind.1 h with h | ⟨unit, after, -, h⟩
  · have hat : (Context.starting (session.note (.unitBegun name kind)) name kind).At
        (w.begin name kind) (.fresh units) := .starting (hs.note _) name kind
    rcases fails_compileBegun h with h | ⟨cx, hrun, h⟩
    · exact .inl ⟨_, hat, h⟩
    · obtain ⟨code, d, hcode, harrives⟩ := Stmt.compile_sound hat hrun
      -- The table of a unit has a frame, which can be left.
      have hframes := (hcode.tidy (SymbolTable.tidy_fresh units)).frames_ne_nil
      obtain ⟨table, htable⟩ := harrives.stands.exists_exitScope hframes
      refine .inr ⟨code, d, hcode, ?_⟩
      rw [← finish_eq kind harrives htable]
      exact h htable harrives.depth_eq
  · exact absurd h (not_fails rfl)

/-- **A task given on the spot fails** because its name is taken, or as a unit does. -/
theorem fails_compileTask {body : Emit Unit}
    (h : Fails (compileTask name tag body) session e) :
    session.hasUnit name = true ∧ e = tag.malformed (.nameTaken name) ∨
      session.hasUnit name = false ∧ Fails (compileUnit name .task tag body) session e := by
  rw [compileTask, fails_bind_of_ok (get_eq_ok.2 ⟨rfl, rfl⟩)] at h
  rcases fails_guard.1 h with ⟨htaken, rfl⟩ | ⟨hfree, h⟩
  · exact .inl ⟨htaken, rfl⟩
  refine .inr ⟨by simpa using hfree, ?_⟩
  rcases fails_bind.1 h with h | ⟨unit, after, -, h⟩
  · exact h
  · exact absurd h (not_fails rfl)

end Session

/-- The check of labels complains about the unit as a whole: there is no node to point to. -/
theorem CodeUnit.exists_of_checkLabels {unit : CodeUnit} {e : CompileError}
    (h : unit.checkLabels = .error e) : ∃ fault, e = .artifact unit.name fault := by
  unfold checkLabels at h
  dsimp only at h
  split at h
  · cases h
    exact ⟨_, rfl⟩
  · split at h
    · cases h
      exact ⟨_, rfl⟩
    · cases h

end StackUnits
