import StackUnits.Proofs.Code

/-!
# What an action of the compiler does when it succeeds

The compiler is written as actions that may fail at any point. A proof about what it
writes only ever looks at runs that succeed, and this file says what those are: for
every action an equivalence between "it succeeds, and arrives at this context" and the
conditions under which it does, with the context spelt out.

The contexts are spelt by five small functions, one for each way in which a context
changes (`StackUnits.Context.noted`, `wrote`, `pushed`, `popped`, `labelled`). The
equivalences for the larger actions, such as
`StackUnits.Emit.conditional_eq_ok`, are stated for *any* actions as their parts, so
they are used twice: read from left to right they take a run apart, and read from right
to left they put one together.
-/

namespace StackUnits

/-! ### Actions in general -/

namespace Action

variable {ε σ α β : Type}

/-- **Two actions succeed one after the other** if the first succeeds and then the second does. It
is with this equivalence that every run below is taken apart and put together. -/
@[simp]
theorem bind_eq_ok {x : EStateM ε σ α} {f : α → EStateM ε σ β} {s s'' : σ} {b : β} :
    (x >>= f) s = .ok b s'' ↔ ∃ a s', x s = .ok a s' ∧ f a s' = .ok b s'' := by
  change EStateM.bind x f s = .ok b s'' ↔ _
  unfold EStateM.bind
  rcases h : x s with ⟨a, s'⟩ | ⟨e, s'⟩
  · constructor
    · intro hf
      exact ⟨a, s', rfl, hf⟩
    · rintro ⟨a', t, ht, hf⟩
      cases ht
      exact hf
  · simp

@[simp]
theorem pure_eq_ok {a b : α} {s s' : σ} :
    (pure a : EStateM ε σ α) s = .ok b s' ↔ b = a ∧ s' = s := by
  change EStateM.Result.ok a s = .ok b s' ↔ _
  rw [EStateM.Result.ok.injEq, eq_comm, eq_comm (a := s)]

@[simp]
theorem throw_eq_ok {e : ε} {b : α} {s s' : σ} :
    (throw e : EStateM ε σ α) s = .ok b s' ↔ False := by
  change EStateM.Result.error e s = .ok b s' ↔ False
  simp

@[simp]
theorem get_eq_ok {a s s' : σ} : (get : EStateM ε σ σ) s = .ok a s' ↔ a = s ∧ s' = s := by
  change EStateM.Result.ok s s = .ok a s' ↔ _
  rw [EStateM.Result.ok.injEq, eq_comm, eq_comm (a := s) (b := s')]

@[simp]
theorem set_eq_ok {t s s' : σ} {u : PUnit} : (set t : EStateM ε σ PUnit) s = .ok u s' ↔ s' = t := by
  change EStateM.Result.ok ⟨⟩ t = .ok u s' ↔ _
  rw [EStateM.Result.ok.injEq, eq_comm (a := t)]
  exact and_iff_right rfl

@[simp]
theorem modify_eq_ok {f : σ → σ} {s s' : σ} {u : PUnit} :
    (modify f : EStateM ε σ PUnit) s = .ok u s' ↔ s' = f s := by
  change EStateM.Result.ok ⟨⟩ (f s) = .ok u s' ↔ _
  rw [EStateM.Result.ok.injEq, eq_comm (a := f s)]
  exact and_iff_right rfl

@[simp]
theorem discard_eq_ok {x : EStateM ε σ α} {s s' : σ} {u : PUnit} :
    (discard x : EStateM ε σ PUnit) s = .ok u s' ↔ ∃ a, x s = .ok a s' := by
  change EStateM.map _ x s = .ok u s' ↔ _
  unfold EStateM.map
  rcases x s with ⟨a, t⟩ | ⟨e, t⟩
  · simp
  · simp

/-- A run goes on where its first action ends. This is the form for rewriting, when it is known how
the first action ends. -/
theorem bind_run {x : EStateM ε σ α} {f : α → EStateM ε σ β} {s s' : σ} {a : α}
    (h : x s = .ok a s') : (x >>= f) s = f a s' := by
  change EStateM.bind x f s = f a s'
  rw [EStateM.bind, h]

/-- An action fails in its first part or in its second, and in the second case the first has
succeeded. -/
theorem bind_eq_error {x : EStateM ε σ α} {f : α → EStateM ε σ β} {s s'' : σ} {e : ε} :
    (x >>= f) s = .error e s'' ↔
      x s = .error e s'' ∨ ∃ a s', x s = .ok a s' ∧ f a s' = .error e s'' := by
  change EStateM.bind x f s = .error e s'' ↔ _
  unfold EStateM.bind
  rcases x s with ⟨a, s'⟩ | ⟨e', s'⟩
  · constructor
    · intro hf
      exact .inr ⟨a, s', rfl, hf⟩
    · rintro (⟨⟨⟩⟩ | ⟨_, _, ⟨⟩, hf⟩)
      exact hf
  · simp

/-- A choice between two actions is a choice between what they do. -/
theorem ite_run {p : Prop} [Decidable p] {x y : EStateM ε σ α} {s : σ} :
    (if p then x else y) s = if p then x s else y s := by
  split
  · rfl
  · rfl

/-- A guard that fails its action: what comes after runs only if it lets through. A conditional
without an alternative is elaborated into this form, with what follows it repeated in both
branches. -/
theorem guard_eq_ok {p : Prop} [Decidable p] {e : ε} {x : EStateM ε σ α} {f : β → EStateM ε σ α}
    {s s' : σ} {b : α} :
    (if p then ((throw e : EStateM ε σ β) >>= f) else x) s = .ok b s' ↔
      ¬p ∧ x s = .ok b s' := by
  rw [ite_run]
  split
  · rename_i hp
    rw [bind_eq_ok]
    constructor
    · rintro ⟨a, t, ht, -⟩
      exact absurd ht (by simp [throw_eq_ok])
    · rintro ⟨hn, -⟩
      exact absurd hp hn
  · rename_i hp
    exact (and_iff_right hp).symm

/-- An action whose answer is known has succeeded. -/
theorem exists_of_run'_eq_some {x : EStateM ε σ α} {s : σ} {a : α} (h : x.run' s = some a) :
    ∃ s', x s = .ok a s' := by
  unfold EStateM.run' EStateM.run at h
  rcases hrun : x s with ⟨b, s'⟩ | ⟨e, s'⟩
  · rw [hrun] at h
    cases h
    exact ⟨s', rfl⟩
  · rw [hrun] at h
    cases h

/-- An action without an answer has failed. -/
theorem exists_of_run'_eq_none {x : EStateM ε σ α} {s : σ} (h : x.run' s = none) :
    ∃ e s', x s = .error e s' := by
  unfold EStateM.run' EStateM.run at h
  rcases hrun : x s with ⟨b, s'⟩ | ⟨e, s'⟩
  · rw [hrun] at h
    cases h
  · exact ⟨e, s', rfl⟩

end Action

theorem Pile.push_inj {α : Type} {p q : Pile α} {a b : α} :
    p.push a = q.push b ↔ p = q ∧ a = b := by
  rw [Pile.ext_iff, Pile.ext_iff, Pile.items_push, Pile.items_push, List.cons.injEq, and_comm]

/-! ### Requirements on types -/

namespace OperandType

/-- The families of the arithmetic instructions are asked for in two ways, one of which says why
there is none. -/
theorem arithmeticFamily_eq_ok {t : OperandType} {family : Family} :
    t.arithmeticFamily = .ok family ↔ t.family? = some family := by
  unfold arithmeticFamily
  rcases t.family? with _ | f
  · simp
  · simp

theorem slotKind_eq_ok {t : OperandType} {kind : SlotKind} :
    t.slotKind = .ok kind ↔ t.slotKind? = some kind := by
  unfold slotKind
  rcases t.slotKind? with _ | k
  · simp
  · simp

theorem conversionTo_eq_ok {t target : OperandType} {conversion : Conversion} :
    t.conversionTo target = .ok conversion ↔ t.conversionTo? target = some conversion := by
  unfold conversionTo
  rcases t.conversionTo? target with _ | c
  · simp
  · simp

end OperandType

/-! ### Ways in which a context changes -/

namespace Context

/-- The context with one more note in the journal. -/
def noted (cx : Context) (event : Event) : Context :=
  { cx with session := cx.session.note event }

/-- The context with one more instruction, and the note that is made of it. -/
def wrote (cx : Context) (instr : Instruction) : Context :=
  { cx.noted (.emit cx.code.offset instr) with code := cx.code.emit instr }

/-- The context with one more type on the type stack. -/
def pushed (cx : Context) (type : OperandType) : Context :=
  { cx with types := cx.types.push type }

/-- The context with the given types left on the type stack. -/
def popped (cx : Context) (rest : Pile OperandType) : Context :=
  { cx with types := { cx.types with entries := rest } }

/-- The context with one label used up. -/
def labelled (cx : Context) : Context :=
  { cx with code := { cx.code with nextLabel := cx.code.nextLabel + 1 } }

/-- The context with a conversion written, if it needs an instruction. -/
def converted (cx : Context) (conversion : Conversion) : Context :=
  match conversion with
  | .identity => cx
  | conversion => cx.wrote (.convert conversion)

/-- The context with another symbol table. -/
def retabled (cx : Context) (table : SymbolTable) : Context :=
  { cx with symbols := table }

/-- The context with the creation of an object written: two references to it. -/
def created (cx : Context) (cls : String) : Context :=
  (((cx.wrote (.new cls)).pushed .reference).wrote .dup).pushed .reference

/-- The context with a call written, and the given types left by it. -/
def called (cx : Context) (kind : InvokeKind) (owner name descriptor : String)
    (rest : Pile OperandType) : Context :=
  (cx.wrote (.invoke kind ⟨owner, name, descriptor⟩)).popped rest

/-- The label that is used up next. -/
def label (cx : Context) : Label :=
  ⟨cx.code.nextLabel⟩

/-- The context in which the first of two arms begins. -/
def opened (cx : Context) (skip : ZeroTest) : Context :=
  cx.labelled.labelled.wrote (.jumpIf skip cx.labelled.label)

/-- The context in which the second of two arms begins, if `start` is the one after the
condition. -/
def turned (cx start : Context) : Context :=
  (cx.wrote (.jump start.label)).wrote (.label start.labelled.label)

/-- The context after an arm that leaves a constant. -/
def decided (cx : Context) (n : Int32) : Context :=
  ((cx.wrote (.push (.int n))).pushed .boolean).popped cx.types.entries

/-- The context after both arms, `start` being the one after the condition: a value that
they leave is on the type stack once. -/
def joined (cx start : Context) (yields : Bool) : Context :=
  match yields with
  | true => (cx.wrote (.label start.label)).pushed .boolean
  | false => cx.wrote (.label start.label)

/-- The context after an assertion, whose condition led to this one. -/
def asserted (cx : Context) : Context :=
  ((((((((cx.labelled.wrote (.jumpIf .ne cx.label)).created Emit.assertionClass).wrote
    (.push (.string "Assertion failed"))).pushed .reference).called .special Emit.assertionClass
    "<init>" "(Ljava/lang/Object;)V" (cx.types.entries.push .reference)).wrote .throw).popped
    cx.types.entries).wrote (.label cx.label))

/-- The context after a sleep, whose duration led to this one. -/
def slept (cx : Context) : Context :=
  ((cx.wrote (.convert .i2l)).pushed .long).called .static Emit.threadClass "sleep" "(J)V"
    cx.types.entries

/-- The context after the start of a task. -/
def spawned (cx : Context) (task : String) : Context :=
  ((((((cx.noted (.spawn cx.unitName task)).created Emit.threadClass).created task).called .special
    task "<init>" "()V"
    (((cx.types.entries.push .reference).push .reference).push .reference)).called .special
    Emit.threadClass "<init>" "(Ljava/lang/Runnable;)V" (cx.types.entries.push .reference)).called
    .virtual Emit.threadClass "start" "()V" cx.types.entries)

end Context

namespace Emit

open StackUnits.Action OperandType

variable {α : Type} {cx cx' : Context} {tag : Tag} {u : Unit}

/-! ### Single steps -/

@[simp]
theorem note_eq_ok {event : Event} : note event cx = .ok u cx' ↔ cx' = cx.noted event :=
  modify_eq_ok

@[simp]
theorem enterExpr_eq_ok :
    enterExpr tag cx = .ok u cx' ↔ cx' = cx.noted (.expression tag cx.types.depth) :=
  modify_eq_ok

@[simp]
theorem emit_eq_ok {instr : Instruction} : emit instr cx = .ok u cx' ↔ cx' = cx.wrote instr :=
  modify_eq_ok

@[simp]
theorem pushType_eq_ok {type : OperandType} :
    pushType type cx = .ok u cx' ↔ cx' = cx.pushed type :=
  modify_eq_ok

/-- A label is handed out, and the next one will have the next number. -/
@[simp]
theorem newLabel_eq_ok {label : Label} :
    newLabel cx = .ok label cx' ↔ label = cx.label ∧ cx' = cx.labelled := by
  change EStateM.Result.ok cx.label cx.labelled = .ok label cx' ↔ _
  rw [EStateM.Result.ok.injEq, eq_comm, eq_comm (a := cx.labelled)]

/-- A requirement that is met changes nothing, and its result is handed on. -/
@[simp]
theorem require_eq_ok {result : Except CompileError α} {a : α} :
    require tag result cx = .ok a cx' ↔ result = .ok a ∧ cx' = cx := by
  cases result with
  | ok b =>
    rw [require, pure_eq_ok, Except.ok.injEq, eq_comm (a := b)]
  | error e =>
    rw [require, throw_eq_ok]
    simp

@[simp]
theorem pushConstant_eq_ok {constant : Constant} {type : OperandType} :
    pushConstant constant type cx = .ok u cx' ↔
      cx' = (cx.wrote (.push constant)).pushed type := by
  simp [pushConstant, bind_eq_ok, emit_eq_ok, pushType_eq_ok]

@[simp]
theorem lookup_eq_ok {name : String} {info : Option VarInfo} :
    lookup name cx = .ok info cx' ↔ info = cx.symbols.lookup name ∧ cx' = cx := by
  change EStateM.Result.ok (cx.symbols.lookup name) cx = .ok info cx' ↔ _
  rw [EStateM.Result.ok.injEq, eq_comm, eq_comm (a := cx)]

/-- A declaration changes the symbol table alone. -/
@[simp]
theorem declare_eq_ok {name : String} {type : OperandType} {slot : UInt16} :
    declare name type cx = .ok slot cx' ↔
      ∃ table, cx.symbols.declare name type = .ok (slot, table) ∧
        cx' = { cx with symbols := table } := by
  rcases h : cx.symbols.declare name type with e | ⟨slot', table⟩
  · simp [declare, h]
  · simp only [declare, h, EStateM.Result.ok.injEq, Except.ok.injEq, Prod.mk.injEq]
    constructor
    · rintro ⟨rfl, rfl⟩
      exact ⟨table, ⟨rfl, rfl⟩, rfl⟩
    · rintro ⟨_, ⟨rfl, rfl⟩, rfl⟩
      exact ⟨rfl, rfl⟩

/-- **A type is taken off** the type stack if there is one. The rest is what was below it, and
nothing else of the context changes. -/
@[simp]
theorem pop_eq_ok {type : OperandType} :
    pop tag cx = .ok type cx' ↔
      ∃ rest, cx.types.entries = rest.push type ∧ cx' = cx.popped rest := by
  unfold pop Context.popped
  generalize cx.types.entries = entries
  obtain ⟨items, size, hsize⟩ := entries
  cases items with
  | nil => simp [Pile.pop?, Pile.ext_iff]
  | cons t rest =>
    simp only [Pile.pop?, EStateM.Result.ok.injEq]
    constructor
    · rintro ⟨rfl, rfl⟩
      exact ⟨_, Pile.ext rfl, rfl⟩
    · rintro ⟨r, hr, rfl⟩
      have hitems : t :: rest = type :: r.items := congrArg Pile.items hr
      obtain ⟨rfl, rfl⟩ := List.cons.inj hitems
      have hpile : (⟨r.items, size - 1, by simp at hsize; omega⟩ : Pile OperandType) = r :=
        Pile.ext rfl
      rw [hpile]
      exact ⟨rfl, rfl⟩

/-- A type of the int category is taken off; another type would be an error. -/
@[simp]
theorem popInt_eq_ok {type : OperandType} :
    popInt tag cx = .ok type cx' ↔
      ∃ rest, cx.types.entries = rest.push type ∧ type.isIntCategory = true ∧
        cx' = cx.popped rest := by
  rw [popInt, bind_eq_ok]
  constructor
  · rintro ⟨type', cx₁, hpop, hrest⟩
    obtain ⟨rest, hentries, rfl⟩ := pop_eq_ok.1 hpop
    rw [ite_run] at hrest
    split at hrest
    · rename_i hint
      obtain ⟨rfl, rfl⟩ := pure_eq_ok.1 hrest
      exact ⟨rest, hentries, hint, rfl⟩
    · exact (throw_eq_ok.1 hrest).elim
  · rintro ⟨rest, hentries, hint, rfl⟩
    refine ⟨type, _, pop_eq_ok.2 ⟨rest, hentries, rfl⟩, ?_⟩
    rw [ite_run, if_pos hint, pure_eq_ok]
    exact ⟨rfl, rfl⟩

/-- An action of the session runs in the session of a context, and the rest of the context waits. -/
@[simp]
theorem inSession_eq_ok {action : SessionM α} {a : α} :
    inSession action cx = .ok a cx' ↔
      ∃ session, action cx.session = .ok a session ∧ cx' = { cx with session := session } := by
  unfold inSession
  rcases h : action cx.session with ⟨b, session⟩ | ⟨e, session⟩
  · simp only [EStateM.Result.ok.injEq]
    constructor
    · rintro ⟨rfl, rfl⟩
      exact ⟨session, ⟨rfl, rfl⟩, rfl⟩
    · rintro ⟨_, ⟨rfl, rfl⟩, rfl⟩
      exact ⟨rfl, rfl⟩
  · simp

/-! ### Expressions -/

theorem convert_eq_ok {conversion : Conversion} :
    convert conversion cx = .ok u cx' ↔ cx' = cx.converted conversion := by
  cases conversion with
  | identity =>
    rw [convert, pure_eq_ok]
    exact and_iff_right rfl
  | _ => exact emit_eq_ok

/-- **Arithmetic**: both operands leave their types, which are the same, and one of them remains.
The right operand is popped first. -/
theorem arith_eq_ok {op : ArithOp} {l r : Emit Unit} :
    Emit.arith tag op l r cx = .ok u cx' ↔
      ∃ cx₁ cx₂ type rest family, l cx = .ok () cx₁ ∧ r cx₁ = .ok () cx₂ ∧
        cx₂.types.entries = (rest.push type).push type ∧ type.family? = some family ∧
        cx' = ((cx₂.popped rest).wrote (.arith op family)).pushed type := by
  simp only [Emit.arith, bind_eq_ok, pop_eq_ok, guard_eq_ok, require_eq_ok, emit_eq_ok,
    pushType_eq_ok, arithmeticFamily_eq_ok]
  constructor
  · rintro ⟨⟨⟩, cx₁, hl, ⟨⟩, cx₂, hr, rhs, _, ⟨_, hrhs, rfl⟩, lhs, _, ⟨rest, hlhs, rfl⟩, hne,
      family, _, ⟨hfamily, rfl⟩, ⟨⟩, _, rfl, rfl⟩
    obtain rfl : lhs = rhs := Decidable.not_not.1 hne
    refine ⟨cx₁, cx₂, lhs, rest, family, hl, hr, ?_, hfamily, rfl⟩
    rw [hrhs, ← hlhs]
    rfl
  · rintro ⟨cx₁, cx₂, type, rest, family, hl, hr, hentries, hfamily, rfl⟩
    exact ⟨(), cx₁, hl, (), cx₂, hr, type, _, ⟨_, hentries, rfl⟩, type, _, ⟨rest, rfl, rfl⟩,
      fun h => h rfl, family, _, ⟨hfamily, rfl⟩, (), _, rfl, rfl⟩

/-- **A cast**: the operand leaves a type from which there is a conversion to the target. The
conversion may be one without an instruction. -/
theorem cast_eq_ok {target : OperandType} {operand : Emit Unit} :
    Emit.cast tag target operand cx = .ok u cx' ↔
      ∃ cx₁ source rest conversion, operand cx = .ok () cx₁ ∧
        cx₁.types.entries = rest.push source ∧ source.conversionTo? target = some conversion ∧
        cx' = ((cx₁.popped rest).converted conversion).pushed target := by
  simp only [Emit.cast, bind_eq_ok, pop_eq_ok, require_eq_ok, convert_eq_ok, pushType_eq_ok,
    conversionTo_eq_ok]
  constructor
  · rintro ⟨⟨⟩, cx₁, h, source, _, ⟨rest, hentries, rfl⟩, conversion, _, ⟨hconv, rfl⟩, ⟨⟩, _, rfl,
      rfl⟩
    exact ⟨cx₁, source, rest, conversion, h, hentries, hconv, rfl⟩
  · rintro ⟨cx₁, source, rest, conversion, h, hentries, hconv, rfl⟩
    exact ⟨(), cx₁, h, source, _, ⟨rest, hentries, rfl⟩, conversion, _, ⟨hconv, rfl⟩, (), _, rfl,
      rfl⟩

/-- **A variable** is loaded from its slot, if it is known and its type has a kind of slot. What it
is assigned, and whether it is, makes no difference here. -/
theorem variableValue_eq_ok {name : String} :
    variableValue tag name cx = .ok u cx' ↔
      ∃ info kind, cx.symbols.lookup name = some info ∧ info.type.slotKind? = some kind ∧
        cx' = (cx.wrote (.load kind info.slot)).pushed info.type := by
  simp only [variableValue, bind_eq_ok, lookup_eq_ok]
  constructor
  · rintro ⟨found, cx₁, ⟨hfound, hcx⟩, hrun⟩
    subst hcx
    rcases found with _ | info
    · exact (throw_eq_ok.1 hrun).elim
    · simp only [bind_eq_ok, require_eq_ok, emit_eq_ok, pushType_eq_ok, slotKind_eq_ok] at hrun
      obtain ⟨kind, _, ⟨hkind, rfl⟩, ⟨⟩, _, rfl, rfl⟩ := hrun
      exact ⟨info, kind, hfound.symm, hkind, rfl⟩
  · rintro ⟨info, kind, h, hkind, rfl⟩
    refine ⟨some info, cx, ⟨h.symm, rfl⟩, ?_⟩
    simp only [bind_eq_ok, require_eq_ok, emit_eq_ok, pushType_eq_ok, slotKind_eq_ok]
    exact ⟨kind, cx, ⟨hkind, rfl⟩, (), _, rfl, rfl⟩

/-! ### Branching -/

/-- An arm that yields a value has to leave one of the int category, and takes its type off
again. -/
theorem value_eq_ok {action : Emit Unit} :
    (Arm.value tag action).action cx = .ok u cx' ↔
      ∃ cx₁ type rest, action cx = .ok () cx₁ ∧ cx₁.types.entries = rest.push type ∧
        type.isIntCategory = true ∧ cx' = cx₁.popped rest := by
  simp only [Arm.value, bind_eq_ok, discard_eq_ok, popInt_eq_ok]
  constructor
  · rintro ⟨⟨⟩, cx₁, h, type, rest, hrest⟩
    exact ⟨cx₁, type, rest, h, hrest⟩
  · rintro ⟨cx₁, type, rest, h, hrest⟩
    exact ⟨(), cx₁, h, type, rest, hrest⟩

theorem constant_eq_ok {n : Int32} :
    (Arm.constant tag n).action cx = .ok u cx' ↔ cx' = cx.decided n := by
  simp only [Arm.constant, bind_eq_ok, discard_eq_ok, pushConstant_eq_ok, pop_eq_ok]
  constructor
  · rintro ⟨⟨⟩, _, rfl, type, rest, hrest, rfl⟩
    rw [← (Pile.push_inj.1 hrest).1]
    rfl
  · rintro rfl
    exact ⟨(), _, rfl, .boolean, _, rfl, rfl⟩

/-- **A conditional with two arms** that agree on leaving a value. The first arm begins at the
context `opened` by the jump over it and the second at the one `turned` to it, and after both the
value is on the type stack once. -/
theorem conditional_eq_ok {condition : Emit Unit} {skip : ZeroTest} {a b : Arm}
    (h : b.yields = a.yields) :
    conditional tag condition skip a (some b) cx = .ok u cx' ↔
      ∃ cx₁ type rest cx₂ cx₃, condition cx = .ok () cx₁ ∧
        cx₁.types.entries = rest.push type ∧ type.isIntCategory = true ∧
        a.action ((cx₁.popped rest).opened skip) = .ok () cx₂ ∧
        b.action (cx₂.turned (cx₁.popped rest)) = .ok () cx₃ ∧
        cx' = cx₃.joined (cx₁.popped rest) a.yields := by
  have hlast : ∀ {cx₁ start : Context}, (if a.yields then pushType .boolean else pure ())
      (cx₁.wrote (.label start.label)) = .ok u cx' ↔ cx' = cx₁.joined start a.yields := by
    intro cx₁ start
    rw [ite_run]
    cases a.yields with
    | true => exact pushType_eq_ok
    | false => exact pure_eq_ok.trans (and_iff_right rfl)
  -- The arms agree, so the check that they do goes through.
  simp only [conditional, bind_eq_ok, discard_eq_ok, popInt_eq_ok, newLabel_eq_ok, h,
    bne_self_eq_false, Bool.false_eq_true, if_false, emit_eq_ok]
  constructor
  · rintro ⟨⟨⟩, cx₁, hc, ⟨⟩, _, ⟨type, rest, hentries, hint, rfl⟩, done, _, ⟨rfl, rfl⟩, otherwise,
      _, ⟨rfl, rfl⟩, ⟨⟩, _, rfl, ⟨⟩, cx₂, ha, ⟨⟩, _, rfl, ⟨⟩, _, rfl, ⟨⟩, cx₃, hb, ⟨⟩, _, rfl, hend⟩
    exact ⟨cx₁, type, rest, cx₂, cx₃, hc, hentries, hint, ha, hb, hlast.1 hend⟩
  · rintro ⟨cx₁, type, rest, cx₂, cx₃, hc, hentries, hint, ha, hb, hend⟩
    exact ⟨(), cx₁, hc, (), _, ⟨type, rest, hentries, hint, rfl⟩, _, _, ⟨rfl, rfl⟩, _, _,
      ⟨rfl, rfl⟩, (), _, rfl, (), cx₂, ha, (), _, rfl, (), _, rfl, (), cx₃, hb, (), _, rfl,
      hlast.2 hend⟩

/-- **A connective**: the second operand is the first arm, and the second arm is the constant that
the first operand decides for alone. -/
theorem connective_eq_ok {left right : Emit Unit} {skip : ZeroTest} {n : Int32} :
    conditional tag left skip (.value tag right) (some (.constant tag n)) cx = .ok u cx' ↔
      ∃ cx₁ tl rest cx₂ tr rest', left cx = .ok () cx₁ ∧ cx₁.types.entries = rest.push tl ∧
        tl.isIntCategory = true ∧ right ((cx₁.popped rest).opened skip) = .ok () cx₂ ∧
        cx₂.types.entries = rest'.push tr ∧ tr.isIntCategory = true ∧
        cx' = (((cx₂.popped rest').turned (cx₁.popped rest)).decided n).joined (cx₁.popped rest)
          true := by
  rw [conditional_eq_ok (b := .constant tag n) (a := .value tag right) rfl]
  simp only [value_eq_ok, constant_eq_ok]
  constructor
  · rintro ⟨cx₁, tl, rest, _, _, hl, hentries, htl, ⟨cx₂, tr, rest', hr, hentries', htr, rfl⟩, rfl,
      rfl⟩
    exact ⟨cx₁, tl, rest, cx₂, tr, rest', hl, hentries, htl, hr, hentries', htr, rfl⟩
  · rintro ⟨cx₁, tl, rest, cx₂, tr, rest', hl, hentries, htl, hr, hentries', htr, rfl⟩
    exact ⟨cx₁, tl, rest, _, _, hl, hentries, htl, ⟨cx₂, tr, rest', hr, hentries', htr, rfl⟩, rfl,
      rfl⟩

/-- **A verdict**: both arms are constants, and the condition picks one of them. So only the
condition can fail. -/
theorem verdict_eq_ok {condition : Emit Unit} {skip : ZeroTest} {m n : Int32} :
    conditional tag condition skip (.constant tag m) (some (.constant tag n)) cx = .ok u cx' ↔
      ∃ cx₁ type rest, condition cx = .ok () cx₁ ∧ cx₁.types.entries = rest.push type ∧
        type.isIntCategory = true ∧
        cx' = (((((cx₁.popped rest).opened skip).decided m).turned (cx₁.popped rest)).decided
          n).joined (cx₁.popped rest) true := by
  rw [conditional_eq_ok (b := .constant tag n) (a := .constant tag m) rfl]
  simp only [constant_eq_ok]
  constructor
  · rintro ⟨cx₁, type, rest, _, _, h, hentries, htype, rfl, rfl, rfl⟩
    exact ⟨cx₁, type, rest, h, hentries, htype, rfl⟩
  · rintro ⟨cx₁, type, rest, h, hentries, htype, rfl⟩
    exact ⟨cx₁, type, rest, _, _, h, hentries, htype, rfl, rfl, rfl⟩

/-- **A conditional with two arms** that are statements, and leave nothing on the type stack. -/
theorem choice_eq_ok {condition first second : Emit Unit} {skip : ZeroTest} :
    conditional tag condition skip (.statement first) (some (.statement second)) cx = .ok u cx' ↔
      ∃ cx₁ type rest cx₂ cx₃, condition cx = .ok () cx₁ ∧
        cx₁.types.entries = rest.push type ∧ type.isIntCategory = true ∧
        first ((cx₁.popped rest).opened skip) = .ok () cx₂ ∧
        second (cx₂.turned (cx₁.popped rest)) = .ok () cx₃ ∧
        cx' = cx₃.joined (cx₁.popped rest) false :=
  conditional_eq_ok (b := .statement second) (a := .statement first) rfl

/-- **A conditional with one arm**, which is a statement. -/
theorem option_eq_ok {condition body : Emit Unit} {skip : ZeroTest} :
    conditional tag condition skip (.statement body) none cx = .ok u cx' ↔
      ∃ cx₁ type rest cx₂, condition cx = .ok () cx₁ ∧
        cx₁.types.entries = rest.push type ∧ type.isIntCategory = true ∧
        body ((cx₁.popped rest).labelled.wrote (.jumpIf skip (cx₁.popped rest).label)) =
          .ok () cx₂ ∧
        cx' = cx₂.wrote (.label (cx₁.popped rest).label) := by
  simp only [conditional, Arm.statement, bind_eq_ok, discard_eq_ok, popInt_eq_ok, newLabel_eq_ok,
    emit_eq_ok, Bool.false_eq_true, if_false, pure_eq_ok]
  constructor
  · rintro ⟨⟨⟩, cx₁, hc, ⟨⟩, _, ⟨type, rest, hentries, hint, rfl⟩, done, _, ⟨rfl, rfl⟩, ⟨⟩, _, rfl,
      ⟨⟩, cx₂, hb, ⟨⟩, _, rfl, -, rfl⟩
    exact ⟨cx₁, type, rest, cx₂, hc, hentries, hint, hb, rfl⟩
  · rintro ⟨cx₁, type, rest, cx₂, hc, hentries, hint, hb, rfl⟩
    exact ⟨(), cx₁, hc, (), _, ⟨type, rest, hentries, hint, rfl⟩, _, _, ⟨rfl, rfl⟩, (), _, rfl,
      (), cx₂, hb, (), _, rfl, trivial, rfl⟩

/-- **A loop**: its two labels are handed out before the condition, the first of them is placed
there, and the body jumps back to it. -/
theorem loop_eq_ok {condition body : Emit Unit} :
    loop tag condition body cx = .ok u cx' ↔
      ∃ cx₁ type rest cx₂, condition (cx.labelled.labelled.wrote (.label cx.label)) = .ok () cx₁ ∧
        cx₁.types.entries = rest.push type ∧ type.isIntCategory = true ∧
        body ((cx₁.popped rest).wrote (.jumpIf .eq cx.labelled.label)) = .ok () cx₂ ∧
        cx' = (cx₂.wrote (.jump cx.label)).wrote (.label cx.labelled.label) := by
  simp only [loop, bind_eq_ok, discard_eq_ok, popInt_eq_ok, newLabel_eq_ok, emit_eq_ok]
  constructor
  · rintro ⟨top, _, ⟨rfl, rfl⟩, done, _, ⟨rfl, rfl⟩, ⟨⟩, _, rfl, ⟨⟩, cx₁, hc, ⟨⟩, _,
      ⟨type, rest, hentries, hint, rfl⟩, ⟨⟩, _, rfl, ⟨⟩, cx₂, hb, ⟨⟩, _, rfl, rfl⟩
    exact ⟨cx₁, type, rest, cx₂, hc, hentries, hint, hb, rfl⟩
  · rintro ⟨cx₁, type, rest, cx₂, hc, hentries, hint, hb, rfl⟩
    exact ⟨_, _, ⟨rfl, rfl⟩, _, _, ⟨rfl, rfl⟩, (), _, rfl, (), cx₁, hc, (), _,
      ⟨type, rest, hentries, hint, rfl⟩, (), _, rfl, (), cx₂, hb, (), _, rfl, rfl⟩

/-! ### Statements -/

theorem pop_run {type : OperandType} {rest : Pile OperandType}
    (h : cx.types.entries = rest.push type) : (discard (pop tag)) cx = .ok () (cx.popped rest) :=
  discard_eq_ok.2 ⟨type, pop_eq_ok.2 ⟨rest, h, rfl⟩⟩

theorem newObject_run {cls : String} : newObject cls cx = .ok () (cx.created cls) :=
  rfl

theorem call_run {kind : InvokeKind} {owner name descriptor : String} :
    call kind owner name descriptor cx =
      .ok () (cx.wrote (.invoke kind ⟨owner, name, descriptor⟩)) :=
  rfl

/-- The start of a task cannot fail: it takes off only what it has put there. So it is said with an
equation, and the context spelt out. -/
theorem spawn_run {task : String} : Emit.spawn tag task cx = .ok () (cx.spawned task) := by
  unfold Emit.spawn
  rw [bind_run (get_eq_ok.2 ⟨rfl, rfl⟩), bind_run (note_eq_ok (u := ()).2 rfl),
    bind_run newObject_run, bind_run newObject_run, bind_run call_run, bind_run (pop_run rfl),
    bind_run call_run, bind_run (pop_run rfl), bind_run (pop_run rfl), bind_run call_run,
    pop_run rfl]
  rfl

/-- What follows a value of the int category runs on from where it was taken off. Assertions and
sleeps have this form; `g` is what they do to the context. -/
theorem popInt_bind_eq_ok {value : Emit Unit} {f : Emit Unit} {g : Context → Context}
    (h : ∀ cx, f cx = .ok () (g cx)) :
    (do value; discard (popInt tag); f) cx = .ok u cx' ↔
      ∃ cx₁ type rest, value cx = .ok () cx₁ ∧ cx₁.types.entries = rest.push type ∧
        type.isIntCategory = true ∧ cx' = g (cx₁.popped rest) := by
  simp only [bind_eq_ok, discard_eq_ok, popInt_eq_ok, h, EStateM.Result.ok.injEq]
  constructor
  · rintro ⟨⟨⟩, cx₁, hv, ⟨⟩, _, ⟨type, rest, hentries, hint, rfl⟩, -, rfl⟩
    exact ⟨cx₁, type, rest, hv, hentries, hint, rfl⟩
  · rintro ⟨cx₁, type, rest, hv, hentries, hint, rfl⟩
    exact ⟨(), cx₁, hv, (), _, ⟨type, rest, hentries, hint, rfl⟩, trivial, rfl⟩

theorem assert_eq_ok {condition : Emit Unit} :
    Emit.assert tag condition cx = .ok u cx' ↔
      ∃ cx₁ type rest, condition cx = .ok () cx₁ ∧ cx₁.types.entries = rest.push type ∧
        type.isIntCategory = true ∧ cx' = (cx₁.popped rest).asserted := by
  refine popInt_bind_eq_ok fun cx => ?_
  rw [bind_run (newLabel_eq_ok.2 ⟨rfl, rfl⟩), bind_run (emit_eq_ok (u := ()).2 rfl),
    bind_run newObject_run, bind_run (pushConstant_eq_ok (u := ()).2 rfl), bind_run call_run,
    bind_run (pop_run rfl), bind_run (pop_run rfl), bind_run (emit_eq_ok (u := ()).2 rfl),
    bind_run (pop_run rfl), emit_eq_ok]
  rfl

theorem sleep_eq_ok {duration : Emit Unit} :
    Emit.sleep tag duration cx = .ok u cx' ↔
      ∃ cx₁ type rest, duration cx = .ok () cx₁ ∧ cx₁.types.entries = rest.push type ∧
        type.isIntCategory = true ∧ cx' = (cx₁.popped rest).slept := by
  refine popInt_bind_eq_ok fun cx => ?_
  rw [bind_run (convert_eq_ok (u := ()).2 rfl), bind_run (pushType_eq_ok (u := ()).2 rfl),
    bind_run call_run, pop_run rfl]
  rfl

/-- **Printing**: the printer lies under the value, and there has to be a descriptor for the value's
type. -/
theorem print_eq_ok {value : Emit Unit} :
    Emit.print tag value cx = .ok u cx' ↔
      ∃ cx₁ type rest printer descriptor,
        value ((cx.wrote Code.printer).pushed .reference) = .ok () cx₁ ∧
        cx₁.types.entries = (rest.push printer).push type ∧
        type.printDescriptor? = some descriptor ∧
        cx' = (cx₁.popped rest).wrote (Code.println descriptor) := by
  simp only [Emit.print, bind_eq_ok, emit_eq_ok, pushType_eq_ok, pop_eq_ok]
  constructor
  · rintro ⟨⟨⟩, _, rfl, ⟨⟩, _, rfl, ⟨⟩, cx₁, hv, type, _, ⟨_, hentries, rfl⟩, hend⟩
    rcases hdescriptor : type.printDescriptor? with _ | descriptor
    · simp only [hdescriptor, throw_eq_ok] at hend
    · simp only [hdescriptor, bind_eq_ok, discard_eq_ok, pop_eq_ok] at hend
      obtain ⟨⟨⟩, _, ⟨printer, rest, hrest, rfl⟩, hcall⟩ := hend
      refine ⟨cx₁, type, rest, printer, descriptor, hv, ?_, hdescriptor, emit_eq_ok.1 hcall⟩
      rw [hentries, ← hrest]
      rfl
  · rintro ⟨cx₁, type, rest, printer, descriptor, hv, hentries, hdescriptor, rfl⟩
    refine ⟨(), _, rfl, (), _, rfl, (), cx₁, hv, type, _, ⟨_, hentries, rfl⟩, ?_⟩
    simp only [hdescriptor]
    rw [bind_run (pop_run rfl)]
    exact call_run

theorem store_eq_ok {type : OperandType} {slot : UInt16} :
    (do let kind ← require tag type.slotKind; emit (.store kind slot) : Emit Unit) cx = .ok u cx' ↔
      ∃ kind, type.slotKind? = some kind ∧ cx' = cx.wrote (.store kind slot) := by
  simp only [bind_eq_ok, require_eq_ok, slotKind_eq_ok, emit_eq_ok]
  constructor
  · rintro ⟨kind, _, ⟨hkind, rfl⟩, rfl⟩
    exact ⟨kind, hkind, rfl⟩
  · rintro ⟨kind, hkind, rfl⟩
    exact ⟨kind, cx, ⟨hkind, rfl⟩, rfl⟩

/-- **An assignment**: the name is declared, or given a new type, only after the value was compiled,
so that the value is compiled with the table as it was. -/
theorem assign_eq_ok {name : String} {value : Emit Unit} :
    assign tag name value cx = .ok u cx' ↔
      ∃ cx₁ type rest slot table kind, value cx = .ok () cx₁ ∧
        cx₁.types.entries = rest.push type ∧ cx₁.symbols.Assigns name type slot table ∧
        type.slotKind? = some kind ∧
        cx' = ((cx₁.popped rest).retabled table).wrote (.store kind slot) := by
  rw [assign, bind_eq_ok]
  constructor
  -- The run is taken apart action by action, up to the question whether the name is known.
  · rintro ⟨⟨⟩, cx₁, hv, hend⟩
    obtain ⟨type, _, hpop, hend⟩ := bind_eq_ok.1 hend
    obtain ⟨rest, hentries, rfl⟩ := pop_eq_ok.1 hpop
    obtain ⟨found, _, hlookup, hend⟩ := bind_eq_ok.1 hend
    obtain ⟨hfound, rfl⟩ := lookup_eq_ok.1 hlookup
    have hfound : cx₁.symbols.lookup name = found := hfound.symm
    rcases found with _ | info
    · obtain ⟨slot, _, hrun, hend⟩ := bind_eq_ok.1 hend
      obtain ⟨table, hdeclare, rfl⟩ := declare_eq_ok.1 hrun
      obtain ⟨kind, hkind, rfl⟩ := store_eq_ok.1 hend
      refine ⟨cx₁, type, rest, slot, table, kind, hv, hentries, ?_, hkind, rfl⟩
      rw [SymbolTable.Assigns, hfound]
      exact hdeclare
    · obtain ⟨htype, hend⟩ := guard_eq_ok.1 hend
      obtain ⟨kind, hkind, rfl⟩ := store_eq_ok.1 hend
      refine ⟨cx₁, type, rest, info.slot, cx₁.symbols, kind, hv, hentries, ?_, hkind, rfl⟩
      rw [SymbolTable.Assigns, hfound, ← Decidable.not_not.1 htype]
      exact ⟨rfl, rfl⟩
  · rintro ⟨cx₁, type, rest, slot, table, kind, hv, hentries, hslot, hkind, rfl⟩
    refine ⟨(), cx₁, hv, ?_⟩
    rw [bind_run (pop_eq_ok.2 ⟨rest, hentries, rfl⟩)]
    have hlookup : lookup name (cx₁.popped rest) =
        .ok (cx₁.symbols.lookup name) (cx₁.popped rest) := rfl
    rw [bind_run hlookup]
    rw [SymbolTable.Assigns] at hslot
    rcases hfound : cx₁.symbols.lookup name with _ | info
    · rw [hfound] at hslot
      have hdeclare : declare name type (cx₁.popped rest) =
          .ok slot ((cx₁.popped rest).retabled table) := declare_eq_ok.2 ⟨table, hslot, rfl⟩
      exact (bind_run hdeclare).trans (store_eq_ok.2 ⟨kind, hkind, rfl⟩)
    · rw [hfound] at hslot
      obtain ⟨rfl, rfl⟩ := hslot
      exact guard_eq_ok.2 ⟨fun h => h rfl, store_eq_ok.2 ⟨kind, hkind, rfl⟩⟩

end Emit

end StackUnits
