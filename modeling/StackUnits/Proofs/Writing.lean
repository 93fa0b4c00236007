import StackUnits.Proofs.Actions

/-!
# What is written between two contexts

A compilation goes from context to context. `StackUnits.Context.At` reads off a context the
draft that it stands at, in the world around it; `StackUnits.Context.Wrote` says what has been
added to one on the way to another: a piece of code, with the height that the type stack came
to. `StackUnits.Context.Arrives` has both, for a piece of code that leaves one value or none.

The lemmas of this file follow the code: one for each way in which a context changes, and from
them one for each piece of `StackUnits.Code`. They do not ask whether a run of the compiler is
being taken apart or put together.
-/

namespace StackUnits

/-- **A session stands in a world**, with the given units finished. -/
structure Session.At (session : Session) (w : World) (units : List CodeUnit) : Prop where
  config : session.config = w.config
  resolver : session.resolver = w.resolver
  begun : session.inProgress = w.begun
  units : session.units = units

theorem Session.At.note {session : Session} {w : World} {units : List CodeUnit}
    (h : session.At w units) (event : Event) : (session.note event).At w units :=
  ⟨h.config, h.resolver, h.begun, h.units⟩

theorem Session.At.finished {session : Session} {w : World} {units : List CodeUnit}
    (h : session.At w units) (unit : CodeUnit) :
    Session.At { session with units := session.units ++ [unit] } w (units ++ [unit]) :=
  ⟨h.config, h.resolver, h.begun, congrArg (· ++ [unit]) h.units⟩

namespace Context

/-- **A context stands at a draft**, in a world. -/
structure At (cx : Context) (w : World) (d : Draft) : Prop where
  session : cx.session.At w d.units
  symbols : cx.symbols = d.table
  nextLabel : cx.code.nextLabel = UInt32.ofNat d.labels
  depth_le : cx.types.depth ≤ cx.types.maxDepth

/-- **What has been written between two contexts**: a piece of code during which the type
stack grows to at most `top` entries, and that leaves the given types on it. -/
structure Wrote (cx : Context) (code : List Instruction) (top : Nat) (entries : Pile OperandType)
    (cx' : Context) : Prop where
  unitName : cx'.unitName = cx.unitName
  instructions : cx'.code.instructions = cx.code.instructions ++ code
  maxDepth : cx'.types.maxDepth = max cx.types.maxDepth top
  entries : cx'.types.entries = entries

variable {cx cx' cx₁ cx₂ : Context} {w : World} {d : Draft} {entries rest : Pile OperandType}
  {type : OperandType} {code code₁ code₂ : List Instruction} {top top₁ top₂ : Nat}

/-! ### Where single steps lead -/

namespace At

theorem noted (h : cx.At w d) (event : Event) : (cx.noted event).At w d :=
  ⟨h.session.note event, h.symbols, h.nextLabel, h.depth_le⟩

theorem wrote (h : cx.At w d) (instr : Instruction) : (cx.wrote instr).At w d :=
  ⟨h.session.note _, h.symbols, h.nextLabel, h.depth_le⟩

theorem converted (h : cx.At w d) (conversion : Conversion) : (cx.converted conversion).At w d := by
  cases conversion with
  | identity => exact h
  | _ => exact h.wrote _

theorem pushed (h : cx.At w d) (type : OperandType) : (cx.pushed type).At w d :=
  ⟨h.session, h.symbols, h.nextLabel, Nat.le_max_right _ _⟩

theorem popped (h : cx.At w d) (hrest : rest.size ≤ cx.types.depth) : (cx.popped rest).At w d :=
  ⟨h.session, h.symbols, h.nextLabel, Nat.le_trans hrest h.depth_le⟩

theorem created (h : cx.At w d) (cls : String) : (cx.created cls).At w d :=
  (((h.wrote _).pushed _).wrote _).pushed _

theorem called (h : cx.At w d) (kind : InvokeKind) (owner name descriptor : String)
    (rest : Pile OperandType) (hrest : rest.size ≤ cx.types.depth) :
    (cx.called kind owner name descriptor rest).At w d :=
  (h.wrote _).popped hrest

theorem retabled (h : cx.At w d) (table : SymbolTable) :
    (cx.retabled table).At w { d with table := table } :=
  ⟨h.session, rfl, h.nextLabel, h.depth_le⟩

theorem labelled (h : cx.At w d) : cx.labelled.At w { d with labels := d.labels + 1 } := by
  refine ⟨h.session, h.symbols, ?_, h.depth_le⟩
  change cx.code.nextLabel + 1 = UInt32.ofNat (d.labels + 1)
  rw [h.nextLabel, UInt32.ofNat_add]
  rfl

/-- The next label of a context carries the number of labels in its draft, in 32 bits. -/
theorem label_eq (h : cx.At w d) : cx.label = .nth d.labels := by
  rw [label, Label.nth, h.nextLabel]

end At

namespace Wrote

theorem refl (cx : Context) : cx.Wrote [] 0 cx.types.entries cx :=
  ⟨rfl, (List.append_nil _).symm, (Nat.max_zero _).symm, rfl⟩

/-- One piece of writing after another. The type stack has come to the greater of the two
heights. -/
theorem trans (h₁ : cx.Wrote code₁ top₁ entries cx₁) (h₂ : cx₁.Wrote code₂ top₂ rest cx₂) :
    cx.Wrote (code₁ ++ code₂) (max top₁ top₂) rest cx₂ where
  unitName := h₂.unitName.trans h₁.unitName
  instructions := by rw [h₂.instructions, h₁.instructions, List.append_assoc]
  maxDepth := by rw [h₂.maxDepth, h₁.maxDepth, Nat.max_assoc]
  entries := h₂.entries

/-- Where the greatest depth comes from does not matter, as long as it is the same in the end. -/
theorem congr (h : cx.Wrote code top entries cx') (hcode : code = code₁)
    (htop : max cx.types.maxDepth top = max cx.types.maxDepth top₁) :
    cx.Wrote code₁ top₁ entries cx' :=
  ⟨h.unitName, hcode ▸ h.instructions, h.maxDepth.trans htop, h.entries⟩

theorem noted (h : cx.Wrote code top entries cx') (event : Event) :
    cx.Wrote code top entries (cx'.noted event) :=
  ⟨h.unitName, h.instructions, h.maxDepth, h.entries⟩

theorem wrote (h : cx.Wrote code top entries cx') (instr : Instruction) :
    cx.Wrote (code ++ [instr]) top entries (cx'.wrote instr) := by
  refine ⟨h.unitName, ?_, h.maxDepth, h.entries⟩
  change (cx'.code.emitted.push instr).toList = _
  rw [Pile.toList_push, ← List.append_assoc, ← h.instructions]
  rfl

theorem converted (h : cx.Wrote code top entries cx') (conversion : Conversion) :
    cx.Wrote (code ++ Code.conversion conversion) top entries (cx'.converted conversion) := by
  cases conversion with
  | identity => exact h.congr (List.append_nil _).symm rfl
  | _ => exact h.wrote _

theorem pushed (h : cx.Wrote code top entries cx') (type : OperandType) :
    cx.Wrote code (max top (entries.size + 1)) (entries.push type) (cx'.pushed type) := by
  refine ⟨h.unitName, h.instructions, ?_, congrArg (Pile.push · type) h.entries⟩
  change max cx'.types.maxDepth (cx'.types.entries.size + 1) = _
  rw [h.maxDepth, h.entries, Nat.max_assoc]

theorem popped (h : cx.Wrote code top entries cx') (rest : Pile OperandType) :
    cx.Wrote code top rest (cx'.popped rest) :=
  ⟨h.unitName, h.instructions, h.maxDepth, rfl⟩

theorem created (h : cx.Wrote code top entries cx') (cls : String) :
    cx.Wrote (code ++ [.new cls, .dup]) (max top (entries.size + 2))
      ((entries.push .reference).push .reference) (cx'.created cls) := by
  refine ((((h.wrote (.new cls)).pushed .reference).wrote .dup).pushed .reference).congr
    (by simp) ?_
  change max _ (max (max top (entries.size + 1)) (entries.size + 1 + 1)) = _
  omega

theorem called (h : cx.Wrote code top entries cx') (kind : InvokeKind)
    (owner name descriptor : String) (rest : Pile OperandType) :
    cx.Wrote (code ++ [.invoke kind ⟨owner, name, descriptor⟩]) top rest
      (cx'.called kind owner name descriptor rest) :=
  (h.wrote _).popped rest

theorem retabled (h : cx.Wrote code top entries cx') (table : SymbolTable) :
    cx.Wrote code top entries (cx'.retabled table) :=
  ⟨h.unitName, h.instructions, h.maxDepth, h.entries⟩

theorem labelled (h : cx.Wrote code top entries cx') : cx.Wrote code top entries cx'.labelled :=
  ⟨h.unitName, h.instructions, h.maxDepth, h.entries⟩

/-- The depth that has been arrived at. -/
theorem depth_eq (h : cx.Wrote code top entries cx') : cx'.types.depth = entries.size :=
  congrArg Pile.size h.entries

end Wrote

/-- **A context arrives at a draft**: it stands there, and on the way a piece of code was
written that needs room for `peak` values more than there were, and leaves one of the
given type, or none. -/
structure Arrives (cx : Context) (w : World) (d : Draft) (code : List Instruction) (peak : Nat)
    (out : Option OperandType) (cx' : Context) : Prop where
  stands : cx'.At w d
  wrote : cx.Wrote code (cx.types.depth + peak)
    (out.elim cx.types.entries cx.types.entries.push) cx'

/-! ### Where larger pieces lead -/

namespace Arrives

variable {d₁ d₂ : Draft} {peak peak₁ peak₂ : Nat} {k k₁ k₂ : Nat} {cx₃ start : Context}
  {out : Option OperandType}

theorem refl (h : cx.At w d) : cx.Arrives w d [] 0 none cx :=
  ⟨h, (Wrote.refl cx).congr rfl (by have := h.depth_le; omega)⟩

/-- A note made before changes nothing. -/
theorem of_noted {event : Event} (h : (cx.noted event).Arrives w d code peak out cx') :
    cx.Arrives w d code peak out cx' :=
  ⟨h.stands, h.wrote.unitName, h.wrote.instructions, h.wrote.maxDepth, h.wrote.entries⟩

/-- The value on top of the type stack is the one that was just left there, and what is below it was
there before. -/
theorem top_eq (h : cx.Arrives w d code peak (some type) cx') {t : OperandType}
    (hrest : cx'.types.entries = rest.push t) : rest = cx.types.entries ∧ t = type := by
  obtain ⟨h₁, h₂⟩ := Pile.push_inj.1 (h.wrote.entries.symm.trans hrest)
  exact ⟨h₁.symm, h₂.symm⟩

/-- Nothing is left by a statement, so the depth is what it was. -/
theorem depth_eq (h : cx.Arrives w d code peak none cx') : cx'.types.depth = cx.types.depth :=
  h.wrote.depth_eq

/-- One piece of writing after another, of which the first leaves no value. -/
theorem trans (h₁ : cx.Arrives w d₁ code₁ peak₁ none cx₁)
    (h₂ : cx₁.Arrives w d₂ code₂ peak₂ out cx₂) :
    cx.Arrives w d₂ (code₁ ++ code₂) (max peak₁ peak₂) out cx₂ := by
  have hdepth := h₁.depth_eq
  refine ⟨h₂.stands, ?_⟩
  rw [show cx.types.entries = cx₁.types.entries from h₁.wrote.entries.symm]
  exact (h₁.wrote.trans h₂.wrote).congr rfl (by omega)

/-- A value is pushed where there was already room for one, so that no more is needed. -/
theorem pushed (h : cx.Arrives w d code peak none cx') (hpeak : 0 < peak) (type : OperandType) :
    cx.Arrives w d code peak (some type) (cx'.pushed type) := by
  refine ⟨h.stands.pushed type, (h.wrote.pushed type).congr rfl ?_⟩
  change max _ (max _ (cx.types.depth + 1)) = _
  omega

/-- A value is taken off again. The code and the room that it needs stay. -/
theorem popped (h : cx.Arrives w d code peak (some type) cx') :
    cx.Arrives w d code peak none (cx'.popped cx.types.entries) :=
  ⟨h.stands.popped (h.wrote.depth_eq ▸ Nat.le_succ _), h.wrote.popped _⟩

theorem labelled (h : cx.Arrives w d code peak none cx') :
    cx.Arrives w { d with labels := d.labels + 1 } code peak none cx'.labelled :=
  ⟨h.stands.labelled, h.wrote.labelled⟩

theorem wroteLast (h : cx.Arrives w d code peak out cx') (instr : Instruction) :
    cx.Arrives w d (code ++ [instr]) peak out (cx'.wrote instr) :=
  ⟨h.stands.wrote instr, h.wrote.wrote instr⟩

/-- One instruction that leaves a value. -/
theorem leaf (h : cx.At w d) (instr : Instruction) (type : OperandType) :
    cx.Arrives w d [instr] 1 (some type) ((cx.wrote instr).pushed type) := by
  refine ⟨(h.wrote instr).pushed type, (((Wrote.refl cx).wrote instr).pushed type).congr rfl ?_⟩
  change max _ (max 0 (cx.types.depth + 1)) = _
  omega

/-- **An operation** needs room for its left operand while the right one is computed. -/
theorem arith (op : ArithOp) (family : Family) (hpeak : 0 < peak₁)
    (h₁ : cx.Arrives w d₁ code₁ peak₁ (some type) cx₁)
    (h₂ : cx₁.Arrives w d₂ code₂ peak₂ (some type) cx₂) :
    cx.Arrives w d₂ (code₁ ++ code₂ ++ [.arith op family]) (max peak₁ (1 + peak₂)) (some type)
      (((cx₂.popped cx.types.entries).wrote (.arith op family)).pushed type) := by
  have hdepth : cx₁.types.depth = cx.types.depth + 1 := h₁.wrote.depth_eq
  -- The right operand is evaluated with the left one below it.
  have hw : cx.Wrote (code₁ ++ code₂) (cx.types.depth + max peak₁ (1 + peak₂)) _ cx₂ :=
    (h₁.wrote.trans h₂.wrote).congr rfl (by omega)
  have hdepth' : cx₂.types.depth = cx₁.types.depth + 1 := h₂.wrote.depth_eq
  have h : cx.Arrives w d₂ (code₁ ++ code₂) (max peak₁ (1 + peak₂)) none
      (cx₂.popped cx.types.entries) :=
    ⟨h₂.stands.popped (by change cx.types.depth ≤ _; omega), hw.popped _⟩
  exact (h.wroteLast _).pushed (by omega) type

/-- A conversion takes one value and leaves one, in the same room. -/
theorem cast {conversion : Conversion} {source target : OperandType} (hpeak : 0 < peak)
    (h : cx.Arrives w d code peak (some source) cx₁) :
    cx.Arrives w d (code ++ Code.conversion conversion) peak (some target)
      (((cx₁.popped cx.types.entries).converted conversion).pushed target) := by
  have hconv : cx.Arrives w d (code ++ Code.conversion conversion) peak none
      ((cx₁.popped cx.types.entries).converted conversion) :=
    ⟨h.popped.stands.converted conversion, h.popped.wrote.converted conversion⟩
  exact hconv.pushed hpeak target

/-! The lemmas about branching take the context after the condition, with its value off the
type stack, as `start`. -/

/-- **Two arms after a condition.** Each arm is written from the same type stack, and leaves it as
it was. -/
theorem choice {skip : ZeroTest} {codeA codeB : List Instruction} {peakA peakB : Nat}
    (h : cx.Arrives w { d with labels := k } code peak none start)
    (ha : (start.opened skip).Arrives w d₁ codeA peakA none cx₂)
    (hb : (cx₂.turned start).Arrives w d₂ codeB peakB none cx₃) :
    cx.Arrives w d₂ (Code.choice k skip code codeA codeB) (max peak (max peakA peakB)) none
      (cx₃.joined start false) := by
  have hlabel : start.label = .nth k := h.stands.label_eq
  have hlabel' : start.labelled.label = .nth (k + 1) := h.stands.labelled.label_eq
  -- The labels are known by their numbers from here on.
  rw [opened, hlabel'] at ha
  rw [turned, hlabel, hlabel'] at hb
  rw [joined, hlabel]
  have hfirst := (h.labelled.labelled.wroteLast (.jumpIf skip (.nth (k + 1)))).trans ha
  have hsecond := ((hfirst.wroteLast (.jump (.nth k))).wroteLast (.label (.nth (k + 1)))).trans hb
  have hcode : code ++ [.jumpIf skip (.nth (k + 1))] ++ codeA ++ [.jump (.nth k)]
      ++ [.label (.nth (k + 1))] ++ codeB ++ [.label (.nth k)]
      = Code.choice k skip code codeA codeB := by simp [Code.choice]
  rw [← hcode, ← Nat.max_assoc]
  exact hsecond.wroteLast _

/-- An arm that leaves a constant, which is taken off the type stack again. -/
theorem decided (h : cx.At w d) (n : Int32) :
    cx.Arrives w d [.push (.int n)] 1 none (cx.decided n) :=
  (leaf h (.push (.int n)) .boolean).popped

/-- **A connective**: the value of the right operand, or a constant. Both are taken off the type
stack, and one value is put there for both. -/
theorem connective {skip : ZeroTest} {n : Int32} (hpeak : 0 < peak₁)
    (h : cx.Arrives w { d with labels := k } code₁ peak₁ none start)
    (hr : (start.opened skip).Arrives w d₁ code₂ peak₂ (some type) cx₂) :
    cx.Arrives w d₁ (Code.choice k skip code₁ code₂ [.push (.int n)]) (max peak₁ peak₂)
      (some .boolean)
      ((((cx₂.popped (start.opened skip).types.entries).turned start).decided n).joined start
        true) := by
  have hright := decided ((hr.popped.stands.wrote (.jump start.label)).wrote
    (.label start.labelled.label)) n
  rw [show max peak₁ peak₂ = max peak₁ (max peak₂ 1) by omega]
  exact (h.choice hr.popped hright).pushed (by omega) .boolean

/-- **A verdict**: one of two constants. -/
theorem verdict {skip : ZeroTest} {m n : Int32} (hpeak : 0 < peak)
    (h : cx.Arrives w { d with labels := k } code peak none start) :
    cx.Arrives w { d with labels := k + 2 }
      (Code.choice k skip code [.push (.int m)] [.push (.int n)]) peak (some .boolean)
      (((((start.opened skip).decided m).turned start).decided n).joined start true) := by
  have hleft := decided (h.stands.labelled.labelled.wrote (.jumpIf skip start.labelled.label)) m
  have hright := decided ((hleft.stands.wrote (.jump start.label)).wrote
    (.label start.labelled.label)) n
  rw [show peak = max peak (max 1 1) by omega]
  exact (h.choice hleft hright).pushed (by omega) .boolean

/-- An arm that may be skipped, after a condition. -/
theorem option {skip : ZeroTest} {codeA : List Instruction} {peakA : Nat}
    (h : cx.Arrives w { d with labels := k } code peak none start)
    (ha : (start.labelled.wrote (.jumpIf skip start.label)).Arrives w d₁ codeA peakA none cx₂) :
    cx.Arrives w d₁ (Code.option k skip code codeA) (max peak peakA) none
      (cx₂.wrote (.label start.label)) := by
  have hlabel : start.label = .nth k := h.stands.label_eq
  rw [hlabel] at ha ⊢
  exact ((h.labelled.wroteLast (.jumpIf skip (.nth k))).trans ha).wroteLast _

/-- **A loop**: its label is placed before the condition, so that its labels are numbered before
those of the condition. -/
theorem loop {codeB : List Instruction} {peakB : Nat} (hat : cx.At w d)
    (h : (cx.labelled.labelled.wrote (.label cx.label)).Arrives w { d with labels := k } code peak
      none start)
    (hb : (start.wrote (.jumpIf .eq cx.labelled.label)).Arrives w d₁ codeB peakB none cx₂) :
    cx.Arrives w d₁ (Code.loop d.labels code codeB) (max peak peakB) none
      ((cx₂.wrote (.jump cx.label)).wrote (.label cx.labelled.label)) := by
  have hlabel : cx.label = .nth d.labels := hat.label_eq
  have hlabel' : cx.labelled.label = .nth (d.labels + 1) := hat.labelled.label_eq
  rw [hlabel] at h ⊢
  rw [hlabel'] at hb ⊢
  have hfirst := ((refl hat).labelled.labelled.wroteLast (.label (.nth d.labels))).trans h
  have hsecond := (hfirst.wroteLast (.jumpIf .eq (.nth (d.labels + 1)))).trans hb
  have hcode : [] ++ [.label (.nth d.labels)] ++ code ++ [.jumpIf .eq (.nth (d.labels + 1))]
      ++ codeB ++ [.jump (.nth d.labels)] ++ [.label (.nth (d.labels + 1))]
      = Code.loop d.labels code codeB := by simp [Code.loop]
  rw [← hcode, show max peak peakB = max (max 0 peak) peakB by omega]
  exact (hsecond.wroteLast _).wroteLast _

theorem assigned (h : cx.Arrives w d code peak none cx₁) (table : SymbolTable) (kind : SlotKind)
    (slot : UInt16) :
    cx.Arrives w { d with table := table } (code ++ [.store kind slot]) peak none
      ((cx₁.retabled table).wrote (.store kind slot)) :=
  ⟨(h.stands.retabled table).wrote _, (h.wrote.retabled table).wrote _⟩

/-- The line printer is below the value that is printed. -/
theorem printed (hat : cx.At w d)
    (h : ((cx.wrote Code.printer).pushed .reference).Arrives w d₁ code peak (some type) cx₁)
    (descriptor : String) :
    cx.Arrives w d₁ ([Code.printer] ++ code ++ [Code.println descriptor]) (1 + peak) none
      ((cx₁.popped cx.types.entries).wrote (Code.println descriptor)) := by
  have hdepth : cx₁.types.depth = cx.types.depth + 1 + 1 := h.wrote.depth_eq
  have hprinter := (leaf hat Code.printer .reference).wrote.trans h.wrote
  refine ⟨(h.stands.popped (by change cx.types.depth ≤ _; omega)).wrote _,
    ((hprinter.popped _).wrote _).congr rfl ?_⟩
  change max _ (max (cx.types.depth + 1) (cx.types.depth + 1 + peak)) = _
  omega

theorem asserted (h : cx.Arrives w { d with labels := k } code peak none start) :
    cx.Arrives w { d with labels := k + 1 } (code ++ Code.assertion k) (max peak 3) none
      start.asserted := by
  have hlabel : start.label = .nth k := h.stands.label_eq
  have hentries : start.types.entries = cx.types.entries := h.wrote.entries
  rw [Context.asserted, hlabel]
  -- The type stack is three higher when the message is on it, and as before at the end.
  have hstands := (((h.stands.labelled.wrote (.jumpIf .ne (.nth k))).created
    Emit.assertionClass).wrote (.push (.string "Assertion failed"))).pushed .reference
  have hwrote := (((h.wrote.labelled.wrote (.jumpIf .ne (.nth k))).created
    Emit.assertionClass).wrote (.push (.string "Assertion failed"))).pushed .reference
  have hcalled := hstands.called .special Emit.assertionClass "<init>" "(Ljava/lang/Object;)V"
    (start.types.entries.push .reference)
    (by change start.types.depth + 1 ≤ start.types.depth + 3; omega)
  refine ⟨(((hcalled.wrote .throw).popped (Nat.le_succ _)).wrote _), ?_⟩
  have hend := (((hwrote.called .special Emit.assertionClass "<init>" "(Ljava/lang/Object;)V"
    (start.types.entries.push .reference)).wrote .throw).popped start.types.entries).wrote
    (.label (.nth k))
  rw [hentries] at hend ⊢
  refine hend.congr (by simp [Code.assertion]) ?_
  change max _ (max (max (cx.types.depth + peak) (cx.types.depth + 2)) (cx.types.depth + 2 + 1)) = _
  omega

theorem slept (hpeak : 0 < peak) (h : cx.Arrives w d code peak none start) :
    cx.Arrives w d (code ++ Code.sleep) peak none start.slept := by
  have hentries : start.types.entries = cx.types.entries := h.wrote.entries
  have hlong := (h.wroteLast (.convert .i2l)).pushed hpeak .long
  rw [Context.slept, hentries]
  have hend := (hlong.wroteLast (.invoke .static ⟨Emit.threadClass, "sleep", "(J)V"⟩)).popped
  rw [List.append_assoc] at hend
  exact hend

/-- The start of a task has four values on the stack at most. -/
theorem spawned (h : cx.At w d) (task : String) :
    cx.Arrives w d (Code.spawn task) 4 none (cx.spawned task) := by
  -- Two references to the thread and two to the task are the most there is on the type stack.
  have hstands := ((((h.noted (.spawn cx.unitName task)).created Emit.threadClass).created
    task).called .special task "<init>" "()V"
    (((cx.types.entries.push .reference).push .reference).push .reference) (Nat.le_succ _)).called
    .special Emit.threadClass "<init>" "(Ljava/lang/Runnable;)V" (cx.types.entries.push .reference)
    (by change cx.types.depth + 1 ≤ cx.types.depth + 3; omega)
  have hwrote := ((((((Wrote.refl cx).noted (.spawn cx.unitName task)).created
    Emit.threadClass).created task).called .special task "<init>" "()V"
    (((cx.types.entries.push .reference).push .reference).push .reference)).called .special
    Emit.threadClass "<init>" "(Ljava/lang/Runnable;)V" (cx.types.entries.push .reference)).called
    .virtual Emit.threadClass "start" "()V" cx.types.entries
  refine ⟨hstands.called _ _ _ _ cx.types.entries (Nat.le_succ _), hwrote.congr rfl ?_⟩
  change max _ (max (max 0 (cx.types.depth + 2)) (cx.types.depth + 2 + 2)) = _
  omega

/-- The start of a task, once the session has gone on to another. -/
theorem spawnedIn {session : Session} {units : List CodeUnit} (h : cx.At w d)
    (hs : session.At w units) (task : String) :
    cx.Arrives w { d with units := units } (Code.spawn task) 4 none
      (Context.spawned { cx with session := session } task) := by
  have hat : Context.At { cx with session := session } w { d with units := units } :=
    ⟨hs, h.symbols, h.nextLabel, h.depth_le⟩
  have hend := spawned hat task
  exact ⟨hend.stands, hend.wrote.unitName, hend.wrote.instructions, hend.wrote.maxDepth,
    hend.wrote.entries⟩

end Arrives

end Context

end StackUnits
