import StackUnits.Proofs.Acceptance

/-!
# What a program is refused for

The compiler may fail at any point of its walk, and some of its checks are on its own account: that
a value it takes off the type stack is there, that the arms of a conditional agree, that a scope is
open. What is left without them is the **review** of a program (`StackUnits.Expr.review`,
`StackUnits.Stmt.review`, `StackUnits.Tree.review`): the same walk, but over types only. It knows
the types of the variables and the names of the finished tasks, and neither a stack nor scopes,
slots or labels. It leads to what is known at the end, or to the first complaint about the program.

A program with code passes its review (`StackUnits.Stmt.HasCode.review_eq`). What a review may
complain about is in `StackUnits.Proofs.Complaints`, and that the compiler fails exactly where the
review does is in `StackUnits.Proofs.Refusal`.
-/

namespace StackUnits

/-! ### Results -/

theorem Result.ok_bind {ε α β : Type} (a : α) (f : α → Except ε β) :
    ((.ok a : Except ε α) >>= f) = f a :=
  rfl

theorem Result.error_bind {ε α β : Type} (e : ε) (f : α → Except ε β) :
    ((.error e : Except ε α) >>= f) = .error e :=
  rfl

/-! ### The review of an expression -/

namespace OperandType

/-- The type of an operation on two operands: they are of one type, which has arithmetic. -/
def combined (tag : Tag) (left right : OperandType) : Except CompileError OperandType :=
  if left = right then
    match left.family? with
    | some _ => .ok left
    | none => .error (.unsupportedOperation "arithmetic" left (some tag.text))
  else .error (.typeMismatch tag.text (.type left) right)

/-- The type of a cast: there is a conversion to it. -/
def converted (tag : Tag) (source target : OperandType) : Except CompileError OperandType :=
  match source.conversionTo? target with
  | some _ => .ok target
  | none => .error (.unsupportedConversion source target (some tag.text))

/-- A value that is tested is of the int category. -/
def tested (tag : Tag) (type : OperandType) : Except CompileError Unit :=
  if type.isIntCategory then .ok ()
  else .error (.typeMismatch tag.text .intCategory type)

end OperandType

open OperandType in
/-- **The review of an expression**: its type, or the first complaint about it. -/
def Expr.review (Γ : TypeEnv) : Expr → Except CompileError OperandType
  | .fault _ error => .error error
  | .literal _ _ type => .ok type
  | .var _ name =>
    match Γ name with
    | some type => .ok type
    | none => .error (.unknownVariable name)
  | .arith tag _ left right => do
    let tl ← left.review Γ
    let tr ← right.review Γ
    combined tag tl tr
  | .cast tag target operand => do
    let source ← operand.review Γ
    converted tag source target
  | .and tag left right | .or tag left right => do
    left.review Γ >>= tested tag
    right.review Γ >>= tested tag
    return .boolean
  | .not tag operand => do
    operand.review Γ >>= tested tag
    return .boolean
  | .compare tag _ left right => do
    let tl ← left.review Γ
    let tr ← right.review Γ
    combined tag tl tr >>= tested tag
    return .boolean

/-- The review of an expression whose value is tested at a node. -/
def Expr.reviewTested (Γ : TypeEnv) (tag : Tag) (e : Expr) : Except CompileError Unit :=
  e.review Γ >>= OperandType.tested tag

/-! ### The review of a statement -/

/-- What is known after an assignment: a name that is known keeps its type. -/
def Known.assigned (known : Known) (name : String) (type : OperandType) :
    Except CompileError Known :=
  match known.env name with
  | some other =>
    if other = type then .ok { known with env := known.env.set name type }
    else .error (.typeMismatch (SymbolTable.nameText name) (.type other) type)
  | none => .ok { known with env := known.env.set name type }

/-- What is known of a task by name: it is finished, or begun, or found by the resolver on the
configured search path. -/
def World.taskNamed (w : World) (finished : List String) (name : String) :
    Except CompileError TaskInfo :=
  if name ∈ finished then .ok ⟨name, true, true⟩
  else
    match w.begun.lookup name with
    | some kind => .ok ⟨name, kind == .task, kind == .task⟩
    | none =>
      match w.config.taskSearchPath with
      | none => .error (.malformedSearchPath (.notConfigured name))
      | some list => do
        let path ← SearchPath.parse list
        let task ← (w.resolver name path).outcome
        if task.name = name then .ok task
        else .error (.invalidTaskUnit name (.holdsUnit task.name))

/-- A task that is started can be created and run. -/
def TaskInfo.startable (task : TaskInfo) (name : String) : Except CompileError Unit :=
  if task.hasConstructor then
    if task.runnable then .ok () else .error (.invalidTaskUnit name .notRunnable)
  else .error (.invalidTaskUnit name .noConstructor)

/-- **The review of a statement**: what is known after it, or the first complaint about it. -/
def Stmt.review : Stmt → World → Known → Except CompileError Known
  | .nothing, _, known => .ok known
  | .fault _ error, _, _ => .error error
  | .sequence _ first rest, w, known => do
    let known₁ ← first.review w known
    rest.review w known₁
  | .block _ body, w, known => body.review w known
  | .assign _ name value, _, known => do
    let type ← value.review known.env
    known.assigned name type
  | .print tag value, _, known => do
    let type ← value.review known.env
    if type.printDescriptor? = none then .error (.unsupportedPrintType type tag.text)
    else .ok known
  | .assert tag value, _, known | .sleep tag value, _, known => do
    value.reviewTested known.env tag
    return known
  | .ifThen tag condition body, w, known | .loop tag condition body, w, known => do
    condition.reviewTested known.env tag
    body.review w known
  | .ifElse tag condition thenBranch elseBranch, w, known => do
    condition.reviewTested known.env tag
    let known₁ ← thenBranch.review w known
    elseBranch.review w known₁
  | .spawn tag name, w, known => do
    checkUnitName name tag
    let task ← w.taskNamed known.finished name
    task.startable name
    return known
  | .spawnInline _ name bodyTag body, w, known =>
    if name ∈ known.finished ∨ w.begun.lookup name ≠ none then
      .error (bodyTag.malformed (.nameTaken name))
    else do
      checkUnitName name bodyTag
      let after ← body.review (w.begin name .task) ⟨.empty, known.finished⟩
      return { known with finished := after.finished ++ [name] }

/-- **The review of a program** of the given name. -/
def Tree.review (t : Tree) (config : Config) (resolver : Resolver) (name : String) :
    Except CompileError Known := do
  checkUnitName name t.tag
  t.toStmt.review (.ofProgram config resolver name) ⟨.empty, []⟩

/-! ### What has code passes -/

open Result

namespace OperandType

theorem combined_eq_ok {tag : Tag} {type : OperandType} {family : Family}
    (h : type.family? = some family) : combined tag type type = .ok type := by
  rw [combined, if_pos rfl, h]

theorem tested_eq_ok {tag : Tag} {type : OperandType} (h : type.isIntCategory = true) :
    tested tag type = .ok () :=
  if_pos h

end OperandType

open OperandType in
/-- **An expression with code passes its review**, with the type of its code. By induction on the
code. -/
theorem Expr.HasCode.review_eq {e : Expr} {table : SymbolTable} {k k' : Nat}
    {code : List Instruction} {type : OperandType} (h : e.HasCode table k code type k') :
    e.review table.typeOf = .ok type := by
  induction h with
  | literal => rfl
  | var hinfo _ =>
    rw [review, SymbolTable.typeOf, hinfo]
    rfl
  | arith _ _ hfamily ihl ihr => rw [review, ihl, ihr, ok_bind, ok_bind, combined_eq_ok hfamily]
  | cast _ hconv ih => rw [review, ih, ok_bind, converted, hconv]
  | and _ htl _ htr ihl ihr | or _ htl _ htr ihl ihr =>
    rw [review, ihl, ihr, ok_bind, ok_bind, tested_eq_ok htl, tested_eq_ok htr]
    rfl
  | not _ htype ih =>
    rw [review, ih, ok_bind, tested_eq_ok htype]
    rfl
  | compare _ _ htype ihl ihr =>
    rw [review, ihl, ihr, ok_bind, ok_bind, combined_eq_ok (family?_of_isIntCategory htype),
      ok_bind, tested_eq_ok htype]
    rfl

/-- A condition with code passes, if its type is one that can be tested. -/
theorem Expr.HasCode.reviewTested_eq {e : Expr} {d : Draft} {k k' : Nat} {code : List Instruction}
    {type : OperandType} (h : e.HasCode d.table k code type k') (htype : type.isIntCategory = true)
    (tag : Tag) : e.reviewTested d.known.env tag = .ok () := by
  change (e.review d.table.typeOf >>= OperandType.tested tag) = _
  rw [h.review_eq, ok_bind, OperandType.tested_eq_ok htype]

/-- A task that can be started passes. Where the compiler finds it, in the units or with the
resolver, is where the review does. -/
theorem World.CanStart.exists_taskNamed {w : World} {units : List CodeUnit} {name : String}
    (h : w.CanStart units name) (hunits : ∀ unit ∈ units, unit.kind = .task) :
    ∃ task, w.taskNamed (units.map CodeUnit.name) name = .ok task ∧
      task.startable name = .ok () := by
  unfold taskNamed
  by_cases hfinished : name ∈ units.map CodeUnit.name
  · exact ⟨_, if_pos hfinished, rfl⟩
  rw [if_neg hfinished]
  rcases (canStart_iff hunits).1 h with hmem | hbegun | ⟨hbegun, list, path, task, hlist, hpath,
    houtcome, hname, hconstructor, hrunnable⟩
  · exact absurd hmem hfinished
  · rw [hbegun]
    exact ⟨_, rfl, rfl⟩
  · refine ⟨task, ?_, by rw [TaskInfo.startable, if_pos hconstructor, if_pos hrunnable]⟩
    simp only [hbegun, hlist, hpath, ok_bind, houtcome, if_pos hname]

/-- **A statement with code passes its review**, which leads to what is known at its draft. So the
review of a sequence goes on where the code does. -/
theorem Stmt.HasCode.review_eq {s : Stmt} {w : World} {d d' : Draft} {code : List Instruction}
    (h : s.HasCode w d code d') (hd : ∀ unit ∈ d.units, unit.kind = .task) :
    s.review w d.known = .ok d'.known := by
  induction h with
  | nothing => rfl
  | sequence h₁ _ ih₁ ih₂ =>
    rw [review, ih₁ hd, ok_bind]
    exact ih₂ (h₁.tasks hd)
  | block _ ih => exact ih hd
  | @assign _ d _ _ name _ _ _ _ _ _ hc hslot _ =>
    rw [review, show d.known.env = d.table.typeOf from rfl, hc.review_eq, ok_bind,
      Draft.known_assigned hslot, Known.assigned]
    rcases hother : d.known.env name with _ | other
    · rfl
    · -- A name that was known keeps its type, and now has the type of the value.
      obtain ⟨info, hinfo, rfl⟩ := Option.map_eq_some_iff.1 hother
      have hkept := hslot.within hinfo
      rw [hslot.lookup_eq, if_pos rfl] at hkept
      exact if_pos (congrArg VarInfo.type (Option.some.inj hkept)).symm
  | @print _ d _ _ _ _ _ _ hc hprint =>
    rw [review, show d.known.env = d.table.typeOf from rfl, hc.review_eq, ok_bind, hprint]
    rfl
  | assert hc htype | sleep hc htype =>
    rw [review, hc.reviewTested_eq htype]
    rfl
  | ifThen hc htype _ ih | loop hc htype _ ih =>
    rw [review, hc.reviewTested_eq htype, ok_bind]
    exact ih hd
  | @ifElse _ d _ _ k _ _ _ _ _ _ _ _ hc htype ht _ iht ihe =>
    rw [review, hc.reviewTested_eq htype, ok_bind,
      show d.known = Draft.known { d with labels := k + 2 } from rfl, iht hd, ok_bind]
    exact ihe (ht.tasks hd)
  | @spawn w d _ name hplain hstart =>
    obtain ⟨task, htask, hstartable⟩ := hstart.exists_taskNamed hd
    rw [review, checkUnitName_eq_ok.2 hplain, ok_bind,
      show d.known.finished = d.units.map CodeUnit.name from rfl, htask, ok_bind, hstartable]
    rfl
  | @spawnInline w d _ _ name _ body _ hplain hunused _ _ ih =>
    have hnot : ¬(name ∈ d.known.finished ∨ w.begun.lookup name ≠ none) := by
      obtain ⟨hfinished, hbegun⟩ := World.unused_iff.1 hunused
      exact not_or.2 ⟨hfinished, not_not.2 hbegun⟩
    rw [review, if_neg hnot, checkUnitName_eq_ok.2 hplain, ok_bind,
      show Known.mk .empty d.known.finished = (Draft.fresh d.units).known from rfl, ih hd, ok_bind,
      Draft.known_finished]
    rfl

end StackUnits
