import StackUnits.Proofs.Tables
import StackUnits.Proofs.Writing

/-!
# Tasks and units in a session

Two things that a statement may do concern the session and not the unit around it. It may ask
for a task by name: `StackUnits.Emit.requireTask_iff` says when there is one. And it may give a
task on the spot, which is compiled into a unit of its own:
`StackUnits.Session.compileUnit_sound` and `StackUnits.Session.compileUnit_complete` say what the
unit is, given what is known of its body.

The body is any action here, since a program is a unit just as well.
-/

namespace StackUnits

/-! ### Names -/

/-- The names that are accepted for a unit are the plain ones. -/
theorem checkUnitName_eq_ok {name : String} {tag : Tag} :
    checkUnitName name tag = .ok () ↔ PlainName name := by
  unfold checkUnitName PlainName
  split
  · rename_i hempty
    simp [hempty]
  · rename_i hempty
    split
    · rename_i hbad
      simp only [Bool.or_eq_true, List.contains_iff_mem, decide_eq_true_eq] at hbad
      simp only [reduceCtorEq, false_iff]
      tauto
    · rename_i hgood
      simp only [Bool.or_eq_true, List.contains_iff_mem, decide_eq_true_eq, not_or] at hgood
      simp only [true_iff]
      tauto

namespace Session

theorem noteAll_eq (session : Session) (notes : List Event) :
    session.noteAll notes = { session with journal := notes.reverse ++ session.journal } := by
  induction notes generalizing session with
  | nil => rfl
  | cons event notes ih =>
    change (session.note event).noteAll notes = _
    rw [ih, List.reverse_cons, List.append_assoc]
    rfl

open StackUnits.Action in
/-- **Where a task is looked for**: among the finished units, among those that are begun, and at
last with the resolver, whose notes are kept. -/
theorem resolveTask_eq_ok {session session' : Session} {name : String} {tag : Tag}
    {task : TaskInfo} :
    resolveTask name tag session = .ok task session' ↔ PlainName name ∧
      match session.units.find? fun unit => unit.name == name with
      | some unit => task = unit.taskInfo ∧ session' = session
      | none =>
        match session.inProgress.lookup name with
        | some kind => task = ⟨name, kind == .task, kind == .task⟩ ∧ session' = session
        | none => ∃ list path, session.config.taskSearchPath = some list ∧
            SearchPath.parse list = .ok path ∧ (session.resolver name path).outcome = .ok task ∧
            task.name = name ∧ session' = session.noteAll (session.resolver name path).notes := by
  rw [resolveTask, ← checkUnitName_eq_ok]
  rcases checkUnitName name tag with e | ⟨⟩
  · simp
  refine Iff.trans ?_ (and_iff_right rfl).symm
  change (get >>= fun session => _ : SessionM TaskInfo) session = _ ↔ _
  rw [bind_run (get_eq_ok.2 ⟨rfl, rfl⟩)]
  cases session.units.find? (fun unit => unit.name == name) with
  | some unit => exact pure_eq_ok
  | none =>
    cases session.inProgress.lookup name with
    | some kind => exact pure_eq_ok
    | none =>
      -- Only here the resolver is asked, and its notes are kept.
      cases session.config.taskSearchPath with
      | none => simp
      | some list =>
        rcases hparse : SearchPath.parse list with e | path
        · simp [hparse]
        constructor
        · intro h
          simp only [hparse, bind_eq_ok, set_eq_ok] at h
          obtain ⟨⟨⟩, _, rfl, h⟩ := h
          rcases houtcome : (session.resolver name path).outcome with e | answer
          · simp only [houtcome, throw_eq_ok] at h
          · simp only [houtcome, ite_run] at h
            split at h
            · rename_i hname
              obtain ⟨rfl, rfl⟩ := pure_eq_ok.1 h
              exact ⟨list, path, rfl, hparse, houtcome, hname, rfl⟩
            · exact (throw_eq_ok.1 h).elim
        · rintro ⟨_, _, ⟨⟩, hpath, houtcome, hname, rfl⟩
          obtain rfl := Except.ok.inj (hparse.symm.trans hpath)
          simp only [hparse, bind_eq_ok, set_eq_ok]
          refine ⟨(), _, rfl, ?_⟩
          simp only [houtcome, ite_run, if_pos hname]
          exact pure_eq_ok.2 ⟨rfl, rfl⟩

end Session

theorem Session.At.noteAll {session : Session} {w : World} {units : List CodeUnit}
    (h : session.At w units) (notes : List Event) : (session.noteAll notes).At w units := by
  rw [Session.noteAll_eq]
  exact ⟨h.config, h.resolver, h.begun, h.units⟩

namespace Emit

open StackUnits.Action

variable {cx cx' : Context} {tag : Tag} {name : String} {u : Unit}

/-- A task can be asked for if it is found and can be created and run. A unit of a program is found
too, and then refused. -/
theorem requireTask_eq_ok :
    requireTask tag name cx = .ok u cx' ↔
      ∃ task session, Session.resolveTask name tag cx.session = .ok task session ∧
        task.hasConstructor = true ∧ task.runnable = true ∧
        cx' = { cx with session := session } := by
  simp only [requireTask, bind_eq_ok, inSession_eq_ok]
  constructor
  · rintro ⟨⟨_, constructor, runnable⟩, _, ⟨session, hresolve, rfl⟩, h⟩
    cases constructor <;> cases runnable <;> simp at h
    exact ⟨_, session, hresolve, rfl, rfl, h⟩
  · rintro ⟨⟨_, constructor, runnable⟩, session, hresolve, ⟨⟩, ⟨⟩, rfl⟩
    exact ⟨_, _, ⟨session, hresolve, rfl⟩, by simp⟩

/-- Asking for a task leaves notes and nothing else, so that the code goes on as if it had not been
asked for. -/
theorem requireTask_notes (h : requireTask tag name cx = .ok u cx') :
    ∃ notes, cx' = { cx with session := cx.session.noteAll notes } := by
  obtain ⟨task, session, hresolve, -, -, rfl⟩ := requireTask_eq_ok.1 h
  have hsession := (Session.resolveTask_eq_ok.1 hresolve).2
  split at hsession
  · exact ⟨[], by rw [hsession.2]; rfl⟩
  · split at hsession
    · exact ⟨[], by rw [hsession.2]; rfl⟩
    · obtain ⟨list, path, -, -, -, -, rfl⟩ := hsession
      exact ⟨_, rfl⟩

/-- **A task can be asked for** if it can be started. On the left is what the compiler does, and on
the right a condition on the draft; the notes are on neither side. -/
theorem requireTask_iff {w : World} {d : Draft} (hat : cx.At w d) :
    (∃ cx', requireTask tag name cx = .ok () cx') ↔ PlainName name ∧ w.CanStart d.units name := by
  simp only [requireTask_eq_ok, Session.resolveTask_eq_ok, World.CanStart,
    hat.session.units, hat.session.begun]
  cases d.units.find? (fun unit => unit.name == name) with
  | some unit =>
    constructor
    · rintro ⟨_, task, _, ⟨hplain, rfl, -⟩, hconstructor, -⟩
      exact ⟨hplain, eq_of_beq hconstructor⟩
    · rintro ⟨hplain, hkind⟩
      have htask : (unit.kind == .task) = true := beq_iff_eq.2 hkind
      exact ⟨_, _, _, ⟨hplain, rfl, rfl⟩, htask, htask, rfl⟩
  | none =>
    cases w.begun.lookup name with
    | some kind =>
      constructor
      · rintro ⟨_, task, _, ⟨hplain, rfl, -⟩, hconstructor, -⟩
        exact ⟨hplain, eq_of_beq hconstructor⟩
      · rintro ⟨hplain, rfl⟩
        exact ⟨_, _, _, ⟨hplain, rfl, rfl⟩, rfl, rfl, rfl⟩
    | none =>
      simp only [World.Resolves, ← hat.session.config, ← hat.session.resolver]
      constructor
      · rintro ⟨_, task, _, ⟨hplain, list, path, hlist, hpath, houtcome, hname, -⟩, hconstructor,
          hrunnable, -⟩
        exact ⟨hplain, list, path, task, hlist, hpath, houtcome, hname, hconstructor, hrunnable⟩
      · rintro ⟨hplain, list, path, task, hlist, hpath, houtcome, hname, hconstructor, hrunnable⟩
        exact ⟨_, task, _, ⟨hplain, list, path, hlist, hpath, houtcome, hname, rfl⟩, hconstructor,
          hrunnable, rfl⟩

end Emit

/-! ### Units -/

/-- The context in which the body of a unit begins. -/
def Context.starting (session : Session) (name : String) (kind : UnitKind) : Context where
  session := { session with inProgress := (name, kind) :: session.inProgress }
  unitName := name
  symbols := SymbolTable.enterScope {}

/-- The context in which a unit is begun has a table with one frame, and a draft without labels. -/
theorem Context.At.starting {session : Session} {w : World} {units : List CodeUnit}
    (h : session.At w units) (name : String) (kind : UnitKind) :
    (Context.starting session name kind).At (w.begin name kind) (.fresh units) where
  session := ⟨h.config, h.resolver, congrArg ((name, kind) :: ·) h.begun, h.units⟩
  symbols := rfl
  nextLabel := rfl
  depth_le := Nat.le_refl 0

/-- In a context of its own, a body counts as many values as it needs room for. In another context
there may be values below it. -/
theorem Context.Arrives.maxDepth_eq {session : Session} {name : String} {w : World} {d : Draft}
    {code : List Instruction} {peak : Nat} {out : Option OperandType} {cx : Context}
    (h : Context.Arrives { session := session, unitName := name, symbols := .enterScope {} } w d
      code peak out cx) : cx.types.maxDepth = peak := by
  rw [h.wrote.maxDepth]
  exact (Nat.zero_max _).trans (Nat.zero_add peak)

namespace SymbolTable

theorem exitScope_eq_ok {table table' : SymbolTable} :
    table.exitScope = .ok table' ↔ ∃ frame rest, table.frames = frame :: rest ∧
      table' =
        { table with frames := rest, nextSlot := table.nextSlot - UInt16.ofNat frame.size } := by
  unfold exitScope
  rcases table.frames with _ | ⟨frame, rest⟩
  · simp
  · constructor
    · rintro ⟨⟩
      exact ⟨frame, rest, rfl, rfl⟩
    · rintro ⟨_, _, ⟨⟩, rfl⟩
      rfl

end SymbolTable

/-- The scope of a unit can be left as long as a frame is open. -/
theorem Context.At.exists_exitScope {cx : Context} {w : World} {d : Draft} (h : cx.At w d)
    (hframes : d.table.frames ≠ []) : ∃ table, cx.symbols.exitScope = .ok table := by
  rw [← h.symbols] at hframes
  obtain ⟨frame, rest, hcons⟩ := List.exists_cons_of_ne_nil hframes
  exact ⟨_, SymbolTable.exitScope_eq_ok.2 ⟨frame, rest, hcons, rfl⟩⟩

/-- A unit that is checked for its labels is handed on as it is. -/
theorem Emit.checked_eq_ok {cx cx' : Context} {unit unit' : CodeUnit} :
    (match unit.checkLabels with | .ok () => pure unit | .error e => throw e : Emit CodeUnit) cx =
      .ok unit' cx' ↔ unit' = unit ∧ cx' = cx ∧ unit.checkLabels = .ok () := by
  rcases unit.checkLabels with e | ⟨⟩
  · simp
  · simp

theorem Emit.exitScope_eq_ok {cx cx' : Context} : exitScope cx = .ok () cx' ↔
    ∃ table, cx.symbols.exitScope = .ok table ∧ cx' = cx.retabled table := by
  unfold exitScope
  rcases cx.symbols.exitScope with e | table
  · simp
  · simp [Context.retabled, eq_comm]

open StackUnits.Action in
/-- **A unit is compiled** step by step: its scope is entered, its body compiled, the scope left, no
value is on the stack, and the last instruction is written; then the labels are checked. A unit
compiles exactly if all of this goes through. -/
theorem Emit.wholeUnit_eq_ok {name : String} {kind : UnitKind} {tag : Tag} {body : Emit Unit}
    {cx cx' : Context} {unit : CodeUnit} :
    wholeUnit name kind tag body cx = .ok unit cx' ↔
      ∃ cx₁ table, body (cx.retabled cx.symbols.enterScope) = .ok () cx₁ ∧
        cx₁.symbols.exitScope = .ok table ∧ cx₁.types.depth = 0 ∧
        cx' = (cx₁.retabled table).wrote .ret ∧ unit = cx'.finish kind ∧
        unit.checkLabels = .ok () := by
  have henter : enterScope cx = .ok () (cx.retabled cx.symbols.enterScope) := rfl
  unfold wholeUnit
  rw [bind_run henter]
  constructor
  · intro h
    obtain ⟨_, cx₁, hbody, h⟩ := bind_eq_ok.1 h
    obtain ⟨_, cx₂, hexit, h⟩ := bind_eq_ok.1 h
    obtain ⟨table, htable, rfl⟩ := exitScope_eq_ok.1 hexit
    rw [bind_run (get_eq_ok.2 ⟨rfl, rfl⟩)] at h
    obtain ⟨hdepth, h⟩ := guard_eq_ok.1 h
    obtain ⟨_, cx₃, hemit, h⟩ := bind_eq_ok.1 h
    rw [bind_run (get_eq_ok.2 ⟨rfl, rfl⟩), emit_eq_ok.1 hemit] at h
    obtain ⟨rfl, rfl, hlabels⟩ := checked_eq_ok.1 h
    exact ⟨cx₁, table, hbody, htable, Decidable.not_not.1 hdepth, rfl, rfl, hlabels⟩
  · rintro ⟨cx₁, table, hbody, htable, hdepth, rfl, rfl, hlabels⟩
    rw [bind_run hbody, bind_run (exitScope_eq_ok.2 ⟨table, htable, rfl⟩),
      bind_run (get_eq_ok.2 ⟨rfl, rfl⟩)]
    refine guard_eq_ok.2 ⟨Decidable.not_not.2 hdepth, ?_⟩
    refine bind_eq_ok.2 ⟨(), _, emit_eq_ok.2 rfl, ?_⟩
    rw [bind_run (get_eq_ok.2 ⟨rfl, rfl⟩)]
    exact checked_eq_ok.2 ⟨rfl, rfl, hlabels⟩

namespace Session

open StackUnits.Action Emit

variable {session session' : Session} {name : String} {kind : UnitKind} {tag : Tag}
  {body : Emit Unit} {unit : CodeUnit} {w : World} {units : List CodeUnit}

theorem compileBegun_eq_ok :
    compileBegun name kind tag body session = .ok unit session' ↔
      ∃ cx table, body (Context.starting session name kind) = .ok () cx ∧
        cx.symbols.exitScope = .ok table ∧ cx.types.depth = 0 ∧
        unit = ((cx.retabled table).wrote .ret).finish kind ∧ unit.checkLabels = .ok () ∧
        session' = { ((cx.retabled table).wrote .ret).session with
          inProgress := cx.session.inProgress.tail } := by
  unfold compileBegun compileBody
  rcases h : wholeUnit name kind tag body _ with ⟨unit', cx'⟩ | ⟨e, cx'⟩
  · obtain ⟨cx, table, hbody, htable, hdepth, rfl, rfl, hcheck⟩ := wholeUnit_eq_ok.1 h
    constructor
    · rintro ⟨⟩
      exact ⟨cx, table, hbody, htable, hdepth, rfl, hcheck, rfl⟩
    · rintro ⟨cx₂, table', hbody', htable', -, rfl, -, rfl⟩
      cases hbody.symm.trans hbody'
      cases htable.symm.trans htable'
      rfl
  · constructor
    · rintro ⟨⟩
    · rintro ⟨cx, table, hbody, htable, hdepth, rfl, hcheck, rfl⟩
      cases h.symm.trans (wholeUnit_eq_ok.2 ⟨cx, table, hbody, htable, hdepth, rfl, rfl, hcheck⟩)

/-- The unit that a body has led to: what is in the context at the end is what the draft says. -/
theorem finish_eq (kind : UnitKind) {w : World} {d : Draft} {code : List Instruction} {peak : Nat}
    {cx : Context} {table : SymbolTable} (h : Context.Arrives
      { session := session, unitName := name, symbols := .enterScope {} } w d code peak none cx)
    (htable : cx.symbols.exitScope = .ok table) :
    ((cx.retabled table).wrote .ret).finish kind = d.unit name kind peak code := by
  obtain ⟨frame, rest, -, rfl⟩ := SymbolTable.exitScope_eq_ok.1 htable
  have hname : cx.unitName = name := h.wrote.unitName
  have hcode : (cx.wrote .ret).code.instructions = code ++ [.ret] :=
    (h.wrote.wrote .ret).instructions
  calc ((cx.retabled _).wrote .ret).finish kind
    _ = { name := cx.unitName, kind := kind, maxLocals := cx.symbols.slotCount,
          maxStack := UInt16.ofNat cx.types.maxDepth, locals := cx.symbols.locals,
          instructions := (cx.wrote .ret).code.instructions } := rfl
    _ = d.unit name kind peak code := by rw [hname, hcode, h.maxDepth_eq, h.stands.symbols]; rfl

/-- A unit has a plain name, and notes are made before and after it. -/
theorem compileUnit_eq_ok :
    compileUnit name kind tag body session = .ok unit session' ↔ PlainName name ∧
      ∃ after, compileBegun name kind tag body (session.note (.unitBegun name kind)) =
        .ok unit after ∧ session' = after.note (.unitDone unit) := by
  rw [compileUnit, ← checkUnitName_eq_ok]
  rcases checkUnitName name tag with e | ⟨⟩
  · simp
  refine Iff.trans ?_ (and_iff_right rfl).symm
  change (record _ >>= fun _ => _ : SessionM CodeUnit) session = _ ↔ _
  simp only [record, bind_eq_ok, modify_eq_ok, pure_eq_ok]
  constructor
  · rintro ⟨⟨⟩, _, rfl, _, after, h, ⟨⟩, _, rfl, rfl, rfl⟩
    exact ⟨after, h, rfl⟩
  · rintro ⟨after, h, rfl⟩
    exact ⟨(), _, rfl, unit, after, h, (), _, rfl, rfl, rfl⟩

/-- The session after a unit, if its body has led to a draft. -/
theorem At.after {d : Draft} {cx : Context} {table : SymbolTable}
    (h : cx.At (w.begin name kind) d) :
    Session.At { ((cx.retabled table).wrote .ret).session with
      inProgress := cx.session.inProgress.tail } w d.units :=
  ⟨h.session.config, h.session.resolver, congrArg List.tail h.session.begun, h.session.units⟩

/-- **A unit that compiles** is the one that its body has led to. What is known of the body is a
parameter, so that this serves the program and the tasks alike. -/
theorem compileUnit_sound {P : List Instruction → Draft → Prop} {peak : Nat}
    (hs : session.At w units)
    (hbody : ∀ {cx cx' : Context}, cx.At (w.begin name kind) (.fresh units) →
      body cx = .ok () cx' → ∃ code d, P code d ∧
        cx.Arrives (w.begin name kind) d code peak none cx')
    (h : compileUnit name kind tag body session = .ok unit session') :
    PlainName name ∧ ∃ code d, P code d ∧ unit = d.unit name kind peak code ∧
      unit.checkLabels = .ok () ∧ session'.At w d.units := by
  obtain ⟨hplain, after, hbegun, rfl⟩ := compileUnit_eq_ok.1 h
  obtain ⟨cx, table, hrun, htable, -, rfl, hlabels, rfl⟩ := compileBegun_eq_ok.1 hbegun
  obtain ⟨code, d, hcode, harrives⟩ := hbody (.starting (hs.note _) name kind) hrun
  have hunit := finish_eq kind harrives htable
  exact ⟨hplain, code, d, hcode, hunit, hlabels, (At.after harrives.stands).note _⟩

/-- **A unit whose body leads to a draft compiles**, provided its labels are placed. The other
requirements are met by every body: its scope can be left, and it leaves no value on the stack. -/
theorem compileUnit_complete {d : Draft} {code : List Instruction} {peak : Nat} (tag : Tag)
    (hs : session.At w units) (hplain : PlainName name)
    (hbody : ∀ {cx : Context}, cx.At (w.begin name kind) (.fresh units) →
      ∃ cx', body cx = .ok () cx' ∧ cx.Arrives (w.begin name kind) d code peak none cx')
    (hframes : d.table.frames ≠ []) (hlabels : (d.unit name kind peak code).checkLabels = .ok ()) :
    ∃ session', compileUnit name kind tag body session = .ok (d.unit name kind peak code) session' ∧
      session'.At w d.units := by
  obtain ⟨cx, hrun, harrives⟩ :=
    hbody (.starting (hs.note (.unitBegun name kind)) name kind)
  obtain ⟨table, htable⟩ := harrives.stands.exists_exitScope hframes
  have hunit := finish_eq kind harrives htable
  exact ⟨_, compileUnit_eq_ok.2 ⟨hplain, _, compileBegun_eq_ok.2
    ⟨cx, _, hrun, htable, harrives.depth_eq, hunit.symm, hlabels, rfl⟩, rfl⟩,
    (At.after harrives.stands).note _⟩

theorem hasUnit_eq_false (hs : session.At w units) :
    session.hasUnit name = false ↔ w.Unused units name := by
  simp [hasUnit, World.Unused, hs.units, hs.begun]

/-- A task is compiled if its name is not in use, and is added to the finished units. -/
theorem compileTask_eq_ok {u : Unit} :
    compileTask name tag body session = .ok u session' ↔ session.hasUnit name = false ∧
      ∃ unit after, compileUnit name .task tag body session = .ok unit after ∧
        session' = { after with units := after.units ++ [unit] } := by
  rw [compileTask, bind_run (get_eq_ok.2 ⟨rfl, rfl⟩)]
  refine guard_eq_ok.trans (and_congr (by simp) ?_)
  simp only [bind_eq_ok, modify_eq_ok]

end Session

end StackUnits
