import StackUnits.Proofs.Spawning

/-!
# Tasks of the program and tasks from outside

A task that is started by name is one of the program's own, if the walk over the program has come
across it, and otherwise one that the resolver is asked for. A program is therefore independent of
what the resolver says about a task that it gives on the spot, *unless it starts the task before it
gives it*: then the walk has not come across the task, and the resolver is asked for a unit of the
same name.

That a task is **started early** (`StackUnits.Mention.Early`) is a matter of the order in which a
program speaks of it. The main result says that nothing else connects a program with the resolver
(`StackUnits.compile_precedence`):

* resolvers that agree, or that disagree only about tasks which the program gives on the spot and
  does not start early, make no difference (`StackUnits.Stmt.HasCode.withResolver`);
* no resolver makes a difference for what is written, only for whether it is;
* an early start is accepted only if the resolver knows the task
  (`StackUnits.Stmt.HasCode.canStart_of_early`).

The second point needs no argument about code. All resolvers that accept a program agree on it with
the one that knows every task, and the compiler is a function.
-/

namespace StackUnits

/-! ### Early starts -/

namespace Mention

variable {name : String} {walk walk' : List Mention}

/-- **A task is started early** in a walk: by name, where it has not been given before. -/
def Early (name : String) (walk : List Mention) : Prop :=
  ∃ before after, walk = before ++ .started name :: after ∧ .given name ∉ before

theorem not_early_nil : ¬Early name [] := by
  rintro ⟨before, after, heq, -⟩
  cases before <;> cases heq

/-- The first mention decides, unless it is of another task: a task that is started before it is
given is started early, and one that is given first is not. -/
theorem early_cons_iff {mention : Mention} :
    Early name (mention :: walk) ↔
      mention = .started name ∨ mention ≠ .given name ∧ Early name walk := by
  constructor
  · rintro ⟨before, after, heq, hgiven⟩
    rcases before with _ | ⟨first, before⟩
    · exact .inl (List.cons.inj heq).1
    · obtain ⟨rfl, rfl⟩ := List.cons.inj heq
      rw [List.mem_cons, not_or] at hgiven
      exact .inr ⟨Ne.symm hgiven.1, before, after, rfl, hgiven.2⟩
  · rintro (rfl | ⟨hne, before, after, rfl, hgiven⟩)
    · exact ⟨[], walk, rfl, List.not_mem_nil⟩
    · refine ⟨mention :: before, after, rfl, ?_⟩
      rw [List.mem_cons, not_or]
      exact ⟨hne.symm, hgiven⟩

/-- A task is started early in two walks if it is in the first, or in the second and not given in
the first. -/
theorem early_append_iff :
    Early name (walk ++ walk') ↔ Early name walk ∨ .given name ∉ walk ∧ Early name walk' := by
  induction walk with
  | nil => simp [not_early_nil]
  | cons mention walk ih =>
    rw [List.cons_append, early_cons_iff, early_cons_iff, ih, List.mem_cons, not_or, ne_comm]
    tauto

instance decidableEarly (name : String) : (walk : List Mention) → Decidable (Early name walk)
  | [] => .isFalse not_early_nil
  | _ :: walk =>
    have := decidableEarly name walk
    decidable_of_iff _ early_cons_iff.symm

end Mention

/-- A program starts a task early. -/
def Tree.StartsEarly (t : Tree) (name : String) : Prop :=
  Mention.Early name t.toStmt.mentions

instance (t : Tree) (name : String) : Decidable (t.StartsEarly name) :=
  inferInstanceAs (Decidable (Mention.Early _ _))

/-! ### Another resolver -/

namespace World

variable {w w' : World} {units : List CodeUnit} {name task : String} {kind : UnitKind}

/-- **A statement has the same code with another resolver**, if that one knows every task that is
started early. By induction on the code; what is asked of the resolver is passed on along the walk,
with the units that are finished by then. -/
def withResolver (w : World) (resolver : Resolver) : World :=
  { w with resolver := resolver }

/-- Two resolvers with the same answers know the same tasks. What they note while they look is not
compared. -/
theorem Resolves.congr {resolver : Resolver} (h : w.Resolves name)
    (hsame : ∀ path, (w.resolver name path).outcome = (resolver name path).outcome) :
    (w.withResolver resolver).Resolves name := by
  obtain ⟨list, path, info, hlist, hpath, hinfo, hrest⟩ := h
  exact ⟨list, path, info, hlist, hpath, hsame path ▸ hinfo, hrest⟩

/-- The resolver is needed only for names that no unit of the compilation has: finished units and
begun ones are looked at before it. -/
theorem CanStart.of_resolves (h : w.CanStart units name) (hbegun : w'.begun = w.begun)
    (hresolves : w.Unused units name → w.Resolves name → w'.Resolves name) :
    w'.CanStart units name := by
  rw [CanStart] at h ⊢
  rw [hbegun]
  cases hfind : units.find? (fun unit => unit.name == name) with
  | some unit => rwa [hfind] at h
  | none =>
    rw [hfind] at h
    cases hlookup : w.begun.lookup name with
    | some kind => rwa [hlookup] at h
    | none =>
      rw [hlookup] at h
      exact hresolves (unused_iff.2 ⟨CodeUnit.find?_eq_none_iff.1 hfind, hlookup⟩) h

/-- Finished units of other names do not matter, so that a task that can be started can be so
without them. -/
theorem CanStart.of_not_mem (h : w.CanStart units name)
    (hnot : name ∉ units.map CodeUnit.name) : w.CanStart [] name := by
  rw [CanStart, CodeUnit.find?_eq_none_iff.2 hnot] at h
  exact h

/-- **Another resolver suffices for a walk**: of the tasks that are started early, it knows those
that the resolver of the world does. -/
def Suffices (w : World) (resolver : Resolver) (units : List CodeUnit) (walk : List Mention) :
    Prop :=
  ∀ name, Mention.Early name walk → w.Unused units name → w.Resolves name →
    (w.withResolver resolver).Resolves name

theorem Suffices.left {resolver : Resolver} {walk walk' : List Mention}
    (h : w.Suffices resolver units (walk ++ walk')) : w.Suffices resolver units walk :=
  fun name hname => h name (Mention.early_append_iff.2 (.inl hname))

/-- A unit that is begun has its name from then on. -/
theorem unused_begin_iff :
    (w.begin task kind).Unused units name ↔ task ≠ name ∧ w.Unused units name := by
  simp only [Unused, begin, List.forall_mem_cons]
  exact and_left_comm

end World

namespace Stmt.HasCode

variable {s : Stmt} {w : World} {d d' : Draft} {code : List Instruction} {name : String}

/-- The names that are not in use after a statement are those that were not before, and that it does
not give to a task. -/
theorem unused_iff (h : s.HasCode w d code d') :
    w.Unused d'.units name ↔ w.Unused d.units name ∧ .given name ∉ s.mentions := by
  rw [World.unused_iff, World.unused_iff, h.mem_names_iff, not_or, and_right_comm]

/-- What is started early in a walk that begins with a statement is so in the statement, or in what
comes after it; and then the statement has not finished it. -/
theorem early_append (h : s.HasCode w d code d') {walk : List Mention}
    (hearly : Mention.Early name (s.mentions ++ walk)) (hnot : name ∉ d.units.map CodeUnit.name) :
    Mention.Early name s.mentions ∨
      name ∉ d'.units.map CodeUnit.name ∧ Mention.Early name walk := by
  rcases Mention.early_append_iff.1 hearly with hearly | ⟨hgiven, hearly⟩
  · exact .inl hearly
  · exact .inr ⟨fun hmem => (h.mem_names_iff.1 hmem).elim hnot hgiven, hearly⟩

/-- A resolver that suffices for a walk suffices for what comes after a statement. -/
theorem suffices_rest (h : s.HasCode w d code d') {resolver : Resolver} {walk : List Mention}
    (hsuffices : w.Suffices resolver d.units (s.mentions ++ walk)) :
    w.Suffices resolver d'.units walk := by
  intro name hearly hunused
  obtain ⟨hunused, hgiven⟩ := h.unused_iff.1 hunused
  exact hsuffices name (Mention.early_append_iff.2 (.inr ⟨hgiven, hearly⟩)) hunused

/-- **A statement has the same code with another resolver**, if that one knows every task that is
started early. By induction on the code; what is asked of the resolver is passed on along the walk,
with the units that are finished by then. -/
theorem withResolver (h : s.HasCode w d code d') {resolver : Resolver}
    (hsuffices : w.Suffices resolver d.units s.mentions) :
    s.HasCode (w.withResolver resolver) d code d' := by
  induction h with
  | nothing => exact .nothing
  | sequence h₁ _ ih₁ ih₂ =>
    exact .sequence (ih₁ hsuffices.left) (ih₂ (h₁.suffices_rest hsuffices))
  | block _ ih => exact .block (ih hsuffices)
  | assign hc hslot hkind => exact .assign hc hslot hkind
  | print hc hprint => exact .print hc hprint
  | assert hc htype => exact .assert hc htype
  | sleep hc htype => exact .sleep hc htype
  | ifThen hc htype _ ih => exact .ifThen hc htype (ih hsuffices)
  | ifElse hc htype ht _ iht ihe =>
    exact .ifElse hc htype (iht hsuffices.left) (ihe (ht.suffices_rest hsuffices))
  | loop hc htype _ ih => exact .loop hc htype (ih hsuffices)
  | spawn hplain hstart =>
    refine .spawn hplain (hstart.of_resolves rfl fun hunused => ?_)
    exact hsuffices _ (Mention.early_cons_iff.2 (.inl rfl)) hunused
  | spawnInline hplain hunused _ hlabels ih =>
    refine .spawnInline hplain hunused (ih fun name hname hbegun => ?_) hlabels
    -- Within its own body a task is begun, so the resolver is not asked for it.
    obtain ⟨hne, hbegun⟩ := World.unused_begin_iff.1 hbegun
    have hgiven : Mention.given _ ≠ .given name := fun heq => hne (Mention.given.inj heq)
    exact hsuffices name (Mention.early_cons_iff.2 (.inr ⟨hgiven, hname⟩)) hbegun

/-- **A task that is started early** can be started without any of the units that are finished. So
it is one that is begun, or one that the resolver knows. -/
theorem canStart_of_early (h : s.HasCode w d code d') (hearly : Mention.Early name s.mentions)
    (hnot : name ∉ d.units.map CodeUnit.name) : w.CanStart [] name := by
  induction h with
  | nothing | assign | print | assert | sleep => exact absurd hearly Mention.not_early_nil
  | sequence h₁ _ ih₁ ih₂ =>
    rcases h₁.early_append hearly hnot with hearly | ⟨hnot, hearly⟩
    · exact ih₁ hearly hnot
    · exact ih₂ hearly hnot
  | block _ ih | ifThen _ _ _ ih | loop _ _ _ ih => exact ih hearly hnot
  | ifElse _ _ ht _ iht ihe =>
    rcases ht.early_append hearly hnot with hearly | ⟨hnot, hearly⟩
    · exact iht hearly hnot
    · exact ihe hearly hnot
  | spawn _ hstart =>
    rcases Mention.early_cons_iff.1 hearly with heq | ⟨-, hearly⟩
    · cases heq
      exact hstart.of_not_mem hnot
    · exact absurd hearly Mention.not_early_nil
  | spawnInline _ _ _ _ ih =>
    rcases Mention.early_cons_iff.1 hearly with heq | ⟨hne, hearly⟩
    · cases heq
    · have hstart := ih hearly hnot
      rw [World.CanStart] at hstart ⊢
      rw [World.lookup_begin_of_ne fun heq => hne (congrArg _ heq.symm)] at hstart
      exact hstart

end Stmt.HasCode

/-! ### Whole programs -/

namespace Tree

variable {tree : Tree} {config : Config} {resolver resolver' : Resolver} {name n : String}
  {c : Compilation}

/-- **A program has the same units with another resolver**, if that one knows every task that is
started early and that the first one knows. -/
theorem hasUnits_withResolver (h : tree.toStmt.HasUnits config resolver name c)
    (hearly : ∀ n, tree.StartsEarly n → (World.ofProgram config resolver name).Resolves n →
      (World.ofProgram config resolver' name).Resolves n) :
    tree.toStmt.HasUnits config resolver' name c := by
  obtain ⟨hplain, code, d, hcode, hc, hlabels⟩ := h
  exact ⟨hplain, code, d, hcode.withResolver fun n hn _ => hearly n hn, hc, hlabels⟩

/-- The resolver knows every task that a program starts early: the program itself is begun, but it
is no task. -/
theorem resolves_of_startsEarly (h : tree.toStmt.HasUnits config resolver name c)
    (hearly : tree.StartsEarly n) : (World.ofProgram config resolver name).Resolves n := by
  obtain ⟨-, code, d, hcode, -⟩ := h
  have hstart := hcode.canStart_of_early hearly List.not_mem_nil
  rw [World.CanStart] at hstart
  rcases hlookup : (World.ofProgram config resolver name).begun.lookup n with _ | kind
  · rw [hlookup] at hstart
    exact hstart
  · -- The program itself is begun, but it is no task.
    rw [hlookup] at hstart
    cases hstart
    simp only [World.ofProgram, World.begin, List.lookup_cons, List.lookup_nil] at hlookup
    split at hlookup <;> cases hlookup

end Tree

/-- The resolver that knows every task. -/
def Resolver.knowingAll : Resolver :=
  fun name _ => { outcome := .ok ⟨name, true, true⟩ }

/-- Units that a program has with some resolver, it has with the one that knows every task. So two
compilations of one program can be compared with a third. -/
theorem Stmt.HasUnits.knowingAll {tree : Tree} {config : Config} {resolver : Resolver}
    {name : String} {c : Compilation} (h : tree.toStmt.HasUnits config resolver name c) :
    tree.toStmt.HasUnits config .knowingAll name c := by
  refine Tree.hasUnits_withResolver h fun n _ hresolves => ?_
  obtain ⟨list, path, -, hlist, hpath, -⟩ := hresolves
  exact ⟨list, path, ⟨n, true, true⟩, hlist, hpath, rfl, rfl, rfl, rfl⟩

/-- Compilations with two resolvers are the same if neither resolver lacks a task that is started
early and that the other one knows. -/
theorem toOption_compile_congr {config : Config} {tree : Tree} {resolver resolver' : Resolver}
    (hsame : ∀ n, tree.StartsEarly n → ∀ path,
      (resolver n path).outcome = (resolver' n path).outcome) :
    (compile config resolver tree).toOption = (compile config resolver' tree).toOption := by
  have hiff : ∀ c, compile config resolver tree = .ok c ↔
      compile config resolver' tree = .ok c := by
    intro c
    rw [compile_eq_ok_iff, compile_eq_ok_iff]
    constructor
    · exact fun h => Tree.hasUnits_withResolver h fun n hn hresolves =>
        hresolves.congr (hsame n hn)
    · exact fun h => Tree.hasUnits_withResolver h fun n hn hresolves =>
        hresolves.congr fun path => (hsame n hn path).symm
  rcases h : compile config resolver tree with e | c
  · rcases h' : compile config resolver' tree with e' | c'
    · rfl
    · cases h.symm.trans ((hiff c').2 h')
  · rw [(hiff c).1 h]

/-- **A task of the program takes precedence** over one that the resolver knows, except where it is
started early. Two resolvers give the same result if they differ only about tasks that the program
gives on the spot and does not start early; compilations with any two resolvers are the same; and a
program that starts a task early compiles only with a resolver that knows the task.

The first part compares successes only: where both fail, the errors may be different, since a
resolver has its own words. -/
theorem compile_precedence (config : Config) (tree : Tree) (resolver resolver' : Resolver) :
    ((∀ n, (n ∈ tree.inlineTasks.map Prod.fst → tree.StartsEarly n) →
          ∀ path, (resolver n path).outcome = (resolver' n path).outcome) →
        (compile config resolver tree).toOption = (compile config resolver' tree).toOption) ∧
      (∀ c c', compile config resolver tree = .ok c → compile config resolver' tree = .ok c' →
        c = c') ∧
      ∀ n c, tree.StartsEarly n → compile config resolver tree = .ok c →
        (World.ofProgram config resolver config.programName).Resolves n := by
  refine ⟨fun hsame => ?_, fun c c' h h' => ?_, fun n c hearly h => ?_⟩
  · exact toOption_compile_congr fun n hn => hsame n fun _ => hn
  · have hall := compile_eq_ok_iff.2 (compile_eq_ok_iff.1 h).knowingAll
    have hall' := compile_eq_ok_iff.2 (compile_eq_ok_iff.1 h').knowingAll
    exact Except.ok.inj (hall.symm.trans hall')
  · exact Tree.resolves_of_startsEarly (compile_eq_ok_iff.1 h) hearly

/-! ### Registries -/

/-- A task that is added to a table makes no difference for other names. -/
theorem Registry.resolver_insert_of_ne {registry : Registry} {dir name : String} {task : TaskInfo}
    (h : name ≠ task.name) (path : SearchPath) :
    (registry.insert dir task).resolver name path = registry.resolver name path := by
  have hfind : (fun dir' => (registry.insert dir task).find? dir' name) =
      fun dir' => registry.find? dir' name := by
    funext dir'
    have hne : ((Path.key dir', name) == (Path.key dir, task.name)) = false :=
      beq_eq_false_iff_ne.2 fun heq => h (Prod.mk.inj heq).2
    rw [find?, insert, List.lookup_cons, hne]
    rfl
  rw [resolver, resolver, hfind]

/-- A table with the task `Ticker` and a task `Inner` that cannot be started. -/
def Registry.shadowed : Registry :=
  (Registry.single "Ticker").insert "tasks" ⟨"Inner", false, false⟩

/-- The task `Inner` of the program, compiled elsewhere in such a way that it cannot be started,
changes nothing: the program gives the task before it starts it. The task `Ticker` is not given at
all, and the resolver has to know it. -/
theorem compile_precedence_relay :
    (∀ n, (n ∈ Tree.relay.inlineTasks.map Prod.fst → Tree.relay.StartsEarly n) → ∀ path,
        ((Registry.single "Ticker").resolver n path).outcome =
          (Registry.shadowed.resolver n path).outcome) ∧
      Tree.relay.StartsEarly "Ticker" ∧
      ∃ c, compile .searching (Registry.single "Ticker").resolver .relay = .ok c ∧
        compile .searching Registry.shadowed.resolver .relay = .ok c ∧
        (World.ofProgram .searching (Registry.single "Ticker").resolver "Main").Resolves
          "Ticker" := by
  have hinner : "Inner" ∈ Tree.relay.inlineTasks.map Prod.fst := by decide +kernel
  have hlate : ¬Tree.relay.StartsEarly "Inner" := by decide +kernel
  have hticker : Tree.relay.StartsEarly "Ticker" := by decide +kernel
  have hsame : ∀ n, (n ∈ Tree.relay.inlineTasks.map Prod.fst → Tree.relay.StartsEarly n) →
      ∀ path, ((Registry.single "Ticker").resolver n path).outcome =
        (Registry.shadowed.resolver n path).outcome := by
    intro n hn path
    have hne : n ≠ "Inner" := by
      rintro rfl
      exact hlate (hn hinner)
    rw [Registry.shadowed, Registry.resolver_insert_of_ne hne]
  obtain ⟨c, after, h, -⟩ := Session.compileNamed_relay
  have hc : compile .searching (Registry.single "Ticker").resolver .relay = .ok c :=
    compile_eq_ok_iff.2 ((Session.compileNamed_iff .ticking).1 ⟨after, h⟩)
  obtain ⟨hresult, hcode, hearly⟩ := compile_precedence .searching .relay
    (Registry.single "Ticker").resolver Registry.shadowed.resolver
  refine ⟨hsame, hticker, c, hc, ?_, hearly "Ticker" c hticker hc⟩
  rcases hc' : compile .searching Registry.shadowed.resolver .relay with e | c'
  · have heq := hresult hsame
    rw [hc, hc'] at heq
    cases heq
  · rw [hcode c c' hc hc']

/-- A program that starts a task and gives it only after that. -/
def Tree.forward : Tree :=
  ofList [ofSpawn "Worker", ofInlineSpawn "Worker" (unary .print (ofInteger "1"))]

/-- **A task that is started early is asked for outside**: of two resolvers that differ only about
the one task that the program gives on the spot, one makes the program compile and the other one
does not. -/
theorem compile_forward :
    Config.searching.taskSearchPath = some "tasks" ∧
      (∀ n, n ∉ Tree.forward.inlineTasks.map Prod.fst → ∀ path,
        ((Registry.single "Worker").resolver n path).outcome =
          (Registry.resolver {} n path).outcome) ∧
      (compile .searching (Registry.single "Worker").resolver .forward).toOption ≠
        (compile .searching (Registry.resolver {}) .forward).toOption := by
  refine ⟨rfl, fun n hn path => ?_, by decide +kernel⟩
  have htasks : Tree.forward.inlineTasks.map Prod.fst = ["Worker"] := by decide +kernel
  rw [htasks, List.mem_singleton] at hn
  rw [Registry.single, Registry.resolver_insert_of_ne hn]

end StackUnits
