import StackUnits.Command.Run
import StackUnits.Proofs.ReadBack
import StackUnits.Proofs.TwoRuns

/-!
# What commands do to files, and what they say

A command has an exit status, prints something, complains or not, and leaves files behind. The
errors that can stop it are those of its parts: the tree cannot be loaded, the program does not
compile, the units cannot be written, the unit to be listed cannot be read
(`StackUnits.Command.Invocation.Fails`). A command that meets one of them has the status 1 and
complains with its message; any other has the status 0 and does not complain.

Files are changed by a build only, and only once the whole program is compiled. So a check leaves
everything as it is, and as it compiles with settings that no compilation can tell from those of a
build (`StackUnits.Command.Invocation.compile_config_congr`), it succeeds whenever the build does.
-/

namespace StackUnits.Command

namespace Invocation

variable {call call' : Invocation} {taskPath : Option String} {files : FileTree}

/-- The store that a build writes to. -/
def store (call : Invocation) (taskPath : Option String) : Store where
  dir := (call.config taskPath).outputDir
  listings := (call.config taskPath).emitListing

/-- **The errors that stop a command**, with their messages. -/
inductive Fails (call : Invocation) (taskPath : Option String) (files : FileTree) : String → Prop
  | unloaded {e} (hverb : call.verb ≠ .list) (h : files.loadTree call.file = .error e) :
      Fails call taskPath files (treeMessage call.file e)
  | uncompiled {tree e} (hverb : call.verb ≠ .list) (hload : files.loadTree call.file = .ok tree)
      (h : compile (call.config taskPath) files.resolver tree = .error e) :
      Fails call taskPath files e.message
  | unwritten {c journal e disk} (hverb : call.verb = .build)
      (hcompile : call.compileFile (call.config taskPath) files = (.ok c, journal))
      (h : c.persist (call.store taskPath) ⟨files, journal⟩ = .error e disk) :
      Fails call taskPath files e.message
  | unlisted {e} (hverb : call.verb = .list) (h : files.readUnit call.file = .error e) :
      Fails call taskPath files e.message

/-- Once a program is compiled, all that can fail is that a build writes its units. A check has
nothing left to do then. -/
theorem Fails.exists_unwritten {message : String} {tree : Tree} {c : Compilation}
    (h : call.Fails taskPath files message) (hverb : call.verb ≠ .list)
    (hload : files.loadTree call.file = .ok tree)
    (hc : compile (call.config taskPath) files.resolver tree = .ok c) :
    call.verb = .build ∧ ∃ c' journal e disk,
      call.compileFile (call.config taskPath) files = (.ok c', journal) ∧
      c'.persist (call.store taskPath) ⟨files, journal⟩ = .error e disk := by
  cases h with
  | unloaded _ hload' =>
    rw [hload] at hload'
    cases hload'
  | uncompiled _ hload' hc' =>
    rw [hload] at hload'
    cases hload'
    rw [hc] at hc'
    cases hc'
  | unwritten hbuild hfile hpersist => exact ⟨hbuild, _, _, _, _, hfile, hpersist⟩
  | unlisted hlist => exact absurd hlist hverb

/-! ### Loading and compiling -/

/-- **Loading and compiling** ends in one of three ways, and in each of them the journal is that of
as much as was done. -/
theorem cases_compileFile (call : Invocation) (config : Config) (files : FileTree) :
    (∃ e, files.loadTree call.file = .error e ∧
      call.compileFile config files = (.error (treeMessage call.file e), [])) ∨
    (∃ tree e journal, files.loadTree call.file = .ok tree ∧
      compile config files.resolver tree = .error e ∧
      call.compileFile config files = (.error e.message, journal)) ∨
    ∃ tree c journal, files.loadTree call.file = .ok tree ∧
      compile config files.resolver tree = .ok c ∧
      call.compileFile config files = (.ok c, journal) := by
  unfold compileFile
  rcases files.loadTree call.file with e | tree
  · exact .inl ⟨e, rfl, rfl⟩
  · -- The note about the tree makes no difference to the compilation.
    rcases Session.cases_compile tree
        ⟨config, files.resolver, [], [], [.loaded call.file tree.size]⟩ with
      ⟨c, after, hsession, hc⟩ | ⟨e, after, hsession, hc⟩
    · exact .inr (.inr ⟨tree, c, after.journal, rfl, hc, by simp only [hsession]⟩)
    · exact .inr (.inl ⟨tree, e, after.journal, rfl, hc, by simp only [hsession]⟩)

/-- **Commands with the same name and task path** compile with settings that cannot be told apart:
those that differ say where units are written and what is shown. -/
theorem compile_config_congr (hname : call'.options.name = call.options.name)
    (hpath : call'.options.taskPath = call.options.taskPath) (tree : Tree) :
    compile (call'.config taskPath) files.resolver tree =
      compile (call.config taskPath) files.resolver tree := by
  have hsearch :
      (call'.config taskPath).taskSearchPath = (call.config taskPath).taskSearchPath := by
    simp only [config, hpath]
  have hprogram : (call'.config taskPath).programName = (call.config taskPath).programName := by
    simp only [config, hname]
  exact compile_congr ⟨hsearch, fun _ _ _ => rfl⟩ hprogram tree

/-! ### The endings of the verbs -/

/-- A build whose program is not compiled changes no files. -/
theorem build_of_compileFile_error {message : String} {journal : List Event}
    (h : call.compileFile (call.config taskPath) files = (.error message, journal)) :
    call.build taskPath files = call.failure message journal files := by
  simp only [build, h]

/-- A build whose units are not written leaves the files as the attempt does, whatever that may
be. -/
theorem build_of_persist_error {c : Compilation} {journal : List Event} {e : CompileError}
    {disk : Disk} (h : call.compileFile (call.config taskPath) files = (.ok c, journal))
    (hpersist : c.persist (call.store taskPath) ⟨files, journal⟩ = .error e disk) :
    call.build taskPath files = call.failure e.message disk.journal disk.files := by
  rw [store] at hpersist
  simp only [build, h, hpersist]

theorem build_of_persist {c : Compilation} {journal : List Event} {paths : List String}
    {disk : Disk} (h : call.compileFile (call.config taskPath) files = (.ok c, journal))
    (hpersist : c.persist (call.store taskPath) ⟨files, journal⟩ = .ok paths disk) :
    call.build taskPath files =
      call.success (paths.foldl (fun text path => text ++ path ++ "\n") "") disk.journal
        disk.files := by
  rw [store] at hpersist
  simp only [build, h, hpersist]

theorem check_of_compileFile_error {message : String} {journal : List Event}
    (h : call.compileFile (call.config taskPath) files = (.error message, journal)) :
    call.check taskPath files = call.failure message journal files := by
  simp only [check, h]

/-- A check has nothing to show for it but the number of units in the journal. -/
theorem check_of_compileFile {c : Compilation} {journal : List Event}
    (h : call.compileFile (call.config taskPath) files = (.ok c, journal)) :
    call.check taskPath files = call.success "" (.checked c.unitCount :: journal) files := by
  simp only [check, h]

/-- Paths are printed one on a line. -/
theorem foldl_lines (paths : List String) :
    paths.foldl (fun text path => text ++ path ++ "\n") "" =
      String.join (paths.map fun path => path ++ "\n") := by
  simp only [String.join, List.foldl_map, String.append_assoc]

/-- **How a command ends.** It meets one of the errors that stop it, in which case the files are as
before unless it is a build whose program is compiled; or it meets none, in which case only a build
changes files, and that prints the paths of the units. The three verbs are gone through here once,
and what is said of command lines below is read off this. -/
theorem run_cases (call : Invocation) (taskPath : Option String) (files : FileTree) :
    (∃ message journal after, call.run taskPath files = call.failure message journal after ∧
      call.Fails taskPath files message ∧
      (after = files ∨ call.verb = .build ∧ ∃ tree c, files.loadTree call.file = .ok tree ∧
        compile (call.config taskPath) files.resolver tree = .ok c)) ∨
    ∃ printed journal after, call.run taskPath files = call.success printed journal after ∧
      (∀ message, ¬call.Fails taskPath files message) ∧ (call.verb ≠ .build → after = files) ∧
      (call.verb = .build → ∃ tree c, files.loadTree call.file = .ok tree ∧
        compile (call.config taskPath) files.resolver tree = .ok c ∧
        printed = String.join (c.units.map fun unit =>
          Path.join (call.config taskPath).outputDir (unit.name ++ ".unit") ++ "\n")) := by
  unfold run
  cases hverb : call.verb with
  | list =>
    unfold list
    rcases hread : files.readUnit call.file with e | unit
    · exact .inl ⟨_, _, _, rfl, .unlisted hverb hread, .inl rfl⟩
    · refine .inr ⟨_, _, _, rfl, ?_, fun _ => rfl, nofun⟩
      rintro message (⟨h, -⟩ | ⟨h, -, -⟩ | ⟨h, -, -⟩ | ⟨-, h⟩)
      · exact h hverb
      · exact h hverb
      · exact absurd (hverb.symm.trans h) (by decide)
      · exact absurd (hread.symm.trans h) (by simp)
  | check =>
    have hnot : call.verb ≠ .list := by simp [hverb]
    rcases call.cases_compileFile (call.config taskPath) files with ⟨e, hload, hfile⟩ |
      ⟨tree, e, journal, hload, hc, hfile⟩ | ⟨tree, c, journal, hload, hc, hfile⟩
    · exact .inl ⟨_, _, _, check_of_compileFile_error hfile, .unloaded hnot hload, .inl rfl⟩
    · exact .inl ⟨_, _, _, check_of_compileFile_error hfile, .uncompiled hnot hload hc, .inl rfl⟩
    · refine .inr ⟨_, _, _, check_of_compileFile hfile, fun message hfails => ?_, fun _ => rfl,
        nofun⟩
      obtain ⟨hbuild, -⟩ := hfails.exists_unwritten hnot hload hc
      exact absurd (hverb.symm.trans hbuild) (by decide)
  | build =>
    have hnot : call.verb ≠ .list := by simp [hverb]
    rcases call.cases_compileFile (call.config taskPath) files with ⟨e, hload, hfile⟩ |
      ⟨tree, e, journal, hload, hc, hfile⟩ | ⟨tree, c, journal, hload, hc, hfile⟩
    · exact .inl ⟨_, _, _, build_of_compileFile_error hfile, .unloaded hnot hload, .inl rfl⟩
    · exact .inl ⟨_, _, _, build_of_compileFile_error hfile, .uncompiled hnot hload hc, .inl rfl⟩
    · rcases hpersist : c.persist (call.store taskPath) ⟨files, journal⟩ with
        ⟨paths, disk⟩ | ⟨e, disk⟩
      · refine .inr ⟨_, _, _, build_of_persist hfile hpersist, fun message hfails => ?_, nofun, ?_⟩
        · obtain ⟨-, c', journal', e, disk', hfile', herror⟩ :=
            hfails.exists_unwritten hnot hload hc
          cases hfile.symm.trans hfile'
          cases hpersist.symm.trans herror
        · obtain ⟨disk₁, hwrite, -⟩ := Compilation.exists_of_persist hpersist
          refine fun _ => ⟨tree, c, hload, hc, ?_⟩
          rw [foldl_lines, Store.paths_of_writeAll hwrite, List.map_map]
          rfl
      · exact .inl ⟨_, _, _, build_of_persist_error hfile hpersist,
          .unwritten hverb hfile hpersist, .inr ⟨rfl, tree, c, hload, hc⟩⟩

/-- **A check succeeds if the build does** that has the same file, name and task path. The converse
fails: a build has units to write as well. -/
theorem not_fails_check (hverb : call.verb = .build)
    (h : ∀ message, ¬call.Fails taskPath files message) (hverb' : call'.verb = .check)
    (hfile : call'.file = call.file) (hname : call'.options.name = call.options.name)
    (hpath : call'.options.taskPath = call.options.taskPath) (message : String) :
    ¬call'.Fails taskPath files message := by
  have hnot : call.verb ≠ .list := by simp [hverb]
  intro hfails
  cases hfails with
  | unloaded _ hload =>
    rw [hfile] at hload
    exact h _ (.unloaded hnot hload)
  | uncompiled _ hload hc =>
    rw [hfile] at hload
    rw [compile_config_congr hname hpath] at hc
    exact h _ (.uncompiled hnot hload hc)
  | unwritten hbuild => exact absurd (hverb'.symm.trans hbuild) (by decide)
  | unlisted hlist => exact absurd (hverb'.symm.trans hlist) (by decide)

/-- **What the outcome of a command can be**, as far as files and units are concerned. -/
structure Allows (call : Invocation) (taskPath : Option String) (files : FileTree)
    (outcome : Outcome) : Prop where
  /-- Only a build changes files. -/
  readOnly : call.verb ≠ .build → outcome.files = files
  unloaded : ∀ e, files.loadTree call.file = .error e → outcome.files = files
  uncompiled : ∀ tree e, files.loadTree call.file = .ok tree →
    compile (call.config taskPath) files.resolver tree = .error e → outcome.files = files
  /-- A build prints the paths of the units, the program's first. -/
  printed : call.verb = .build → outcome.status = 0 →
    ∃ tree c, files.loadTree call.file = .ok tree ∧
      compile (call.config taskPath) files.resolver tree = .ok c ∧
      outcome.printed = String.join ((c.program :: c.tasks).map fun unit =>
        Path.join (call.config taskPath).outputDir (unit.name ++ ".unit") ++ "\n")

/-- **A command does what it may**, as far as files and units are concerned. Whatever is said of
files in the main result is derived from this. -/
theorem allows_run (call : Invocation) (taskPath : Option String) (files : FileTree) :
    call.Allows taskPath files (call.run taskPath files) := by
  rcases call.run_cases taskPath files with ⟨message, journal, after, hrun, -, hafter⟩ |
    ⟨printed, journal, after, hrun, -, hkept, hbuilt⟩
  · rw [hrun]
    refine ⟨fun hverb => ?_, fun e hload => ?_, fun tree e hload hc => ?_, fun _ hstatus => ?_⟩
    · exact hafter.resolve_right fun h => hverb h.1
    · refine hafter.resolve_right ?_
      rintro ⟨-, tree, c, hload', -⟩
      exact absurd (hload.symm.trans hload') (by simp)
    · refine hafter.resolve_right ?_
      rintro ⟨-, tree', c, hload', hc'⟩
      cases hload.symm.trans hload'
      exact absurd (hc.symm.trans hc') (by simp)
    · cases hstatus
  · rw [hrun]
    by_cases hverb : call.verb = .build
    · obtain ⟨tree, c, hload, hc, hprinted⟩ := hbuilt hverb
      refine ⟨fun hnot => absurd hverb hnot, fun e hload' => ?_, fun tree' e hload' hc' => ?_,
        fun _ _ => ⟨tree, c, hload, hc, hprinted⟩⟩
      · exact absurd (hload'.symm.trans hload) (by simp)
      · cases hload.symm.trans hload'
        exact absurd (hc.symm.trans hc') (by simp)
    · have hsame := hkept hverb
      exact ⟨fun _ => hsame, fun _ _ => hsame, fun _ _ _ _ => hsame, fun h => absurd h hverb⟩

end Invocation

/-! ### Command lines -/

/-- **A command line meets an error**, which has the given message. -/
def Fails (args : List String) (taskPath : Option String) (files : FileTree) (message : String) :
    Prop :=
  ∃ call, parse 0 args = .ok call ∧ call.Fails taskPath files message

/-- **How a command line that is understood ends**: with the message of an error that it meets, or
else without a complaint. -/
inductive Concludes (args : List String) (taskPath : Option String) (files : FileTree)
    (outcome : Outcome) : Prop
  | failure {message : String} (hfails : Fails args taskPath files message)
      (hstatus : outcome.status = 1) (hcomplaint : outcome.complaint = "error: " ++ message ++ "\n")
  | success (hfails : ∀ message, ¬Fails args taskPath files message) (hstatus : outcome.status = 0)
      (hcomplaint : outcome.complaint = "")

variable {args : List String} {call : Invocation} {taskPath : Option String} {files : FileTree}

theorem run_of_parse (h : parse 0 args = .ok call) :
    run args taskPath files = call.run taskPath files := by
  rw [run, h]

/-- A command line that is understood meets the errors of its command, and of no other. -/
theorem fails_iff (h : parse 0 args = .ok call) {message : String} :
    Fails args taskPath files message ↔ call.Fails taskPath files message := by
  constructor
  · rintro ⟨call', hcall', hfails⟩
    cases h.symm.trans hcall'
    exact hfails
  · exact fun hfails => ⟨call, h, hfails⟩

/-- A command ends with a status and a complaint that go together. -/
theorem concludes_of_parse (h : parse 0 args = .ok call) :
    Concludes args taskPath files (run args taskPath files) := by
  rw [run_of_parse h]
  rcases call.run_cases taskPath files with ⟨message, journal, after, hrun, hfails, -⟩ |
    ⟨printed, journal, after, hrun, hfails, -⟩
  · rw [hrun]
    exact .failure ((fails_iff h).2 hfails) rfl rfl
  · rw [hrun]
    exact .success (fun message hline => hfails message ((fails_iff h).1 hline)) rfl rfl

/-- A request for help or for the version meets no error, and has the status 0 as well. -/
theorem concludes_of_stop {stop : Stop} (h : parse 0 args = .error stop) (hstop : stop ≠ .invalid) :
    Concludes args taskPath files (run args taskPath files) := by
  have hfails : ∀ message, ¬Fails args taskPath files message := by
    rintro message ⟨call, hcall, -⟩
    cases h.symm.trans hcall
  rw [run, h]
  cases stop with
  | help => exact .success hfails rfl rfl
  | version => exact .success hfails rfl rfl
  | invalid => exact absurd rfl hstop

/-- **What command lines do.** A command line that is understood has the status 1 and complains
once, with the message of an error that it meets, or it meets none and has the status 0 and nothing
to complain of. Files are changed only by a build, and only once its tree is loaded and compiled; a
build that succeeds prints the paths of its units, and the check of the same program succeeds as
well.

A command line that is not understood has a status of its own and is left out. The check in the last
part may be given in any spelling: all that matters is what its words are parsed to. -/
theorem run_concludes (args : List String) (taskPath : Option String) (files : FileTree)
    (h : parse 0 args ≠ .error .invalid) :
    Concludes args taskPath files (run args taskPath files) ∧
      ∀ call, parse 0 args = .ok call → call.Allows taskPath files (run args taskPath files) ∧
        (call.verb = .build → (run args taskPath files).status = 0 →
          ∀ args' call', parse 0 args' = .ok call' → call'.verb = .check →
            call'.file = call.file → call'.options.name = call.options.name →
            call'.options.taskPath = call.options.taskPath →
              (run args' taskPath files).status = 0) := by
  constructor
  · rcases hparse : parse 0 args with stop | call
    · exact concludes_of_stop hparse fun hstop => h (hstop ▸ hparse)
    · exact concludes_of_parse hparse
  · intro call hcall
    refine ⟨run_of_parse hcall ▸ call.allows_run taskPath files, ?_⟩
    intro hverb hstatus args' call' hcall' hverb' hfile hname hpath
    have hnone : ∀ message, ¬call.Fails taskPath files message := by
      rcases concludes_of_parse hcall with ⟨-, hone, -⟩ | ⟨hfails, -, -⟩
      · exact absurd (hstatus.symm.trans hone) (by decide)
      · exact fun message hmet => hfails message ((fails_iff hcall).2 hmet)
    rcases concludes_of_parse hcall' with ⟨hfails, -, -⟩ | ⟨-, hzero, -⟩
    · exact absurd ((fails_iff hcall').1 hfails)
        (Invocation.not_fails_check hverb hnone hverb' hfile hname hpath _)
    · exact hzero

/-- A file with a program that starts a task which does nothing. -/
def oneTask : FileTree where
  entries := [(["one.json"], .file (Wire.textBytes
    "\x7b\"kind\":\"multitask\",\"value\":\"Idle\",\"left\":\x7b\"kind\":\"block\"\x7d\x7d"))]

/-- A build and the check of the same program, with options in different places. -/
theorem run_concludes_oneTask :
    parse 0 ["build", "one.json", "-o", "out", "--listing"] ≠ .error .invalid ∧
      (run ["build", "one.json", "-o", "out", "--listing"] none oneTask).status = 0 ∧
      (run ["-v", "check", "one.json"] none oneTask).status = 0 ∧
      Concludes ["build", "one.json", "-o", "out", "--listing"] none oneTask
        (run ["build", "one.json", "-o", "out", "--listing"] none oneTask) := by
  have hparse : parse 0 ["build", "one.json", "-o", "out", "--listing"] = .ok
      { verb := .build, file := "one.json",
        options := { file := some "one.json", out := some "out", listing := true } } := by
    decide +kernel
  have hparse' : parse 0 ["-v", "check", "one.json"] = .ok
      { verb := .check, file := "one.json",
        options := { verbose := 1, file := some "one.json" } } := by
    decide +kernel
  have hvalid : parse 0 ["build", "one.json", "-o", "out", "--listing"] ≠ .error .invalid := by
    rw [hparse]
    decide
  have hstatus :
      (run ["build", "one.json", "-o", "out", "--listing"] none oneTask).status = 0 := by
    decide +kernel
  obtain ⟨hconcludes, hcall⟩ := run_concludes _ none oneTask hvalid
  exact ⟨hvalid, hstatus,
    (hcall _ hparse).2 rfl hstatus _ _ hparse' rfl rfl rfl rfl, hconcludes⟩

end StackUnits.Command
