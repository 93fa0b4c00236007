import StackUnits.Command.Reach
import StackUnits.Proofs.Persistence
import StackUnits.Proofs.Roster
import StackUnits.Proofs.TwoRuns

/-!
# The files that a compilation has to do with

Compiling a program looks for tasks in the directories of the search path, and writing its units
puts files into a store's directory. No other path is read, written, moved or removed, and the
directory of the store is the only one that is made.

What it means that an operation is not used at some path is said as for a program in a sandbox: the
operations of the file tree are replaced by others (`StackUnits.FileOps`), which need to be the same
at the paths that are allowed and may do anything elsewhere (`StackUnits.FileOps.AgreeOn`). Looking
for tasks and writing units are defined for any operations, and what the compiler does is that with
the operations of the file tree. It then makes no difference which operations there are, as long as
they agree on direct children of the directories in question (`StackUnits.confined_of_agreeOn`).
-/

namespace StackUnits

/-! ### Children of a directory -/

namespace Path

variable {dir path x y : String}

/-- **A path is a direct child** of a directory: one name follows, which is not made of dots, and
both start at the same place. -/
def IsChild (dir path : String) : Prop :=
  ∃ x, IsName x ∧ names path = names dir ++ [x] ∧ isAbsolute path = isAbsolute dir

theorem isChild_join (hx : IsName x) : IsChild dir (join dir x) :=
  ⟨x, hx, names_join hx, isAbsolute_join hx⟩

/-- The last name stays in the key of a path, since it is not a dot; dots before it may be left
out. -/
theorem getLast?_key_join (hx : IsName x) : (key (join dir x)).names.getLast? = some x := by
  rw [key, names_join hx]
  rcases names dir with _ | ⟨first, rest⟩
  · simp [hx.notDot]
  · have hlast : (rest ++ [x]).filter (fun name => name != ".") =
        rest.filter (fun name => name != ".") ++ [x] := by
      simp [hx.notDot]
    simp only [List.cons_append, hlast]
    split
    · exact List.getLast?_concat
    · rw [← List.cons_append]
      exact List.getLast?_concat

/-- **Children with different names are different paths**, however they are spelled: keys are
compared, and two spellings of a path have the same key. -/
theorem eq_of_key_join (hx : IsName x) (hy : IsName y)
    (h : key (join dir x) = key (join dir y)) : x = y := by
  refine Option.some.inj ?_
  rw [← getLast?_key_join hx, h, getLast?_key_join hy]

end Path

namespace Store

variable {store : Store} {unit other : CodeUnit}

/-- The paths of a unit's files, by their roles. They differ in the extension alone, and since the
name is plain, it is the extension of the file that is exchanged and nothing else. -/
theorem pathsFor_eq (store : Store) (h : PlainName unit.name) :
    store.pathsFor unit.name = [FileRole.unit, .temporary, .listing].map fun role =>
      Path.join store.dir (unit.fileName role) := by
  rw [pathsFor, pathFor_eq, stagePath_eq store h, listingPath_eq store h]
  rfl

/-- All files of a unit are in the directory of the store, and not further down or up. -/
theorem isChild_of_mem_pathsFor (h : PlainName unit.name) {path : String}
    (hpath : path ∈ store.pathsFor unit.name) : Path.IsChild store.dir path := by
  rw [pathsFor_eq store h] at hpath
  obtain ⟨role, -, rfl⟩ := List.mem_map.1 hpath
  exact Path.isChild_join (CodeUnit.isName_fileName h role)

/-- A file that is looked for is in the directory in which it is looked for. -/
theorem isChild_pathFor (store : Store) {name : String} (h : PlainName name) :
    Path.IsChild store.dir (store.pathFor name) := by
  have hx : Path.IsName (name ++ ".unit") := by
    have hextended := Path.IsName.extend h (FileRole.isExtension .unit)
    rwa [String.append_assoc] at hextended
  exact Path.isChild_join hx

/-- **The files of two units** do not get in each other's way, even if the name of the one looks
like the name of a file of the other: no path is that of another file or leads to it by other
dots. -/
theorem nodup_pathsFor (store : Store) (h : PlainName unit.name) (h' : PlainName other.name)
    (hne : unit.name ≠ other.name) :
    ((store.pathsFor unit.name ++ store.pathsFor other.name).map Path.key).Nodup := by
  have hinj : ∀ {u v : CodeUnit} {role role' : FileRole}, PlainName u.name → PlainName v.name →
      Path.key (Path.join store.dir (u.fileName role)) =
        Path.key (Path.join store.dir (v.fileName role')) → u.name = v.name ∧ role = role' := by
    intro u v role role' hu hv hkey
    exact (CodeUnit.fileName_inj hu hv).1 (Path.eq_of_key_join (CodeUnit.isName_fileName hu role)
      (CodeUnit.isName_fileName hv role') hkey)
  have hroles : [FileRole.unit, .temporary, .listing].Nodup := by decide
  have hone : ∀ {u : CodeUnit}, PlainName u.name →
      ((store.pathsFor u.name).map Path.key).Nodup := by
    intro u hu
    rw [pathsFor_eq store hu, List.map_map]
    exact hroles.map fun role role' hkey => (hinj hu hu hkey).2
  rw [List.map_append, List.nodup_append]
  refine ⟨hone h, hone h', ?_⟩
  rw [pathsFor_eq store h, pathsFor_eq store h']
  intro key hkey key' hkey' hsame
  simp only [List.map_map, List.mem_map, Function.comp] at hkey hkey'
  obtain ⟨role, -, rfl⟩ := hkey
  obtain ⟨role', -, rfl⟩ := hkey'
  exact hne (hinj h h' hsame).1

end Store

/-! ### Operations that agree -/

namespace FileOps

/-- **Operations that agree** on the paths that are allowed, and on making a directory. -/
structure AgreeOn (allowed : String → Prop) (dir : String) (ops ops' : FileOps) : Prop where
  read : ∀ {path}, allowed path → ∀ files, ops.read files path = ops'.read files path
  write : ∀ {path}, allowed path → ops.write path = ops'.write path
  move : ∀ {source target}, allowed source → allowed target →
    ops.move source target = ops'.move source target
  remove : ∀ {path}, allowed path → ops.remove path = ops'.remove path
  makeDirs : ops.makeDirs dir = ops'.makeDirs dir

/-- Two rounds through the same units do the same if they do the same for each of them. -/
theorem forM_congr {units : List CodeUnit} {f g : CodeUnit → DiskM Unit}
    (h : ∀ unit ∈ units, f unit = g unit) : units.forM f = units.forM g := by
  induction units with
  | nil => rfl
  | cons unit rest ih =>
    rw [List.forall_mem_cons] at h
    rw [List.forM_eq_forM, List.forM_cons, List.forM_cons, ← List.forM_eq_forM, ih h.2, h.1]

variable {ops ops' : FileOps} {allowed : String → Prop} {store : Store}

namespace AgreeOn

variable {unit : CodeUnit} {units before rest : List CodeUnit}
  (h : ops.AgreeOn allowed store.dir ops')
include h

theorem stage_eq (hunit : ∀ path ∈ store.pathsFor unit.name, allowed path) :
    ops.stage store unit = ops'.stage store unit := by
  rw [stage, stage, h.write (hunit _ (by simp [Store.pathsFor]))]

theorem commit_eq (hunit : ∀ path ∈ store.pathsFor unit.name, allowed path) :
    ops.commit store unit = ops'.commit store unit := by
  rw [commit, commit, h.write (hunit (store.listingPath unit.name) (by simp [Store.pathsFor])),
    h.move (hunit _ (by simp [Store.pathsFor])) (hunit _ (by simp [Store.pathsFor]))]

/-- Temporary files are removed alike. -/
theorem forM_remove_eq (hunits : ∀ unit ∈ units, ∀ path ∈ store.pathsFor unit.name, allowed path) :
    (units.forM fun unit => ops.remove (store.stagePath unit.name)) =
      units.forM fun unit => ops'.remove (store.stagePath unit.name) :=
  forM_congr fun unit hunit => h.remove (hunits unit hunit _ (by simp [Store.pathsFor]))

/-- Temporary files are written alike, and those that were written before are removed alike if one
fails. -/
theorem stageAll_eq
    (hunits : ∀ unit ∈ before ++ rest, ∀ path ∈ store.pathsFor unit.name, allowed path) :
    ops.stageAll store before rest = ops'.stageAll store before rest := by
  induction rest generalizing before with
  | nil => rfl
  | cons unit rest ih =>
    rw [stageAll, stageAll, h.stage_eq (hunits unit (by simp)),
      h.forM_remove_eq fun other hother => hunits other (List.mem_append_left _ hother),
      ih fun other hother => hunits other (by simpa using hother)]

theorem mapM_commit_eq
    (hunits : ∀ unit ∈ units, ∀ path ∈ store.pathsFor unit.name, allowed path) :
    units.mapM (ops.commit store) = units.mapM (ops'.commit store) := by
  induction units with
  | nil => rfl
  | cons unit rest ih =>
    rw [List.forall_mem_cons] at hunits
    rw [List.mapM_cons, List.mapM_cons, h.commit_eq hunits.1, ih hunits.2]

theorem writeAll_eq (hunits : ∀ unit ∈ units, ∀ path ∈ store.pathsFor unit.name, allowed path) :
    ops.writeAll store units = ops'.writeAll store units := by
  rw [writeAll, writeAll, h.makeDirs, h.stageAll_eq hunits, h.mapM_commit_eq hunits]

/-- **Units are written alike.** Of the operations it is only asked that they agree on the files of
the units in question. -/
theorem persist_eq {c : Compilation}
    (hunits : ∀ unit ∈ c.units, ∀ path ∈ store.pathsFor unit.name, allowed path) :
    ops.persist store c = ops'.persist store c := by
  rw [persist, persist, h.writeAll_eq hunits]

end AgreeOn

/-- **Tasks are found alike.** In each directory at most one path is read. -/
theorem AgreeOn.findTask_eq {dir : String} (h : ops.AgreeOn allowed dir ops') (files : FileTree)
    {name : String} {dirs : List String}
    (hdirs : ∀ dir ∈ dirs, allowed ((Store.mk dir false).pathFor name)) :
    ops.findTask files name dirs = ops'.findTask files name dirs := by
  induction dirs with
  | nil => rfl
  | cons dir rest ih =>
    have hread := h.read (hdirs dir List.mem_cons_self) files
    rw [findTask, findTask, isFile, isFile, readUnit, readUnit, hread,
      ih fun other hother => hdirs other (List.mem_cons_of_mem _ hother)]

end FileOps

/-! ### The directories in question -/

/-- The directories in which the settings say that tasks are looked for. -/
def Config.searchDirs (config : Config) : List String :=
  match config.taskSearchPath.map SearchPath.parse with
  | some (.ok path) => path.dirs
  | _ => []

theorem Config.searchDirs_eq {config : Config} {list : String} {path : SearchPath}
    (hlist : config.taskSearchPath = some list) (hparse : SearchPath.parse list = .ok path) :
    config.searchDirs = path.dirs := by
  rw [searchDirs, hlist, Option.map_some, hparse]

/-- **The paths that a compilation may have to do with** if its units go into a store: the direct
children of the store's directory and of those of the search path. -/
def Config.Allows (config : Config) (store : Store) (path : String) : Prop :=
  ∃ dir ∈ store.dir :: config.searchDirs, Path.IsChild dir path

/-- **Nothing else is touched.** If operations are those of the file tree at direct children of the
directories of the search path and of the store, and for making the store's directory, then with
them a program is compiled as with the file tree, whatever they do at other paths, and its units are
written as they are there. The files of a unit are direct children of the store's directory, and
those of two different units have six different paths.

To list the operations that are carried out would need a second semantics in which they are
recorded. To exchange them says the same with the semantics there is: what would be noticed if it
were used is not used. -/
theorem confined_of_agreeOn (config : Config) (store : Store) (tree : Tree) {ops : FileOps}
    (h : ops.AgreeOn (config.Allows store) store.dir .plain) (files : FileTree) :
    compile config (ops.resolver files) tree = compile config files.resolver tree ∧
      ∀ c, compile config files.resolver tree = .ok c →
        ops.persist store c = c.persist store ∧
        (∀ unit ∈ c.units, ∀ path ∈ store.pathsFor unit.name, Path.IsChild store.dir path) ∧
        ∀ unit ∈ c.units, ∀ other ∈ c.units, unit ≠ other →
          ((store.pathsFor unit.name ++ store.pathsFor other.name).map Path.key).Nodup := by
  have hresolver : Outside.Alike ⟨config, files.resolver⟩ ⟨config, ops.resolver files⟩ := by
    refine ⟨rfl, ?_⟩
    intro name list path hname hlist hparse
    have hdirs : ∀ dir ∈ path.dirs, config.Allows store ((Store.mk dir false).pathFor name) := by
      intro dir hdir
      rw [← Config.searchDirs_eq hlist hparse] at hdir
      exact ⟨dir, List.mem_cons_of_mem _ hdir, (Store.mk dir false).isChild_pathFor hname⟩
    change (ops.resolver files name path).outcome = (files.resolver name path).outcome
    rw [FileTree.resolver, FileOps.resolver, FileOps.resolver, h.findTask_eq files hdirs]
  refine ⟨compile_congr hresolver rfl tree, fun c hc => ?_⟩
  obtain ⟨after, hafter⟩ :=
    (Session.compileNamed_iff ⟨config, files.resolver, [], [], []⟩).2 (compile_eq_ok_iff.1 hc)
  have hnamed := Session.wellNamed_of_compileNamed hafter
  have hchildren : ∀ unit ∈ c.units, ∀ path ∈ store.pathsFor unit.name,
      Path.IsChild store.dir path := by
    intro unit hunit path hpath
    exact Store.isChild_of_mem_pathsFor (hnamed.plain unit hunit) hpath
  refine ⟨?_, hchildren, ?_⟩
  · rw [Compilation.persist]
    refine h.persist_eq fun unit hunit path hpath => ?_
    exact ⟨store.dir, List.mem_cons_self, hchildren unit hunit path hpath⟩
  · intro unit hunit other hother hne
    exact store.nodup_pathsFor (hnamed.plain unit hunit) (hnamed.plain other hother)
      fun hname => hne (hnamed.eq_of_name hunit hother hname)

/-! ### A fence -/

/-- **A fence**: operations that refuse every path but those that are allowed. -/
def FileOps.fenced (allowed : String → Bool) : FileOps where
  read files path := if allowed path then files.read path else .error .notFound
  write path content := if allowed path then plain.write path content else throw (.file .notFound)
  move source target :=
    if allowed source && allowed target then plain.move source target
    else throw (.file .notFound)
  remove path := if allowed path then plain.remove path else pure ()
  makeDirs := plain.makeDirs

/-- A fence agrees with the file tree inside it. -/
theorem FileOps.agreeOn_fenced {allowed : String → Bool} {P : String → Prop}
    (h : ∀ path, P path → allowed path = true) (dir : String) :
    (fenced allowed).AgreeOn P dir plain where
  read hpath files := if_pos (h _ hpath)
  write hpath := by
    funext content
    exact if_pos (h _ hpath)
  move hsource htarget := if_pos (by rw [h _ hsource, h _ htarget]; rfl)
  remove hpath := if_pos (h _ hpath)
  makeDirs := rfl

/-- A path with one name after that of one of two directories. -/
def Path.isIn (dir dir' path : String) : Bool :=
  (names path).dropLast == names dir || (names path).dropLast == names dir'

theorem Path.IsChild.isIn {dir dir' path : String}
    (h : ∃ top ∈ [dir, dir'], IsChild top path) : isIn dir dir' path = true := by
  obtain ⟨top, htop, x, -, hnames, -⟩ := h
  have hdrop : (names path).dropLast = names top := by rw [hnames, List.dropLast_concat]
  rw [Path.isIn, hdrop]
  rcases List.mem_pair.1 htop with rfl | rfl
  · simp
  · simp

/-- A directory `tasks` with the file of a task in it that does nothing. -/
def FileTree.ticking : FileTree where
  entries := [(["tasks"], .directory),
    (["Ticker.unit", "tasks"],
      .file (CodeUnit.encode { name := "Ticker", kind := .task, instructions := [.ret] }))]

theorem confined_relay :
    (FileOps.fenced (Path.isIn "out" "tasks")).AgreeOn
        (Config.searching.Allows { dir := "out" }) "out" .plain ∧
      ∃ c, compile .searching ((FileOps.fenced (Path.isIn "out" "tasks")).resolver .ticking)
          .relay = .ok c ∧
        compile .searching FileTree.ticking.resolver .relay = .ok c ∧
        (FileOps.fenced (Path.isIn "out" "tasks")).persist { dir := "out" } c =
          c.persist { dir := "out" } := by
  have hagree : (FileOps.fenced (Path.isIn "out" "tasks")).AgreeOn
      (Config.searching.Allows { dir := "out" }) "out" .plain :=
    FileOps.agreeOn_fenced (fun path hpath => Path.IsChild.isIn hpath) "out"
  obtain ⟨hcompile, hpersist⟩ :=
    confined_of_agreeOn .searching { dir := "out" } .relay hagree .ticking
  have hsucceeds : (compile .searching FileTree.ticking.resolver .relay).isOk = true := by
    decide +kernel
  rcases hc : compile .searching FileTree.ticking.resolver .relay with e | c
  · rw [hc] at hsucceeds
    cases hsucceeds
  · exact ⟨hagree, c, hcompile.trans hc, rfl, (hpersist c hc).1⟩

end StackUnits
