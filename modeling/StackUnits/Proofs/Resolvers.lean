import StackUnits.Proofs.ReadBack

/-!
# Tasks in files and tasks in a table

A task can be looked for in files (`StackUnits.FileTree.resolver`) or in a table
(`StackUnits.Registry.resolver`). Units are written to the one and entered in the other; this file
is about when the two give the same answers.

Both look at a directory by its names. What the table has under the names of a directory is, in the
files, at the place to which those names lead from the home directory; and this is so as long as no
name goes back up (`StackUnits.Path.Ordinary`). That each entry has its file, and that there are no
other files of units, is kept by every unit that is written (`StackUnits.FileTree.Mirrors`).

There is one difference. A path in a request is a text, which may not be too long, while a table
forgets how a directory was spelled. With enough slashes behind it (`StackUnits.Path.slashed`), a
directory is passed over in the files, and it is still the same directory in the table. Where paths
are not too long (`StackUnits.Store.pathFits`) the answers are the same
(`StackUnits.resolvers_agree`).
-/

namespace StackUnits

/-! ### Ordinary directories -/

namespace Path

variable {dir x : String}

/-- **An ordinary directory**: a relative path of which no name stands for a directory by its
dots. -/
structure Ordinary (dir : String) : Prop where
  relative : isAbsolute dir = false
  notDots : ∀ name ∈ names dir, name ≠ "." ∧ name ≠ ".."

instance (dir : String) : Decidable (Ordinary dir) :=
  decidable_of_iff (isAbsolute dir = false ∧ ∀ name ∈ names dir, name ≠ "." ∧ name ≠ "..")
    ⟨fun ⟨relative, notDots⟩ => ⟨relative, notDots⟩, fun h => ⟨h.relative, h.notDots⟩⟩

/-- The key of an ordinary directory has all of its names, as there are no dots to be left out. -/
theorem Ordinary.key_eq (h : Ordinary dir) : key dir = ⟨false, names dir⟩ := by
  rw [key, h.relative]
  rcases hnames : names dir with _ | ⟨first, rest⟩
  · rfl
  · have hrest : (rest.filter fun name => name != ".") = rest := by
      refine List.filter_eq_self.2 fun name hmem => bne_iff_ne.2 ?_
      exact (h.notDots name (hnames ▸ List.mem_cons_of_mem first hmem)).1
    simp only [Bool.and_false, Bool.false_eq_true, if_false, hrest]

end Path

namespace FileTree

variable {files files' : FileTree} {place dir : Place} {names : List String} {x : String}
  {content : List UInt8}

/-- Names other than dots lead down, so that the place that they lead to is known without the
tree. -/
theorem eq_of_walk (hnames : ∀ name ∈ names, name ≠ "." ∧ name ≠ "..")
    (h : files.walk dir names = .ok place) : place = names.reverse ++ dir := by
  induction names generalizing dir with
  | nil =>
    cases h
    rfl
  | cons name rest ih =>
    obtain ⟨hdot, hdots⟩ := hnames name List.mem_cons_self
    rw [walk] at h
    rcases hstep : files.step dir name with e | next
    · rw [hstep] at h
      cases h
    · rw [hstep] at h
      have hnext : next = name :: dir := by
        rw [step, if_neg hdot, if_neg hdots] at hstep
        split at hstep <;> cases hstep
        rfl
      rw [ih (fun name hmem => hnames name (List.mem_cons_of_mem _ hmem)) h, hnext]
      simp

/-- **The place of an ordinary directory** is found by its names, from the home directory. So two
ordinary directories have the same place exactly if they have the same names, which is when the
table takes them for the same. -/
theorem leadsTo_iff {dir : String} (hdir : Path.Ordinary dir) {top : Place} :
    files.LeadsTo dir top ↔ top = (Path.names dir).reverse ++ files.home ∧
      files.walk files.home (Path.names dir) = .ok ((Path.names dir).reverse ++ files.home) := by
  have hstart : files.start dir = files.home := by
    rw [start, hdir.relative, if_neg Bool.false_ne_true]
  rw [LeadsTo, hstart]
  constructor
  · intro h
    obtain rfl := eq_of_walk hdir.notDots h
    exact ⟨rfl, h⟩
  · rintro ⟨rfl, h⟩
    exact h

/-! ### Reading an entry of a directory -/

theorem checkPath_eq_ok {path : String} : checkPath path = .ok () ↔
    '\x00' ∉ path.toList ∧ path ≠ "" ∧ path.utf8ByteSize ≤ longestPath := by
  unfold checkPath
  grind

/-- **The path of an entry is in order** if its names are and it is not too long. Slashes count for
the length, and for nothing else. -/
theorem checkPath_join {dir : String} (hx : Path.IsName x) :
    checkPath (Path.join dir x) = .ok () ↔
      (∀ name ∈ Path.names dir ++ [x], '\x00' ∉ name.toList) ∧
        (Path.join dir x).utf8ByteSize ≤ longestPath := by
  have hnames : Path.names (Path.join dir x) = Path.names dir ++ [x] := Path.names_join hx
  have hnonempty : Path.join dir x ≠ "" := by
    intro hempty
    rw [hempty] at hnames
    exact List.append_ne_nil_of_right_ne_nil _ (List.cons_ne_nil _ _) hnames.symm
  rw [checkPath_eq_ok, Path.mem_iff_mem_names (by decide), hnames, and_iff_right hnonempty,
    not_exists]
  simp only [not_and]

end FileTree

/-! ### One unit is written -/

namespace Store

variable {store : Store} {unit : CodeUnit} {disk disk' : Disk} {path : String}

/-- To write a unit is to write a batch of one, so that what is known of batches that are written is
known of it. -/
theorem writeAll_of_write (h : store.write unit disk = .ok path disk') :
    store.writeAll [unit] disk = .ok [path] disk' := by
  unfold write at h
  obtain ⟨_, disk₁, hmake, h⟩ := Action.bind_eq_ok.1 h
  obtain ⟨_, disk₂, hstage, hcommit⟩ := Action.bind_eq_ok.1 h
  refine Action.bind_eq_ok.2 ⟨(), disk₁, hmake, Action.bind_eq_ok.2 ⟨(), disk₂, ?_, ?_⟩⟩
  · exact Action.bind_eq_ok.2 ⟨(), disk₂, Disk.tidying_of_ok hstage, rfl⟩
  · rw [List.mapM_cons]
    exact Action.bind_eq_ok.2 ⟨path, disk', hcommit, rfl⟩

/-- **A unit that is written is in place**, its path leads to it, and all else is as it was, but for
directories made on the way. -/
theorem placed_of_write (hplain : PlainName unit.name)
    (h : store.write unit disk = .ok path disk') :
    ∃ dir made, disk.files.MakesWay store.dir made ∧
      store.Placed [unit] [unit] (store.withListings [unit]) dir made disk'.files ∧
      disk.files.KeepsDirs disk'.files ∧ store.Reaches disk'.files dir unit := by
  have hnamed : WellNamed [unit] :=
    ⟨fun other hmem => List.mem_singleton.1 hmem ▸ hplain, List.nodup_singleton _⟩
  obtain ⟨dir, made, hmade, hplaced, hdirs, hreaches⟩ :=
    placed_of_writeAll hnamed (writeAll_of_write h)
  exact ⟨dir, made, hmade, hplaced, hdirs, (hreaches unit (List.mem_singleton_self unit)).1⟩

end Store

/-! ### Files and entries -/

/-- What a table has after one more unit is entered: the entry for that directory and that name is
replaced, if there was one. -/
theorem Registry.lookup_insertUnit (registry : Registry) {dir : String} (hdir : Path.Ordinary dir)
    (unit : CodeUnit) (names : List String) (name : String) :
    (registry.insertUnit dir unit).entries.lookup (⟨false, names⟩, name) =
      if names = Path.names dir ∧ name = unit.name then some unit.taskInfo
      else registry.entries.lookup (⟨false, names⟩, name) := by
  rw [insertUnit, insert, List.lookup_cons, hdir.key_eq]
  by_cases hsame : names = Path.names dir ∧ name = unit.name
  · obtain ⟨rfl, rfl⟩ := hsame
    simp [CodeUnit.taskInfo]
  · have hother : (((⟨false, names⟩, name) : Path.Key × String) ==
        (⟨false, Path.names dir⟩, unit.taskInfo.name)) = false := by
      rw [beq_eq_false_iff_ne]
      intro heq
      obtain ⟨hkey, hname⟩ := Prod.mk.inj heq
      exact hsame ⟨congrArg Path.Key.names hkey, hname⟩
    rw [if_neg hsame, hother]

namespace FileTree

variable {files files' : FileTree} {names names' : List String} {unit other : CodeUnit}
  {registry : Registry} {dir name : String} {task : TaskInfo}

/-- **The place of a unit's file** in the directory to which names lead. -/
def shelf (files : FileTree) (names : List String) (unit : CodeUnit) (role : FileRole) : Place :=
  unit.placeIn (names.reverse ++ files.home) role

/-- Different units, directories or roles have different places. -/
theorem shelf_inj (hplain : PlainName unit.name) (hplain' : PlainName other.name)
    {role role' : FileRole} :
    files.shelf names unit role = files.shelf names' other role' ↔
      names = names' ∧ unit.name = other.name ∧ role = role' := by
  rw [shelf, shelf, CodeUnit.placeIn, CodeUnit.placeIn, List.cons.injEq,
    CodeUnit.fileName_inj hplain hplain', List.append_cancel_right_eq, List.reverse_inj, and_comm]

/-- **A unit is on offer** in a directory: its file stands there, and paths lead to it. -/
structure Offers (files : FileTree) (names : List String) (unit : CodeUnit) : Prop where
  plain : PlainName unit.name
  readable : unit.encode.length < 2 ^ 64
  walk : files.walk files.home names = .ok (names.reverse ++ files.home)
  file : files.get? (files.shelf names unit .unit) = some (.file unit.encode)
  length : (unit.fileName .unit).utf8ByteSize ≤ longestName
  noNul : ∀ name ∈ names ++ [unit.fileName .unit], '\x00' ∉ name.toList

/-- **The files mirror a table**: an entry of the table is a unit on offer, and no other unit has a
file. -/
structure Mirrors (files : FileTree) (registry : Registry) : Prop where
  found : ∀ {names name task}, registry.entries.lookup (⟨false, names⟩, name) = some task →
    ∃ unit, unit.name = name ∧ unit.taskInfo = task ∧ files.Offers names unit
  absent : ∀ {names} {unit : CodeUnit}, PlainName unit.name →
    registry.entries.lookup (⟨false, names⟩, unit.name) = none →
    ∀ content, files.get? (files.shelf names unit .unit) ≠ some (.file content)

/-- There are no files in an empty home directory. -/
theorem get?_ofHome_ne (home place : Place) (content : List UInt8) :
    (ofHome home).get? place ≠ some (.file content) := by
  induction home with
  | nil => rcases place with _ | ⟨name, dir⟩ <;> simp [ofHome, get?]
  | cons name parent ih =>
    have hput : (ofHome (name :: parent)).get? place =
        ((ofHome parent).put (name :: parent) .directory).get? place := by
      rcases place with _ | _ <;> rfl
    rw [hput]
    by_cases hplace : place = name :: parent
    · rw [hplace, get?_put_self]
      rintro ⟨⟩
    · rw [get?_put_of_ne hplace]
      exact ih

/-- **It begins with nothing**: an empty home directory mirrors an empty table. -/
theorem mirrors_ofHome (home : Place) : (ofHome home).Mirrors {} where
  found := by rintro names name task ⟨⟩
  absent := fun _ _ => get?_ofHome_ne home _

/-- What was on offer still is, if a unit is written elsewhere. The directory that it is in has not
moved. -/
theorem Offers.mono (h : files.Offers names unit) (hdirs : files.KeepsDirs files')
    (hkeeps : files.Keeps files' (files.shelf names unit .unit)) : files'.Offers names unit := by
  have hfile : files'.get? (files.shelf names unit .unit) = some (.file unit.encode) := by
    rcases hkeeps with hsame | ⟨hnone, -⟩
    · exact hsame.trans h.file
    · cases hnone.symm.trans h.file
  have hwalk := hdirs.walk h.walk
  rw [← hdirs.home] at hwalk
  exact ⟨h.plain, h.readable, hwalk, by rwa [shelf, hdirs.home], h.length, h.noNul⟩

/-- **Every unit that is written** is entered in the table, and the files mirror it again. A file is
new only at the place of the unit, where the entry is, and the others stay, as do the other
entries. -/
theorem Mirrors.write {disk disk' : Disk} {path : String} (h : disk.files.Mirrors registry)
    (hdir : Path.Ordinary dir) (hplain : PlainName unit.name)
    (hreadable : unit.encode.length < 2 ^ 64)
    (hwrite : Store.write { dir := dir } unit disk = .ok path disk') :
    disk'.files.Mirrors (registry.insertUnit dir unit) := by
  obtain ⟨top, made, hmade, hplaced, hdirs, hreaches⟩ := Store.placed_of_write hplain hwrite
  obtain ⟨rfl, hwalk⟩ := (leadsTo_iff hdir).1 hplaced.leadsTo
  have hshelf : ∀ names (other : CodeUnit),
      disk'.files.shelf names other .unit = disk.files.shelf names other .unit := by
    intro names other
    rw [shelf, shelf, hdirs.home]
  -- Every other unit keeps its shelf, which is not that of the temporary file either.
  have hkept : ∀ {names} {other : CodeUnit}, PlainName other.name →
      ¬(names = Path.names dir ∧ other.name = unit.name) →
      disk.files.Keeps disk'.files (disk.files.shelf names other .unit) := by
    intro names other hother hnot
    rw [← hshelf]
    refine (hmade.keeps _).trans (.inl (hplaced.kept _ ?_ (by rintro _ ⟨⟩) ?_)) <;>
      intro taken htaken heq <;> obtain rfl := List.mem_singleton.1 htaken
    · obtain ⟨hnames, hname, -⟩ := (shelf_inj hother hplain).1 heq
      exact hnot ⟨hnames, hname⟩
    · obtain ⟨-, -, hrole⟩ := (shelf_inj hother hplain).1 heq
      cases hrole
  constructor
  · intro names name task hfound
    rw [registry.lookup_insertUnit hdir] at hfound
    split at hfound
    · rename_i hsame
      obtain ⟨rfl, rfl⟩ := hsame
      cases hfound
      have hx := CodeUnit.isName_fileName hplain .unit
      have hfinds := hreaches.file
      rw [Store.pathFor_eq, finds_join_iff hx, checkPath_join hx] at hfinds
      obtain ⟨⟨hnoNul, -⟩, hlength, -⟩ := hfinds
      exact ⟨unit, rfl, rfl, hplain, hreadable, hwalk, hplaced.unit unit List.mem_cons_self,
        hlength, hnoNul⟩
    · rename_i hnot
      obtain ⟨other, rfl, rfl, hoffers⟩ := h.found hfound
      exact ⟨other, rfl, rfl, hoffers.mono hdirs (hkept hoffers.plain hnot)⟩
  · intro names other hother hnone content hfile
    rw [registry.lookup_insertUnit hdir] at hnone
    split at hnone
    · cases hnone
    · rename_i hnot
      rw [hshelf] at hfile
      rcases hkept hother hnot with hsame | ⟨-, hmade⟩
      · exact h.absent hother hnone content (hsame.symm.trans hfile)
      · cases hmade.symm.trans hfile

end FileTree

/-! ### Many units are written -/

/-- **Write units one after the other**, each to a directory of its own. -/
def Store.writeEach : List (String × CodeUnit) → DiskM Unit
  | [] => pure ()
  | (dir, unit) :: rest => do
    let _ ← Store.write { dir := dir } unit
    Store.writeEach rest

/-- **Enter units one after the other**, each with a directory of its own. -/
def Registry.insertEach (registry : Registry) : List (String × CodeUnit) → Registry
  | [] => registry
  | (dir, unit) :: rest => (registry.insertUnit dir unit).insertEach rest

/-- **Files and table stay together**, as many units as are written. By induction on the units; a
unit may replace one that was written before. -/
theorem FileTree.Mirrors.writeEach {pairs : List (String × CodeUnit)} {registry : Registry}
    {disk disk' : Disk} (h : disk.files.Mirrors registry)
    (hpairs : ∀ dir unit, (dir, unit) ∈ pairs →
      Path.Ordinary dir ∧ PlainName unit.name ∧ unit.encode.length < 2 ^ 64)
    (hwrite : Store.writeEach pairs disk = .ok () disk') :
    disk'.files.Mirrors (registry.insertEach pairs) := by
  induction pairs generalizing registry disk with
  | nil =>
    cases hwrite
    exact h
  | cons pair rest ih =>
    obtain ⟨dir, unit⟩ := pair
    obtain ⟨path, disk₁, hfirst, hrest⟩ := Action.bind_eq_ok.1 hwrite
    obtain ⟨hdir, hplain, hreadable⟩ := hpairs dir unit List.mem_cons_self
    exact ih (h.write hdir hplain hreadable hfirst)
      (fun dir unit hmem => hpairs dir unit (List.mem_cons_of_mem _ hmem)) hrest

/-! ### Looking for a task -/

theorem CodeUnit.exists_name (name : String) : ∃ unit : CodeUnit, unit.name = name :=
  ⟨{ name := name, kind := .task }, rfl⟩

/-- The path by which a task is looked for in a directory is not too long. -/
def Store.pathFits (name dir : String) : Bool :=
  (Store.pathFor { dir := dir } name).utf8ByteSize ≤ FileTree.longestPath

/-- **The answer of a table** that is asked about some directories of a search path. -/
def Registry.answer (registry : Registry) (name : String) (path : SearchPath)
    (dirs : List String) : Except CompileError TaskInfo :=
  ((dirs.findSome? fun dir => registry.find? dir name).map .ok).getD (.error (path.missing name))

theorem Registry.outcome_resolver (registry : Registry) (name : String) (path : SearchPath) :
    (registry.resolver name path).outcome = registry.answer name path path.dirs := by
  rw [resolver, answer]
  rcases path.dirs.findSome? fun dir => registry.find? dir name with _ | task <;> rfl

namespace FileTree

variable {files : FileTree} {registry : Registry} {dir name : String} {task : TaskInfo}

theorem outcome_resolver (files : FileTree) (name : String) (path : SearchPath) :
    (files.resolver name path).outcome =
      ((FileOps.plain.findTask files name path.dirs).map Resolution.outcome).getD
        (.error (path.missing name)) := by
  rw [resolver, FileOps.resolver]
  rcases FileOps.plain.findTask files name path.dirs with _ | resolution <;> rfl

/-- There is a file where something can be read, so that looking for a file and reading it agree. -/
theorem isFile_iff {path : String} :
    FileOps.plain.isFile files path = true ↔ ∃ content, files.read path = .ok content := by
  have hread : FileOps.plain.read files path = files.read path := rfl
  rw [FileOps.isFile, hread]
  rcases files.read path with e | content <;> simp

/-- **A task that is in the table is found in its file**, if the path is not too long. The path need
not be the one by which the unit was written, and so may be longer. -/
theorem Mirrors.read_eq (h : files.Mirrors registry) (hdir : Path.Ordinary dir)
    (hfits : Store.pathFits name dir = true) (hfind : registry.find? dir name = some task) :
    ∃ unit : CodeUnit, unit.taskInfo = task ∧ unit.encode.length < 2 ^ 64 ∧
      files.read (Store.pathFor { dir := dir } name) = .ok unit.encode := by
  rw [Registry.find?, hdir.key_eq] at hfind
  obtain ⟨unit, rfl, rfl, hoffers⟩ := h.found hfind
  refine ⟨unit, rfl, hoffers.readable, read_eq_ok.2 ⟨_, ?_, hoffers.file⟩⟩
  have hx := CodeUnit.isName_fileName hoffers.plain .unit
  rw [Store.pathFits, decide_eq_true_eq, Store.pathFor_eq] at hfits
  rw [Store.pathFor_eq, finds_join_iff hx, checkPath_join hx]
  exact ⟨⟨hoffers.noNul, hfits⟩, hoffers.length, _, (leadsTo_iff hdir).2 ⟨rfl, hoffers.walk⟩, rfl⟩

/-- **A task of which there is a file is in the table**, and its path is not too long. So neither
the search of the files nor that of the table goes on where the other one ends. -/
theorem Mirrors.find?_ne_none (h : files.Mirrors registry) (hdir : Path.Ordinary dir)
    (hname : PlainName name)
    (hfile : FileOps.plain.isFile files (Store.pathFor { dir := dir } name) = true) :
    Store.pathFits name dir = true ∧ registry.find? dir name ≠ none := by
  obtain ⟨content, hread⟩ := isFile_iff.1 hfile
  obtain ⟨place, hfinds, hget⟩ := read_eq_ok.1 hread
  -- Places are those of units: any unit of this name will do.
  obtain ⟨unit, rfl⟩ := CodeUnit.exists_name name
  have hx := CodeUnit.isName_fileName hname .unit
  rw [Store.pathFor_eq, finds_join_iff hx, checkPath_join hx] at hfinds
  obtain ⟨⟨-, hfits⟩, -, top, hleads, rfl⟩ := hfinds
  obtain ⟨rfl, -⟩ := (leadsTo_iff hdir).1 hleads
  constructor
  · rwa [Store.pathFits, decide_eq_true_eq, Store.pathFor_eq]
  · intro hnone
    rw [Registry.find?, hdir.key_eq] at hnone
    exact h.absent hname hnone content hget

/-- **A search of the files** is a search of the table, in the directories whose paths are not too
long. By induction on the directories, which are looked into one after the other by both. -/
theorem Mirrors.outcome_findTask (h : files.Mirrors registry) (hname : PlainName name)
    {dirs : List String} (hdirs : ∀ dir ∈ dirs, Path.Ordinary dir) :
    (FileOps.plain.findTask files name dirs).map Resolution.outcome =
      ((dirs.filter (Store.pathFits name)).findSome? fun dir => registry.find? dir name).map
        .ok := by
  induction dirs with
  | nil => rfl
  | cons dir rest ih =>
    have hdir := hdirs dir List.mem_cons_self
    have hrest := ih fun dir hmem => hdirs dir (List.mem_cons_of_mem _ hmem)
    by_cases hfile : FileOps.plain.isFile files (Store.pathFor { dir := dir } name) = true
    · obtain ⟨hfits, hsome⟩ := h.find?_ne_none hdir hname hfile
      obtain ⟨task, hfind⟩ := Option.ne_none_iff_exists'.1 hsome
      obtain ⟨unit, rfl, hreadable, hread⟩ := h.read_eq hdir hfits hfind
      have hunit := readUnit_of_read hread
      rw [readUnit, CodeUnit.decode_file hreadable] at hunit
      rw [FileOps.findTask, if_pos hfile, List.filter_cons_of_pos hfits, List.findSome?_cons, hfind,
        Option.map_some, hunit]
      rfl
    · rw [FileOps.findTask, if_neg hfile, hrest]
      by_cases hfits : Store.pathFits name dir = true
      · rw [List.filter_cons_of_pos hfits, List.findSome?_cons]
        rcases hfind : registry.find? dir name with _ | task
        · rfl
        · obtain ⟨unit, -, -, hread⟩ := h.read_eq hdir hfits hfind
          exact absurd (isFile_iff.2 ⟨_, hread⟩) hfile
      · rw [List.filter_cons_of_neg hfits]

/-- **The answer of the files** is that of the table, asked about the directories in which the path
of the task is not too long. -/
theorem Mirrors.outcome_eq (h : files.Mirrors registry) (hname : PlainName name)
    {path : SearchPath} (hdirs : ∀ dir ∈ path.dirs, Path.Ordinary dir) :
    (files.resolver name path).outcome =
      registry.answer name path (path.dirs.filter (Store.pathFits name)) := by
  rw [outcome_resolver, h.outcome_findTask hname hdirs, Registry.answer]

end FileTree

/-- **The files and the table give one answer.** Let units be written to ordinary directories, from
an empty disk on, and entered in a table. On a search path of ordinary directories the files then
answer as the table does if it is asked only about those directories in which the path of the task
is not too long; and if it is too long in none of them, as the table does.

Directories are ordinary if their paths are relative and have no dots in them: the table goes by the
names in a path, and with dots two spellings of a directory may have different names. -/
theorem resolvers_agree {home : Place} {pairs : List (String × CodeUnit)} {disk : Disk}
    (hpairs : ∀ dir unit, (dir, unit) ∈ pairs →
      Path.Ordinary dir ∧ PlainName unit.name ∧ unit.encode.length < 2 ^ 64)
    (hwrite : Store.writeEach pairs { files := .ofHome home } = .ok () disk)
    {path : SearchPath} (hdirs : ∀ dir ∈ path.dirs, Path.Ordinary dir)
    {name : String} (hname : PlainName name) :
    (disk.files.resolver name path).outcome =
        (Registry.insertEach {} pairs).answer name path (path.dirs.filter (Store.pathFits name)) ∧
      ((∀ dir ∈ path.dirs, Store.pathFits name dir = true) →
        (disk.files.resolver name path).outcome =
          ((Registry.insertEach {} pairs).resolver name path).outcome) := by
  have houtcome :=
    ((FileTree.mirrors_ofHome home).writeEach hpairs hwrite).outcome_eq hname hdirs
  refine ⟨houtcome, fun hfits => ?_⟩
  rw [houtcome, List.filter_eq_self.2 hfits, Registry.outcome_resolver]

/-- Units that can all be written, by a function whose result can be decided. -/
theorem Store.exists_writeEach (pairs : List (String × CodeUnit)) (disk : Disk)
    (h : (match Store.writeEach pairs disk with
      | .ok _ _ => true
      | .error _ _ => false) = true) :
    ∃ disk', Store.writeEach pairs disk = .ok () disk' := by
  rcases hwrite : Store.writeEach pairs disk with ⟨⟨⟩, disk'⟩ | ⟨e, disk'⟩
  · exact ⟨disk', rfl⟩
  · rw [hwrite] at h
    cases h

/-- Three units, of which the last takes the place of the first. -/
def threeUnits : List (String × CodeUnit) :=
  [("tasks", { name := "Job", kind := .program }), ("lib/old", { name := "Job", kind := .program }),
    ("tasks//", { name := "Job", kind := .task, instructions := [.ret] })]

theorem ordinary_threeUnits : ∀ dir unit, (dir, unit) ∈ threeUnits →
    Path.Ordinary dir ∧ PlainName unit.name ∧ unit.encode.length < 2 ^ 64 := by
  have hall : ∀ pair ∈ threeUnits, Path.Ordinary pair.1 ∧ PlainName pair.2.name ∧
      pair.2.encode.length < 2 ^ 64 := by
    unfold PlainName
    decide +kernel
  exact fun dir unit => hall (dir, unit)

theorem resolvers_agree_threeUnits :
    ∃ disk, Store.writeEach threeUnits { files := .ofHome ["user", "home"] } = .ok () disk ∧
      (disk.files.resolver "Job" ⟨["lib", "tasks/", "lib/old"]⟩).outcome =
        ((Registry.insertEach {} threeUnits).resolver "Job"
          ⟨["lib", "tasks/", "lib/old"]⟩).outcome ∧
      ((Registry.insertEach {} threeUnits).resolver "Job" ⟨["lib", "tasks/", "lib/old"]⟩).outcome =
        .ok { name := "Job", hasConstructor := true, runnable := true } := by
  obtain ⟨disk, hwrite⟩ :=
    Store.exists_writeEach threeUnits { files := .ofHome ["user", "home"] } (by decide +kernel)
  refine ⟨disk, hwrite, (resolvers_agree ordinary_threeUnits hwrite ?_ ?_).2 ?_, by decide +kernel⟩
  · decide +kernel
  · unfold PlainName
    decide
  · decide +kernel

/-! ### Too many slashes -/

namespace Path

variable {dir x : String}

/-- **A directory with slashes behind it.** -/
def slashed (dir : String) : Nat → String
  | 0 => dir
  | n + 1 => slashed dir n ++ "/"

theorem names_slashed (dir : String) (n : Nat) : names (slashed dir n) = names dir := by
  induction n with
  | zero => rfl
  | succ n ih =>
    rw [slashed, ← String.append_empty (s := slashed dir n ++ "/"), names_append_slash, ih]
    exact List.append_nil _

theorem utf8ByteSize_slashed (dir : String) (n : Nat) :
    (slashed dir n).utf8ByteSize = dir.utf8ByteSize + n := by
  induction n with
  | zero => rfl
  | succ n ih =>
    rw [slashed, String.utf8ByteSize_append, ih]
    rfl

theorem head?_slashed (hdir : dir ≠ "") (n : Nat) :
    (slashed dir n).toList.head? = dir.toList.head? := by
  induction n with
  | zero => rfl
  | succ n ih =>
    have hhead : dir.toList.head?.isSome :=
      List.isSome_head?.2 (mt String.toList_eq_nil_iff.1 hdir)
    rw [slashed, String.toList_append, List.head?_append, ih, Option.or_of_isSome hhead]

theorem Ordinary.slashed (h : Ordinary dir) (hdir : dir ≠ "") (n : Nat) :
    Ordinary (slashed dir n) where
  relative := by rw [isAbsolute, head?_slashed hdir, ← isAbsolute, h.relative]
  notDots := by
    rw [names_slashed]
    exact h.notDots

theorem le_utf8ByteSize_join (hx : IsName x) : dir.utf8ByteSize ≤ (join dir x).utf8ByteSize := by
  rw [join, isAbsolute_eq_false hx.noSlash, if_neg Bool.false_ne_true]
  split <;> simp only [String.utf8ByteSize_append] <;> omega

end Path

section Slashed

variable {files : FileTree} {registry : Registry} {dir name : String} {n : Nat}

/-- With so many slashes behind its directory, the path of a task is too long. The bound is that of
the longest path, so that the name of the task does not matter. -/
theorem Store.pathFits_slashed (hdir : dir ≠ "") (hname : PlainName name)
    (hn : FileTree.longestPath ≤ n) : Store.pathFits name (Path.slashed dir n) = false := by
  obtain ⟨unit, rfl⟩ := CodeUnit.exists_name name
  have hsize : (Path.slashed dir n).utf8ByteSize ≤ _ :=
    Path.le_utf8ByteSize_join (CodeUnit.isName_fileName hname .unit)
  have hpos : dir.utf8ByteSize ≠ 0 := mt String.utf8ByteSize_eq_zero_iff.1 hdir
  rw [Path.utf8ByteSize_slashed] at hsize
  rw [Store.pathFits, Store.pathFor_eq, decide_eq_false_iff_not]
  exact fun hfits => absurd (hsize.trans hfits) (by omega)

/-- To the table it is the same directory. -/
theorem Registry.find?_slashed (hordinary : Path.Ordinary dir) (hdir : dir ≠ "") :
    registry.find? (Path.slashed dir n) name = registry.find? dir name := by
  rw [Registry.find?, (hordinary.slashed hdir n).key_eq, Path.names_slashed, ← hordinary.key_eq,
    ← Registry.find?]

/-- **Slashes behind a directory keep the files from an answer**, and not the table: paths have a
greatest length, and slashes count for it. -/
theorem FileTree.Mirrors.outcome_slashed (h : files.Mirrors registry)
    (hordinary : Path.Ordinary dir) (hdir : dir ≠ "") (hname : PlainName name)
    (hn : FileTree.longestPath ≤ n) {task : TaskInfo}
    (hfind : registry.find? dir name = some task) :
    (files.resolver name ⟨[Path.slashed dir n]⟩).outcome =
        .error (SearchPath.missing ⟨[Path.slashed dir n]⟩ name) ∧
      (registry.resolver name ⟨[Path.slashed dir n]⟩).outcome = .ok task := by
  have hslashed := hordinary.slashed hdir n
  constructor
  · rw [h.outcome_eq hname fun other hmem => List.mem_singleton.1 hmem ▸ hslashed,
      List.filter_cons_of_neg (Bool.eq_false_iff.1 (Store.pathFits_slashed hdir hname hn))]
    rfl
  · rw [Registry.outcome_resolver, Registry.answer, List.findSome?_singleton,
      Registry.find?_slashed hordinary hdir, hfind]
    rfl

end Slashed

/-- **The files and the table differ** about a task that was written to a directory, if the
directory is looked into by a path with too many slashes. So the lengths of paths cannot be left out
of the general statement. -/
theorem resolvers_differ_slashed :
    ∃ disk, Store.writeEach threeUnits { files := .ofHome ["user", "home"] } = .ok () disk ∧
      Path.Ordinary (Path.slashed "tasks" FileTree.longestPath) ∧
      (disk.files.resolver "Job" ⟨[Path.slashed "tasks" FileTree.longestPath]⟩).outcome =
        .error (SearchPath.missing ⟨[Path.slashed "tasks" FileTree.longestPath]⟩ "Job") ∧
      ((Registry.insertEach {} threeUnits).resolver "Job"
        ⟨[Path.slashed "tasks" FileTree.longestPath]⟩).outcome =
        .ok { name := "Job", hasConstructor := true, runnable := true } := by
  obtain ⟨disk, hwrite⟩ :=
    Store.exists_writeEach threeUnits { files := .ofHome ["user", "home"] } (by decide +kernel)
  have hmirrors := (FileTree.mirrors_ofHome ["user", "home"]).writeEach ordinary_threeUnits hwrite
  have hordinary : Path.Ordinary "tasks" := by decide +kernel
  have hname : PlainName "Job" := by
    unfold PlainName
    decide
  exact ⟨disk, hwrite, hordinary.slashed (by decide) _,
    hmirrors.outcome_slashed hordinary (by decide) hname le_rfl (by decide +kernel)⟩

end StackUnits
