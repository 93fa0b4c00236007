import StackUnits.Proofs.Confinement
import StackUnits.Proofs.ReadBack

/-!
# Nothing is left of units that could not all be written

Units that are written together go to temporary files first. If one of these cannot be written, the
error is passed on, and the temporary files that were written before it are removed: the files are
then what they were once the store's directory had been made, but for the temporary files
themselves (`StackUnits.Store.CleanedUp`).

Why a file cannot be written does not matter, nor what the attempt leaves of it. So this is said of
any operations on files with which one write goes wrong (`StackUnits.FileOps.FailsAt`); those of the
file tree are an instance. Nothing is asked of the way in which files are moved, or other files
written, by these operations: neither is done. The result is
`StackUnits.Compilation.cleanedUp_of_stage_error`.
-/

namespace StackUnits

/-! ### Places that are left alone -/

namespace FileTree

variable {files files' : FileTree} {place : Place} {path : String}

theorem SameDirs.symm (h : files.SameDirs files') : files'.SameDirs files :=
  ⟨h.home.symm, fun place => (h.dirs place).symm⟩

end FileTree

namespace Disk

variable {disk disk' : Disk}

/-- **What every step keeps, a round keeps.** The relation is any that is reflexive and transitive,
such as to have changed nothing but files. -/
theorem forM_keeps {R : Disk → Disk → Prop} (hrefl : ∀ disk, R disk disk)
    (htrans : ∀ {disk disk₁ disk₂}, R disk disk₁ → R disk₁ disk₂ → R disk disk₂)
    {step : CodeUnit → DiskM Unit}
    (hstep : ∀ {unit disk disk'}, step unit disk = .ok () disk' → R disk disk')
    {units : List CodeUnit} (h : units.forM step disk = .ok () disk') : R disk disk' := by
  induction units generalizing disk with
  | nil =>
    cases h
    exact hrefl _
  | cons unit rest ih =>
    obtain ⟨_, disk₁, hunit, h⟩ := Action.bind_eq_ok.1 h
    exact htrans (hstep hunit) (ih h)

/-- **Only files have changed**: no directory has, and no note has been made. -/
structure OnlyFiles (disk disk' : Disk) : Prop where
  dirs : disk.files.SameDirs disk'.files
  journal : disk'.journal = disk.journal

namespace OnlyFiles

protected theorem refl (disk : Disk) : disk.OnlyFiles disk :=
  ⟨.refl _, rfl⟩

protected theorem trans {disk'' : Disk} (h : disk.OnlyFiles disk') (h' : disk'.OnlyFiles disk'') :
    disk.OnlyFiles disk'' :=
  ⟨h.dirs.trans h'.dirs, h'.journal.trans h.journal⟩

end OnlyFiles

theorem journal_of_makeDirs {path : String} (h : makeDirs path disk = .ok () disk') :
    disk'.journal = disk.journal := by
  unfold makeDirs at h
  rcases hmade : disk.files.makeDirs path with ⟨e | _, files⟩
  · simp only [hmade] at h
    cases h
  · simp only [hmade] at h
    cases h
    rfl

theorem journal_of_tryRemove {path : String} (h : tryRemove path disk = .ok () disk') :
    disk'.journal = disk.journal := by
  cases h
  dsimp only
  rcases disk.files.remove path with e | files
  · rfl
  · rfl

end Disk

/-! ### Writes that go wrong -/

/-- **Operations with which a write goes wrong.** The store's directory is made, and the temporary
files of some units are written and removed, as in the file tree. That of a further unit is not
written: the attempt fails, and it changes nothing but that file. -/
structure FileOps.FailsAt (ops : FileOps) (store : Store) (done : List CodeUnit) (unit : CodeUnit)
    (e : CompileError) (disk disk' : Disk) : Prop where
  makeDirs : ops.makeDirs store.dir = Disk.makeDirs store.dir
  stage : ∀ other ∈ done, ops.stage store other = store.stage other
  remove : ∀ other ∈ done,
    ops.remove (store.stagePath other.name) = Disk.tryRemove (store.stagePath other.name)
  fails : ops.stage store unit disk = .error e disk'
  onlyFiles : disk.OnlyFiles disk'
  elsewhere : ∀ place, ¬disk.files.Finds (store.stagePath unit.name) place →
    disk'.files.get? place = disk.files.get? place

/-- A write that fails in the file tree changes nothing at all, not even its own file. -/
theorem FileOps.failsAt_plain {store : Store} {unit : CodeUnit} {e : CompileError}
    {disk disk' : Disk} (done : List CodeUnit) (h : store.stage unit disk = .error e disk') :
    plain.FailsAt store done unit e disk disk' := by
  obtain rfl : disk' = disk := eq_of_plain_write h
  exact ⟨rfl, fun _ _ => rfl, fun _ _ => rfl, h, .refl _, fun _ _ => rfl⟩

namespace Store

variable {store : Store} {ops : FileOps} {units written done rest : List CodeUnit}
  {unit : CodeUnit} {dir : Place} {made : FileTree} {disk disk₁ disk₂ disk₃ disk' : Disk}
  {e : CompileError}

/-- **What remains when a unit could not be written**, of the disk with the store's directory and
the disk on which the write failed. The units before it have no temporary files, and its own is
whatever the attempt has left; everything else is as before. -/
structure CleanedUp (store : Store) (done : List CodeUnit) (unit : CodeUnit)
    (before failed after : Disk) : Prop where
  gone : ∀ other ∈ done, after.files.read (store.stagePath other.name) = .error .notFound
  own : ∀ place, failed.files.Finds (store.stagePath unit.name) place →
    after.files.get? place = failed.files.get? place
  kept : ∀ place, (∀ other ∈ done ++ [unit],
      ¬before.files.Finds (store.stagePath other.name) place) →
    after.files.get? place = before.files.get? place
  onlyFiles : before.OnlyFiles after

/-! ### The units before -/

/-- To write a temporary file is to change files only. -/
theorem onlyFiles_of_stage (h : store.stage unit disk = .ok () disk') : disk.OnlyFiles disk' := by
  obtain ⟨files, hwrite, rfl⟩ := FileOps.plain_write_eq_ok.1 h
  exact ⟨FileTree.sameDirs_of_write hwrite, rfl⟩

/-- **The units before are written** to their temporary files, one after the other. -/
theorem Staged.of_forM (h : store.Staged written dir made disk.files)
    (hnamed : WellNamed (written ++ done ++ rest))
    (hrun : done.forM store.stage disk = .ok () disk') :
    store.Staged (written ++ done) dir made disk'.files := by
  induction done generalizing written disk with
  | nil =>
    cases hrun
    rwa [List.append_nil]
  | cons unit done ih =>
    have hsplit : written ++ unit :: done = written ++ [unit] ++ done := List.append_cons ..
    rw [hsplit] at hnamed ⊢
    obtain ⟨_, disk₁, hstage, hrun⟩ := Action.bind_eq_ok.1 hrun
    exact ih (h.stage hnamed (by simp) (by simp) hstage) hnamed hrun

end Store

namespace FileOps

variable {ops : FileOps} {store : Store} {written done rest : List CodeUnit} {unit : CodeUnit}
  {disk disk₁ disk₂ disk' : Disk} {e : CompileError}

/-- Units that can be written are got over: the round comes to the next one with a longer list of
units to be removed. -/
theorem stageAll_append_of_forM (hstage : ∀ other ∈ done, ops.stage store other = store.stage other)
    (h : done.forM store.stage disk = .ok () disk') :
    ops.stageAll store written (done ++ rest) disk =
      ops.stageAll store (written ++ done) rest disk' := by
  induction done generalizing written disk with
  | nil =>
    cases h
    rw [List.append_nil]
    rfl
  | cons unit done ih =>
    rw [List.forall_mem_cons] at hstage
    obtain ⟨_, disk₁, hunit, h⟩ := Action.bind_eq_ok.1 h
    rw [← hstage.1] at hunit
    rw [List.cons_append, stageAll_cons_of_ok hunit, ih hstage.2 h, List.append_assoc,
      List.singleton_append]

namespace FailsAt

variable {dir : Place} {disk₃ : Disk}

/-- **The units before are removed**, and nothing else. What the failed write has left of its own
file is not touched, since none of the other temporary files has the same place. -/
theorem exists_tidy (h : ops.FailsAt store done unit e disk₂ disk₃)
    (hstaged : store.Staged done dir disk₁.files disk₂.files)
    (hnamed : WellNamed (done ++ unit :: rest)) (honly : disk₁.OnlyFiles disk₂) :
    ∃ disk', done.forM (fun other => Disk.tryRemove (store.stagePath other.name)) disk₃ =
        .ok () disk' ∧ store.CleanedUp done unit disk₁ disk₃ disk' := by
  have hnodup : done.Nodup := (List.nodup_append.1 hnamed.nodup.of_map).1
  have hnew := hnamed.not_mem_before rfl
  have hnot : ∀ other ∈ done,
      ¬disk₂.files.Finds (store.stagePath unit.name) (other.placeIn dir .temporary) :=
    fun other => hstaged.not_finds hnamed (by simp) (by simp) hnew
  have hfinds : ∀ other ∈ done,
      disk₃.files.Finds (store.stagePath other.name) (other.placeIn dir .temporary) :=
    fun other hmem => h.onlyFiles.dirs.finds (hstaged.finds other hmem)
  have hwaiting : ∀ other ∈ done,
      disk₃.files.get? (other.placeIn dir .temporary) = some (.file other.encode) := by
    intro other hmem
    rw [h.elsewhere _ (hnot other hmem)]
    exact hstaged.waiting other hmem nofun
  obtain ⟨disk', htidy, hdirs, hgone, hkept⟩ := Store.forM_remove (canFail_plain False) hnamed
    (by simp) hnodup fun other hmem => ⟨hfinds other hmem, _, hwaiting other hmem⟩
  rw [plain_remove] at htidy
  have htidied : disk₃.OnlyFiles disk' := by
    refine ⟨hdirs, Disk.forM_keeps (R := fun disk disk' => disk'.journal = disk.journal)
      (fun _ => rfl) (fun h h' => h'.trans h) Disk.journal_of_tryRemove htidy⟩
  refine ⟨disk', htidy, ?_, ?_, ?_, honly.trans (h.onlyFiles.trans htidied)⟩
  · intro other hmem
    exact FileTree.read_eq_notFound (hdirs.finds (hfinds other hmem))
      ((hgone other hmem).resolve_right id)
  · intro place hplace
    refine hkept place ?_
    rintro other hmem rfl
    exact hnot other hmem (h.onlyFiles.dirs.symm.finds hplace)
  · intro place hplace
    -- The place is found by none of the paths, before or after: nobody has been there.
    have hback : ∀ other ∈ done ++ [unit], ¬disk₂.files.Finds (store.stagePath other.name) place :=
      fun other hmem hfound => hplace other hmem (honly.dirs.symm.finds hfound)
    have helse : ∀ other ∈ done, place ≠ other.placeIn dir .temporary := by
      rintro other hmem rfl
      exact hback other (List.mem_append_left _ hmem) (hstaged.finds other hmem)
    rw [hkept place helse, h.elsewhere place (hback unit (by simp)),
      hstaged.kept place nofun nofun helse]

/-- **A round in which a unit cannot be written.** If units come before it, the store's path leads
to a directory and there are temporary files to remove; otherwise there is nothing to do. -/
theorem exists_stageAll (h : ops.FailsAt store done unit e disk₂ disk₃)
    (hnamed : WellNamed (done ++ unit :: rest))
    (hdone : done.forM store.stage disk₁ = .ok () disk₂) :
    ∃ disk', ops.stageAll store [] (done ++ unit :: rest) disk₁ = .error e disk' ∧
      store.CleanedUp done unit disk₁ disk₃ disk' := by
  have honly : disk₁.OnlyFiles disk₂ :=
    Disk.forM_keeps .refl .trans Store.onlyFiles_of_stage hdone
  obtain ⟨disk', htidy, hclean⟩ : ∃ disk',
      done.forM (fun other => Disk.tryRemove (store.stagePath other.name)) disk₃ = .ok () disk' ∧
        store.CleanedUp done unit disk₁ disk₃ disk' := by
    rcases done with _ | ⟨first, others⟩
    · cases hdone
      refine ⟨disk₃, rfl, nofun, fun _ _ => rfl, fun place hplace => ?_, h.onlyFiles⟩
      exact h.elsewhere place (hplace unit (by simp))
    · have hfirst := hdone
      obtain ⟨_, disk, hfirst, -⟩ := Action.bind_eq_ok.1 hfirst
      obtain ⟨dir, hdir, -⟩ := Store.exists_of_stage (hnamed.plain first (by simp)) hfirst
      have hstart : store.Staged [] dir disk₁.files disk₁.files :=
        ⟨⟨nofun, nofun, nofun, nofun, fun _ _ _ _ => rfl⟩, hdir, nofun⟩
      exact h.exists_tidy (hstart.of_forM hnamed hdone) hnamed honly
  refine ⟨disk', ?_, hclean⟩
  rw [stageAll_append_of_forM h.stage hdone]
  rw [← forM_congr h.remove] at htidy
  exact stageAll_cons_of_error h.fails htidy

end FailsAt

end FileOps

/-! ### Compilations -/

namespace Compilation

variable {name : String} {tree : Tree} {session after : Session} {c : Compilation} {store : Store}
  {done rest : List CodeUnit} {unit : CodeUnit} {e : CompileError}
  {disk disk₁ disk₂ disk₃ : Disk}

/-- **A failed round of temporary files cleans up.** If the store's directory is made, the units
before some unit of a compilation are written to their temporary files, and that unit is not, then
the attempt to write the compilation fails with the same error and nothing remains of it. So it is
with any operations on files with which the write goes wrong, whatever they do where a file is moved
or another file is written.

The second part is stronger than the first in what it says about the program, since such operations
could do harm in a move or in another write: that nothing comes of it means that there is none. -/
theorem cleanedUp_of_stage_error (hc : Session.compileNamed name tree session = .ok c after)
    (hunits : c.units = done ++ unit :: rest)
    (hmake : Disk.makeDirs store.dir disk = .ok () disk₁)
    (hdone : done.forM store.stage disk₁ = .ok () disk₂) :
    (store.stage unit disk₂ = .error e disk₃ →
      ∃ disk', c.persist store disk = .error e disk' ∧
        store.CleanedUp done unit disk₁ disk₃ disk' ∧ disk'.journal = disk.journal) ∧
    (∀ ops : FileOps, ops.FailsAt store done unit e disk₂ disk₃ →
      ∃ disk', ops.persist store c disk = .error e disk' ∧
        store.CleanedUp done unit disk₁ disk₃ disk' ∧ disk'.journal = disk.journal) ∧
    ∀ place, disk.files.Keeps disk₁.files place := by
  have hnamed : WellNamed (done ++ unit :: rest) := hunits ▸ Session.wellNamed_of_compileNamed hc
  have hops : ∀ ops : FileOps, ops.FailsAt store done unit e disk₂ disk₃ →
      ∃ disk', ops.persist store c disk = .error e disk' ∧
        store.CleanedUp done unit disk₁ disk₃ disk' ∧ disk'.journal = disk.journal := by
    intro ops hfails
    obtain ⟨disk', hstage, hclean⟩ := hfails.exists_stageAll hnamed hdone
    have hjournal := hclean.onlyFiles.journal.trans (Disk.journal_of_makeDirs hmake)
    refine ⟨disk', ?_, hclean, hjournal⟩
    rw [← hfails.makeDirs] at hmake
    have hwrite : ops.writeAll store c.units disk = .error e disk' := by
      rw [FileOps.writeAll, hunits, Action.bind_run hmake]
      exact Action.bind_eq_error.2 (.inl hstage)
    exact Action.bind_eq_error.2 (.inl hwrite)
  refine ⟨?_, hops, ?_⟩
  · intro hstage
    exact hops .plain (FileOps.failsAt_plain done hstage)
  · intro place
    rw [Disk.files_of_makeDirs hmake]
    exact (disk.files.makesWay_makeDirs store.dir).keeps place

/-- Whether some units can be written to their temporary files and a further one cannot. -/
def failsAfter (store : Store) (done : List CodeUnit) (unit : CodeUnit) (disk : Disk) : Bool :=
  match (do Disk.makeDirs store.dir; done.forM store.stage : DiskM Unit) disk with
  | .error _ _ => false
  | .ok () disk =>
    match store.stage unit disk with
    | .ok () _ => false
    | .error _ _ => true

theorem exists_of_failsAfter (h : failsAfter store done unit disk = true) :
    ∃ disk₁ disk₂ e disk₃, Disk.makeDirs store.dir disk = .ok () disk₁ ∧
      done.forM store.stage disk₁ = .ok () disk₂ ∧ store.stage unit disk₂ = .error e disk₃ := by
  unfold failsAfter at h
  rcases hrun : (do Disk.makeDirs store.dir; done.forM store.stage : DiskM Unit) disk with
    ⟨_, disk₂⟩ | ⟨_, _⟩
  · simp only [hrun] at h
    rcases hstage : store.stage unit disk₂ with ⟨_, _⟩ | ⟨e, disk₃⟩
    · simp only [hstage] at h
      cases h
    · obtain ⟨_, disk₁, hmake, hdone⟩ := Action.bind_eq_ok.1 hrun
      exact ⟨disk₁, disk₂, e, disk₃, hmake, hdone, hstage⟩
  · simp only [hrun] at h
    cases h

theorem cleanedUp_countdown :
    ∃ c after, Session.compileNamed "Main" .countdown .bare = .ok c after ∧
      ∃ worker, c.units = [c.program, worker] ∧
      ∃ e disk₁ disk₃ disk',
        c.persist { dir := "out" } (blocked "Worker.tmp") = .error e disk' ∧
        Store.CleanedUp { dir := "out" } [c.program] worker disk₁ disk₃ disk' ∧
        disk'.files.read "out/Main.tmp" = .error .notFound := by
  obtain ⟨c, after, hc, hnames, hfails⟩ : ∃ c after,
      Session.compileNamed "Main" .countdown .bare = .ok c after ∧
      (c.program :: c.tasks).map CodeUnit.name = ["Main", "Worker"] ∧
      ∀ unit ∈ c.tasks,
        failsAfter { dir := "out" } [c.program] unit (blocked "Worker.tmp") = true :=
    Session.exists_compileNamed_bare (by decide +kernel)
  obtain ⟨hname, hnames⟩ := List.cons.inj hnames
  obtain ⟨worker, hworker, -⟩ := List.map_eq_singleton_iff.1 hnames
  obtain ⟨disk₁, disk₂, e, disk₃, hmake, hdone, hstage⟩ :=
    exists_of_failsAfter (hfails worker (by simp [hworker]))
  have hunits : c.units = [c.program] ++ worker :: [] := congrArg (c.program :: ·) hworker
  obtain ⟨hpersist, -, -⟩ := cleanedUp_of_stage_error hc hunits hmake hdone
  obtain ⟨disk', herror, hclean, -⟩ := hpersist hstage
  have hgone := hclean.gone c.program (by simp)
  rw [hname] at hgone
  have hpath : Store.stagePath { dir := "out" } "Main" = "out/Main.tmp" := by decide +kernel
  rw [hpath] at hgone
  exact ⟨c, after, hc, worker, hunits, e, disk₁, disk₃, disk', herror, hclean, hgone⟩

end Compilation

end StackUnits
