import StackUnits.Proofs.Persistence
import StackUnits.Proofs.RoundTrip

/-!
# Units that are written can be read back

What a store holds once the units of a compilation have been written to it: each unit is read back
as it was, its listing stands next to it if there is to be one, no temporary file is left, and all
other files are what they were (`StackUnits.Store.Holds`).

The rounds of `StackUnits.Store.writeAll` are followed to their end. That the units are in place is
known from `StackUnits.Store.Placed`; what is added is that their paths lead there. A path has been
followed when its file was written or moved, and since only files are written and moved, it leads to
the same place at the end (`StackUnits.Store.Reaches`).
-/

namespace StackUnits

namespace FileTree

variable {files : FileTree} {place : Place} {path : String} {content : List UInt8}

/-! ### Reading at a place -/

theorem read_of_finds (h : files.Finds path place)
    (hfile : files.get? place = some (.file content)) : files.read path = .ok content := by
  obtain ⟨hfollow, hlength⟩ := h
  simp [read, hfollow, find_eq_ok.2 ⟨hlength, hfile⟩]

/-- **A file is read** where it stands. No directory or path that leads nowhere is read. -/
theorem read_eq_ok : files.read path = .ok content ↔
    ∃ place, files.Finds path place ∧ files.get? place = some (.file content) := by
  constructor
  · intro h
    rw [read] at h
    split at h
    · cases h
    · cases h
    · rename_i dir name slash hfollow
      split at h
      · cases h
      · cases h
      · cases h
      · rename_i hfind
        cases slash with
        | true => cases h
        | false =>
          cases h
          obtain ⟨hlength, hfile⟩ := find_eq_ok.1 hfind
          exact ⟨name :: dir, ⟨hfollow, hlength⟩, hfile⟩
  · rintro ⟨place, hfinds, hfile⟩
    exact read_of_finds hfinds hfile

/-- Where nothing stands there is nothing to be read, and this has an error of its own. -/
theorem read_eq_notFound (h : files.Finds path place) (hnone : files.get? place = none) :
    files.read path = .error .notFound := by
  obtain ⟨hfollow, hlength⟩ := h
  simp [read, hfollow, find_eq_ok.2 ⟨hlength, hnone⟩]

/-- **A unit is read** from the bytes of its file. The path is there for the errors. -/
theorem readUnit_of_read (h : files.read path = .ok content) :
    files.readUnit path = CodeUnit.decode path content := by
  have hread : FileOps.plain.read files path = .ok content := h
  rw [readUnit, FileOps.readUnit, hread]

/-- A text that was written is read. -/
theorem readText_of_finds (h : files.Finds path place) {text : String}
    (hfile : files.get? place = some (.file (Wire.textBytes text))) :
    files.readText path = .ok text := by
  rw [readText, read_of_finds h hfile]
  have htext : String.fromUTF8? (Wire.textBytes text).toByteArray = some text :=
    Wire.fromUTF8?_toUTF8 text
  simp only [htext]

end FileTree

namespace Disk

variable {path : String} {disk disk' : Disk}

theorem files_of_makeDirs (h : makeDirs path disk = .ok () disk') :
    disk'.files = (disk.files.makeDirs path).2 := by
  rw [← filesAfter_makeDirs, h]
  rfl

theorem ok_of_tidying {x tidy : DiskM Unit} (h : tidying x tidy disk = .ok () disk') :
    x disk = .ok () disk' := by
  unfold tidying at h
  split at h
  · cases h
    assumption
  · split at h
    · cases h
    · cases h

end Disk

namespace Store

variable {store : Store} {units done rest : List CodeUnit} {unit : CodeUnit} {dir : Place}
  {made files files' : FileTree} {disk disk' : Disk} {path : String} {paths : List String}

/-! ### The paths of the files of a unit -/

/-- **The paths of a unit's files lead to their places** in a directory. -/
structure Reaches (store : Store) (files : FileTree) (dir : Place) (unit : CodeUnit) : Prop where
  file : files.Finds (store.pathFor unit.name) (unit.placeIn dir .unit)
  listing : store.listings = true →
    files.Finds (store.listingPath unit.name) (unit.placeIn dir .listing)

theorem Reaches.mono (h : store.Reaches files dir unit) (hsame : files.SameDirs files') :
    store.Reaches files' dir unit :=
  ⟨hsame.finds h.file, fun hon => hsame.finds (h.listing hon)⟩

/-- The path that is told is that of the unit's file. -/
theorem path_of_commit (h : store.commit unit disk = .ok path disk') :
    path = store.pathFor unit.name := by
  unfold commit FileOps.commit at h
  obtain ⟨_, disk₁, -, h⟩ := Action.bind_eq_ok.1 h
  rw [Action.ite_run] at h
  split at h
  · obtain ⟨_, disk₂, -, h⟩ := Action.bind_eq_ok.1 h
    cases h
    rfl
  · cases h
    rfl

/-- A unit that is moved into place can be reached there, and so can its listing: both paths have
been gone along to write to them. -/
theorem reaches_of_commit (hplain : PlainName unit.name) (hdir : disk.files.LeadsTo store.dir dir)
    (h : store.commit unit disk = .ok path disk') :
    disk.files.SameDirs disk'.files ∧ store.Reaches disk'.files dir unit := by
  obtain ⟨moved, hmove, hlist⟩ := exists_of_commit h
  have hmoved := FileTree.sameDirs_of_move hmove
  obtain ⟨source, target, content, -, htarget, -⟩ := FileTree.exists_of_move hmove
  obtain rfl := eq_placeIn hplain .unit htarget hdir
  rcases hlist with ⟨hoff, hfiles⟩ | ⟨hon, hwrite⟩
  · rw [hfiles]
    exact ⟨hmoved, hmoved.finds htarget, fun hon => absurd hon (by simp [hoff])⟩
  · have hwritten := FileTree.sameDirs_of_write hwrite
    obtain ⟨place, hlisting, -⟩ := FileTree.exists_of_write hwrite
    obtain rfl := eq_placeIn hplain .listing hlisting (hmoved.leadsTo hdir)
    exact ⟨hmoved.trans hwritten, (hmoved.trans hwritten).finds htarget,
      fun _ => hwritten.finds hlisting⟩

/-! ### The rounds to their end -/

theorem exists_of_stageAll {written : List CodeUnit}
    (h : FileOps.plain.stageAll store written (unit :: rest) disk = .ok () disk') :
    ∃ disk₁, store.stage unit disk = .ok () disk₁ ∧
      FileOps.plain.stageAll store (written ++ [unit]) rest disk₁ = .ok () disk' := by
  rw [FileOps.stageAll] at h
  obtain ⟨_, disk₁, htidying, h⟩ := Action.bind_eq_ok.1 h
  exact ⟨disk₁, Disk.ok_of_tidying htidying, h⟩

/-- Writing temporary files changes no directory. -/
theorem sameDirs_of_stageAll {written : List CodeUnit}
    (h : FileOps.plain.stageAll store written rest disk = .ok () disk') :
    disk.files.SameDirs disk'.files := by
  induction rest generalizing written disk with
  | nil =>
    cases h
    exact .refl _
  | cons unit rest ih =>
    obtain ⟨disk₁, hstage, h⟩ := exists_of_stageAll h
    obtain ⟨files, hwrite, rfl⟩ := FileOps.plain_write_eq_ok.1 hstage
    exact (FileTree.sameDirs_of_write hwrite).trans (ih h)

/-- A round of moves tells the paths of the units, in the order of the units, which is that of the
batch. -/
theorem paths_of_mapM_commit (h : units.mapM store.commit disk = .ok paths disk') :
    paths = units.map fun unit => store.pathFor unit.name := by
  induction units generalizing disk disk' paths with
  | nil =>
    cases h
    rfl
  | cons unit rest ih =>
    rw [List.mapM_cons] at h
    obtain ⟨path, disk₁, hcommit, h⟩ := Action.bind_eq_ok.1 h
    obtain ⟨paths, disk₂, hrest, hpure⟩ := Action.bind_eq_ok.1 h
    obtain rfl := path_of_commit hcommit
    obtain rfl := ih hrest
    cases hpure
    rfl

theorem paths_of_writeAll (h : store.writeAll units disk = .ok paths disk') :
    paths = units.map fun unit => store.pathFor unit.name := by
  unfold writeAll FileOps.writeAll at h
  obtain ⟨_, disk₁, -, h⟩ := Action.bind_eq_ok.1 h
  obtain ⟨_, disk₂, -, h⟩ := Action.bind_eq_ok.1 h
  exact paths_of_mapM_commit h

/-- **A round of moves that succeeds** brings all units into place. By induction on the units still
to be moved, as in the case of a round that fails. -/
theorem Placed.of_mapM_commit (hnamed : WellNamed units) (hunits : units = done ++ rest)
    (h : store.Placed units done (store.withListings done) dir made disk.files)
    (hrun : rest.mapM store.commit disk = .ok paths disk') :
    store.Placed units units (store.withListings units) dir made disk'.files ∧
      disk.files.SameDirs disk'.files ∧ ∀ unit ∈ rest, store.Reaches disk'.files dir unit := by
  induction rest generalizing done disk paths with
  | nil =>
    cases hrun
    rw [List.append_nil] at hunits
    subst hunits
    exact ⟨h, .refl _, nofun⟩
  | cons unit rest ih =>
    have hunit : unit ∈ units := by simp [hunits]
    have hnew := hnamed.not_mem_before hunits
    rw [List.mapM_cons] at hrun
    obtain ⟨path, disk₁, hcommit, hrun⟩ := Action.bind_eq_ok.1 hrun
    obtain ⟨paths, disk₂, hrun, hpure⟩ := Action.bind_eq_ok.1 hrun
    cases hpure
    have hnext := h.commit hnamed (hunits ▸ List.subset_append_left _ _) hunit hnew hcommit
    obtain ⟨hfirst, hreaches⟩ := reaches_of_commit (hnamed.plain unit hunit) h.leadsTo hcommit
    obtain ⟨hall, hsame, hrest⟩ := ih (by simp [hunits]) hnext hrun
    refine ⟨hall, hfirst.trans hsame, ?_⟩
    rintro other (_ | ⟨_, hmem⟩)
    · exact hreaches.mono hsame
    · exact hrest other hmem

/-! ### What the store holds -/

/-- **A store holds the units of a batch**, each to be read back under its name, and all other files
are what they were. -/
structure Holds (store : Store) (units : List CodeUnit) (before after : FileTree) : Prop where
  unit : ∀ unit ∈ units, store.read after unit.name = .ok unit
  /-- The listing of a unit is also that of the unit as it is read back. -/
  listing : store.listings = true → ∀ unit ∈ units,
    after.readText (store.listingPath unit.name) = .ok unit.listing ∧
      (store.read after unit.name).map CodeUnit.listing = .ok unit.listing
  temporary : ∀ unit ∈ units, after.read (store.stagePath unit.name) = .error .notFound
  home : after.home = before.home
  kept : ∃ dir, after.LeadsTo store.dir dir ∧ ∀ place,
    (∀ unit ∈ units, place ≠ unit.placeIn dir .unit) →
    (∀ unit ∈ store.withListings units, place ≠ unit.placeIn dir .listing) →
    (∀ unit ∈ units, place ≠ unit.placeIn dir .temporary) → before.Keeps after place

/-- A unit whose file is in place is read from there: the path has its place, the bytes are those
that were written, and these are decoded to the unit. -/
theorem Reaches.read_eq (h : store.Reaches files dir unit)
    (hfile : files.get? (unit.placeIn dir .unit) = some (.file unit.encode))
    (hlength : unit.encode.length < 2 ^ 64) : store.read files unit.name = .ok unit := by
  rw [read, FileTree.readUnit_of_read (FileTree.read_of_finds h.file hfile)]
  exact CodeUnit.decode_file hlength _

/-- **Units that are written together are in place**, and their paths lead to them. Where there was
a directory there still is one. -/
theorem placed_of_writeAll (hnamed : WellNamed (unit :: units))
    (h : store.writeAll (unit :: units) disk = .ok paths disk') :
    ∃ dir made, disk.files.MakesWay store.dir made ∧
      store.Placed (unit :: units) (unit :: units) (store.withListings (unit :: units)) dir made
        disk'.files ∧ disk.files.KeepsDirs disk'.files ∧
      ∀ other ∈ unit :: units, store.Reaches disk'.files dir other ∧
        disk'.files.Finds (store.stagePath other.name) (other.placeIn dir .temporary) := by
  unfold writeAll FileOps.writeAll at h
  obtain ⟨_, disk₁, hmake, h⟩ := Action.bind_eq_ok.1 h
  obtain ⟨_, disk₂, hstageAll, h⟩ := Action.bind_eq_ok.1 h
  have hmade : disk.files.MakesWay store.dir disk₁.files := by
    rw [Disk.files_of_makeDirs hmake]
    exact disk.files.makesWay_makeDirs store.dir
  -- The first unit was written, so the store's path leads to a directory.
  obtain ⟨_, hfirst, -⟩ := exists_of_stageAll hstageAll
  obtain ⟨dir, hdir, -⟩ := exists_of_stage (hnamed.plain unit List.mem_cons_self) hfirst
  have hstart : store.Staged [] dir disk₁.files disk₁.files :=
    ⟨⟨nofun, nofun, nofun, nofun, fun _ _ _ _ => rfl⟩, hdir, nofun⟩
  have hstaged : store.Staged (unit :: units) dir disk₁.files disk₂.files := by
    rcases hstart.of_stageAll (FileOps.canFail_plain False) hnamed with
      ⟨disk₂', hrun, hstaged⟩ | ⟨e, disk₂', hrun, -⟩
    · cases hrun.symm.trans hstageAll
      exact hstaged
    · cases hrun.symm.trans hstageAll
  have hplaced : store.Placed (unit :: units) [] (store.withListings []) dir disk₁.files
      disk₂.files := by
    rw [List.subset_nil.1 (store.withListings_subset [])]
    exact ⟨hstaged.toLeaves, hstaged.leadsTo⟩
  obtain ⟨hall, hsame, hreaches⟩ := hplaced.of_mapM_commit hnamed rfl h
  have hwritten := (sameDirs_of_stageAll hstageAll).trans hsame
  exact ⟨dir, disk₁.files, hmade, hall, hmade.keepsDirs.trans hwritten.keepsDirs,
    fun other hmem => ⟨hreaches other hmem, hsame.finds (hstaged.finds other hmem)⟩⟩

/-- **Units that are written together** are held by the store. What is read are the files, and not
what was in memory. -/
theorem holds_of_writeAll (hnamed : WellNamed (unit :: units))
    (hlength : ∀ other ∈ unit :: units, other.encode.length < 2 ^ 64)
    (h : store.writeAll (unit :: units) disk = .ok paths disk') :
    store.Holds (unit :: units) disk.files disk'.files := by
  obtain ⟨dir, made, hmade, hall, hdirs, hreaches⟩ := placed_of_writeAll hnamed h
  have hread : ∀ other ∈ unit :: units, store.read disk'.files other.name = .ok other :=
    fun other hmem =>
      (hreaches other hmem).1.read_eq (hall.unit other hmem) (hlength other hmem)
  refine ⟨hread, ?_, ?_, hdirs.home, dir, hall.leadsTo, ?_⟩
  · intro hon other hmem
    refine ⟨?_, by rw [hread other hmem]; rfl⟩
    exact FileTree.readText_of_finds ((hreaches other hmem).1.listing hon)
      (hall.listing other (by rwa [withListings, if_pos hon]))
  · intro other hmem
    exact FileTree.read_eq_notFound (hreaches other hmem).2 (hall.moved other hmem)
  · intro place hunit hlisting htemporary
    exact (hmade.keeps place).trans (.inl (hall.kept place hunit hlisting htemporary))

end Store

namespace Compilation

variable {store : Store} {disk disk' : Disk}

theorem exists_of_persist {c : Compilation} {paths : List String}
    (h : c.persist store disk = .ok paths disk') :
    ∃ disk₁, store.writeAll c.units disk = .ok paths disk₁ ∧ disk'.files = disk₁.files := by
  unfold persist FileOps.persist at h
  obtain ⟨paths, disk₁, hwrite, hnote⟩ := Action.bind_eq_ok.1 h
  cases hnote
  exact ⟨disk₁, hwrite, rfl⟩

/-- **Written units can be read back.** If the units of a compilation are written, the paths told
are those of the units in order; each unit is read back as it was and has its listing if there is to
be one, no temporary file is left, and all other files are what they were.

The bound is that of the lengths in a file, which have eight bytes at most. It is on the bytes of a
unit as a whole, since no part of it is longer. -/
theorem holds_of_persist {name : String} {tree : Tree} {session after : Session}
    {c : Compilation} {paths : List String}
    (hc : Session.compileNamed name tree session = .ok c after)
    (hlength : ∀ unit ∈ c.units, unit.encode.length < 2 ^ 64)
    (h : c.persist store disk = .ok paths disk') :
    store.Holds c.units disk.files disk'.files ∧
      paths =
        (c.program :: c.tasks).map fun unit => Path.join store.dir (unit.name ++ ".unit") := by
  have hnamed := Session.wellNamed_of_compileNamed hc
  obtain ⟨disk₁, hwrite, hfiles⟩ := exists_of_persist h
  rw [hfiles]
  exact ⟨Store.holds_of_writeAll hnamed hlength hwrite, Store.paths_of_writeAll hwrite⟩

theorem holds_countdown :
    ∃ c after, Session.compileNamed "Main" .countdown .bare = .ok c after ∧
      (∀ unit ∈ c.units, unit.encode.length < 2 ^ 64) ∧
      ∃ paths disk', c.persist { dir := "out/units", listings := true } (blocked "other") =
          .ok paths disk' ∧
        Store.Holds { dir := "out/units", listings := true } c.units (blocked "other").files
          disk'.files ∧
        paths = (c.program :: c.tasks).map fun unit =>
          Path.join "out/units" (unit.name ++ ".unit") := by
  obtain ⟨c, after, hc, hok, hlength⟩ : ∃ c after,
      Session.compileNamed "Main" .countdown .bare = .ok c after ∧
      Disk.isOk (c.persist { dir := "out/units", listings := true } (blocked "other")) = true ∧
      ∀ unit ∈ c.units, unit.encode.length < 2 ^ 64 :=
    Session.exists_compileNamed_bare (by decide +kernel)
  obtain ⟨paths, disk', h, -⟩ := Disk.exists_ok_of_isOk hok
  obtain ⟨hholds, hpaths⟩ := holds_of_persist hc hlength h
  exact ⟨c, after, hc, hlength, paths, disk', h, hholds, hpaths⟩

end Compilation

end StackUnits
