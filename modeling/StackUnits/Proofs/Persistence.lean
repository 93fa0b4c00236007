import StackUnits.Files.Store
import StackUnits.Proofs.Names
import StackUnits.Proofs.Places
import StackUnits.Proofs.Units

/-!
# What a failed attempt to write units leaves behind

Units are written together in three rounds: the directory is made, each unit is written to its
temporary file, and then one unit after the other is moved into place and its listing written. If
something goes wrong in the first two rounds, no unit is in place and the temporary files are
removed again. In the third round there is no way back: the units that have been moved stay where
they are.

So the units in place are at any time the first ones of the batch, and nothing else has changed
since the directory was made (`StackUnits.Store.Placed`). What remains after a failure is one of
three things (`StackUnits.Store.LeftBehind`), and it is not always nothing:
`StackUnits.Compilation.persist` can fail with a unit in place that was not there before
(`StackUnits.Compilation.persist_countdown`).

Two things are said apart from this. Directories are made before anything is written, and only on
the way of the store's path (`StackUnits.FileTree.MakesWay`); everything else is compared with the
files as they are then. And a file system may fail where a tree of files would not, and leave a part
of the file that it was writing: the result holds of any operations that can fail in this way
(`StackUnits.FileOps.CanFail`), and says which file that is.
-/

namespace StackUnits

namespace Disk

variable {disk disk' : Disk} {e : CompileError}

theorem change_eq_ok (action : FileTree → Except FileProblem FileTree) :
    change action disk = .ok () disk' ↔
      ∃ files, action disk.files = .ok files ∧ disk' = { disk with files := files } := by
  unfold change
  rcases action disk.files with e | files
  · simp
  · simp [eq_comm]

/-- A change that fails is none: in a tree of files an operation is carried out as a whole. -/
theorem eq_of_change (action : FileTree → Except FileProblem FileTree)
    (h : change action disk = .error e disk') : disk' = disk := by
  unfold change at h
  split at h
  · cases h
  · cases h
    rfl

/-- A note leaves the files alone. -/
theorem files_of_note {α : Type} {event : Event} {a b : α}
    (h : (do note event; return a : DiskM α) disk = .ok b disk') : disk'.files = disk.files := by
  cases h
  rfl

theorem note_ne_error {α : Type} {event : Event} {a : α} :
    (do note event; return a : DiskM α) disk ≠ .error e disk' := nofun

variable {x tidy : DiskM Unit} {disk₁ : Disk}

theorem tidying_of_ok (h : x disk = .ok () disk₁) : tidying x tidy disk = .ok () disk₁ := by
  rw [tidying, h]

/-- What fails is tidied up after, and its error is the one that is passed on. -/
theorem tidying_of_error (h : x disk = .error e disk₁) (htidy : tidy disk₁ = .ok () disk') :
    tidying x tidy disk = .error e disk' := by
  simp only [tidying, h, htidy]

section Results

variable {α : Type} {result : EStateM.Result CompileError Disk α}

/-- Whether an action has succeeded. -/
def isOk : EStateM.Result CompileError Disk α → Bool
  | .ok _ _ => true
  | .error _ _ => false

/-- The files that an action has left, whether it has succeeded or not. -/
def filesAfter : EStateM.Result CompileError Disk α → FileTree
  | .ok _ disk => disk.files
  | .error _ disk => disk.files

/-- A result that is one, with the files after it. -/
theorem exists_ok_of_isOk (h : isOk result = true) :
    ∃ a disk', result = .ok a disk' ∧ filesAfter result = disk'.files := by
  cases result with
  | ok a disk' => exact ⟨a, disk', rfl, rfl⟩
  | error e disk' => cases h

theorem exists_error_of_isOk (h : isOk result = false) :
    ∃ e disk', result = .error e disk' ∧ filesAfter result = disk'.files := by
  cases result with
  | ok a disk' => cases h
  | error e disk' => exact ⟨e, disk', rfl, rfl⟩

end Results

/-- The directories that have been made are there, whether they are all of them or not. -/
theorem filesAfter_makeDirs (path : String) (disk : Disk) :
    filesAfter (makeDirs path disk) = (disk.files.makeDirs path).2 := by
  unfold makeDirs
  rcases disk.files.makeDirs path with ⟨e | _, files⟩ <;> rfl

end Disk

/-! ### The operations of a file tree -/

namespace FileOps

variable {disk disk' : Disk} {path source target : String} {content : List UInt8}
  {e : CompileError}

theorem plain_write_eq_ok : plain.write path content disk = .ok () disk' ↔
    ∃ files, disk.files.write path content = .ok files ∧ disk' = { disk with files := files } :=
  Disk.change_eq_ok fun files => files.write path content

theorem plain_move_eq_ok : plain.move source target disk = .ok () disk' ↔
    ∃ files, disk.files.move source target = .ok files ∧ disk' = { disk with files := files } :=
  Disk.change_eq_ok fun files => files.move source target

theorem plain_remove : plain.remove = Disk.tryRemove := rfl

theorem eq_of_plain_write (h : plain.write path content disk = .error e disk') : disk' = disk :=
  Disk.eq_of_change (fun files => files.write path content) h

theorem eq_of_plain_move (h : plain.move source target disk = .error e disk') : disk' = disk :=
  Disk.eq_of_change (fun files => files.move source target) h

end FileOps

/-! ### Operations that can fail -/

/-- **Trees that differ at most in the file of a path**, and not even in that unless something
`leaks`. A file that differs may have any content, or be missing; but no directory differs. -/
structure FileTree.SameBut (leaks : Prop) (path : String) (files files' : FileTree) : Prop where
  dirs : files.SameDirs files'
  get? : ∀ place, files'.get? place = files.get? place ∨ leaks ∧ files.Finds path place

protected theorem FileTree.SameBut.refl (leaks : Prop) (path : String) (files : FileTree) :
    files.SameBut leaks path files :=
  ⟨.refl files, fun _ => .inl rfl⟩

/-- **Operations that can fail**, at any time and for any reason. Each of them does what the one of
the file tree does, or else it fails. Directories may then have been made for a part of the path,
and a move that fails changes nothing. A file that cannot be written, or not be removed, is as it
was before, unless something `leaks`: a write may then leave anything of its file, and a file that
is to be removed may stay. -/
structure FileOps.CanFail (ops : FileOps) (leaks : Prop) : Prop where
  makeDirs : ∀ path disk, ops.makeDirs path disk = plain.makeDirs path disk ∨
    ∃ e disk', ops.makeDirs path disk = .error e disk' ∧ disk.files.MakesWay path disk'.files
  write : ∀ path content disk, ops.write path content disk = plain.write path content disk ∨
    ∃ e disk', ops.write path content disk = .error e disk' ∧
      disk.files.SameBut leaks path disk'.files
  move : ∀ source target disk, ops.move source target disk = plain.move source target disk ∨
    ∃ e, ops.move source target disk = .error e disk
  remove : ∀ path disk, ops.remove path disk = plain.remove path disk ∨
    leaks ∧ ops.remove path disk = .ok () disk

/-- The operations of a file tree fail for their own reasons only, and nothing leaks. So what is
proved for operations that can fail holds for the program as it is. -/
theorem FileOps.canFail_plain (leaks : Prop) : plain.CanFail leaks :=
  ⟨fun _ _ => .inl rfl, fun _ _ _ => .inl rfl, fun _ _ _ => .inl rfl, fun _ _ => .inl rfl⟩

/-- **The operations of a disk with little room**: a file with more than so many bytes cannot be
written, and as many of them as there is room for are left. -/
def FileOps.limited (limit : Nat) (e : CompileError) : FileOps where
  read := plain.read
  write path content :=
    if content.length ≤ limit then plain.write path content
    else do
      plain.write path (content.take limit)
      throw e
  move := plain.move
  remove := plain.remove
  makeDirs := plain.makeDirs

/-- On such a disk something leaks: what has been written of a file that is too long. So the
condition is met by operations that do leave pieces behind. -/
theorem FileOps.canFail_limited (limit : Nat) (e : CompileError) :
    (limited limit e).CanFail True where
  makeDirs := fun _ _ => .inl rfl
  move := fun _ _ _ => .inl rfl
  remove := fun _ _ => .inl rfl
  write := by
    intro path content disk
    by_cases hfits : content.length ≤ limit
    · exact .inl (congrFun (if_pos hfits) disk)
    refine .inr ?_
    have hlimited : (limited limit e).write path content disk =
        (do plain.write path (content.take limit); throw e : DiskM Unit) disk :=
      congrFun (if_neg hfits) disk
    rw [hlimited]
    rcases hwrite : plain.write path (content.take limit) disk with ⟨_, disk₁⟩ | ⟨e', disk₁⟩
    · refine ⟨e, disk₁, Action.bind_run hwrite, ?_⟩
      obtain ⟨files, hfiles, rfl⟩ := plain_write_eq_ok.1 hwrite
      refine ⟨FileTree.sameDirs_of_write hfiles, fun other => ?_⟩
      obtain ⟨place, hfinds, -, rfl⟩ := FileTree.exists_of_write hfiles
      by_cases hother : other = place
      · exact .inr ⟨trivial, hother ▸ hfinds⟩
      · exact .inl (FileTree.get?_put_of_ne hother)
    · refine ⟨e', disk₁, Action.bind_eq_error.2 (.inl hwrite), ?_⟩
      obtain rfl : disk₁ = disk := eq_of_plain_write hwrite
      exact .refl True path _

namespace FileOps.CanFail

variable {ops : FileOps} {leaks : Prop} {store : Store} {unit : CodeUnit} {disk disk' : Disk}
  {path : String} {content : List UInt8} {e : CompileError} (hops : ops.CanFail leaks)
include hops

/-- What is written is written as in the file tree: operations that succeed are the known ones. -/
theorem write_of_ok (h : ops.write path content disk = .ok () disk') :
    plain.write path content disk = .ok () disk' := by
  rcases hops.write path content disk with hplain | ⟨e, disk₁, herror, -⟩
  · rw [← hplain]
    exact h
  · cases herror.symm.trans h

/-- A file that is not written is the only one that can differ. -/
theorem sameBut_of_write (h : ops.write path content disk = .error e disk') :
    disk.files.SameBut leaks path disk'.files := by
  rcases hops.write path content disk with hplain | ⟨e', disk₁, herror, hsame⟩
  · obtain rfl : disk' = disk := eq_of_plain_write (hplain.symm.trans h)
    exact .refl leaks path _
  · cases herror.symm.trans h
    exact hsame

theorem move_of_ok {source target : String} (h : ops.move source target disk = .ok () disk') :
    plain.move source target disk = .ok () disk' := by
  rcases hops.move source target disk with hplain | ⟨e, herror⟩
  · rw [← hplain]
    exact h
  · cases herror.symm.trans h

theorem eq_of_move {source target : String} (h : ops.move source target disk = .error e disk') :
    disk' = disk := by
  rcases hops.move source target disk with hplain | ⟨e', herror⟩
  · exact eq_of_plain_move (hplain.symm.trans h)
  · cases herror.symm.trans h
    rfl

/-- Directories are made on the way of the path only, whether all of them can be made or not. What
exactly is there after a failure depends on where it was. -/
theorem makesWay (path : String) (disk : Disk) :
    disk.files.MakesWay path (Disk.filesAfter (ops.makeDirs path disk)) := by
  rcases hops.makeDirs path disk with hplain | ⟨e, disk', herror, hmakes⟩
  · rw [hplain]
    refine Disk.filesAfter_makeDirs path disk ▸ ?_
    exact disk.files.makesWay_makeDirs path
  · rw [herror]
    exact hmakes

/-- A file that is to be removed is gone, or it stays; others are not touched. The removal itself
does not fail, since nobody is told if a file stays. -/
theorem exists_remove {name : String} {dir : Place} (hfinds : disk.files.Finds path (name :: dir))
    (hfile : disk.files.get? (name :: dir) = some (.file content)) :
    ∃ disk', ops.remove path disk = .ok () disk' ∧ disk.files.SameDirs disk'.files ∧
      (disk'.files.get? (name :: dir) = none ∨ leaks) ∧
      ∀ other, other ≠ name :: dir → disk'.files.get? other = disk.files.get? other := by
  rcases hops.remove path disk with hplain | ⟨hleaks, hstays⟩
  · refine ⟨{ disk with files := disk.files.erase (name :: dir) }, ?_, .erase (by simp [hfile]),
      .inl (FileTree.get?_erase_self name dir), fun other => FileTree.get?_erase_of_ne⟩
    rw [hplain, plain_remove]
    simp [Disk.tryRemove, FileTree.remove_of_finds hfinds hfile]
  · exact ⟨disk, hstays, .refl _, .inr hleaks, fun _ _ => rfl⟩

/-- **A unit that is written** is written as in the file tree. -/
theorem stage_of_ok (h : ops.stage store unit disk = .ok () disk') :
    store.stage unit disk = .ok () disk' :=
  hops.write_of_ok h

/-- **A unit that is moved into place** is moved as in the file tree, and its listing is written as
there. -/
theorem commit_of_ok (h : ops.commit store unit disk = .ok path disk') :
    store.commit unit disk = .ok path disk' := by
  unfold Store.commit
  unfold FileOps.commit at h ⊢
  obtain ⟨_, disk₁, hmove, h⟩ := Action.bind_eq_ok.1 h
  refine Action.bind_eq_ok.2 ⟨(), disk₁, hops.move_of_ok hmove, ?_⟩
  rw [Action.ite_run] at h ⊢
  by_cases hlistings : store.listings = true
  · rw [if_pos hlistings] at h ⊢
    obtain ⟨_, disk₂, hwrite, h⟩ := Action.bind_eq_ok.1 h
    exact Action.bind_eq_ok.2 ⟨(), disk₂, hops.write_of_ok hwrite, h⟩
  · rw [if_neg hlistings] at h ⊢
    exact h

/-- **A unit is not moved into place**, or it is and its listing is not written. In the second case
the listing is the only file that can differ. -/
theorem cases_of_commit_error (h : ops.commit store unit disk = .error e disk') :
    disk'.files = disk.files ∨ store.listings = true ∧ ∃ moved,
      disk.files.move (store.stagePath unit.name) (store.pathFor unit.name) = .ok moved ∧
        moved.SameBut leaks (store.listingPath unit.name) disk'.files := by
  unfold FileOps.commit at h
  rcases Action.bind_eq_error.1 h with h | ⟨_, disk₁, hfirst, h⟩
  · exact .inl (congrArg _ (hops.eq_of_move h))
  · obtain ⟨moved, hmove, rfl⟩ := plain_move_eq_ok.1 (hops.move_of_ok hfirst)
    rw [Action.ite_run] at h
    split at h
    · rename_i hlistings
      rcases Action.bind_eq_error.1 h with h | ⟨_, disk₂, -, h⟩
      · exact .inr ⟨hlistings, moved, hmove, hops.sameBut_of_write h⟩
      · exact absurd h Disk.note_ne_error
    · exact absurd h Disk.note_ne_error

end FileOps.CanFail

/-! ### The files of a store -/

/-- The place of a file of the unit in a directory. -/
def CodeUnit.placeIn (unit : CodeUnit) (dir : Place) (role : FileRole) : Place :=
  unit.fileName role :: dir

namespace WellNamed

variable {units : List CodeUnit} {unit other : CodeUnit} {dir : Place} {files : FileTree}

/-- **Different files of a batch have different places.** Names alone would not do: the file of a
unit called `A.tmp` is not a temporary file of `A`, because of the extension behind it. -/
theorem placeIn_inj (h : WellNamed units) (hunit : unit ∈ units) (hother : other ∈ units)
    {role role' : FileRole} :
    unit.placeIn dir role = other.placeIn dir role' ↔ unit = other ∧ role = role' := by
  rw [CodeUnit.placeIn, CodeUnit.placeIn, List.cons.injEq, and_iff_left rfl,
    CodeUnit.fileName_inj (h.plain unit hunit) (h.plain other hother)]
  exact and_congr_left fun _ => ⟨h.eq_of_name hunit hother, congrArg _⟩

theorem placeIn_ne (h : WellNamed units) (hunit : unit ∈ units) (hother : other ∈ units)
    {role role' : FileRole} (hne : other ≠ unit ∨ role' ≠ role) :
    other.placeIn dir role' ≠ unit.placeIn dir role := by
  rw [Ne, h.placeIn_inj hother hunit, not_and_or]
  exact hne

/-- A file that is put somewhere leaves the other files of the batch alone, be they of other units
or of the same one. -/
theorem get?_put (h : WellNamed units) (hunit : unit ∈ units) (hother : other ∈ units)
    (role role' : FileRole) {entry : Entry} (hne : other ≠ unit ∨ role' ≠ role) :
    (files.put (unit.placeIn dir role) entry).get? (other.placeIn dir role') =
      files.get? (other.placeIn dir role') :=
  FileTree.get?_put_of_ne (h.placeIn_ne hunit hother hne)

/-- So does one that is taken away. -/
theorem get?_erase (h : WellNamed units) (hunit : unit ∈ units) (hother : other ∈ units)
    (role role' : FileRole) (hne : other ≠ unit ∨ role' ≠ role) :
    (files.erase (unit.placeIn dir role)).get? (other.placeIn dir role') =
      files.get? (other.placeIn dir role') :=
  FileTree.get?_erase_of_ne (h.placeIn_ne hunit hother hne)

end WellNamed

namespace Store

variable {store : Store} {units written placed listed : List CodeUnit} {unit : CodeUnit}
  {dir place : Place} {made files files' : FileTree} {disk disk' : Disk} {e : CompileError}
  {ops : FileOps} {leaks : Prop}

theorem pathFor_eq (store : Store) (unit : CodeUnit) :
    store.pathFor unit.name = Path.join store.dir (unit.fileName .unit) := by
  rw [pathFor, CodeUnit.fileName, String.append_assoc]
  rfl

theorem stagePath_eq (store : Store) (h : PlainName unit.name) :
    store.stagePath unit.name = Path.join store.dir (unit.fileName .temporary) := by
  rw [stagePath, pathFor_eq]
  exact Path.withExtension_join h (FileRole.isExtension .unit) (FileRole.isExtension .temporary)

theorem listingPath_eq (store : Store) (h : PlainName unit.name) :
    store.listingPath unit.name = Path.join store.dir (unit.fileName .listing) := by
  rw [listingPath, pathFor_eq]
  exact Path.withExtension_join h (FileRole.isExtension .unit) (FileRole.isExtension .listing)

/-- The path of a file of the unit with the given name, by its role. -/
def pathOf (store : Store) (name : String) : FileRole → String
  | .unit => store.pathFor name
  | .temporary => store.stagePath name
  | .listing => store.listingPath name

theorem pathOf_eq (store : Store) (h : PlainName unit.name) (role : FileRole) :
    store.pathOf unit.name role = Path.join store.dir (unit.fileName role) := by
  cases role with
  | unit => exact store.pathFor_eq unit
  | temporary => exact store.stagePath_eq h
  | listing => exact store.listingPath_eq h

/-- A file of a unit has its place in the store's directory; if there is no such directory, the file
has no place. -/
theorem exists_placeIn (hplain : PlainName unit.name) (role : FileRole)
    (h : files.Finds (store.pathOf unit.name role) place) :
    ∃ dir, files.LeadsTo store.dir dir ∧ place = unit.placeIn dir role := by
  rw [pathOf_eq store hplain] at h
  exact h.of_join (CodeUnit.isName_fileName hplain role)

/-- The place of a file is known once it is known to which directory the store's path leads. -/
theorem eq_placeIn (hplain : PlainName unit.name) (role : FileRole)
    (h : files.Finds (store.pathOf unit.name role) place) (hdir : files.LeadsTo store.dir dir) :
    place = unit.placeIn dir role := by
  obtain ⟨top, htop, rfl⟩ := exists_placeIn hplain role h
  cases Except.ok.inj (htop.symm.trans hdir)
  rfl

/-! ### Units in place -/

/-- **Some units of a batch are in place and some are listed**; the others are in their temporary
files. Nothing else has changed since the directory was made. -/
structure Leaves (units placed listed : List CodeUnit) (dir : Place) (made files : FileTree) :
    Prop where
  unit : ∀ unit ∈ placed, files.get? (unit.placeIn dir .unit) = some (.file unit.encode)
  listing : ∀ unit ∈ listed,
    files.get? (unit.placeIn dir .listing) = some (.file (Wire.textBytes unit.listing))
  moved : ∀ unit ∈ placed, files.get? (unit.placeIn dir .temporary) = none
  waiting : ∀ unit ∈ units, unit ∉ placed →
    files.get? (unit.placeIn dir .temporary) = some (.file unit.encode)
  kept : ∀ place, (∀ unit ∈ placed, place ≠ unit.placeIn dir .unit) →
    (∀ unit ∈ listed, place ≠ unit.placeIn dir .listing) →
    (∀ unit ∈ units, place ≠ unit.placeIn dir .temporary) → files.get? place = made.get? place

namespace Leaves

/-- A unit is written to its temporary file. Nothing is in place yet, and no listing is written. -/
theorem stage (h : Leaves written [] [] dir made files) (hnamed : WellNamed units)
    (hwritten : written ⊆ units) (hunit : unit ∈ units) :
    Leaves (written ++ [unit]) [] [] dir made
      (files.put (unit.placeIn dir .temporary) (.file unit.encode)) where
  unit := nofun
  listing := nofun
  moved := nofun
  waiting := by
    intro other hmem _
    by_cases hsame : other = unit
    · rw [hsame]
      exact FileTree.get?_put_self _ dir
    · have hmem : other ∈ written :=
        (List.mem_append.1 hmem).resolve_right fun h => hsame (List.mem_singleton.1 h)
      rw [hnamed.get?_put hunit (hwritten hmem) _ _ (.inl hsame)]
      exact h.waiting other hmem nofun
  kept := by
    intro place _ _ htemporary
    have hkept := h.kept place nofun nofun fun other hmem =>
      htemporary other (List.mem_append_left _ hmem)
    rw [FileTree.get?_put_of_ne (htemporary unit (by simp)), hkept]

variable (h : Leaves units placed listed dir made files) (hnamed : WellNamed units)
  (hplaced : placed ⊆ units) (hlisted : listed ⊆ units) (hunit : unit ∈ units)
include h hnamed hplaced hlisted hunit

/-- A unit is moved into place: its temporary file is gone, and the others stay. Of the files of the
batch only these two change, as they all have different places. -/
theorem move (hnew : unit ∉ placed) :
    Leaves units (placed ++ [unit]) listed dir made
      ((files.erase (unit.placeIn dir .temporary)).put (unit.placeIn dir .unit)
        (.file unit.encode)) := by
  have hother {other : CodeUnit} (hmem : other ∈ units) (hne : other ≠ unit) (role : FileRole) :
      ((files.erase (unit.placeIn dir .temporary)).put (unit.placeIn dir .unit)
        (.file unit.encode)).get? (other.placeIn dir role) =
      files.get? (other.placeIn dir role) := by
    rw [hnamed.get?_put hunit hmem _ _ (.inl hne), hnamed.get?_erase hunit hmem _ _ (.inl hne)]
  refine ⟨?_, ?_, ?_, ?_, ?_⟩
  · intro other hmem
    rcases List.mem_append.1 hmem with hmem | hmem
    · rw [hother (hplaced hmem) fun hsame => hnew (hsame ▸ hmem)]
      exact h.unit other hmem
    · rw [List.mem_singleton.1 hmem]
      exact FileTree.get?_put_self _ dir
  · intro other hmem
    rw [hnamed.get?_put hunit (hlisted hmem) .unit .listing (.inr nofun),
      hnamed.get?_erase hunit (hlisted hmem) .temporary .listing (.inr nofun)]
    exact h.listing other hmem
  · intro other hmem
    rcases List.mem_append.1 hmem with hmem | hmem
    · rw [hother (hplaced hmem) fun hsame => hnew (hsame ▸ hmem)]
      exact h.moved other hmem
    · rw [List.mem_singleton.1 hmem, hnamed.get?_put hunit hunit .unit .temporary (.inr nofun)]
      exact FileTree.get?_erase_self _ dir
  · intro other hmem hwaits
    rw [List.mem_append, not_or, List.mem_singleton] at hwaits
    rw [hother hmem hwaits.2]
    exact h.waiting other hmem hwaits.1
  · intro place hnotUnit hnotListing hnotTemporary
    have hkept := h.kept place (fun other hmem => hnotUnit other (List.mem_append_left _ hmem))
      hnotListing hnotTemporary
    rw [FileTree.get?_put_of_ne (hnotUnit unit (by simp)),
      FileTree.get?_erase_of_ne (hnotTemporary unit hunit), hkept]

/-- A listing is written. It replaces whatever was in its file, and is not waited for by any other
unit. -/
theorem list :
    Leaves units placed (listed ++ [unit]) dir made
      (files.put (unit.placeIn dir .listing) (.file (Wire.textBytes unit.listing))) := by
  refine ⟨?_, ?_, ?_, ?_, ?_⟩
  · intro other hmem
    rw [hnamed.get?_put hunit (hplaced hmem) .listing .unit (.inr nofun)]
    exact h.unit other hmem
  · intro other hmem
    by_cases hsame : other = unit
    · rw [hsame]
      exact FileTree.get?_put_self _ dir
    · have hmem : other ∈ listed :=
        (List.mem_append.1 hmem).resolve_right fun h => hsame (List.mem_singleton.1 h)
      rw [hnamed.get?_put hunit (hlisted hmem) _ _ (.inl hsame)]
      exact h.listing other hmem
  · intro other hmem
    rw [hnamed.get?_put hunit (hplaced hmem) .listing .temporary (.inr nofun)]
    exact h.moved other hmem
  · intro other hmem hwaits
    rw [hnamed.get?_put hunit hmem .listing .temporary (.inr nofun)]
    exact h.waiting other hmem hwaits
  · intro place hnotUnit hnotListing hnotTemporary
    have hkept := h.kept place hnotUnit
      (fun other hmem => hnotListing other (List.mem_append_left _ hmem)) hnotTemporary
    rw [FileTree.get?_put_of_ne (hnotListing unit (by simp)), hkept]

end Leaves

/-! ### The round of temporary files -/

/-- **Units are in their temporary files**, in the directory to which the store's path leads. -/
structure Staged (store : Store) (written : List CodeUnit) (dir : Place) (made files : FileTree) :
    Prop extends Leaves written [] [] dir made files where
  leadsTo : files.LeadsTo store.dir dir
  finds : ∀ unit ∈ written,
    files.Finds (store.stagePath unit.name) (unit.placeIn dir .temporary)

/-- A unit that is written has a temporary file in the store's directory. That there is such a
directory is part of what is found out by writing. -/
theorem exists_of_stage (hplain : PlainName unit.name) (h : store.stage unit disk = .ok () disk') :
    ∃ dir, disk.files.LeadsTo store.dir dir ∧
      disk.files.Finds (store.stagePath unit.name) (unit.placeIn dir .temporary) ∧
      disk.files.SameDirs disk'.files ∧
      disk'.files = disk.files.put (unit.placeIn dir .temporary) (.file unit.encode) := by
  obtain ⟨files, hwrite, rfl⟩ := FileOps.plain_write_eq_ok.1 h
  have hdirs := FileTree.sameDirs_of_write hwrite
  obtain ⟨place, hfinds, -, rfl⟩ := FileTree.exists_of_write hwrite
  obtain ⟨dir, hdir, rfl⟩ := exists_placeIn hplain .temporary hfinds
  exact ⟨dir, hdir, hfinds, hdirs, rfl⟩

/-- **One more unit** is written to its temporary file. That the names are different keeps it from
writing over one of those before it. -/
theorem Staged.stage (h : store.Staged written dir made disk.files) (hnamed : WellNamed units)
    (hwritten : written ⊆ units) (hunit : unit ∈ units)
    (hstage : store.stage unit disk = .ok () disk') :
    store.Staged (written ++ [unit]) dir made disk'.files := by
  obtain ⟨dir', hdir, hfinds, hsame, hfiles⟩ := exists_of_stage (hnamed.plain unit hunit) hstage
  cases Except.ok.inj (hdir.symm.trans h.leadsTo)
  refine ⟨hfiles ▸ h.toLeaves.stage hnamed hwritten hunit, hsame.leadsTo h.leadsTo, ?_⟩
  intro other hmem
  rcases List.mem_append.1 hmem with hmem | hmem
  · exact hsame.finds (h.finds other hmem)
  · rw [List.mem_singleton.1 hmem]
    exact hsame.finds hfinds

/-- The place of a unit's temporary file is not that of one written before. So a write that fails,
and leaves something, does not do so in a file that is to be removed. -/
theorem Staged.not_finds {other : CodeUnit} (h : store.Staged written dir made files)
    (hnamed : WellNamed units) (hwritten : written ⊆ units) (hunit : unit ∈ units)
    (hnew : unit ∉ written) (hother : other ∈ written) :
    ¬files.Finds (store.stagePath unit.name) (other.placeIn dir .temporary) := by
  intro hfinds
  have hsame := eq_placeIn (hnamed.plain unit hunit) .temporary hfinds h.leadsTo
  obtain ⟨rfl, -⟩ := (hnamed.placeIn_inj (hwritten hother) hunit).1 hsame
  exact hnew hother

/-- **Temporary files are removed again**, unless one stays. The removal does not stop at a file
that stays, and none fails. -/
theorem forM_remove (hops : ops.CanFail leaks) (hnamed : WellNamed units)
    (hwritten : written ⊆ units) (hnodup : written.Nodup)
    (h : ∀ unit ∈ written, disk.files.Finds (store.stagePath unit.name)
      (unit.placeIn dir .temporary) ∧
      ∃ content, disk.files.get? (unit.placeIn dir .temporary) = some (.file content)) :
    ∃ disk', written.forM (fun unit => ops.remove (store.stagePath unit.name)) disk =
        .ok () disk' ∧ disk.files.SameDirs disk'.files ∧
      (∀ unit ∈ written, disk'.files.get? (unit.placeIn dir .temporary) = none ∨ leaks) ∧
      ∀ place, (∀ unit ∈ written, place ≠ unit.placeIn dir .temporary) →
        disk'.files.get? place = disk.files.get? place := by
  induction written generalizing disk with
  | nil => exact ⟨disk, rfl, .refl _, nofun, fun _ _ => rfl⟩
  | cons unit rest ih =>
    obtain ⟨hfinds, content, hfile⟩ := h unit List.mem_cons_self
    obtain ⟨hunit, hrest⟩ := List.cons_subset.1 hwritten
    obtain ⟨hfresh, hnodup⟩ := List.nodup_cons.1 hnodup
    have hother {other : CodeUnit} (hmem : other ∈ rest) : other ≠ unit := fun hsame =>
      hfresh (hsame ▸ hmem)
    obtain ⟨disk₁, hremove, hsame, hown, helse⟩ := hops.exists_remove hfinds hfile
    have htodo : ∀ other ∈ rest, disk₁.files.Finds (store.stagePath other.name)
        (other.placeIn dir .temporary) ∧
        ∃ content, disk₁.files.get? (other.placeIn dir .temporary) = some (.file content) := by
      intro other hmem
      obtain ⟨hfinds, hfile⟩ := h other (List.mem_cons_of_mem _ hmem)
      refine ⟨hsame.finds hfinds, ?_⟩
      rwa [helse _ (hnamed.placeIn_ne hunit (hrest hmem) (.inl (hother hmem)))]
    obtain ⟨disk', hrun, hdirs, hgone, hkept⟩ := ih hrest hnodup htodo
    refine ⟨disk', (Action.bind_run hremove).trans hrun, hsame.trans hdirs, ?_, ?_⟩
    · rintro other (_ | ⟨_, hmem⟩)
      · rw [hkept _ fun other hmem =>
          hnamed.placeIn_ne (hrest hmem) hunit (.inl (hother hmem).symm)]
        exact hown
      · exact hgone other hmem
    · intro place hplace
      rw [hkept place fun other hmem => hplace other (List.mem_cons_of_mem _ hmem)]
      exact helse place (hplace unit List.mem_cons_self)

end Store

namespace FileOps

variable {ops : FileOps} {store : Store} {written rest : List CodeUnit} {unit : CodeUnit}
  {disk disk₁ disk₂ : Disk} {e : CompileError}

theorem stageAll_cons_of_ok (h : ops.stage store unit disk = .ok () disk₁) :
    ops.stageAll store written (unit :: rest) disk =
      ops.stageAll store (written ++ [unit]) rest disk₁ := by
  rw [stageAll]
  exact Action.bind_run (Disk.tidying_of_ok h)

theorem stageAll_cons_of_error (h : ops.stage store unit disk = .error e disk₁)
    (htidy : written.forM (fun unit => ops.remove (store.stagePath unit.name)) disk₁ =
      .ok () disk₂) :
    ops.stageAll store written (unit :: rest) disk = .error e disk₂ := by
  rw [stageAll]
  exact Action.bind_eq_error.2 (.inl (Disk.tidying_of_error h htidy))

end FileOps

namespace Store

variable {store : Store} {units written placed listed : List CodeUnit} {unit : CodeUnit}
  {dir place : Place} {made files files' : FileTree} {disk disk' : Disk} {e : CompileError}
  {ops : FileOps} {leaks : Prop}

/-- **A unit that cannot be written** to its temporary file: those before it are removed again, and
of its own there may be a part if something leaks. Nothing removes that part, since the unit is not
among those that have been written. -/
theorem Staged.tidied {rest : List CodeUnit} {disk₁ : Disk} (hops : ops.CanFail leaks)
    (h : store.Staged written dir made disk.files) (hnamed : WellNamed (written ++ unit :: rest))
    (hfails : disk.files.SameBut leaks (store.stagePath unit.name) disk₁.files) :
    ∃ disk', written.forM (fun unit => ops.remove (store.stagePath unit.name)) disk₁ =
        .ok () disk' ∧
      ∀ place, disk'.files.get? place = made.get? place ∨
        ∃ other ∈ written ++ unit :: rest, place = other.placeIn dir .temporary ∧
          (disk'.files.get? place = none ∨ leaks) := by
  have hunit : unit ∈ written ++ unit :: rest := by simp
  have hnodup : written.Nodup := (List.nodup_append.1 hnamed.nodup.of_map).1
  have hnew := hnamed.not_mem_before rfl
  have hthere : ∀ other ∈ written, disk₁.files.Finds (store.stagePath other.name)
      (other.placeIn dir .temporary) ∧
      ∃ content, disk₁.files.get? (other.placeIn dir .temporary) = some (.file content) := by
    intro other hmem
    refine ⟨hfails.dirs.finds (h.finds other hmem), other.encode, ?_⟩
    rcases hfails.get? (other.placeIn dir .temporary) with hsame | ⟨-, hfinds⟩
    · rw [hsame, h.waiting other hmem nofun]
    · exact absurd hfinds (h.not_finds hnamed (by simp) hunit hnew hmem)
  obtain ⟨disk', htidy, -, hgone, hkept⟩ := forM_remove hops hnamed (by simp) hnodup hthere
  refine ⟨disk', htidy, fun place => ?_⟩
  by_cases hplace : ∃ other ∈ written, place = other.placeIn dir .temporary
  · obtain ⟨other, hmem, rfl⟩ := hplace
    exact .inr ⟨other, List.mem_append_left _ hmem, rfl, hgone other hmem⟩
  have hother : ∀ other ∈ written, place ≠ other.placeIn dir .temporary := fun other hmem h =>
    hplace ⟨other, hmem, h⟩
  rcases hfails.get? place with hsame | ⟨hleaks, hfinds⟩
  · exact .inl (by rw [hkept place hother, hsame, h.kept place nofun nofun hother])
  · have hsame := eq_placeIn (hnamed.plain unit hunit) .temporary hfinds h.leadsTo
    exact .inr ⟨unit, hunit, hsame, .inr hleaks⟩

/-- **The units are written to their temporary files, or nothing remains of them**, unless something
leaks. By induction on the units that are still to be written; those already written are carried
along, as they are what has to be removed. -/
theorem Staged.of_stageAll {rest : List CodeUnit} (hops : ops.CanFail leaks)
    (h : store.Staged written dir made disk.files) (hnamed : WellNamed (written ++ rest)) :
    (∃ disk', ops.stageAll store written rest disk = .ok () disk' ∧
      store.Staged (written ++ rest) dir made disk'.files) ∨
    ∃ e disk', ops.stageAll store written rest disk = .error e disk' ∧
      ∀ place, disk'.files.get? place = made.get? place ∨
        ∃ unit ∈ written ++ rest, place = unit.placeIn dir .temporary ∧
          (disk'.files.get? place = none ∨ leaks) := by
  induction rest generalizing written disk with
  | nil =>
    refine .inl ⟨disk, rfl, ?_⟩
    rwa [List.append_nil]
  | cons unit rest ih =>
    rcases hstage : ops.stage store unit disk with ⟨_, disk₁⟩ | ⟨e, disk₁⟩
    · have hsplit : written ++ unit :: rest = written ++ [unit] ++ rest := List.append_cons ..
      rw [FileOps.stageAll_cons_of_ok hstage, hsplit]
      rw [hsplit] at hnamed
      exact ih (h.stage hnamed (by simp) (by simp) (hops.stage_of_ok hstage)) hnamed
    · obtain ⟨disk', htidy, hleft⟩ := h.tidied hops hnamed (hops.sameBut_of_write hstage)
      exact .inr ⟨e, disk', FileOps.stageAll_cons_of_error hstage htidy, hleft⟩

/-! ### The round of moves -/

/-- **A unit is moved into place**, and its listing is written if there is to be one. The move comes
first, so that there are units without a listing but no listings without a unit. -/
theorem exists_of_commit {path : String} (h : store.commit unit disk = .ok path disk') :
    ∃ moved, disk.files.move (store.stagePath unit.name) (store.pathFor unit.name) = .ok moved ∧
      (store.listings = false ∧ disk'.files = moved ∨ store.listings = true ∧
        moved.write (store.listingPath unit.name) (Wire.textBytes unit.listing) =
          .ok disk'.files) := by
  unfold commit FileOps.commit at h
  obtain ⟨_, disk₁, hfirst, h⟩ := Action.bind_eq_ok.1 h
  obtain ⟨moved, hmove, rfl⟩ := FileOps.plain_move_eq_ok.1 hfirst
  refine ⟨moved, hmove, ?_⟩
  rw [Action.ite_run] at h
  split at h
  · rename_i hlistings
    obtain ⟨_, disk₂, hsecond, h⟩ := Action.bind_eq_ok.1 h
    obtain ⟨listed, hwrite, rfl⟩ := FileOps.plain_write_eq_ok.1 hsecond
    exact .inr ⟨hlistings, (Disk.files_of_note h).symm ▸ hwrite⟩
  · rename_i hlistings
    exact .inl ⟨Bool.eq_false_iff.2 hlistings, Disk.files_of_note h⟩

/-- **The first units of a batch are in place**, in the directory to which the store's path
leads. -/
structure Placed (store : Store) (units placed listed : List CodeUnit) (dir : Place)
    (made files : FileTree) : Prop extends Leaves units placed listed dir made files where
  leadsTo : files.LeadsTo store.dir dir

/-- A unit is moved into place. That it was not there before is needed, as its temporary file is to
be taken away now. -/
theorem Placed.move (h : store.Placed units placed listed dir made files)
    (hnamed : WellNamed units) (hplaced : placed ⊆ units) (hlisted : listed ⊆ units)
    (hunit : unit ∈ units) (hnew : unit ∉ placed)
    (hmove : files.move (store.stagePath unit.name) (store.pathFor unit.name) = .ok files') :
    store.Placed units (placed ++ [unit]) listed dir made files' := by
  have hplain := hnamed.plain unit hunit
  have hdirs := FileTree.sameDirs_of_move hmove
  obtain ⟨source, target, content, hsource, htarget, hfile, -, rfl⟩ := FileTree.exists_of_move hmove
  obtain rfl := eq_placeIn hplain .temporary hsource h.leadsTo
  obtain rfl := eq_placeIn hplain .unit htarget h.leadsTo
  rw [h.waiting unit hunit hnew] at hfile
  cases hfile
  exact ⟨h.toLeaves.move hnamed hplaced hlisted hunit hnew, hdirs.leadsTo h.leadsTo⟩

/-- A listing is written. -/
theorem Placed.list (h : store.Placed units placed listed dir made files)
    (hnamed : WellNamed units) (hplaced : placed ⊆ units) (hlisted : listed ⊆ units)
    (hunit : unit ∈ units)
    (hwrite : files.write (store.listingPath unit.name) (Wire.textBytes unit.listing) =
      .ok files') :
    store.Placed units placed (listed ++ [unit]) dir made files' := by
  have hdirs := FileTree.sameDirs_of_write hwrite
  obtain ⟨place, hfinds, -, rfl⟩ := FileTree.exists_of_write hwrite
  obtain rfl := eq_placeIn (hnamed.plain unit hunit) .listing hfinds h.leadsTo
  exact ⟨h.toLeaves.list hnamed hplaced hlisted hunit, hdirs.leadsTo h.leadsTo⟩

/-- The units that have listings when the given units are done. -/
def withListings (store : Store) (done : List CodeUnit) : List CodeUnit :=
  if store.listings then done else []

theorem withListings_subset (store : Store) (done : List CodeUnit) :
    store.withListings done ⊆ done := by
  unfold withListings
  split
  · exact List.Subset.refl done
  · exact List.nil_subset done

/-- **A unit is done**: it is in place, with its listing if there is to be one. The two steps of
which this consists are told apart in what remains after a failure. -/
theorem Placed.commit {path : String}
    (h : store.Placed units placed (store.withListings placed) dir made disk.files)
    (hnamed : WellNamed units) (hplaced : placed ⊆ units) (hunit : unit ∈ units)
    (hnew : unit ∉ placed) (hcommit : store.commit unit disk = .ok path disk') :
    store.Placed units (placed ++ [unit]) (store.withListings (placed ++ [unit])) dir made
      disk'.files := by
  have hlisted := List.Subset.trans (store.withListings_subset placed) hplaced
  obtain ⟨moved, hmove, hlist⟩ := exists_of_commit hcommit
  have hmoved := h.move hnamed hplaced hlisted hunit hnew hmove
  rcases hlist with ⟨hoff, hfiles⟩ | ⟨hon, hwrite⟩
  · simp only [withListings, hoff] at hmoved ⊢
    rwa [hfiles]
  · have hplaced' : placed ++ [unit] ⊆ units :=
      List.append_subset.2 ⟨hplaced, List.cons_subset.2 ⟨hunit, List.nil_subset _⟩⟩
    have hdone := hmoved.list hnamed hplaced' hlisted hunit hwrite
    simpa only [withListings, hon, if_true] using hdone

/-! ### What remains -/

/-- **What remains of a failed attempt** to write the units, compared with the files as they are
when the directory has been made, or as much of it as can be made. There are three cases, since
there are three things that can go wrong after that; what is in any place that the case does not
name is what was there. -/
inductive Remains (store : Store) (leaks : Prop) (units : List CodeUnit) (made after : FileTree) :
    Prop
  /-- No unit is in place. Temporary files of the batch are gone, even those that were there
  before; or, if something leaks, there may be anything in them. -/
  | unplaced (h : ∀ place, after.get? place = made.get? place ∨
      ∃ dir, made.LeadsTo store.dir dir ∧ ∃ unit ∈ units,
        place = unit.placeIn dir .temporary ∧ (after.get? place = none ∨ leaks))
  /-- Some units are done and the next is not in place. -/
  | unmoved {done rest : List CodeUnit} {unit : CodeUnit} {dir : Place}
      (hunits : units = done ++ unit :: rest)
      (h : store.Placed units done (store.withListings done) dir made after)
  /-- Some units are done, and the next is in place without its listing; or, if something leaks,
  with anything in the place of its listing. -/
  | unlisted {done rest : List CodeUnit} {unit : CodeUnit} {dir : Place} {files : FileTree}
      (hunits : units = done ++ unit :: rest) (hlistings : store.listings = true)
      (h : store.Placed units (done ++ [unit]) done dir made files)
      (hleft : ∀ place, after.get? place = files.get? place ∨
        leaks ∧ place = unit.placeIn dir .listing)

/-- **A round of moves that fails** leaves the units before the failure in place. Nothing is undone:
what had been at those places is lost by then. By induction on the units still to be moved. -/
theorem Placed.remains {done rest : List CodeUnit} (hops : ops.CanFail leaks)
    (hnamed : WellNamed units) (hunits : units = done ++ rest)
    (h : store.Placed units done (store.withListings done) dir made disk.files)
    (hrun : rest.mapM (ops.commit store) disk = .error e disk') :
    store.Remains leaks units made disk'.files := by
  induction rest generalizing done disk with
  | nil => cases hrun
  | cons unit rest ih =>
    have hdone : done ⊆ units := hunits ▸ List.subset_append_left _ _
    have hunit : unit ∈ units := by simp [hunits]
    have hnew := hnamed.not_mem_before hunits
    rw [List.mapM_cons] at hrun
    rcases Action.bind_eq_error.1 hrun with hcommit | ⟨path, disk₁, hcommit, hrun⟩
    · rcases hops.cases_of_commit_error hcommit with hfiles | ⟨hon, moved, hmove, hleft⟩
      · exact .unmoved hunits (hfiles ▸ h)
      · have hlisted := List.Subset.trans (store.withListings_subset done) hdone
        have hmoved := h.move hnamed hdone hlisted hunit hnew hmove
        rw [withListings, if_pos hon] at hmoved
        refine .unlisted hunits hon hmoved fun place => (hleft.get? place).imp_right ?_
        rintro ⟨hleaks, hfinds⟩
        have hplain := hnamed.plain unit hunit
        exact ⟨hleaks, eq_placeIn hplain .listing hfinds hmoved.leadsTo⟩
    · have hnext := h.commit hnamed hdone hunit hnew (hops.commit_of_ok hcommit)
      rcases Action.bind_eq_error.1 hrun with hrun | ⟨paths, disk₂, -, hpure⟩
      · exact ih (by simp [hunits]) hnext hrun
      · cases hpure

/-- A path that leads to no directory: not even the first unit can be written, and there is nothing
to be removed. No file is touched, not even by operations that leave something. -/
theorem stageAll_of_not_leadsTo (units : List CodeUnit) (hops : ops.CanFail leaks)
    (hplain : PlainName unit.name) (hdir : ∀ dir, ¬disk.files.LeadsTo store.dir dir) :
    ∃ e disk', ops.stageAll store [] (unit :: units) disk = .error e disk' ∧
      ∀ place, disk'.files.get? place = disk.files.get? place := by
  rcases hstage : ops.stage store unit disk with ⟨_, disk₁⟩ | ⟨e, disk₁⟩
  · obtain ⟨dir, hleads, -⟩ := exists_of_stage hplain (hops.stage_of_ok hstage)
    exact absurd hleads (hdir dir)
  · refine ⟨e, disk₁, FileOps.stageAll_cons_of_error hstage rfl, fun place => ?_⟩
    rcases (hops.sameBut_of_write hstage).get? place with hsame | ⟨-, hfinds⟩
    · exact hsame
    · obtain ⟨dir, hleads, -⟩ := exists_placeIn hplain .temporary hfinds
      exact absurd hleads (hdir dir)

/-- **Units that are written together**: what remains if they are not. The files to compare with are
those after the directories have been made, which is not undone. -/
theorem remains_of_writeAll (hops : ops.CanFail leaks) (hnamed : WellNamed (unit :: units))
    (h : ops.writeAll store (unit :: units) disk = .error e disk') :
    store.Remains leaks (unit :: units) (Disk.filesAfter (ops.makeDirs store.dir disk))
      disk'.files := by
  unfold FileOps.writeAll at h
  rcases hmake : ops.makeDirs store.dir disk with ⟨_, disk₁⟩ | ⟨e', disk₁⟩
  swap
  · cases (Action.bind_eq_error.2 (.inl hmake)).symm.trans h
    exact .unplaced fun place => .inl rfl
  rw [Action.bind_run hmake] at h
  by_cases hdir : ∃ dir, disk₁.files.LeadsTo store.dir dir
  · obtain ⟨dir, hdir⟩ := hdir
    have hstart : store.Staged [] dir disk₁.files disk₁.files :=
      ⟨⟨nofun, nofun, nofun, nofun, fun _ _ _ _ => rfl⟩, hdir, nofun⟩
    rcases hstart.of_stageAll hops hnamed with ⟨disk₂, hrun, hstaged⟩ | ⟨e', disk₂, hrun, hleft⟩
    · rw [Action.bind_run hrun] at h
      have hplaced : store.Placed (unit :: units) [] (store.withListings []) dir disk₁.files
          disk₂.files := by
        rw [List.subset_nil.1 (store.withListings_subset [])]
        exact ⟨hstaged.toLeaves, hstaged.leadsTo⟩
      exact hplaced.remains hops hnamed rfl h
    · cases (Action.bind_eq_error.2 (.inl hrun)).symm.trans h
      exact .unplaced fun place => (hleft place).imp_right fun hplace => ⟨dir, hdir, hplace⟩
  · have hplain := hnamed.plain unit List.mem_cons_self
    obtain ⟨e', disk₂, hrun, hsame⟩ := stageAll_of_not_leadsTo units hops hplain
      (not_exists.1 hdir)
    cases (Action.bind_eq_error.2 (.inl hrun)).symm.trans h
    exact .unplaced fun place => .inl (hsame place)

/-- **What a failed attempt to write units leaves behind**, from the files `before` it and those
`made`, in which there is the store's directory. Directories are new on the way of the store's path
only; if that path does not lead back, nothing in the store's own directory is new. From then on,
what remains of the attempt is all that has changed. -/
structure LeftBehind (store : Store) (leaks : Prop) (units : List CodeUnit)
    (before made after : FileTree) : Prop where
  makesWay : before.MakesWay store.dir made
  inDir : ".." ∉ Path.names store.dir → ∀ dir, made.LeadsTo store.dir dir →
    ∀ name, made.get? (name :: dir) = before.get? (name :: dir)
  remains : store.Remains leaks units made after

end Store

/-! ### Compilations -/

namespace Compilation

variable {store : Store} {disk disk' : Disk} {e : CompileError}

/-- What remains of a compilation whose units cannot all be written, by whatever operations. The
names of its units are plain and different, and there is at least one of them. -/
theorem leftBehind_of_canFail {ops : FileOps} {leaks : Prop} (hops : ops.CanFail leaks)
    {name : String} {tree : Tree} {session after : Session} {c : Compilation}
    (hc : Session.compileNamed name tree session = .ok c after)
    (h : ops.persist store c disk = .error e disk') :
    store.LeftBehind leaks c.units disk.files (Disk.filesAfter (ops.makeDirs store.dir disk))
      disk'.files := by
  have hnamed := Session.wellNamed_of_compileNamed hc
  have hmakes := hops.makesWay store.dir disk
  refine ⟨hmakes, fun hback _ hdir name => hmakes.get?_child hback hdir name, ?_⟩
  unfold FileOps.persist at h
  rcases Action.bind_eq_error.1 h with hwrite | ⟨paths, disk₁, -, hnote⟩
  · exact Store.remains_of_writeAll hops hnamed hwrite
  · exact absurd hnote Disk.note_ne_error

/-- **What remains if the units of a compilation cannot all be written**: nothing, or the first
units in place and all other files as they were.

The first part is about a tree of files, in which an operation that fails changes nothing. The
second is about all operations that do the same if they do not fail, so that it does not matter why
one fails; a write that fails, or a file that cannot be removed, may leave something, and the
statement says in which files that can be. -/
theorem leftBehind_of_persist {name : String} {tree : Tree} {session after : Session}
    {c : Compilation} (hc : Session.compileNamed name tree session = .ok c after) :
    (∀ e disk', c.persist store disk = .error e disk' →
      store.LeftBehind False c.units disk.files (disk.files.makeDirs store.dir).2 disk'.files) ∧
    ∀ ops leaks, FileOps.CanFail ops leaks → ∀ e disk', ops.persist store c disk = .error e disk' →
      store.LeftBehind leaks c.units disk.files (Disk.filesAfter (ops.makeDirs store.dir disk))
        disk'.files := by
  refine ⟨fun e disk' h => ?_, fun ops leaks hops e disk' h => leftBehind_of_canFail hops hc h⟩
  rw [← Disk.filesAfter_makeDirs]
  exact leftBehind_of_canFail (FileOps.canFail_plain False) hc h

/-- A directory `out` with a directory of the given name in it. -/
def blocked (name : String) : Disk where
  files := { entries := [(["out"], .directory), ([name, "out"], .directory)] }

/-- A compilation whose listing cannot be written, and one for whose units there is no room. -/
theorem leftBehind_countdown :
    ∃ c after, Session.compileNamed "Main" .countdown .bare = .ok c after ∧
      (∃ e disk', c.persist { dir := "out", listings := true } (blocked "Main.lst") =
          .error e disk' ∧
        Store.LeftBehind { dir := "out", listings := true } False c.units (blocked "Main.lst").files
          ((blocked "Main.lst").files.makeDirs "out").2 disk'.files) ∧
      ∃ e disk', (FileOps.limited 40 (.file .notFound)).persist { dir := "out" } c
          (blocked "Main.lst") = .error e disk' ∧
        Store.LeftBehind { dir := "out" } True c.units (blocked "Main.lst").files
          (Disk.filesAfter
            ((FileOps.limited 40 (.file .notFound)).makeDirs "out" (blocked "Main.lst")))
          disk'.files := by
  obtain ⟨c, after, hc, hplain, hlimited⟩ : ∃ c after,
      Session.compileNamed "Main" .countdown .bare = .ok c after ∧
      Disk.isOk (c.persist { dir := "out", listings := true } (blocked "Main.lst")) = false ∧
      Disk.isOk ((FileOps.limited 40 (.file .notFound)).persist { dir := "out" } c
        (blocked "Main.lst")) = false :=
    Session.exists_compileNamed_bare (by decide +kernel)
  obtain ⟨e, disk', h, -⟩ := Disk.exists_error_of_isOk hplain
  obtain ⟨e', disk'', h', -⟩ := Disk.exists_error_of_isOk hlimited
  exact ⟨c, after, hc, ⟨e, disk', h, (leftBehind_of_persist hc).1 e disk' h⟩, e', disk'', h',
    (leftBehind_of_persist hc).2 _ _ (FileOps.canFail_limited 40 _) e' disk'' h'⟩

/-- **Writing the units of a compilation can fail with a unit in place** that was not there before:
the task's file is blocked, and the program's has been moved by then. -/
theorem persist_countdown :
    ∃ c after, Session.compileNamed "Main" .countdown .bare = .ok c after ∧
      ∃ e disk', c.persist { dir := "out" } (blocked "Worker.unit") = .error e disk' ∧
        (blocked "Worker.unit").files.read "out/Main.unit" = .error .notFound ∧
        disk'.files.read "out/Main.unit" = .ok c.program.encode := by
  obtain ⟨c, after, hc, hfails, hread⟩ : ∃ c after,
      Session.compileNamed "Main" .countdown .bare = .ok c after ∧
      Disk.isOk (c.persist { dir := "out" } (blocked "Worker.unit")) = false ∧
      (Disk.filesAfter (c.persist { dir := "out" } (blocked "Worker.unit"))).read "out/Main.unit" =
        .ok c.program.encode :=
    Session.exists_compileNamed_bare (by decide +kernel)
  obtain ⟨e, disk', h, hfiles⟩ := Disk.exists_error_of_isOk hfails
  rw [hfiles] at hread
  exact ⟨c, after, hc, e, disk', h, by decide +kernel, hread⟩

end Compilation

end StackUnits
