import StackUnits.Files.Tree
import StackUnits.Proofs.Paths

/-!
# What operations do to files

Each operation on a tree of files, seen from the places in it. An operation that succeeds has found
a place for its path (`StackUnits.FileTree.Finds`), and it changes what stands there and nothing
else. As long as directories stay, paths lead to the places they led to
(`StackUnits.FileTree.KeepsDirs`). Files that are written, moved or removed do not take the place of
a directory, and there are no new directories either (`StackUnits.FileTree.SameDirs`).

Making directories is different in that it may fail half-way. In either case nothing is lost:
every place has what it had, or had nothing and has a directory (`StackUnits.FileTree.Keeps`). And
directories are made for one path, at places to which its first names lead and nowhere else
(`StackUnits.FileTree.MakesWay`). A path without `..` therefore leaves the content of its own
directory as it is (`StackUnits.FileTree.MakesWay.get?_child`).
-/

namespace StackUnits

namespace FileTree

variable {files files' files'' : FileTree} {place other dir : Place} {entry : Entry}
  {path name : String} {content : List UInt8}

/-! ### Entries -/

/-- Without the entries of one place, the others are found as before. -/
theorem lookup_filter_ne (entries : List (Place × Entry)) (place other : Place) :
    (entries.filter fun entry => entry.1 != place).lookup other =
      if other = place then none else entries.lookup other := by
  induction entries with
  | nil => simp
  | cons first rest ih =>
    obtain ⟨first, entry⟩ := first
    by_cases hfirst : first = place
    · subst hfirst
      rw [List.filter_cons_of_neg (by simp), ih]
      by_cases hother : other = first
      · rw [if_pos hother, if_pos hother]
      · rw [if_neg hother, if_neg hother, List.lookup_cons, beq_eq_false_iff_ne.2 hother]
    · rw [List.filter_cons_of_pos (by simpa using hfirst), List.lookup_cons, List.lookup_cons, ih]
      by_cases hother : other = first
      · subst hother
        simp [hfirst]
      · rw [beq_eq_false_iff_ne.2 hother]

/-- What is taken away is not found any more. -/
theorem get?_erase_self (name : String) (dir : Place) :
    (files.erase (name :: dir)).get? (name :: dir) = none := by
  simp [get?, erase, lookup_filter_ne]

theorem get?_erase_of_ne (h : other ≠ place) :
    (files.erase place).get? other = files.get? other := by
  rcases other with _ | ⟨name, dir⟩
  · rfl
  · simp only [get?, erase, lookup_filter_ne, if_neg h]

theorem get?_put_self (name : String) (dir : Place) :
    (files.put (name :: dir) entry).get? (name :: dir) = some entry := by
  simp [get?, put]

theorem get?_put_of_ne (h : other ≠ place) :
    (files.put place entry).get? other = files.get? other := by
  rcases other with _ | ⟨name, dir⟩
  · rfl
  · simp only [get?, put, erase, List.lookup_cons, beq_eq_false_iff_ne.2 h, lookup_filter_ne,
      if_neg h]

/-! ### Places of paths -/

/-- The names in a path lead to a directory. -/
def LeadsTo (files : FileTree) (path : String) (dir : Place) : Prop :=
  files.walk (files.start path) (Path.names path) = .ok dir

/-- **A path has a place** at which a file can stand. -/
inductive Finds (files : FileTree) (path : String) : Place → Prop
  | intro {dir : Place} {name : String} (hfollow : files.follow path = .ok (.name dir name false))
      (hlength : name.utf8ByteSize ≤ longestName) : Finds files path (name :: dir)

/-- A name is looked up if it is not too long. -/
theorem find_eq_ok {found : Option Entry} : files.find dir name = .ok found ↔
    name.utf8ByteSize ≤ longestName ∧ files.get? (name :: dir) = found := by
  unfold find
  split
  · rename_i hlong
    exact ⟨nofun, fun h => absurd h.1 (Nat.not_le.2 hlong)⟩
  · rename_i hfits
    exact ⟨fun h => ⟨Nat.not_lt.1 hfits, Except.ok.inj h⟩, fun h => congrArg _ h.2⟩

theorem exists_of_bind {α β : Type} {x : Except FileProblem α} {f : α → Except FileProblem β}
    {b : β} (h : (x >>= f) = .ok b) : ∃ a, x = .ok a ∧ f a = .ok b := by
  rcases x with e | a
  · cases h
  · exact ⟨a, rfl, h⟩

/-- **An entry's path is followed** by following that of its directory. The two are checked as one
path, so that the whole may be too long where the directory's is not. -/
theorem follow_join {dir x : String} (hx : Path.IsName x) :
    files.follow (Path.join dir x) = (do
      checkPath (Path.join dir x)
      let top ← files.walk (files.start dir) (Path.names dir)
      return .name top x false) := by
  have hstart : files.start (Path.join dir x) = files.start dir := by
    rw [start, start, Path.isAbsolute_join hx]
  rw [follow, Path.names_join hx, hstart, Path.endsInSlash_join hx, followNames,
    List.reverse_append, List.reverse_singleton, List.singleton_append]
  rcases checkPath (Path.join dir x) with e | _
  · rfl
  · simp only [List.reverse_reverse, if_neg hx.notDot, if_neg hx.notDots]
    rcases files.walk (files.start dir) (Path.names dir) with e | top <;> rfl

/-- **The place of an entry's path** is in the directory to which the directory's path leads; and
there is one if the path and the name are in order. Nothing need stand there. -/
theorem finds_join_iff {dir x : String} (hx : Path.IsName x) :
    files.Finds (Path.join dir x) place ↔ checkPath (Path.join dir x) = .ok () ∧
      x.utf8ByteSize ≤ longestName ∧ ∃ top, files.LeadsTo dir top ∧ place = x :: top := by
  constructor
  · rintro ⟨hfollow, hlength⟩
    rw [follow_join hx] at hfollow
    obtain ⟨_, hcheck, hfollow⟩ := exists_of_bind hfollow
    obtain ⟨top, hwalk, hspot⟩ := exists_of_bind hfollow
    cases hspot
    exact ⟨hcheck, hlength, _, hwalk, rfl⟩
  · rintro ⟨hcheck, hlength, top, hleads, rfl⟩
    refine ⟨?_, hlength⟩
    rw [follow_join hx, hcheck, hleads]
    rfl

theorem Finds.of_join {dir x : String} (hx : Path.IsName x)
    (h : files.Finds (Path.join dir x) place) :
    ∃ top, files.LeadsTo dir top ∧ place = x :: top :=
  ((finds_join_iff hx).1 h).2.2

/-! ### Writing, removing, moving -/

/-- **A file is written** where no directory stands. What was in a file before is gone. -/
theorem exists_of_write (h : files.write path content = .ok files') :
    ∃ place, files.Finds path place ∧ files.get? place ≠ some .directory ∧
      files' = files.put place (.file content) := by
  rw [write] at h
  split at h
  · cases h
  · cases h
  · cases h
  · rename_i dir name hfollow
    split at h
    · cases h
    · cases h
    · rename_i found hnot hfind
      cases h
      obtain ⟨hlength, rfl⟩ := find_eq_ok.1 hfind
      exact ⟨name :: dir, ⟨hfollow, hlength⟩, hnot, rfl⟩

/-- **A file is removed** if the path has its place. -/
theorem remove_of_finds (h : files.Finds path place)
    (hfile : files.get? place = some (.file content)) :
    files.remove path = .ok (files.erase place) := by
  obtain ⟨hfollow, hlength⟩ := h
  simp [remove, hfollow, find_eq_ok.2 ⟨hlength, hfile⟩]

/-- **A file is moved** from its place to one where no directory stands. A file there is
replaced. -/
theorem exists_of_move {source target : String} (h : files.move source target = .ok files') :
    ∃ place other content, files.Finds source place ∧ files.Finds target other ∧
      files.get? place = some (.file content) ∧ files.get? other ≠ some .directory ∧
      files' = (files.erase place).put other (.file content) := by
  obtain ⟨spot, hsource, h⟩ := exists_of_bind h
  obtain ⟨spot', htarget, h⟩ := exists_of_bind h
  rcases spot with _ | ⟨dir, name, slash⟩
  · cases h
  rcases spot' with _ | ⟨dir', name', slash'⟩
  · cases h
  obtain ⟨found, hfind, h⟩ := exists_of_bind h
  rcases found with _ | (content | _)
  · cases h
  · obtain ⟨found', hfind', h⟩ := exists_of_bind h
    obtain ⟨hlength, hfile⟩ := find_eq_ok.1 hfind
    obtain ⟨hlength', rfl⟩ := find_eq_ok.1 hfind'
    split at h
    · cases h
    · rename_i hnot
      by_cases hslash : (slash || slash') = true
      · rw [if_pos hslash] at h
        cases h
      · rw [if_neg hslash] at h
        cases h
        obtain ⟨rfl, rfl⟩ : slash = false ∧ slash' = false := by simpa using hslash
        exact ⟨name :: dir, name' :: dir', content, ⟨hsource, hlength⟩, ⟨htarget, hlength'⟩,
          hfile, hnot, rfl⟩
  · cases h

/-! ### Directories that stay -/

/-- **The directories of a tree are in another**, with the same home directory. -/
structure KeepsDirs (files files' : FileTree) : Prop where
  home : files'.home = files.home
  dirs : ∀ place, files.get? place = some .directory → files'.get? place = some .directory

namespace KeepsDirs

protected theorem trans (h : files.KeepsDirs files') (h' : files'.KeepsDirs files'') :
    files.KeepsDirs files'' :=
  ⟨h'.home.trans h.home, fun place hdir => h'.dirs place (h.dirs place hdir)⟩

/-- A name leads to the same directory, also the name of the directory above. Where a name led
nowhere, it may lead to a directory now. -/
theorem step (h : files.KeepsDirs files') (hstep : files.step dir name = .ok place) :
    files'.step dir name = .ok place := by
  unfold FileTree.step at hstep ⊢
  split
  · rename_i hdot
    rwa [if_pos hdot] at hstep
  · rename_i hdot
    rw [if_neg hdot] at hstep
    split
    · rename_i hdots
      rwa [if_pos hdots] at hstep
    · rename_i hdots
      rw [if_neg hdots] at hstep
      split at hstep
      · cases hstep
      · cases hstep
      · cases hstep
      · rename_i hfind
        obtain ⟨hlength, hdir⟩ := find_eq_ok.1 hfind
        rw [find_eq_ok.2 ⟨hlength, h.dirs _ hdir⟩]
        exact hstep

/-- So do several. -/
theorem walk (h : files.KeepsDirs files') {names : List String}
    (hwalk : files.walk dir names = .ok place) : files'.walk dir names = .ok place := by
  induction names generalizing dir with
  | nil => exact hwalk
  | cons name rest ih =>
    rw [FileTree.walk] at hwalk ⊢
    rcases hstep : files.step dir name with e | next
    · rw [hstep] at hwalk
      cases hwalk
    · rw [hstep] at hwalk
      rw [h.step hstep]
      exact ih hwalk

theorem leadsTo (h : files.KeepsDirs files') (hleads : files.LeadsTo path dir) :
    files'.LeadsTo path dir := by
  have hstart : files'.start path = files.start path := by rw [start, start, h.home]
  unfold LeadsTo
  rw [hstart]
  exact h.walk hleads

/-- **A path keeps its place.** A file that appears or goes changes no path's place, since only
directories are passed through on the way. -/
theorem finds (h : files.KeepsDirs files') (hfinds : files.Finds path place) :
    files'.Finds path place := by
  obtain ⟨hfollow, hlength⟩ := hfinds
  refine ⟨?_, hlength⟩
  have hstart : files'.start path = files.start path := by rw [start, start, h.home]
  rw [follow] at hfollow ⊢
  split at hfollow
  · cases hfollow
  · rw [followNames] at hfollow ⊢
    split at hfollow
    · cases hfollow
    · rw [hstart]
      split at hfollow
      · cases hfollow
      · rename_i hwalk
        rw [h.walk hwalk]
        exact hfollow

end KeepsDirs

/-- **The same directories** are in both trees. -/
structure SameDirs (files files' : FileTree) : Prop where
  home : files'.home = files.home
  dirs : ∀ place, files'.get? place = some .directory ↔ files.get? place = some .directory

namespace SameDirs

protected theorem refl (files : FileTree) : files.SameDirs files := ⟨rfl, fun _ => .rfl⟩

protected theorem trans (h : files.SameDirs files') (h' : files'.SameDirs files'') :
    files.SameDirs files'' :=
  ⟨h'.home.trans h.home, fun place => (h'.dirs place).trans (h.dirs place)⟩

/-- What changes at one place only, and is no directory before or after, leaves the directories as
they were. -/
theorem of_elsewhere (hhome : files'.home = files.home)
    (helse : ∀ other, other ≠ place → files'.get? other = files.get? other)
    (hnot : files.get? place ≠ some .directory) (hnot' : files'.get? place ≠ some .directory) :
    files.SameDirs files' where
  home := hhome
  dirs := by
    intro other
    by_cases hother : other = place
    · rw [hother]
      exact ⟨fun h => absurd h hnot', fun h => absurd h hnot⟩
    · rw [helse other hother]

/-- A file is put where no directory stands. -/
theorem put (hnot : files.get? place ≠ some .directory) :
    files.SameDirs (files.put place (.file content)) := by
  rcases place with _ | ⟨name, dir⟩
  · exact absurd rfl hnot
  · exact .of_elsewhere rfl (fun _ => get?_put_of_ne) hnot (by simp [get?_put_self])

/-- Something that is not a directory is taken away. -/
theorem erase (hnot : files.get? place ≠ some .directory) : files.SameDirs (files.erase place) := by
  rcases place with _ | ⟨name, dir⟩
  · exact absurd rfl hnot
  · exact .of_elsewhere rfl (fun _ => get?_erase_of_ne) hnot (by simp [get?_erase_self])

theorem keepsDirs (h : files.SameDirs files') : files.KeepsDirs files' :=
  ⟨h.home, fun place => (h.dirs place).2⟩

theorem leadsTo (h : files.SameDirs files') (hleads : files.LeadsTo path dir) :
    files'.LeadsTo path dir :=
  h.keepsDirs.leadsTo hleads

theorem finds (h : files.SameDirs files') (hfinds : files.Finds path place) :
    files'.Finds path place :=
  h.keepsDirs.finds hfinds

end SameDirs

/-- **Writing a file changes no directory**, -/
theorem sameDirs_of_write (h : files.write path content = .ok files') : files.SameDirs files' := by
  obtain ⟨place, -, hnot, rfl⟩ := exists_of_write h
  exact .put hnot

/-- and moving one does not either. -/
theorem sameDirs_of_move {source target : String} (h : files.move source target = .ok files') :
    files.SameDirs files' := by
  obtain ⟨place, other, content, -, -, hfile, hnot, rfl⟩ := exists_of_move h
  have herase : files.SameDirs (files.erase place) := .erase (by simp [hfile])
  exact herase.trans (.put fun hdir => hnot ((herase.dirs other).1 hdir))

/-! ### Directories that are made -/

/-- **A place keeps what it has**, unless nothing is there and a directory is made. -/
def Keeps (files files' : FileTree) (place : Place) : Prop :=
  files'.get? place = files.get? place ∨
    files.get? place = none ∧ files'.get? place = some .directory

theorem Keeps.trans (h : files.Keeps files' place) (h' : files'.Keeps files'' place) :
    files.Keeps files'' place := by
  rcases h with h | ⟨hnone, hdir⟩
  · rcases h' with h' | ⟨hnone', hdir'⟩
    · exact .inl (h'.trans h)
    · exact .inr ⟨h ▸ hnone', hdir'⟩
  · rcases h' with h' | ⟨hnone', -⟩
    · exact .inr ⟨hnone, h'.trans hdir⟩
    · rw [hdir] at hnone'
      cases hnone'

/-- Several names lead where the first of them lead, and then the others. -/
theorem walk_append_of_ok {names rest : List String} (h : files.walk dir names = .ok place) :
    files.walk dir (names ++ rest) = files.walk place rest := by
  induction names generalizing dir with
  | nil =>
    cases h
    rfl
  | cons name names ih =>
    rw [walk] at h
    rw [List.cons_append, walk]
    rcases hstep : files.step dir name with e | next
    · rw [hstep] at h
      cases h
    · rw [hstep] at h
      exact ih h

/-- Single dots make no difference to where names lead. -/
theorem walk_filter_ne_dot (files : FileTree) (dir : Place) (names : List String) :
    files.walk dir (names.filter fun name => name != ".") = files.walk dir names := by
  induction names generalizing dir with
  | nil => rfl
  | cons name rest ih =>
    by_cases hdot : name = "."
    · have hstep : files.step dir "." = .ok dir := if_pos rfl
      rw [List.filter_cons_of_neg (by simp [hdot]), ih, hdot, walk, hstep]
    · rw [List.filter_cons_of_pos (by simp [hdot]), walk, walk]
      rcases files.step dir name with e | next
      · rfl
      · exact ih next

/-- Names that do not lead back lead to a place in the directory, or to the directory itself, since
each of them goes down by one or stays, if it is a dot. -/
theorem suffix_of_walk {names : List String} (hback : ".." ∉ names)
    (h : files.walk dir names = .ok place) : dir <:+ place := by
  induction names generalizing dir with
  | nil =>
    cases h
    exact List.suffix_rfl
  | cons name rest ih =>
    rw [List.mem_cons, not_or] at hback
    rw [walk] at h
    rcases hstep : files.step dir name with e | next
    · rw [hstep] at h
      cases h
    · rw [hstep] at h
      refine List.IsSuffix.trans ?_ (ih hback.2 h)
      rw [step, if_neg (Ne.symm hback.1)] at hstep
      split at hstep
      · cases hstep
        exact List.suffix_rfl
      · split at hstep <;> cases hstep
        exact List.suffix_cons name dir

/-- What it means that names lead up to a name in a directory: all but the last lead to the
directory, and the last one is a name proper. -/
theorem exists_of_followNames {names : List String} {top : Place} {slash slash' : Bool}
    (h : files.followNames top names slash = .ok (.name dir name slash')) :
    ∃ before, names = before ++ [name] ∧ files.walk top before = .ok dir ∧ name ≠ "." ∧
      name ≠ ".." := by
  rw [followNames] at h
  split at h
  · cases h
  · rename_i last before hnames
    have hsplit : names = before.reverse ++ [last] := by
      rw [← List.reverse_reverse names, hnames, List.reverse_cons]
    split at h
    · cases h
    · rename_i hwalk
      by_cases hdot : last = "."
      · rw [if_pos hdot] at h
        cases h
      rw [if_neg hdot] at h
      by_cases hdots : last = ".."
      · rw [if_pos hdots] at h
        cases h
      rw [if_neg hdots] at h
      cases h
      exact ⟨before.reverse, hsplit, hwalk, hdot, hdots⟩

end FileTree

/-- The names in a path that lead somewhere: single dots are left out. -/
def Path.steps (path : String) : List String :=
  (names path).filter fun name => name != "."

/-- Only single dots get lost in the key of a path, so that its names are the steps that the path
itself takes. -/
theorem Path.filter_key (path : String) :
    ((key path).names.filter fun name => name != ".") = steps path := by
  rw [steps, key]
  rcases names path with _ | ⟨first, rest⟩
  · rfl
  · dsimp only
    split
    · rename_i hfirst
      obtain ⟨hdot, -⟩ := Bool.and_eq_true_iff.1 hfirst
      rw [List.filter_filter, List.filter_cons_of_neg (by simpa using hdot)]
      simp
    · rw [List.filter_cons, List.filter_cons, List.filter_filter]
      simp

namespace FileTree

variable {files files' files'' : FileTree} {place dir : Place} {path name : String}

/-- **A place is on the way** of a path: its first names, as many as it may be, lead there. -/
def OnWay (files : FileTree) (path : String) (place : Place) : Prop :=
  ∃ names, names <+: Path.steps path ∧ files.walk (files.start path) names = .ok place

/-- **Directories are made for a path.** Nothing is lost, and directories are new only where
nothing was, on the way of the path. They may be made for a part of the path only, as it happens
when the rest of it cannot be made. -/
structure MakesWay (files : FileTree) (path : String) (files' : FileTree) : Prop where
  home : files'.home = files.home
  kept : ∀ place, files'.get? place = files.get? place ∨
    files.get? place = none ∧ files'.get? place = some .directory ∧ files'.OnWay path place

namespace MakesWay

protected theorem refl (files : FileTree) (path : String) : files.MakesWay path files :=
  ⟨rfl, fun _ => .inl rfl⟩

theorem keepsDirs (h : files.MakesWay path files') : files.KeepsDirs files' where
  home := h.home
  dirs := by
    intro place hdir
    rcases h.kept place with hsame | ⟨-, hnew, -⟩
    · exact hsame.trans hdir
    · exact hnew

theorem keeps (h : files.MakesWay path files') (place : Place) : files.Keeps files' place :=
  (h.kept place).imp_right fun hnew => ⟨hnew.1, hnew.2.1⟩

protected theorem trans (h : files.MakesWay path files') (h' : files'.MakesWay path files'') :
    files.MakesWay path files'' where
  home := h'.home.trans h.home
  kept := by
    intro place
    rcases h'.kept place with hsame' | ⟨hnone', hdir', hway'⟩
    · rcases h.kept place with hsame | ⟨hnone, hdir, names, hstart, hwalk⟩
      · exact .inl (hsame'.trans hsame)
      · -- The names that led there still do, since no directory is lost.
        refine .inr ⟨hnone, hsame'.trans hdir, names, hstart, ?_⟩
        rw [start, h'.home, ← start]
        exact h'.keepsDirs.walk hwalk
    · rcases h.kept place with hsame | ⟨-, hdir, -⟩
      · exact .inr ⟨hsame ▸ hnone', hdir', hway'⟩
      · rw [hdir] at hnone'
        cases hnone'

/-- **A path that does not lead back** leaves alone what is in its directory: a place in there is
not on its way. With a path such as `out/Main.unit/..` it is otherwise. -/
theorem get?_child (h : files.MakesWay path files') (hback : ".." ∉ Path.names path)
    (hdir : files'.LeadsTo path dir) (name : String) :
    files'.get? (name :: dir) = files.get? (name :: dir) := by
  rcases h.kept (name :: dir) with hsame | ⟨-, -, names, ⟨rest, hsteps⟩, hwalk⟩
  · exact hsame
  · rw [LeadsTo, ← walk_filter_ne_dot, ← Path.steps, ← hsteps, walk_append_of_ok hwalk] at hdir
    have hrest : ".." ∉ rest := by
      intro hmem
      have hsteps' : ".." ∈ Path.steps path := hsteps ▸ List.mem_append_right names hmem
      exact hback (List.mem_filter.1 hsteps').1
    have hlength := (suffix_of_walk hrest hdir).length_le
    rw [List.length_cons] at hlength
    omega

end MakesWay

/-- **A way along a path**: it follows names with which the path begins, single dots aside. -/
def IsAlong (path : String) (way : FileTree → Except FileProblem Spot) : Prop :=
  ∀ files spot, way files = .ok spot → ∃ names slash,
    files.followNames (files.start path) names slash = .ok spot ∧
      (names.filter fun name => name != ".") <+: Path.steps path

/-- A new directory, and where its name leads. -/
theorem step_put_directory (hdot : name ≠ ".") (hdots : name ≠ "..")
    (hlength : name.utf8ByteSize ≤ longestName) :
    (files.put (name :: dir) .directory).step dir name = .ok (name :: dir) := by
  rw [step, if_neg hdot, if_neg hdots, find_eq_ok.2 ⟨hlength, get?_put_self name dir⟩]

theorem keepsDirs_put_directory (files : FileTree) (name : String) (dir : Place) :
    files.KeepsDirs (files.put (name :: dir) .directory) where
  home := rfl
  dirs := by
    intro place hplace
    by_cases hsame : place = name :: dir
    · rw [hsame]
      exact get?_put_self name dir
    · rw [get?_put_of_ne hsame]
      exact hplace

/-- A directory that is made at the end of a way along a path makes way for it: the names along the
way lead to the new directory once it is there. -/
theorem makesWay_of_makeDirAt {way : FileTree → Except FileProblem Spot} (hway : IsAlong path way)
    (h : files.makeDirAt (way files) = .ok files') : files.MakesWay path files' := by
  unfold makeDirAt at h
  split at h
  · cases h
  · cases h
  · rename_i dir name slash hspot
    split at h
    · cases h
    · cases h
    · rename_i hfind
      cases h
      obtain ⟨names, slash', hfollow, hstart⟩ := hway files _ hspot
      obtain ⟨before, rfl, hwalk, hdot, hdots⟩ := exists_of_followNames hfollow
      obtain ⟨hlength, hnone⟩ := find_eq_ok.1 hfind
      refine ⟨rfl, fun place => ?_⟩
      by_cases hplace : place = name :: dir
      · subst hplace
        refine .inr ⟨hnone, get?_put_self name dir, _, hstart, ?_⟩
        have hbefore := (keepsDirs_put_directory files name dir).walk hwalk
        rw [walk_filter_ne_dot]
        refine (walk_append_of_ok hbefore).trans ?_
        rw [walk, step_put_directory hdot hdots hlength]
        rfl
      · exact .inl (get?_put_of_ne hplace)

theorem makesWay_makeDirsAlong {ways : List (FileTree → Except FileProblem Spot)}
    (hways : ∀ way ∈ ways, IsAlong path way) :
    files.MakesWay path (files.makeDirsAlong ways).2 := by
  induction ways with
  | nil => exact .refl files path
  | cons way above ih =>
    obtain ⟨hway, habove⟩ := List.forall_mem_cons.1 hways
    have hmade := ih habove
    rw [makeDirsAlong]
    split
    · rename_i hfirst
      exact makesWay_of_makeDirAt hway hfirst
    · rcases hrun : files.makeDirsAlong above with ⟨e | _, files'⟩
      · rw [hrun] at hmade
        exact hmade
      · rw [hrun] at hmade
        dsimp only
        split
        · rename_i hlast
          exact hmade.trans (makesWay_of_makeDirAt hway hlast)
        · split
          · exact hmade
          · exact hmade
    · split
      · exact .refl files path
      · exact .refl files path

/-- **Making directories makes way for the path**, whether it succeeds or not. Every directory that
it tries to make is at the end of a leading part of the path. -/
theorem makesWay_makeDirs (files : FileTree) (path : String) :
    files.MakesWay path (files.makeDirs path).2 := by
  simp only [makeDirs]
  split
  · exact .refl files path
  · refine makesWay_makeDirsAlong (List.forall_mem_cons.2 ⟨?_, ?_⟩)
    · intro files spot hfollow
      unfold follow at hfollow
      split at hfollow
      · cases hfollow
      · exact ⟨_, _, hfollow, List.prefix_rfl⟩
    · intro way hway
      obtain ⟨names, hnames, rfl⟩ := List.mem_map.1 hway
      obtain ⟨n, -, rfl⟩ := List.mem_map.1 hnames
      intro files spot hfollow
      refine ⟨_, _, hfollow, ?_⟩
      rw [← Path.filter_key]
      exact (List.take_prefix n _).filter _

/-- A path that leads back can make a directory in its own directory. -/
example : ".." ∈ Path.names "out/Main.unit/.." ∧
    ({} : FileTree).get? ["Main.unit", "out"] = none ∧
    (({} : FileTree).makeDirs "out/Main.unit/..").2.get? ["Main.unit", "out"] =
      some .directory := by
  decide +kernel

end FileTree

end StackUnits
