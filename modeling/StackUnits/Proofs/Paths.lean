import StackUnits.Files.Path
import StackUnits.Proofs.Code

/-!
# Paths of files in a directory

A path of the form `Path.join dir x` is taken apart again. If `x` can be the name of an entry of a
directory (`StackUnits.Path.IsName`), the names in the path are those of `dir` and then `x`, and
the path starts where `dir` starts. Replacing an extension concerns `x` only
(`StackUnits.Path.withExtension_join`).

The name of a file with an extension tells both (`StackUnits.CodeUnit.fileName_inj`), so the files
of different units do not get in each other's way.
-/

namespace StackUnits

/-! ### Pieces -/

namespace Text

variable {sep : Char}

/-- The pieces on both sides of a separator are those of the two sides. -/
theorem splitChars_append_cons (left right : List Char) :
    splitChars sep (left ++ sep :: right) = splitChars sep left ++ splitChars sep right := by
  induction left with
  | nil => simp [splitChars]
  | cons c rest ih =>
    rw [List.cons_append, splitChars, splitChars, ih]
    by_cases hc : c = sep
    · rw [if_pos hc, if_pos hc, List.cons_append]
    · rw [if_neg hc, if_neg hc]
      cases hs : splitChars sep rest with
      | nil => exact absurd hs (splitChars_ne_nil sep rest)
      | cons piece pieces => rfl

/-- A text without the separator is its own only piece. -/
theorem splitChars_of_not_mem {text : List Char} (h : sep ∉ text) :
    splitChars sep text = [text] := by
  induction text with
  | nil => rfl
  | cons c rest ih =>
    rw [List.mem_cons, not_or] at h
    rw [splitChars, if_neg (Ne.symm h.1), ih h.2]

/-- A character is in a text if it is in one of the pieces, the separator aside. -/
theorem mem_iff_mem_splitChars {c : Char} (hc : c ≠ sep) (text : List Char) :
    c ∈ text ↔ ∃ piece ∈ splitChars sep text, c ∈ piece := by
  induction text with
  | nil => simp [splitChars]
  | cons first rest ih =>
    rw [splitChars, List.mem_cons, ih]
    by_cases hfirst : first = sep
    · rw [if_pos hfirst]
      simp [hfirst, hc]
    · rw [if_neg hfirst]
      cases hs : splitChars sep rest with
      | nil => exact absurd hs (splitChars_ne_nil sep rest)
      | cons piece pieces => simp [or_assoc]

end Text

namespace Path

variable {dir x left right : String}

/-! ### Names in a directory -/

/-- **The name of an entry**: one name, which does not stand for a directory by its dots. -/
structure IsName (x : String) : Prop where
  nonempty : x ≠ ""
  noSlash : '/' ∉ x.toList
  notDot : x ≠ "."
  notDots : x ≠ ".."

/-- **An extension**, which is what comes after the last dot of a name. -/
structure IsExtension (extension : String) : Prop where
  noDot : '.' ∉ extension.toList
  noSlash : '/' ∉ extension.toList

theorem IsExtension.empty : IsExtension "" := ⟨by decide, by decide⟩

theorem isAbsolute_eq_false (h : '/' ∉ x.toList) : isAbsolute x = false := by
  rw [isAbsolute, beq_eq_false_iff_ne]
  exact fun hhead => h (List.mem_of_head? hhead)

/-- What is behind the directory can be put there in two parts. -/
theorem join_append (hleft : '/' ∉ left.toList) (hright : '/' ∉ right.toList) :
    join dir (left ++ right) = join dir left ++ right := by
  have hboth : '/' ∉ (left ++ right).toList := by
    rw [String.toList_append, List.mem_append, not_or]
    exact ⟨hleft, hright⟩
  simp only [join, isAbsolute_eq_false hleft, isAbsolute_eq_false hboth, Bool.false_eq_true,
    if_false]
  split
  · exact (String.append_assoc ..).symm
  · exact (String.append_assoc ..).symm

/-- The path of an entry ends in its name, and not in a slash; so a file can stand there. -/
theorem endsInSlash_join (hx : IsName x) : ((join dir x).toList.getLast? == some '/') = false := by
  have hjoin : join dir x = join dir "" ++ x := by
    rw [← join_append (by decide) hx.noSlash, String.empty_append]
  rw [hjoin, String.toList_append, List.getLast?_append, beq_eq_false_iff_ne]
  rcases hlast : x.toList.getLast? with _ | c
  · exact absurd (String.toList_eq_nil_iff.1 (List.getLast?_eq_none_iff.1 hlast)) hx.nonempty
  · rw [Option.some_or]
    rintro ⟨⟩
    exact hx.noSlash (List.mem_of_getLast? hlast)

/-- The names on both sides of a slash. -/
theorem names_append_slash (left right : String) :
    names (left ++ "/" ++ right) = names left ++ names right := by
  have htext : (left ++ "/" ++ right).toList = left.toList ++ '/' :: right.toList := by simp
  simp only [names, Text.split, htext, Text.splitChars_append_cons, List.map_append,
    List.filter_append]

theorem names_eq_singleton (hx : IsName x) : names x = [x] := by
  simp [names, Text.split, Text.splitChars_of_not_mem hx.noSlash, hx.nonempty]

/-- **The names in the path of an entry** are those of the directory and its own. Slashes at the end
of the directory, one or several, make no difference. -/
theorem names_join (hx : IsName x) : names (join dir x) = names dir ++ [x] := by
  rw [join, isAbsolute_eq_false hx.noSlash, if_neg Bool.false_ne_true]
  split
  · rename_i hends
    rcases Bool.or_eq_true_iff.1 hends with hempty | hslash
    · obtain rfl := eq_of_beq hempty
      rw [String.empty_append, names_eq_singleton hx]
      rfl
    · obtain ⟨front, hfront⟩ : ∃ front, dir.toList = front ++ ['/'] :=
        List.getLast?_eq_some_iff.1 (eq_of_beq hslash)
      have hdir : dir = String.ofList front ++ "/" := by
        apply String.toList_injective
        simp [hfront]
      have hshort : names dir = names (String.ofList front) := by
        rw [hdir, ← String.append_empty (s := String.ofList front ++ "/"), names_append_slash]
        exact List.append_nil _
      rw [hshort, hdir, names_append_slash, names_eq_singleton hx]
  · rw [names_append_slash, names_eq_singleton hx]

/-- A character other than a slash is in a path if it is in one of the names. -/
theorem mem_iff_mem_names {c : Char} (hc : c ≠ '/') (path : String) :
    c ∈ path.toList ↔ ∃ name ∈ names path, c ∈ name.toList := by
  rw [Text.mem_iff_mem_splitChars hc]
  constructor
  · rintro ⟨piece, hpiece, hmem⟩
    refine ⟨String.ofList piece, ?_, by rwa [String.toList_ofList]⟩
    rw [names, List.mem_filter, bne_iff_ne]
    refine ⟨List.mem_map_of_mem hpiece, fun hempty => ?_⟩
    rw [String.ofList_eq_empty_iff.1 hempty] at hmem
    cases hmem
  · rintro ⟨name, hname, hmem⟩
    obtain ⟨piece, hpiece, rfl⟩ := List.mem_map.1 (List.mem_filter.1 hname).1
    exact ⟨piece, hpiece, by rwa [String.toList_ofList] at hmem⟩

/-- The path of an entry starts where the directory's does: at the root, or where relative paths
start. -/
theorem isAbsolute_join (hx : IsName x) : isAbsolute (join dir x) = isAbsolute dir := by
  have hrelative := isAbsolute_eq_false hx.noSlash
  rw [join, hrelative, if_neg Bool.false_ne_true]
  by_cases hdir : dir = ""
  · subst hdir
    simpa [isAbsolute] using hrelative
  · obtain ⟨first, rest, hchars⟩ : ∃ first rest, dir.toList = first :: rest :=
      List.exists_cons_of_ne_nil fun hnil => hdir (String.toList_eq_nil_iff.1 hnil)
    split
    · simp [isAbsolute, hchars]
    · simp [isAbsolute, hchars]

/-! ### Extensions -/

/-- The last name in the path of an entry. -/
theorem fileName?_join (hx : IsName x) : fileName? (join dir x) = some x := by
  have hdot : (x != ".") = true := bne_iff_ne.2 hx.notDot
  have hdots : (x == "..") = false := beq_eq_false_iff_ne.2 hx.notDots
  have hlast : ([x].filter fun name => name != ".") = [x] := List.filter_cons_of_pos hdot
  rw [fileName?, names_join hx, List.filter_append, hlast, List.getLast?_concat]
  simp [hdots]

/-- A name is cut before its extension, also if there are dots before that. The extension has no
dot, so that its own is the last one. -/
theorem cutAtLastDot_append (stem extension : String) (hstem : stem ≠ "")
    (hdot : '.' ∉ extension.toList) :
    cutAtLastDot (stem ++ "." ++ extension) = (stem, some extension) := by
  have hchars : stem.toList ≠ [] := fun hnil => hstem (String.toList_eq_nil_iff.1 hnil)
  have hpass : ∀ c ∈ extension.toList.reverse, (c != '.') = true := by
    intro c hc
    rw [bne_iff_ne]
    rintro rfl
    exact hdot (List.mem_reverse.1 hc)
  have hbackwards : (stem ++ "." ++ extension).toList.reverse =
      extension.toList.reverse ++ '.' :: stem.toList.reverse := by simp
  simp only [cutAtLastDot, hbackwards, List.takeWhile_append_of_pos hpass,
    List.dropWhile_append_of_pos hpass]
  simp [hchars]

/-- The characters that are taken away are those that were put behind. -/
theorem dropLast_append (text behind : String) :
    dropLast (text ++ behind) behind.length = text := by
  rw [dropLast, String.toList_append, List.length_append, ← String.length_toList (s := behind),
    Nat.add_sub_cancel, List.take_left, String.ofList_toList]

/-- A plain name stays the name of an entry with an extension behind it; a name of dots alone would
not, but is not plain. -/
theorem IsName.extend {name : String} (hname : PlainName name) {extension : String}
    (hextension : IsExtension extension) : IsName (name ++ "." ++ extension) := by
  obtain ⟨hnonempty, hnoSlash, -, hdot, -⟩ := hname
  obtain ⟨first, rest, hchars⟩ : ∃ first rest, name.toList = first :: rest :=
    List.exists_cons_of_ne_nil fun hnil => hnonempty (String.toList_eq_nil_iff.1 hnil)
  have htext : (name ++ "." ++ extension).toList = first :: (rest ++ '.' :: extension.toList) := by
    simp [hchars]
  refine ⟨fun h => ?_, fun hmem => ?_, fun h => ?_, fun h => ?_⟩
  · rw [h] at htext
    cases htext
  · have hparts : '/' ∈ name.toList ∨ '/' ∈ extension.toList := by simpa using hmem
    exact hparts.elim hnoSlash hextension.noSlash
  · rw [h] at htext
    simp at htext
  · -- Two dots in all: then the name is one of them.
    have hdots : ['.', '.'] = first :: (rest ++ '.' :: extension.toList) := by
      rw [← htext, h]
      rfl
    obtain ⟨hfirst, hrest⟩ := List.cons.inj hdots
    have hnil : rest = [] := by
      rcases rest with _ | ⟨c, rest⟩
      · rfl
      · simp at hrest
    refine hdot (String.toList_injective ?_)
    rw [hchars, hnil, ← hfirst]
    rfl

/-- **Replacing the extension** of an entry changes the name of the entry only. The name may have
dots of its own: the extension is what comes after the last one. -/
theorem withExtension_join {name old new : String} (hname : PlainName name)
    (hold : IsExtension old) (hnew : IsExtension new) :
    withExtension (join dir (name ++ "." ++ old)) new = join dir (name ++ "." ++ new) := by
  have hnoSlash : '/' ∉ name.toList := hname.2.1
  have hstem : '/' ∉ (name ++ ".").toList := by simpa using hnoSlash
  have hname' : IsName (name ++ ".") := by simpa using IsName.extend hname .empty
  have hcut : cutAtLastDot (name ++ ".") = (name, some "") := by
    simpa using cutAtLastDot_append name "" hname.1 (by decide)
  have hset : setExtension (join dir (name ++ ".")) new = join dir (name ++ "." ++ new) := by
    rw [setExtension, fileName?_join hname']
    simp only [hcut]
    rw [String.length_append, Nat.add_sub_cancel_left, join_append hnoSlash (by decide),
      dropLast_append, join_append hstem hnew.noSlash, join_append hnoSlash (by decide)]
  rw [withExtension, fileName?_join (.extend hname hold)]
  simp only [cutAtLastDot_append name old hname.1 hold.noDot]
  rw [join_append hstem hold.noSlash, dropLast_append, hset]

end Path

/-! ### The files of a unit -/

/-- The files that a unit can have in a directory. -/
inductive FileRole
  | unit
  | listing
  | temporary
  deriving DecidableEq

/-- The extension by which a file is known. -/
def FileRole.extension : FileRole → String
  | unit => "unit"
  | listing => "lst"
  | temporary => "tmp"

theorem FileRole.isExtension (role : FileRole) : Path.IsExtension role.extension := by
  cases role <;> exact ⟨by decide, by decide⟩

theorem FileRole.extension_injective : extension.Injective := by
  intro role role' h
  cases role <;> cases role' <;> first | rfl | exact absurd h (by decide)

namespace CodeUnit

variable {unit unit' : CodeUnit} {role role' : FileRole}

/-- The name of a file of the unit. -/
def fileName (unit : CodeUnit) (role : FileRole) : String :=
  unit.name ++ "." ++ role.extension

theorem isName_fileName (h : PlainName unit.name) (role : FileRole) :
    Path.IsName (unit.fileName role) :=
  .extend h role.isExtension

/-- **The name of a file tells the unit and the role.** Extensions have no dots, so that the last
dot is the one in front of the extension. -/
theorem fileName_inj (h : PlainName unit.name) (h' : PlainName unit'.name) :
    unit.fileName role = unit'.fileName role' ↔ unit.name = unit'.name ∧ role = role' := by
  constructor
  · intro hsame
    have hcut := congrArg Path.cutAtLastDot hsame
    rw [fileName, fileName, Path.cutAtLastDot_append _ _ h.1 role.isExtension.noDot,
      Path.cutAtLastDot_append _ _ h'.1 role'.isExtension.noDot, Prod.mk.injEq,
      Option.some.injEq] at hcut
    exact ⟨hcut.1, FileRole.extension_injective hcut.2⟩
  · rintro ⟨hname, rfl⟩
    rw [fileName, fileName, hname]

end CodeUnit

end StackUnits
