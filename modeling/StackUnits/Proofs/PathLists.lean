import Mathlib.Data.List.TakeWhile
import StackUnits.Proofs.Paths
import StackUnits.Task.SearchPath

/-!
# Search paths and their texts

A search path is written with colons between its directories, and a text is cut at its colons to
get the directories. The two undo each other (`StackUnits.SearchPath.parse_inverse_text`), between
the texts that are accepted and the lists of directories that can be written.

What the **pieces** of a text are is said without cutting it (`StackUnits.Text.IsPiece`): a piece
has no separator in it, and it reaches to a separator or to the end of the text on either side. So
a separator at the beginning, at the end or next to another one makes an empty piece.

Whether a text is blank is asked of the text as a whole. A directory whose name is blank is refused
only if it is the only one.
-/

namespace StackUnits

namespace Text

variable {sep : Char} {text piece : List Char} {pieces : List (List Char)}

/-! ### Pieces -/

/-- **A piece of a text** between two separators, or between a separator and an end. -/
structure IsPiece (sep : Char) (text piece : List Char) : Prop where
  not_mem : sep ∉ piece
  between : ∃ before after, text = before ++ (piece ++ after) ∧
    (before = [] ∨ ∃ front, before = front ++ [sep]) ∧ (after = [] ∨ ∃ back, after = sep :: back)

/-- A text without the separator has itself as a piece, and no other. -/
theorem isPiece_self (h : sep ∉ text) : IsPiece sep text text :=
  ⟨h, [], [], by simp, .inl rfl, .inl rfl⟩

/-- What is before the first separator is a piece; it may be empty. -/
theorem isPiece_append_cons (h : sep ∉ piece) (back : List Char) :
    IsPiece sep (piece ++ sep :: back) piece :=
  ⟨h, [], sep :: back, rfl, .inl rfl, .inr ⟨back, rfl⟩⟩

/-- The pieces of what is behind a separator are pieces of the whole. -/
theorem IsPiece.append_cons (h : IsPiece sep text piece) (front : List Char) :
    IsPiece sep (front ++ sep :: text) piece := by
  obtain ⟨hsep, before, after, rfl, hbefore, hafter⟩ := h
  refine ⟨hsep, front ++ sep :: before, after, by simp, .inr ?_, hafter⟩
  rcases hbefore with rfl | ⟨front', rfl⟩
  · exact ⟨front, rfl⟩
  · exact ⟨front ++ sep :: front', by simp⟩

/-- **Cutting a text gives its pieces**, by induction on the text. The first piece is still open
while the text is gone through, and is closed by a separator or by the end. -/
theorem mem_splitChars_iff : piece ∈ splitChars sep text ↔ IsPiece sep text piece := by
  constructor
  · intro h
    -- On the length: what is behind the first separator is shorter.
    induction hlength : text.length using Nat.strongRecOn generalizing text with
    | ind n ih =>
      by_cases hsep : sep ∈ text
      · obtain ⟨front, back, rfl, hfront⟩ := List.eq_append_cons_of_mem hsep
        rw [splitChars_append_cons, splitChars_of_not_mem hfront, List.mem_append,
          List.mem_singleton] at h
        rcases h with rfl | hback
        · exact isPiece_append_cons hfront back
        · refine (ih back.length ?_ hback rfl).append_cons front
          rw [← hlength, List.length_append, List.length_cons]
          omega
      · rw [splitChars_of_not_mem hsep, List.mem_singleton] at h
        subst h
        exact isPiece_self hsep
  · rintro ⟨hsep, before, after, rfl, hbefore, hafter⟩
    have hpiece : piece ∈ splitChars sep (piece ++ after) := by
      rcases hafter with rfl | ⟨back, rfl⟩
      · rw [List.append_nil, splitChars_of_not_mem hsep]
        exact List.mem_singleton_self _
      · rw [splitChars_append_cons, splitChars_of_not_mem hsep]
        exact List.mem_cons_self
    rcases hbefore with rfl | ⟨front, rfl⟩
    · exact hpiece
    · rw [List.append_assoc, List.singleton_append, splitChars_append_cons]
      exact List.mem_append_right _ hpiece

/-- **Pieces that are joined are found again** by cutting, if there is at least one: no pieces at
all and one empty piece have the same text. -/
theorem splitChars_joinChars (hne : pieces ≠ []) (h : ∀ piece ∈ pieces, sep ∉ piece) :
    splitChars sep (joinChars sep pieces) = pieces := by
  induction pieces with
  | nil => exact (hne rfl).elim
  | cons first rest ih =>
    obtain ⟨hfirst, hrest⟩ := List.forall_mem_cons.1 h
    cases rest with
    | nil => exact splitChars_of_not_mem hfirst
    | cons second others =>
      rw [joinChars, splitChars_append_cons, splitChars_of_not_mem hfirst,
        ih (List.cons_ne_nil _ _) hrest]
      · rfl
      · rintro ⟨⟩

/-! ### Blanks -/

/-- **A text is blank** if nothing is left of it without the blanks around it. -/
theorem trim_eq_nil_iff : trim text = [] ↔ ∀ c ∈ text, isBlank c = true := by
  rw [trim, List.reverse_eq_nil_iff, List.dropWhile_eq_nil_iff]
  simp only [List.mem_reverse]
  constructor
  · intro h c hc
    rw [← List.takeWhile_append_dropWhile (p := isBlank) (l := text), List.mem_append] at hc
    rcases hc with hfront | hback
    · exact List.mem_takeWhile_imp hfront
    · exact h c hback
  · intro h c hc
    exact h c ((List.dropWhile_sublist _).subset hc)

end Text

/-! ### Search paths -/

namespace SearchPath

variable {list : String} {dirs : List String}

/-- **A list of directories that can be written**: none of them is empty or has a colon in it. -/
def Writable (dirs : List String) : Prop :=
  ∀ dir ∈ dirs, dir ≠ "" ∧ ':' ∉ dir.toList

instance : DecidablePred Writable :=
  fun dirs => inferInstanceAs (Decidable (∀ dir ∈ dirs, dir ≠ "" ∧ ':' ∉ dir.toList))

/-- The directories of a text are its pieces. -/
theorem mem_split_iff {dir : String} :
    dir ∈ Text.split ':' list ↔ Text.IsPiece ':' list.toList dir.toList := by
  rw [Text.split, ← Text.mem_splitChars_iff, List.mem_map]
  constructor
  · rintro ⟨piece, hpiece, rfl⟩
    rwa [String.toList_ofList]
  · intro hdir
    exact ⟨_, hdir, String.ofList_toList⟩

/-- **What is accepted**, and as what: a text that is not blank and has no empty piece, as its
pieces. Pieces are taken as they are, with the blanks in them. -/
theorem parse_eq_ok_iff {path : SearchPath} :
    parse list = .ok path ↔ (∃ c ∈ list.toList, Text.isBlank c = false) ∧
      "" ∉ Text.split ':' list ∧ path = ⟨Text.split ':' list⟩ := by
  have hblank : (Text.trim list.toList).isEmpty = true ↔
      ¬∃ c ∈ list.toList, Text.isBlank c = false := by
    rw [List.isEmpty_iff, Text.trim_eq_nil_iff]
    simp
  have hempty : ((Text.split ':' list).any fun dir => dir == "") = true ↔
      "" ∈ Text.split ':' list := by
    simp
  simp only [parse, hblank, hempty]
  by_cases h : ∃ c ∈ list.toList, Text.isBlank c = false
  · rw [if_neg (not_not_intro h), and_iff_right h]
    by_cases h' : "" ∈ Text.split ':' list
    · rw [if_pos h']
      simp [h']
    · rw [if_neg h', and_iff_right h', Except.ok.injEq, eq_comm]
  · rw [if_pos h]
    simp [h]

/-- The directories of a text that is accepted can be written. -/
theorem writable_split (h : "" ∉ Text.split ':' list) : Writable (Text.split ':' list) := by
  intro dir hdir
  refine ⟨?_, (mem_split_iff.1 hdir).not_mem⟩
  rintro rfl
  exact h hdir

/-- **The text of directories that can be written** has them with colons between them. Directories
of which one has a colon are shown in brackets instead, which is no text of a search path. -/
theorem Writable.text_eq (h : Writable dirs) : text ⟨dirs⟩ = ":".intercalate dirs := by
  have hcolons : (dirs.any fun dir => dir.toList.contains ':') = false := by
    rw [List.any_eq_false]
    intro dir hdir
    rw [List.contains_iff_mem]
    exact (h dir hdir).2
  rw [text, hcolons]
  rfl

/-- Directories are joined as lists of characters are. -/
theorem toList_intercalate_colon (dirs : List String) :
    (":".intercalate dirs).toList = Text.joinChars ':' (dirs.map String.toList) := by
  induction dirs with
  | nil => rfl
  | cons first rest ih =>
    cases rest with
    | nil => simp [Text.joinChars]
    | cons second others =>
      rw [String.intercalate_cons_cons, String.toList_append, String.toList_append, ih,
        List.append_assoc]
      rfl

/-- Cutting at the colons and joining again changes nothing. -/
theorem intercalate_split (list : String) : ":".intercalate (Text.split ':' list) = list := by
  apply String.toList_injective
  rw [toList_intercalate_colon, Text.split, List.map_map]
  refine Eq.trans (congrArg _ ?_) (Text.join_splitChars ':' list.toList)
  exact List.map_id'' (fun _ => String.toList_ofList) _

/-- **Directories that can be written are found again** in their text, if there are any: without one
the text is empty, and an empty text has one empty piece. -/
theorem Writable.split_intercalate (h : Writable dirs) (hne : dirs ≠ []) :
    Text.split ':' (":".intercalate dirs) = dirs := by
  rw [Text.split, toList_intercalate_colon, Text.splitChars_joinChars]
  · rw [List.map_map]
    exact List.map_id'' (fun _ => String.ofList_toList) _
  · exact fun hnil => hne (List.map_eq_nil_iff.1 hnil)
  · intro piece hpiece
    obtain ⟨dir, hdir, rfl⟩ := List.mem_map.1 hpiece
    exact (h dir hdir).2

/-- **Search paths and their texts are in correspondence.** A text is accepted exactly if it is not
blank and has no empty piece; its directories, joined with colons, are the text again, and so is the
text of the search path; and the text of directories that can be written, if it is not blank, is
accepted as these directories.

Blankness has to be asked about apart from the pieces: directories whose names are blank can be
written, but if there is nothing else the whole text is blank and is refused. -/
theorem parse_inverse_text :
    (∀ list : String,
      ((∃ path, parse list = .ok path) ↔ (∃ c ∈ list.toList, Text.isBlank c = false) ∧
        ∀ piece, Text.IsPiece ':' list.toList piece → piece ≠ []) ∧
      ∀ path, parse list = .ok path →
        Writable path.dirs ∧ ":".intercalate path.dirs = list ∧ path.text = list) ∧
    ∀ dirs : List String, dirs ≠ [] → Writable dirs →
      (∃ c ∈ (":".intercalate dirs).toList, Text.isBlank c = false) →
      parse (text ⟨dirs⟩) = .ok ⟨dirs⟩ := by
  refine ⟨fun list => ⟨?_, ?_⟩, ?_⟩
  · have hpieces : "" ∉ Text.split ':' list ↔
        ∀ piece, Text.IsPiece ':' list.toList piece → piece ≠ [] := by
      rw [mem_split_iff]
      constructor
      · rintro hempty piece hpiece rfl
        exact hempty hpiece
      · intro hall hempty
        exact hall _ hempty rfl
    rw [← hpieces]
    constructor
    · rintro ⟨path, hpath⟩
      obtain ⟨hblank, hempty, -⟩ := parse_eq_ok_iff.1 hpath
      exact ⟨hblank, hempty⟩
    · rintro ⟨hblank, hempty⟩
      exact ⟨_, parse_eq_ok_iff.2 ⟨hblank, hempty, rfl⟩⟩
  · intro path hpath
    obtain ⟨-, hempty, rfl⟩ := parse_eq_ok_iff.1 hpath
    have hwritable := writable_split hempty
    exact ⟨hwritable, intercalate_split list, hwritable.text_eq.trans (intercalate_split list)⟩
  · intro dirs hne hwritable hblank
    have hsplit := hwritable.split_intercalate hne
    rw [hwritable.text_eq]
    refine parse_eq_ok_iff.2 ⟨hblank, ?_, by rw [hsplit]⟩
    rw [hsplit]
    exact fun hmem => (hwritable _ hmem).1 rfl

/-- A list with a directory whose name is blank. -/
theorem parse_inverse_text_blankName :
    Writable ["/a", " ", "b c"] ∧
    (∃ c ∈ (":".intercalate ["/a", " ", "b c"]).toList, Text.isBlank c = false) ∧
    parse (text ⟨["/a", " ", "b c"]⟩) = .ok ⟨["/a", " ", "b c"]⟩ ∧
    text ⟨["/a", " ", "b c"]⟩ = "/a: :b c" := by
  have hwritable : Writable ["/a", " ", "b c"] := by decide +kernel
  have hblank : ∃ c ∈ (":".intercalate ["/a", " ", "b c"]).toList, Text.isBlank c = false :=
    ⟨'/', by decide +kernel, by decide⟩
  exact ⟨hwritable, hblank,
    parse_inverse_text.2 _ (List.cons_ne_nil _ _) hwritable hblank, by decide +kernel⟩

end SearchPath

end StackUnits
