import Mathlib.Data.List.Forall2
import StackUnits.Proofs.Lookahead
import StackUnits.Proofs.TreeText

/-!
# Texts of a tree that go on, or are cut off

Reading a tree takes no account of what comes after it. What is read from a text is read from every
continuation of it, and the continuation is left (`StackUnits.Json.Continues`). This holds of the
readers of single pieces, of what is put together from them by doing one after the other
(`StackUnits.Json.Continues.bind`), and so of records and of trees, in whichever way they are
written: as objects or as arrays, with members that are passed over, and with kinds that are objects
(`StackUnits.Tree.continues_read`). More fuel does no harm, so the relation is between a reader and
one with more of it.

So if a text denotes a tree, the only texts that can be put behind it are blank ones
(`StackUnits.Tree.ofJson_append_iff`). This is about every text that is accepted. For those that are
written, which end in a brace, it means that no proper beginning of them is accepted
(`StackUnits.Tree.toJson_oneValue`).
-/

namespace StackUnits.Json

variable {α β σ : Type} {text rest : List Char}

/-! ### Readers that do not look ahead -/

/-- The members of an object end with a brace, in every way in which they may be written. -/
theorem SpellsMembers.getLast?_eq {φ : Type} {name : φ → String} {value : φ → List Char → Prop}
    {first : Bool} {fs : List φ} (h : SpellsMembers name value first fs text) :
    text.getLast? = some '\x7d' := by
  induction h with
  | done => simp
  | member _ _ _ _ _ _ ih => simp [List.getLast?_append, List.getLast?_cons, ih]

/-- **What one reader reads, the other reads if more text follows**, and leaves what was added. -/
def Continues (read read' : Reader α) : Prop :=
  ∀ ⦃text a rest⦄, read text = .ok (a, rest) → ∀ more, read' (text ++ more) = .ok (a, rest ++ more)

/-- What two readers have read together, each has read: the second goes on where the first has
ended. -/
theorem exists_of_reader_bind {read : Reader α} {next : α → Reader β} {b : β}
    (h : (read >>= next) text = .ok (b, rest)) :
    ∃ a text', read text = .ok (a, text') ∧ next a text' = .ok (b, rest) := by
  obtain ⟨⟨a, text'⟩, hread, hnext⟩ :=
    exists_of_bind_ok (show (read text >>= fun found => next found.1 found.2) = _ from h)
  exact ⟨a, text', hread, hnext⟩

namespace Continues

theorem pure (a : α) : Continues (Pure.pure a) (Pure.pure a) := by
  rintro text a rest ⟨⟩ more
  rfl

theorem throw (e : Problem) (read' : Reader α) : Continues (throwThe Problem e) read' := by
  rintro text a rest ⟨⟩

/-- **One reader after the other.** The rest that the first leaves is longer by what was added, and
so the second is asked about a continuation again. -/
theorem bind {read read' : Reader α} {next next' : α → Reader β} (h : Continues read read')
    (h' : ∀ a, Continues (next a) (next' a)) : Continues (read >>= next) (read' >>= next') := by
  intro text b rest hb more
  obtain ⟨a, text', hread, hnext⟩ := exists_of_reader_bind hb
  exact (bind_of_ok (h hread more)).trans (h' a hnext more)

end Continues

theorem continues_readString : Continues readString readString :=
  fun _ _ _ h more => stringFrom_append h more

/-- A value that does not begin like `null` is read as such. -/
theorem readOptional_of_ne {c : Char} (h : dropBlanks text = c :: rest) (hc : c ≠ 'n')
    (read : Reader α) :
    readOptional read text = (read (c :: rest)).map fun found => (some found.1, found.2) := by
  rw [readOptional, h]
  split
  · rename_i hnull
    exact (hc (List.cons.inj hnull).1).elim
  · rcases read (c :: rest) with e | found
    · rfl
    · rfl

/-- A value that may be absent, if there is nothing to be read at the end of a text. The condition
is needed because such a reader looks at the next character to decide what to read. -/
theorem continues_readOptional {read read' : Reader α} (h : Continues read read')
    (hnil : ∀ found, read [] ≠ .ok found) : Continues (readOptional read) (readOptional read') := by
  intro text o rest ho more
  rcases hblanks : dropBlanks text with _ | ⟨c, inner⟩
  · rcases hread : read [] with e | found
    · simp [readOptional, hblanks, hread] at ho
    · exact (hnil found hread).elim
  · have hblanks' := dropBlanks_append hblanks more
    by_cases hc : c = 'n'
    · subst hc
      rcases hword : word ['u', 'l', 'l'] inner with e | rest'
      · simp [readOptional, hblanks, hword] at ho
      · simp only [readOptional, hblanks, hword] at ho
        cases ho
        simp only [readOptional, hblanks', word_append hword more]
    · rw [readOptional_of_ne hblanks hc] at ho
      rw [readOptional_of_ne hblanks' hc]
      rcases hread : read (c :: inner) with e | ⟨a, rest'⟩
      · rw [hread] at ho
        cases ho
      · rw [hread] at ho
        cases ho
        rw [← List.cons_append, h hread more]
        rfl

theorem continues_readText (wanted : Wanted) : Continues (readText wanted) (readText wanted) := by
  intro text s rest h more
  unfold readText at h ⊢
  rcases hblanks : dropBlanks text with _ | ⟨c, inner⟩
  · simp [hblanks] at h
  · by_cases hc : c = '"'
    · subst hc
      simp only [hblanks] at h
      simp only [dropBlanks_append hblanks more]
      exact continues_readString h more
    · simp [hblanks, hc] at h

theorem continues_readColon : Continues readColon readColon := by
  intro text u rest h more
  unfold readColon at h ⊢
  rcases hblanks : dropBlanks text with _ | ⟨c, inner⟩
  · simp [hblanks] at h
  · simp only [hblanks] at h
    simp only [dropBlanks_append hblanks more]
    split_ifs at h ⊢
    cases h
    rfl

theorem continues_nextKey (first : Bool) : Continues (nextKey first) (nextKey first) := by
  intro text b rest h more
  unfold nextKey at h ⊢
  rcases hblanks : dropBlanks text with _ | ⟨c, inner⟩
  · simp [hblanks] at h
  · simp only [hblanks] at h
    simp only [dropBlanks_append hblanks more]
    split_ifs at h ⊢
    · cases h
      rfl
    · cases h
      rfl
    · rcases hblanks' : dropBlanks inner with _ | ⟨d, inner'⟩
      · simp [hblanks'] at h
      · simp only [hblanks'] at h
        simp only [dropBlanks_append hblanks' more]
        split_ifs at h ⊢
        cases h
        rfl

/-! ### Records -/

/-- A member of a record that is read as another if more text follows. -/
structure Member.Continues (field field' : Member σ) : Prop where
  name : field'.name = field.name
  isGiven : field'.isGiven = field.isGiven
  read : ∀ draft, Json.Continues (field.read draft) (field'.read draft)

section Records

variable {members members' : List (Member σ)} {fuel fuel' : Nat} {draft draft' : σ}

/-- A name is that of a member in both lists or in none, since the members have the same names in
the same order. -/
theorem find?_continues (h : List.Forall₂ Member.Continues members members') (key : String) :
    (∃ field field', members.find? (fun field => field.name == key) = some field ∧
      members'.find? (fun field => field.name == key) = some field' ∧ field.Continues field') ∨
    members.find? (fun field => field.name == key) = none ∧
      members'.find? (fun field => field.name == key) = none := by
  induction h with
  | nil => exact .inr ⟨rfl, rfl⟩
  | @cons field field' rest rest' hfield _ ih =>
    rw [List.find?_cons, List.find?_cons, hfield.name]
    rcases field.name == key
    · exact ih
    · exact .inl ⟨field, field', rfl, rfl, hfield⟩

/-- The value of a member is read, or passed over; in the latter case something has to follow. A
number that is passed over ends where its digits do, and at the end of a text more digits might
follow. -/
theorem readMember_append (hmembers : List.Forall₂ Member.Continues members members')
    (hfuel : fuel ≤ fuel') {key : String}
    (h : readMember members fuel key draft text = .ok (draft', rest)) (hrest : rest ≠ [])
    (more : List Char) :
    readMember members' fuel' key draft (text ++ more) = .ok (draft', rest ++ more) := by
  obtain ⟨field, field', hfind, hfind', hfield⟩ | ⟨hfind, hfind'⟩ := find?_continues hmembers key
  · rw [readMember, hfind] at h
    rw [readMember, hfind']
    simp only [hfield.isGiven]
    rcases hgiven : field.isGiven draft
    · simp only [hgiven, Bool.false_eq_true, if_false] at h ⊢
      exact continues_readColon.bind (fun _ => hfield.read draft) h more
    · simp only [hgiven, if_true] at h
      cases h
  · rw [readMember, hfind] at h
    rw [readMember, hfind']
    obtain ⟨u, text', hcolon, h⟩ := exists_of_reader_bind h
    refine (bind_of_ok (continues_readColon hcolon more)).trans ?_
    rw [get_bind] at h ⊢
    rcases hskip : skipValue fuel text' with e | rest'
    · simp only [hskip] at h
      cases h
    · simp only [hskip] at h
      cases h
      simp only [passes_skipValue hfuel hskip hrest more]
      rfl

theorem ne_nil_of_readMembers {first : Bool}
    (h : readMembers members fuel first draft text = .ok (draft', rest)) : text ≠ [] := by
  rintro rfl
  cases fuel <;> cases h

/-- **The members of an object end at its closing brace**, whatever follows. The induction is on the
fuel, of which there is one unit for each member. -/
theorem continues_readMembers (hmembers : List.Forall₂ Member.Continues members members')
    (hfuel : fuel ≤ fuel') (first : Bool) (draft : σ) :
    Continues (readMembers members fuel first draft) (readMembers members' fuel' first draft) := by
  induction fuel generalizing fuel' first draft with
  | zero => exact .throw _ _
  | succ fuel ih =>
    obtain ⟨fuel', rfl⟩ := Nat.exists_eq_add_of_le' (Nat.le_trans (Nat.le_add_left 1 fuel) hfuel)
    have hle : fuel ≤ fuel' := Nat.le_of_succ_le_succ hfuel
    rw [readMembers, readMembers]
    refine (continues_nextKey first).bind fun found => ?_
    cases found with
    | false => exact .pure _
    | true =>
      refine continues_readString.bind fun key => ?_
      -- After a member that is passed over, the object goes on.
      intro text draft' rest h more
      obtain ⟨draft'', text', hmember, h⟩ := exists_of_reader_bind h
      refine (bind_of_ok (readMember_append hmembers hle hmember (ne_nil_of_readMembers h)
        more)).trans ?_
      exact ih hle false draft'' h more

theorem continues_nextItem (first : Bool) : Continues (nextItem first) (nextItem first) := by
  intro text b rest h more
  unfold nextItem at h ⊢
  rcases hblanks : dropBlanks text with _ | ⟨c, inner⟩
  · simp [hblanks] at h
  · simp only [hblanks] at h
    simp only [dropBlanks_append hblanks more]
    split_ifs at h ⊢
    · cases h
      rfl
    · cases h
      rfl
    · rcases hblanks' : dropBlanks inner with _ | ⟨d, inner'⟩
      · simp [hblanks'] at h
      · simp only [hblanks'] at h
        simp only [dropBlanks_append hblanks' more]
        split_ifs at h ⊢
        cases h
        rfl

/-- The items of an array are read in order, one for each member of the record. -/
theorem continues_readItems (hmembers : List.Forall₂ Member.Continues members members')
    (first : Bool) (draft : σ) :
    Continues (readItems members first draft) (readItems members' first draft) := by
  induction hmembers generalizing first draft with
  | nil => exact .pure _
  | cons hfield _ ih =>
    rw [readItems, readItems]
    refine (continues_nextItem first).bind fun found => ?_
    cases found with
    | false => exact .pure _
    | true => exact (hfield.read draft).bind fun draft' => ih false draft'

theorem continues_endOfItems : Continues endOfItems endOfItems := by
  intro text u rest h more
  unfold endOfItems at h ⊢
  rcases hblanks : dropBlanks text with _ | ⟨c, inner⟩
  · simp [hblanks] at h
  · simp only [hblanks] at h
    simp only [dropBlanks_append hblanks more]
    by_cases hclose : c = ']'
    · rw [if_pos hclose] at h ⊢
      cases h
      rfl
    · rw [if_neg hclose] at h
      split_ifs at h

/-- **A record ends at its closing bracket**, whatever follows, and whichever of the two ways it is
written in. -/
theorem continues_record {record record' : Record σ α}
    (hmembers : List.Forall₂ Member.Continues record.members record'.members)
    (hdraft : record'.draft = record.draft) (hfinish : record'.finish = record.finish)
    (hfuel : fuel ≤ fuel') : Continues (record.read fuel) (record'.read fuel') := by
  intro text a rest h more
  unfold Record.read at h ⊢
  rw [get_bind] at h ⊢
  rcases hblanks : dropBlanks text with _ | ⟨c, inner⟩
  · simp only [hblanks] at h
    cases h
  · by_cases hbrace : c = '\x7b'
    · subst hbrace
      simp only [hblanks] at h
      simp only [dropBlanks_append hblanks more]
      rw [set_bind] at h ⊢
      rw [hdraft, hfinish]
      refine (continues_readMembers hmembers hfuel true record.draft).bind (fun draft => ?_) h more
      rcases record.finish draft with name | a
      · exact .throw _ _
      · exact .pure a
    · by_cases hbracket : c = '['
      · subst hbracket
        simp only [hblanks] at h
        simp only [dropBlanks_append hblanks more]
        rw [set_bind] at h ⊢
        rw [hdraft, hfinish]
        refine (continues_readItems hmembers true record.draft).bind (fun draft => ?_) h more
        rcases record.finish draft with name | a
        · exact .throw _ _
        · exact continues_endOfItems.bind fun _ => .pure a
      · simp [hblanks, hbrace, hbracket] at h
        cases h

end Records

end StackUnits.Json

namespace StackUnits

open Json

/-! ### Trees -/

theorem Kind.continues_readName : Continues Kind.readName Kind.readName := by
  refine continues_readString.bind fun name => ?_
  rcases Kind.ofWritten name with e | kind
  · exact .throw _ _
  · exact .pure kind

theorem Kind.continues_readNull : Continues Kind.readNull Kind.readNull := by
  intro text u rest h more
  unfold Kind.readNull at h ⊢
  rcases hblanks : dropBlanks text with _ | ⟨c, inner⟩
  · simp [hblanks] at h
  · by_cases hc : c = 'n'
    · subst hc
      simp only [hblanks] at h
      simp only [dropBlanks_append hblanks more]
      rcases hword : word ['u', 'l', 'l'] inner with e | rest'
      · simp [hword] at h
      · simp only [hword] at h
        cases h
        simp only [word_append hword more]
    · simp [hblanks, hc] at h

theorem Kind.continues_readObject : Continues Kind.readObject Kind.readObject := by
  refine (continues_nextKey true).bind fun found => ?_
  cases found with
  | false => exact .throw _ _
  | true =>
    refine Kind.continues_readName.bind fun kind => continues_readColon.bind fun _ =>
      Kind.continues_readNull.bind fun _ => ?_
    intro text kind' rest h more
    rw [get_bind] at h ⊢
    rcases hblanks : dropBlanks text with _ | ⟨c, inner⟩
    · simp only [hblanks] at h
      cases h
    · simp only [hblanks] at h
      simp only [dropBlanks_append hblanks more]
      by_cases hbrace : c = '\x7d'
      · rw [if_neg (not_not_intro hbrace)] at h ⊢
        cases h
        rfl
      · rw [if_pos hbrace] at h
        cases h

/-- A kind is read as a name or as an object, whatever follows. -/
theorem Kind.continues_read : Continues Kind.read Kind.read := by
  intro text kind rest h more
  unfold Kind.read at h ⊢
  rw [get_bind] at h ⊢
  rcases hblanks : dropBlanks text with _ | ⟨c, inner⟩
  · simp only [hblanks] at h
    cases h
  · by_cases hquote : c = '"'
    · subst hquote
      simp only [hblanks] at h
      simp only [dropBlanks_append hblanks more]
      rw [set_bind] at h ⊢
      exact Kind.continues_readName h more
    · by_cases hbrace : c = '\x7b'
      · subst hbrace
        simp only [hblanks] at h
        simp only [dropBlanks_append hblanks more]
        rw [set_bind] at h ⊢
        exact Kind.continues_readObject h more
      · simp [hblanks, hquote, hbrace] at h
        cases h

namespace Tree

/-- The members of a node are read as if nothing followed, if its children are. -/
theorem continues_members {child child' : Reader Tree} (h : Continues child child')
    (hnil : ∀ found, child [] ≠ .ok found) :
    List.Forall₂ Member.Continues (record child).members (record child').members := by
  refine .cons ⟨rfl, rfl, fun draft => ?_⟩ (.cons ⟨rfl, rfl, fun draft => ?_⟩
    (.cons ⟨rfl, rfl, fun draft => ?_⟩ (.cons ⟨rfl, rfl, fun draft => ?_⟩ .nil)))
  · exact Kind.continues_read.bind fun _ => .pure _
  · refine (continues_readOptional (continues_readText .string) ?_).bind fun _ => .pure _
    rintro found ⟨⟩
  · exact (continues_readOptional h hnil).bind fun _ => .pure _
  · exact (continues_readOptional h hnil).bind fun _ => .pure _

/-- There is no tree at the end of a text. -/
theorem read_nil (fuel : Nat) (found : Tree × List Char) : read fuel [] ≠ .ok found := by
  cases fuel <;> rintro ⟨⟩

/-- **A tree ends where it ends**, whatever follows. Fuel is spent on children, so that the
induction is on the fuel and takes a reader of children to a reader of trees. -/
theorem continues_read {fuel fuel' : Nat} (hfuel : fuel ≤ fuel') :
    Continues (read fuel) (read fuel') := by
  induction fuel generalizing fuel' with
  | zero => exact .throw _ _
  | succ fuel ih =>
    obtain ⟨fuel', rfl⟩ := Nat.exists_eq_add_of_le' (Nat.le_trans (Nat.le_add_left 1 fuel) hfuel)
    have hle : fuel ≤ fuel' := Nat.le_of_succ_le_succ hfuel
    exact continues_record (continues_members (ih hle) (read_nil fuel)) rfl rfl hle

/-- The text of a tree ends with a brace. So a proper beginning of it, even one that lacks the brace
only, is not blank where it is cut off. -/
theorem Spells.getLast?_eq {t : Tree} {text : List Char} (h : t.Spells text) :
    text.getLast? = some '\x7d' := by
  obtain ⟨tag, left, right⟩ := t
  obtain ⟨-, -, hmembers⟩ := spells_node.1 h
  rw [List.getLast?_cons, hmembers.getLast?_eq]
  rfl

/-- What is written for a tree is one of its texts: the one with all members in order and an
indentation of two blanks. -/
theorem spells_toJson (t : Tree) : t.Spells t.toJson.toList := by
  obtain ⟨text, hspells, heq⟩ := prepends_jsonBefore t 0 []
  rwa [toJson, String.toList_ofList, heq, List.append_nil]

/-- A text denotes a tree if the tree is read from it and only blanks are left. -/
theorem ofJson_eq_ok_iff {text : String} {t : Tree} :
    ofJson text = .ok t ↔
      ∃ rest, read (text.toList.length + 1) text.toList = .ok (t, rest) ∧ AllBlank rest := by
  simp only [ofJson, parse]
  rcases read (text.toList.length + 1) text.toList with e | ⟨t', rest⟩
  · simp
  · by_cases hrest : AllBlank rest
    · simp [hrest.dropBlanks_eq_nil, hrest]
    · simp [hrest, mt dropBlanks_eq_nil_iff.1 hrest]

/-- **A text that denotes a tree goes on with blanks only**: with these behind it, it denotes the
same tree, and with anything else it denotes none. The text need not be one that was written here:
every text that is accepted will do. -/
theorem ofJson_append_iff {text : String} {t : Tree} (h : ofJson text = .ok t) {more : String}
    {t' : Tree} : ofJson (text ++ more) = .ok t' ↔ t' = t ∧ AllBlank more.toList := by
  obtain ⟨rest, hread, hrest⟩ := ofJson_eq_ok_iff.1 h
  have hfuel : text.toList.length + 1 ≤ (text.toList ++ more.toList).length + 1 := by
    rw [List.length_append]
    omega
  rw [ofJson_eq_ok_iff, String.toList_append, continues_read hfuel hread more.toList]
  constructor
  · rintro ⟨rest', hfound, hblank⟩
    cases hfound
    exact ⟨rfl, fun c hc => hblank c (List.mem_append_right _ hc)⟩
  · rintro ⟨rfl, hmore⟩
    refine ⟨_, rfl, fun c hc => ?_⟩
    rcases List.mem_append.1 hc with hc | hc
    · exact hrest c hc
    · exact hmore c hc

/-- **The text of a tree is one value.** What is written for a tree cannot be read if it is cut off
anywhere; with something behind it, it is read as the tree if that is blank, and not at all
otherwise.

The first part follows from the second: if a proper beginning denoted a tree, what was cut off would
be blank, but it ends with a brace. -/
theorem toJson_oneValue (t : Tree) :
    (∀ start cut : String, start ++ cut = t.toJson → cut ≠ "" →
      ∃ problem, ofJson start = .error problem) ∧
    ∀ (more : String) (t' : Tree),
      ofJson (t.toJson ++ more) = .ok t' ↔ t' = t ∧ AllBlank more.toList := by
  have hspells := spells_toJson t
  have hwhole : ofJson t.toJson = .ok t := by
    have hread := ofJson_of_spells hspells allBlank_nil allBlank_nil
    rwa [List.nil_append, List.append_nil, String.ofList_toList] at hread
  refine ⟨fun start cut hstart hcut => ?_, fun more t' => ofJson_append_iff hwhole⟩
  rcases hread : ofJson start with problem | t'
  · exact ⟨problem, rfl⟩
  -- What is cut off would be blank, but it has the last brace in it.
  · rw [← hstart] at hwhole
    have hblank : AllBlank cut.toList := ((ofJson_append_iff hread).1 hwhole).2
    have hlast : cut.toList.getLast? = some '\x7d' := by
      have hbrace := hspells.getLast?_eq
      rwa [← hstart, String.toList_append, List.getLast?_append_of_ne_nil _
        (mt String.toList_eq_nil_iff.1 hcut)] at hbrace
    have hbrace := hblank _ (List.mem_of_getLast? hlast)
    cases hbrace

/-- The text of a tree with one node, cut off within a string, with blanks behind it, and with a
second brace behind it. -/
theorem toJson_oneValue_block :
    "\x7b\n  \"kind\": \"blo" ++ "ck\"\n\x7d" = (node ⟨.block, none⟩ none none).toJson ∧
    (∃ problem, ofJson "\x7b\n  \"kind\": \"blo" = .error problem) ∧
    ofJson ((node ⟨.block, none⟩ none none).toJson ++ "\r\n") =
      .ok (node ⟨.block, none⟩ none none) ∧
    ∀ t', ofJson ((node ⟨.block, none⟩ none none).toJson ++ "\x7d") ≠ .ok t' := by
  have htext : "\x7b\n  \"kind\": \"blo" ++ "ck\"\n\x7d" =
      (node ⟨.block, none⟩ none none).toJson := by
    decide +kernel
  obtain ⟨hcut, hmore⟩ := toJson_oneValue (node ⟨.block, none⟩ none none)
  refine ⟨htext, hcut _ _ htext (by decide), (hmore _ _).2 ⟨rfl, by decide⟩, fun t' hread => ?_⟩
  exact absurd ((hmore _ _).1 hread).2 (by decide)

end Tree

end StackUnits
