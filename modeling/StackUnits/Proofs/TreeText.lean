import Mathlib.Data.List.Nodup
import StackUnits.Proofs.Spelling
import StackUnits.Tree.Printer
import StackUnits.Tree.Reader

/-!
# The texts of a tree

A tree has many texts (`StackUnits.Tree.Spells`): a node is an object with its kind and with the
members that it has, in any order; a member that it has not is left out or `null`; and blanks and
escapes are free. Two facts are proved by induction on the tree:

* **every text of a tree is read as the tree** (`StackUnits.Tree.read_of_spells`), whatever comes
  after it. The fuel of the reader runs out no sooner than the text, since a child has a shorter
  text than its parent;
* **what is written for a tree is one of its texts** (`StackUnits.Tree.prepends_jsonBefore`), at
  every level of indentation.

So a tree that is written and read again is the same tree (`StackUnits.Tree.ofJson_toJson`), and a
tree can be read from any layout of it (`StackUnits.Tree.ofJson_of_laidOut`).
-/

namespace StackUnits

open Json

/-! ### Spellings of a tree -/

/-- **A member of a node.** -/
inductive NodeField
  | kind
  | value
  | left
  | right
  deriving DecidableEq

/-- The name of a member. -/
def NodeField.name : NodeField → String
  | kind => "kind"
  | value => "value"
  | left => "left"
  | right => "right"

namespace Tree

/-- Whether a node has a member. -/
def hasField {α : Type} (tag : Tag) (left right : Option α) : NodeField → Bool
  | .kind => true
  | .value => tag.value.isSome
  | .left => left.isSome
  | .right => right.isSome

/-- The spellings of the members of a node, given those of its children. -/
def SpellsField (tag : Tag) (left right : Option (List Char → Prop)) :
    NodeField → List Char → Prop
  | .kind => SpellsString tag.kind.name
  | .value => SpellsOptional (tag.value.map SpellsString)
  | .left => SpellsOptional left
  | .right => SpellsOptional right

/-- **The spellings of a node**, given those of its children: an object with the members that it
has, in any order, and perhaps with some that it has not, as `null`. -/
inductive SpellsNode (tag : Tag) (left right : Option (List Char → Prop)) : List Char → Prop
  | object {fields : List NodeField} {text : List Char} (hnodup : fields.Nodup)
      (hfields : ∀ f, hasField tag left right f = true → f ∈ fields)
      (hmembers : SpellsMembers NodeField.name (SpellsField tag left right) true fields text) :
      SpellsNode tag left right ('\x7b' :: text)

/-- **The spellings of a tree.** -/
def Spells : Tree → List Char → Prop
  | .node tag left right =>
    SpellsNode tag (match left with | some l => some l.Spells | none => none)
      (match right with | some r => some r.Spells | none => none)

variable {tag : Tag} {left right : Option Tree} {text : List Char}

/-- The spellings of a node are those of its members, in any order. -/
theorem spells_node :
    (node tag left right).Spells text ↔
      SpellsNode tag (left.map Spells) (right.map Spells) text := by
  cases left <;> cases right <;> exact Iff.rfl

/-- The text of a tree begins with a brace, and so does not look like `null`. -/
theorem Spells.exists_cons {t : Tree} (h : t.Spells text) : ∃ inner, text = '\x7b' :: inner := by
  obtain ⟨tag, left, right⟩ := t
  obtain ⟨-, -, -⟩ := spells_node.1 h
  exact ⟨_, rfl⟩

/-! ### Reading -/

/-- What has been read of a node after the given members. -/
def draftOf (tag : Tag) (left right : Option Tree) (done : List NodeField) : NodeDraft where
  kind := if .kind ∈ done then some tag.kind else none
  value := if .value ∈ done then some tag.value else none
  left := if .left ∈ done then some left else none
  right := if .right ∈ done then some right else none

/-- A reader reads every text of a tree below a size. -/
def ReadBy (read : Reader Tree) (size : Nat) (t : Tree) : Prop :=
  ∀ {text}, t.Spells text → text.length < size →
    ∀ rest, read (text ++ rest) = .ok (t, rest)

/-- A child that may be absent is read. It may be left out or be `null`, which are the same to the
reader. -/
theorem readOptional_of_spells {child : Reader Tree} {size : Nat} {o : Option Tree}
    (ho : ∀ t, o = some t → t.ReadBy child size) (h : SpellsOptional (o.map Spells) text)
    (hsize : text.length < size) {blanks : List Char} (hblanks : AllBlank blanks)
    (rest : List Char) :
    readOptional child (blanks ++ (text ++ rest)) = .ok (o, rest) := by
  refine h.readOptional_eq (fun t ht hspells => ?_) hblanks
  obtain ⟨inner, heq⟩ := hspells.exists_cons
  refine ⟨'\x7b', inner ++ rest, by rw [heq]; rfl, rfl, by decide, ?_⟩
  have hread := ho t ht hspells hsize rest
  rwa [heq] at hread

/-- The name of a kind is read as the kind, since different kinds have different names. -/
theorem readKind_of_spells {kind : Kind} (h : SpellsString kind.name text) {blanks : List Char}
    (hblanks : AllBlank blanks) (rest : List Char) :
    Kind.read (blanks ++ (text ++ rest)) = .ok (kind, rest) := by
  obtain ⟨inner, heq, hread⟩ := h.readString_eq rest
  rw [heq]
  refine (get_bind _ _).trans ?_
  rw [hblanks.dropBlanks_eq rfl]
  refine (set_bind _ _ _).trans ((bind_of_ok hread).trans ?_)
  rw [Kind.ofWritten, Kind.ofName?_name]
  rfl

/-- **The members of a node are read as they are spelled**, if its children are. The size bounds the
text of a child, which is shorter than that of the node. -/
theorem accepts_record {child : Reader Tree} {size : Nat}
    (hleft : ∀ l, left = some l → l.ReadBy child size)
    (hright : ∀ r, right = some r → r.ReadBy child size) :
    Accepts (record child).members NodeField.name
      (SpellsField tag (left.map Spells) (right.map Spells)) (draftOf tag left right) size := by
  intro f
  cases f with
  | kind =>
    refine ⟨_, rfl, fun done hnew => ⟨by simp [draftOf, hnew], ?_⟩⟩
    intro blanks text rest hblanks hvalue _
    have hread := readKind_of_spells hvalue hblanks rest
    refine (bind_of_ok hread).trans (pure_of_eq ?_ rest)
    simp [draftOf]
  | value =>
    refine ⟨_, rfl, fun done hnew => ⟨by simp [draftOf, hnew], ?_⟩⟩
    intro blanks text rest hblanks hvalue _
    have hread : readOptional (readText .string) (blanks ++ (text ++ rest)) =
        .ok (tag.value, rest) := by
      refine hvalue.readOptional_eq (fun s _ hspells => ?_) hblanks
      obtain ⟨inner, heq, -⟩ := hspells.readString_eq rest
      refine ⟨_, inner, heq, rfl, by decide, ?_⟩
      rw [← heq]
      exact hspells.readText_eq allBlank_nil .string rest
    refine (bind_of_ok hread).trans (pure_of_eq ?_ rest)
    simp [draftOf]
  | left =>
    refine ⟨_, rfl, fun done hnew => ⟨by simp [draftOf, hnew], ?_⟩⟩
    intro blanks text rest hblanks hvalue hsize
    have hread := readOptional_of_spells hleft hvalue hsize hblanks rest
    refine (bind_of_ok hread).trans (pure_of_eq ?_ rest)
    simp [draftOf]
  | right =>
    refine ⟨_, rfl, fun done hnew => ⟨by simp [draftOf, hnew], ?_⟩⟩
    intro blanks text rest hblanks hvalue hsize
    have hread := readOptional_of_spells hright hvalue hsize hblanks rest
    refine (bind_of_ok hread).trans (pure_of_eq ?_ rest)
    simp [draftOf]

theorem hasField_map {α β : Type} (g : α → β) {left right : Option α} :
    hasField tag (left.map g) (right.map g) = hasField tag left right := by
  funext f
  cases f <;> simp [hasField]

/-- A node of which all members are read is finished. Members that are absent need not have been
seen. -/
theorem finish_draftOf (child : Reader Tree) {fields : List NodeField}
    (h : ∀ f, hasField tag left right f = true → f ∈ fields) :
    (record child).finish (draftOf tag left right fields) = .ok (node tag left right) := by
  have hjoin : ∀ {α : Type} {o : Option α} {f : NodeField}, (o.isSome = true → f ∈ fields) →
      (if f ∈ fields then some o else none).join = o := by
    intro α o f hf
    rcases o with _ | a
    · split <;> rfl
    · rw [if_pos (hf rfl)]
      rfl
  simp [record, draftOf, h .kind rfl, hjoin (h .value), hjoin (h .left), hjoin (h .right)]

/-- **Every text of a tree is read as the tree**, with blanks before it and anything after it. By
induction on the tree; the fuel has to be more than the length of the text. -/
theorem read_of_spells {t : Tree} {fuel : Nat} (h : t.Spells text) (hfuel : text.length < fuel)
    {blanks : List Char} (hblanks : AllBlank blanks) (rest : List Char) :
    read fuel (blanks ++ (text ++ rest)) = .ok (t, rest) := by
  induction t generalizing text fuel blanks rest with
  | node tag left right ihl ihr =>
    obtain @⟨fields, inner, hnodup, hfields, hmembers⟩ := spells_node.1 h
    obtain _ | fuel := fuel
    · exact (Nat.not_lt_zero _ hfuel).elim
    have hshorter : inner.length < fuel := by
      rw [List.length_cons] at hfuel
      omega
    have hlength := hmembers.length_lt
    -- A child has a shorter text still, so the fuel that is left is enough for it.
    have haccepts : Accepts (record (read fuel)).members NodeField.name
        (SpellsField tag (left.map Spells) (right.map Spells)) (draftOf tag left right) fuel :=
      accepts_record (fun l hl _ hspells hsize => ihl l hl hspells hsize allBlank_nil)
        (fun r hr _ hspells hsize => ihr r hr hspells hsize allBlank_nil)
    have hnodup' : (fields.reverse ++ []).Nodup := by
      rwa [List.append_nil, List.nodup_reverse]
    refine Record.read_of_members hblanks
      (hmembers.readMembers_eq haccepts hnodup' (by omega) (by omega) rest) ?_
    rw [List.append_nil]
    refine finish_draftOf (read fuel) fun f hf => List.mem_reverse.2 (hfields f ?_)
    rwa [hasField_map]

/-- **A text denotes the trees that it spells**, with blanks around it. So it spells one tree at
most. -/
theorem ofJson_of_spells {t : Tree} (h : t.Spells text) {blanks blanks' : List Char}
    (hblanks : AllBlank blanks) (hblanks' : AllBlank blanks') :
    ofJson (String.ofList (blanks ++ (text ++ blanks'))) = .ok t := by
  have hread := read_of_spells h
    (show text.length < (blanks ++ (text ++ blanks')).length + 1 by
      simp only [List.length_append]
      omega) hblanks blanks'
  rw [ofJson, parse, String.toList_ofList]
  simp only [hread, hblanks'.dropBlanks_eq_nil, List.isEmpty_nil, if_true]

/-! ### Writing -/

theorem prepends_lineBefore (level : Nat) : Prepends AllBlank (lineBefore level) := by
  intro rest
  refine ⟨'\n' :: List.replicate (2 * level) ' ', ?_, rfl⟩
  intro c hc
  rcases List.mem_cons.1 hc with rfl | hc
  · rfl
  · obtain ⟨-, rfl⟩ := List.mem_replicate.1 hc
    rfl

/-- A line break, with a comma before it or not, stands before a member. -/
theorem prepends_break (level : Nat) :
    Prepends (SpellsBreak true) (lineBefore level) ∧
      Prepends (SpellsBreak false) fun rest => ',' :: lineBefore level rest := by
  constructor
  · intro rest
    obtain ⟨blanks, hblanks, heq⟩ := prepends_lineBefore level rest
    exact ⟨blanks, .start hblanks, heq⟩
  · intro rest
    obtain ⟨blanks, hblanks, heq⟩ := prepends_lineBefore level rest
    exact ⟨_, .comma allBlank_nil hblanks, congrArg _ heq⟩

/-- A member of a node in front of what follows, if it is there. -/
def memberBefore {α : Type} (level : Nat) (f : NodeField) (write : α → List Char → List Char)
    (o : Option α) (rest : List Char) : List Char :=
  o.elim rest fun a => ',' :: nameBefore level f.name (write a rest)

/-- The text of a node, member by member, each in front of what follows it. -/
theorem jsonBefore_node (level : Nat) (rest : List Char) :
    (node tag left right).jsonBefore level rest =
      '\x7b' :: nameBefore (level + 1) "kind" (quoteBefore tag.kind.name
        (memberBefore (level + 1) .value quoteBefore tag.value
          (memberBefore (level + 1) .left (jsonBefore (level + 1)) left
            (memberBefore (level + 1) .right (jsonBefore (level + 1)) right
              (lineBefore level ('\x7d' :: rest)))))) := by
  obtain ⟨kind, value⟩ := tag
  cases value <;> cases left <;> cases right <;> rfl

/-- **A member is written if it is there**: what is listed is what the node has. Members that are
not there are left out, and not written as `null`. -/
theorem prepends_memberBefore {α : Type} {has : NodeField → Bool}
    {value : NodeField → List Char → Prop} {fs : List NodeField} {o : Option α}
    {write : α → List Char → List Char} {ending : List Char → List Char} (level : Nat)
    (f : NodeField) (hhas : has f = o.isSome)
    (hwrite : ∀ a, o = some a → Prepends (value f) (write a))
    (hending : Prepends (SpellsMembers NodeField.name value false (fs.filter has)) ending) :
    Prepends (SpellsMembers NodeField.name value false ((f :: fs).filter has)) fun rest =>
      memberBefore level f write o (ending rest) := by
  rcases o with _ | a
  · rw [List.filter_cons_of_neg (by simp [hhas])]
    exact hending
  · rw [List.filter_cons_of_pos (by simp [hhas])]
    exact prepends_member (prepends_break level).2 (hwrite a rfl) hending

/-- **A tree is written in one of its spellings**, at every level. By induction on the tree, whose
children are written one level further in. -/
theorem prepends_jsonBefore (t : Tree) (level : Nat) : Prepends t.Spells (t.jsonBefore level) := by
  induction t generalizing level with
  | node tag left right ihl ihr =>
    have hend : Prepends (SpellsMembers NodeField.name
        (SpellsField tag (left.map Spells) (right.map Spells)) false
        ([].filter (hasField tag left right))) fun rest => lineBefore level ('\x7d' :: rest) := by
      intro rest
      obtain ⟨blanks, hblanks, heq⟩ := prepends_lineBefore level ('\x7d' :: rest)
      exact ⟨_, .done hblanks, heq.trans (by rw [List.append_assoc]; rfl)⟩
    have hright := prepends_memberBefore (level + 1) .right rfl
      (fun r hr => by subst hr; exact ihr r rfl (level + 1)) hend
    have hleft := prepends_memberBefore (level + 1) .left rfl
      (fun l hl => by subst hl; exact ihl l rfl (level + 1)) hright
    have hvalue := prepends_memberBefore (level + 1) .value rfl
      (fun s hs => by rw [SpellsField, hs]; exact prepends_quoteBefore s) hleft
    intro rest
    have hkind := prepends_member (f := .kind) (prepends_break (level + 1)).1
      (prepends_quoteBefore tag.kind.name) hvalue
    obtain ⟨text, hmembers, heq⟩ := hkind rest
    -- What is listed are the members that the node has.
    have hnodup : ([.kind, .value, .left, .right].filter (hasField tag left right)).Nodup :=
      List.Nodup.filter _ (by decide)
    have hlisted : ∀ f, hasField tag left right f = true →
        f ∈ [.kind, .value, .left, .right].filter (hasField tag left right) := by
      intro f hf
      refine List.mem_filter.2 ⟨?_, hf⟩
      cases f <;> decide
    refine ⟨'\x7b' :: text, spells_node.2 (.object hnodup ?_ hmembers), ?_⟩
    · rwa [hasField_map]
    · rw [jsonBefore_node]
      exact congrArg _ heq

/-- **A tree that is written and read again is the same tree**, since it is written in one of its
spellings.

The tree need not be a program that makes sense. Texts in it may have any characters, and are
escaped where that is needed. -/
theorem ofJson_toJson (t : Tree) : ofJson t.toJson = .ok t := by
  obtain ⟨text, hspells, heq⟩ := prepends_jsonBefore t 0 []
  have hread := ofJson_of_spells hspells allBlank_nil allBlank_nil
  rwa [List.nil_append, ← heq] at hread

end Tree

/-! ### Layouts -/

namespace Json

/-- Whether a character can be written as it is. -/
def isPlain (c : Char) : Bool :=
  c ≠ '"' ∧ c ≠ '\\' ∧ 0x20 ≤ c.toNat

/-- Characters that can be written as they are spell themselves. -/
theorem spellsChars_self {chars : List Char} (h : chars.all isPlain = true) :
    SpellsChars chars chars := by
  induction chars with
  | nil => exact .nil
  | cons c chars ih =>
    rw [List.all_cons, Bool.and_eq_true, isPlain, decide_eq_true_iff] at h
    obtain ⟨⟨hquote, hbackslash, hcontrol⟩, hrest⟩ := h
    exact .cons (.plain hquote hbackslash hcontrol) (ih hrest)

theorem SpellsChars.quoted {s : String} {chars text : List Char} (h : SpellsChars chars text)
    (hs : s.toList = chars) : SpellsString s ('"' :: (text ++ ['"'])) := by
  subst hs
  exact .quoted h

theorem spellsString_self (s : String) (h : s.toList.all isPlain = true) :
    SpellsString s ('"' :: (s.toList ++ ['"'])) :=
  (spellsChars_self h).quoted rfl

end Json

namespace Tree

/-- **A layout of a tree**: one of its spellings, with blanks around it. -/
def LaidOut (t : Tree) (text : String) : Prop :=
  ∃ before spelling after, AllBlank before ∧ t.Spells spelling ∧ AllBlank after ∧
    text.toList = before ++ (spelling ++ after)

/-- **The layout of a text does not matter**: from every layout of a tree, the tree is read. Layouts
differ in blanks, in the order of the members, in the spelling of strings, and in whether absent
members are left out.

The layouts are those of the language and not those that the writer has, so that this is about texts
from elsewhere as well. A text with further members, which are passed over, is no layout here. -/
theorem ofJson_of_laidOut {t : Tree} {text : String} (h : t.LaidOut text) :
    ofJson text = .ok t := by
  obtain ⟨before, spelling, after, hbefore, hspells, hafter, htext⟩ := h
  have hread := ofJson_of_spells hspells hbefore hafter
  rwa [← htext, String.ofList_toList] at hread

/-- A node with a text and a left child. -/
def smile : Tree :=
  .node ⟨.literalString, some "😀/"⟩ (some (.node ⟨.block, none⟩ none none)) none

/-- A text of `StackUnits.Tree.smile` that differs from what is written for it in the order of the
members, in a member that is `null`, in the blanks, and in the escapes. -/
def smileText : String :=
  " \x7b\"right\" :null,\n\"value\":\"\\ud83D\\ude00\\/\","
    ++ "\"left\":\x7b\"kind\":\"block\"\x7d,\"\\u006bind\":\"literal-string\"\t\x7d\r"

theorem laidOut_smile : smile.LaidOut smileText := by
  have hface : SpellsChar '😀'
      (['\\', 'u', 'd', '8', '3', 'D'] ++ ['\\', 'u', 'd', 'e', '0', '0']) :=
    @SpellsChar.pair _ 0x3D 0x200 _ _ (by decide) (by decide) (by decide)
      (.digits rfl rfl rfl rfl rfl) (.digits rfl rfl rfl rfl rfl)
  have hslash : SpellsChar '/' ['\\', '/'] := .short (by decide)
  have hletter : SpellsChar 'k' ['\\', 'u', '0', '0', '6', 'b'] :=
    .code (.digits rfl rfl rfl rfl rfl)
  have hvalue : SpellsString "😀/" _ :=
    (SpellsChars.cons hface (.cons hslash .nil)).quoted (by decide)
  have hplain : "ind".toList.all isPlain = true := by decide
  have hkind : SpellsString "kind" _ :=
    (SpellsChars.cons hletter (spellsChars_self hplain)).quoted (by decide)
  have hinner : SpellsMembers NodeField.name (SpellsField ⟨.block, none⟩ none none) true
      [.kind] _ :=
    .member (.start allBlank_nil) (spellsString_self "kind" (by decide)) allBlank_nil
      allBlank_nil (spellsString_self "block" (by decide)) (.done allBlank_nil)
  have houter : SpellsMembers NodeField.name
      (SpellsField ⟨.literalString, some "😀/"⟩ (some (node ⟨.block, none⟩ none none).Spells) none)
      true [.right, .value, .left, .kind] _ :=
    .member (.start allBlank_nil) (spellsString_self "right" (by decide)) allBlank_space
      allBlank_nil rfl
      (.member (.comma allBlank_nil (by decide : AllBlank ['\n']))
        (spellsString_self "value" (by decide)) allBlank_nil allBlank_nil hvalue
        (.member (.comma allBlank_nil allBlank_nil) (spellsString_self "left" (by decide))
          allBlank_nil allBlank_nil
          (SpellsNode.object (List.nodup_singleton _) (by rintro ⟨⟩ <;> simp [hasField]) hinner)
          (.member (.comma allBlank_nil allBlank_nil) hkind allBlank_nil allBlank_nil
            (spellsString_self "literal-string" (by decide))
            (.done (by decide : AllBlank ['\t'])))))
  exact ⟨[' '], _, ['\r'], allBlank_space,
    SpellsNode.object (by decide) (by rintro ⟨⟩ <;> simp [hasField]) houter, by decide,
    by decide +kernel⟩

theorem ofJson_of_laidOut_smile : smile.LaidOut smileText ∧ ofJson smileText = .ok smile :=
  ⟨laidOut_smile, ofJson_of_laidOut laidOut_smile⟩

end Tree

end StackUnits
