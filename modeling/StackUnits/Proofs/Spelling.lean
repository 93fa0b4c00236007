import Mathlib.Tactic.SplitIfs
import StackUnits.Json.Quoted
import StackUnits.Json.Record

/-!
# Spellings of a JSON text

One value has many texts: blanks go between the pieces, the members of an object come in any
order, and a character of a string can be written as it is or escaped, in one of several ways.
This file says which texts a string has and which texts an object has, without a word about how
they are read, and then that they are read.

* `StackUnits.Json.SpellsString` – the **spellings of a string**, character by character
  (`StackUnits.Json.SpellsChar`). Reading any of them gives the string
  (`StackUnits.Json.SpellsString.readString_eq`), and what is written is one of them
  (`StackUnits.Json.prepends_quoteBefore`);
* `StackUnits.Json.SpellsMembers` – the **spellings of the members of an object**, given the
  name and the spellings of each. The reader of a record goes through them one at a time
  (`StackUnits.Json.SpellsMembers.readMembers_eq`), with a draft that is known from the members
  read before (`StackUnits.Json.Accepts`).
-/

namespace StackUnits.Json

/-! ### Blanks -/

/-- A text of blanks only. -/
def AllBlank (text : List Char) : Prop :=
  ∀ c ∈ text, isBlank c = true

instance : DecidablePred AllBlank :=
  fun _ => decidable_of_iff _ List.all_eq_true

theorem allBlank_nil : AllBlank [] :=
  fun _ hc => (List.not_mem_nil hc).elim

theorem allBlank_space : AllBlank [' '] := by
  simp [AllBlank, isBlank]

/-- Blanks are passed over, up to a character that is none. -/
theorem AllBlank.dropBlanks_eq {blanks : List Char} (h : AllBlank blanks) {c : Char}
    (hc : isBlank c = false) (rest : List Char) :
    dropBlanks (blanks ++ c :: rest) = c :: rest := by
  rw [dropBlanks, List.dropWhile_append_of_pos h, List.dropWhile_cons_of_neg (by simp [hc])]

/-- Nothing is left after blanks. -/
theorem AllBlank.dropBlanks_eq_nil {blanks : List Char} (h : AllBlank blanks) :
    dropBlanks blanks = [] := by
  rw [dropBlanks, ← List.append_nil blanks, List.dropWhile_append_of_pos h, List.dropWhile_nil]

/-! ### Characters -/

/-- The letters that follow a backslash, with the characters they stand for. -/
def shortEscapes : List (Char × Char) :=
  [('"', '"'), ('\\', '\\'), ('/', '/'), ('b', '\x08'), ('f', '\x0c'), ('n', '\n'), ('r', '\r'),
    ('t', '\t')]

/-- **A number of sixteen bits as an escape**: four hexadecimal digits, of either case. -/
inductive SpellsCode : Nat → List Char → Prop
  | digits {c₁ c₂ c₃ c₄ : Char} {d₁ d₂ d₃ d₄ n : Nat} (h₁ : hexValue? c₁ = some d₁)
      (h₂ : hexValue? c₂ = some d₂) (h₃ : hexValue? c₃ = some d₃) (h₄ : hexValue? c₄ = some d₄)
      (hn : n = 0x1000 * d₁ + 0x100 * d₂ + 0x10 * d₃ + d₄) :
      SpellsCode n ['\\', 'u', c₁, c₂, c₃, c₄]

/-- **The spellings of a character** in a string. -/
inductive SpellsChar : Char → List Char → Prop
  /-- As it is, unless it is a quotation mark, a backslash or a control character. -/
  | plain {c : Char} (hquote : c ≠ '"') (hbackslash : c ≠ '\\') (hcontrol : 0x20 ≤ c.toNat) :
      SpellsChar c [c]
  /-- By a backslash and a letter. -/
  | short {c letter : Char} (h : (letter, c) ∈ shortEscapes) : SpellsChar c ['\\', letter]
  /-- By its number. -/
  | code {c : Char} {text : List Char} (h : SpellsCode c.toNat text) : SpellsChar c text
  /-- By the two halves of a surrogate pair, if its number has more than sixteen bits. -/
  | pair {c : Char} {high low : Nat} {text text' : List Char} (hhigh : high < 0x400)
      (hlow : low < 0x400) (hc : c.toNat = 0x10000 + 0x400 * high + low)
      (h : SpellsCode (0xD800 + high) text) (h' : SpellsCode (0xDC00 + low) text') :
      SpellsChar c (text ++ text')

section Reading

variable {sofar : String} {rest text : List Char} {n : Nat} {state : Escape} {ends : Option Char}

/-- The letters that stand for a character are told from the one that announces digits. -/
theorem escaped?_of_mem {c letter : Char} (h : (letter, c) ∈ shortEscapes) :
    letter ≠ 'u' ∧ escaped? letter = some c := by
  have hall : ∀ entry ∈ shortEscapes, entry.1 ≠ 'u' ∧ escaped? entry.1 = some entry.2 := by decide
  exact hall _ h

/-- A character is not half of a surrogate pair, so that a code that is one is never taken for a
character. -/
theorem not_surrogate (c : Char) : isLead c.toNat = false ∧ isTrail c.toNat = false := by
  have hvalid : c.toNat < 0xD800 ∨ 0xDFFF < c.toNat ∧ c.toNat < 0x110000 := c.valid
  simp only [isLead, isTrail, Bool.and_eq_false_iff, decide_eq_false_iff_not]
  omega

/-- Four digits are read, and then what they lead to counts: a character, or the first half of a
pair. -/
theorem stringFrom_digits {lead : Option Nat} {c₁ c₂ c₃ c₄ : Char} {d₁ d₂ d₃ d₄ : Nat}
    (h₁ : hexValue? c₁ = some d₁) (h₂ : hexValue? c₂ = some d₂) (h₃ : hexValue? c₃ = some d₃)
    (h₄ : hexValue? c₄ = some d₄)
    (hends : endOfDigits false lead (0x1000 * d₁ + 0x100 * d₂ + 0x10 * d₃ + d₄) =
      .ok (state, ends)) :
    stringFrom false (.digits 4 0 lead) sofar (c₁ :: c₂ :: c₃ :: c₄ :: rest) =
      stringFrom false state (ends.elim sofar sofar.push) rest := by
  have hvalue : 16 * (16 * (16 * d₁ + d₂) + d₃) + d₄ =
      0x1000 * d₁ + 0x100 * d₂ + 0x10 * d₃ + d₄ := by omega
  rw [← hvalue] at hends
  rcases ends with _ | d
  · simp [stringFrom, h₁, h₂, h₃, h₄, hends]
  · simp [stringFrom, h₁, h₂, h₃, h₄, hends]

theorem SpellsCode.stringFrom_plain (h : SpellsCode n text)
    (hends : endOfDigits false none n = .ok (state, ends)) :
    stringFrom false .plain sofar (text ++ rest) =
      stringFrom false state (ends.elim sofar sofar.push) rest := by
  obtain ⟨h₁, h₂, h₃, h₄, rfl⟩ := h
  exact stringFrom_digits h₁ h₂ h₃ h₄ hends

theorem SpellsCode.stringFrom_afterLead {lead : Nat} (h : SpellsCode n text)
    (hends : endOfDigits false (some lead) n = .ok (state, ends)) :
    stringFrom false (.afterLead lead) sofar (text ++ rest) =
      stringFrom false state (ends.elim sofar sofar.push) rest := by
  obtain ⟨h₁, h₂, h₃, h₄, rfl⟩ := h
  exact stringFrom_digits h₁ h₂ h₃ h₄ hends

/-- **A spelling of a character is read as the character**, whatever comes before and after.
Spellings are by itself, by a letter, and by one or two codes. -/
theorem SpellsChar.stringFrom_eq {c : Char} (h : SpellsChar c text) :
    stringFrom false .plain sofar (text ++ rest) =
      stringFrom false .plain (sofar.push c) rest := by
  cases h with
  | plain hquote hbackslash hcontrol =>
    exact (if_neg hquote).trans ((if_neg hbackslash).trans (if_neg (by omega)))
  | @short letter hmem =>
    obtain ⟨hu, hescaped⟩ := escaped?_of_mem hmem
    change stringFrom false .begun sofar (letter :: rest) = _
    rw [stringFrom, if_neg hu, hescaped]
  | code hcode =>
    obtain ⟨hlead, htrail⟩ := not_surrogate c
    have hends : endOfDigits false none c.toNat = .ok (.plain, some c) := by
      simp [endOfDigits, hlead, htrail, Char.ofNat_toNat]
    exact hcode.stringFrom_plain hends
  | @pair high low _ _ hhigh hlow hc hcode hcode' =>
    have hlead : endOfDigits false none (0xD800 + high) =
        .ok (.afterLead (0xD800 + high), none) := by
      have hrange : isLead (0xD800 + high) = true ∧ isTrail (0xD800 + high) = false := by
        simp only [isLead, isTrail, Bool.and_eq_true, Bool.and_eq_false_iff, decide_eq_true_eq,
          decide_eq_false_iff_not]
        omega
      simp [endOfDigits, hrange]
    have htrail : endOfDigits false (some (0xD800 + high)) (0xDC00 + low) =
        .ok (.plain, some c) := by
      have hrange : isTrail (0xDC00 + low) = true := by
        simp only [isTrail, Bool.and_eq_true, decide_eq_true_eq]
        omega
      have hchar : pairChar (0xD800 + high) (0xDC00 + low) = c := by
        have hnumber : (0xD800 + high - 0xD800) * 0x400 + (0xDC00 + low - 0xDC00) + 0x10000 =
            c.toNat := by omega
        rw [pairChar, hnumber, Char.ofNat_toNat]
      simp [endOfDigits, hrange, hchar]
    rw [List.append_assoc, hcode.stringFrom_plain hlead]
    exact hcode'.stringFrom_afterLead htrail

end Reading

/-! ### Strings -/

/-- The spellings of a list of characters. -/
inductive SpellsChars : List Char → List Char → Prop
  | nil : SpellsChars [] []
  | cons {c : Char} {chars text rest : List Char} (h : SpellsChar c text)
      (hrest : SpellsChars chars rest) : SpellsChars (c :: chars) (text ++ rest)

/-- **The spellings of a string**, between quotation marks. -/
inductive SpellsString : String → List Char → Prop
  | quoted {s : String} {text : List Char} (h : SpellsChars s.toList text) :
      SpellsString s ('"' :: (text ++ ['"']))

/-- Characters are read one after the other, up to the mark at the end. -/
theorem SpellsChars.stringFrom_eq {chars text : List Char} (h : SpellsChars chars text)
    (sofar : String) (rest : List Char) :
    stringFrom false .plain sofar (text ++ '"' :: rest) =
      .ok (sofar ++ String.ofList chars, rest) := by
  induction h generalizing sofar with
  | nil =>
    rw [String.ofList_nil, String.append_empty]
    rfl
  | @cons c chars _ _ hc _ ih =>
    rw [List.append_assoc, hc.stringFrom_eq, ih]
    have hpush : sofar.push c ++ String.ofList chars = sofar ++ String.ofList (c :: chars) := by
      rw [String.push_eq_append, String.ofList_cons, String.append_assoc]
    rw [hpush]

/-- **A spelling of a string is read as the string**, and what follows its closing mark is left for
the next reader. -/
theorem SpellsString.readString_eq {s : String} {text : List Char} (h : SpellsString s text)
    (rest : List Char) :
    ∃ inner, text ++ rest = '"' :: inner ∧ readString inner = .ok (s, rest) := by
  obtain ⟨hchars⟩ := h
  refine ⟨_, List.cons_append, ?_⟩
  rw [List.append_assoc]
  refine (hchars.stringFrom_eq "" rest).trans ?_
  rw [String.ofList_toList, String.empty_append]

/-! ### How strings are written -/

theorem hexValue?_hexDigit {n : Nat} (h : n < 16) : hexValue? (hexDigit n) = some n := by
  have hall : ∀ n < 16, hexValue? (hexDigit n) = some n := by decide
  exact hall n h

/-- A character is written in one of its spellings: by itself wherever that is possible. -/
theorem spellsChar_escapeChar (c : Char) : SpellsChar c (escapeChar c) := by
  unfold escapeChar
  split_ifs with h h h h h h h hcontrol
  -- Seven characters have a letter of their own.
  iterate 7
    rw [h]
    exact .short (by decide)
  · refine .code (.digits rfl rfl (hexValue?_hexDigit ?_) (hexValue?_hexDigit ?_) ?_)
    all_goals omega
  · exact .plain ‹_› ‹_› (by omega)

/-- What a function puts in front of a text is of the given sort. -/
def Prepends (P : List Char → Prop) (write : List Char → List Char) : Prop :=
  ∀ rest, ∃ text, P text ∧ write rest = text ++ rest

/-- **A string is written in one of its spellings.** What is written comes in front of what follows,
so the statement is about that. -/
theorem prepends_quoteBefore (s : String) : Prepends (SpellsString s) (quoteBefore s) := by
  intro rest
  have hchars : ∀ chars : List Char, ∃ text, SpellsChars chars text ∧
      chars.foldr (fun c rest => escapeChar c ++ rest) ('"' :: rest) = text ++ '"' :: rest := by
    intro chars
    induction chars with
    | nil => exact ⟨[], .nil, rfl⟩
    | cons c chars ih =>
      obtain ⟨text, hspells, htext⟩ := ih
      refine ⟨_, .cons (spellsChar_escapeChar c) hspells, ?_⟩
      rw [List.foldr_cons, htext, List.append_assoc]
  obtain ⟨text, hspells, htext⟩ := hchars s.toList
  refine ⟨_, .quoted hspells, ?_⟩
  rw [quoteBefore, htext, List.cons_append, List.append_assoc]
  rfl

/-! ### Absent values and objects -/

/-- What stands before the name of a member: blanks, and a comma unless it is the first. -/
inductive SpellsBreak : Bool → List Char → Prop
  | start {blanks : List Char} (h : AllBlank blanks) : SpellsBreak true blanks
  | comma {blanks blanks' : List Char} (h : AllBlank blanks) (h' : AllBlank blanks') :
      SpellsBreak false (blanks ++ ',' :: blanks')

/-- **The spellings of a value that may be absent**, given those of the value if it is there. -/
def SpellsOptional : Option (List Char → Prop) → List Char → Prop
  | none, text => text = ['n', 'u', 'l', 'l']
  | some spells, text => spells text

section Members

variable {φ : Type} (name : φ → String) (value : φ → List Char → Prop)

/-- **The spellings of the members of an object**, in the given order, up to the closing brace;
`value` has the spellings of their values. The first of them may be the first of the object. -/
inductive SpellsMembers : Bool → List φ → List Char → Prop
  | done {first : Bool} {blanks : List Char} (h : AllBlank blanks) :
      SpellsMembers first [] (blanks ++ ['\x7d'])
  | member {first : Bool} {f : φ} {fs : List φ} {gap key blanks blanks' text rest : List Char}
      (hgap : SpellsBreak first gap) (hkey : SpellsString (name f) key) (h : AllBlank blanks)
      (h' : AllBlank blanks') (hvalue : value f text) (hrest : SpellsMembers false fs rest) :
      SpellsMembers first (f :: fs) (gap ++ (key ++ (blanks ++ ':' :: (blanks' ++ (text ++ rest)))))

variable {name value}

/-- A text is longer than the list of its members. -/
theorem SpellsMembers.length_lt {first : Bool} {fs : List φ} {text : List Char}
    (h : SpellsMembers name value first fs text) : fs.length < text.length := by
  induction h with
  | done =>
    rw [List.length_append]
    exact Nat.lt_add_left _ Nat.one_pos
  | member _ _ _ _ _ _ ih =>
    simp only [List.length_append, List.length_cons]
    omega

/-- **One more member is written** in front of the others. The gap in front of it depends on whether
it is the first. -/
theorem prepends_member {first : Bool} {f : φ} {fs : List φ}
    {gap write ending : List Char → List Char}
    (hgap : Prepends (SpellsBreak first) gap) (hwrite : Prepends (value f) write)
    (hending : Prepends (SpellsMembers name value false fs) ending) :
    Prepends (SpellsMembers name value first (f :: fs)) fun rest =>
      gap (quoteBefore (name f) (':' :: ' ' :: write (ending rest))) := by
  intro rest
  obtain ⟨tail, hmembers, htail⟩ := hending rest
  obtain ⟨text, hvalue, htext⟩ := hwrite (ending rest)
  obtain ⟨key, hkey, hquote⟩ := prepends_quoteBefore (name f) (':' :: ' ' :: write (ending rest))
  obtain ⟨before, hbreak, hbefore⟩ :=
    hgap (quoteBefore (name f) (':' :: ' ' :: write (ending rest)))
  refine ⟨_, .member hbreak hkey allBlank_nil allBlank_space hvalue hmembers, ?_⟩
  refine hbefore.trans ?_
  rw [hquote, htext, htail]
  simp only [List.append_assoc, List.cons_append, List.nil_append]

end Members

/-! ### Reading them -/

section Reading

variable {α β : Type} {text rest : List Char}

/-- A reader that succeeds hands over to the next. -/
theorem bind_of_ok {read : Reader α} {next : α → Reader β} {a : α}
    (h : read text = .ok (a, rest)) : (read >>= next) text = next a rest := by
  change (read text >>= fun p => next p.1 p.2) = _
  rw [h]
  rfl

/-- A reader may give its result without reading. -/
theorem pure_of_eq {a a' : α} (h : a = a') (text : List Char) :
    (pure a : Reader α) text = .ok (a', text) := by
  rw [h]
  rfl

/-- A reader may look at the text that remains. -/
theorem get_bind (next : List Char → Reader β) (text : List Char) :
    (get >>= next) text = next text text := rfl

/-- A reader may go to another place. -/
theorem set_bind (next : PUnit → Reader β) (text text' : List Char) :
    (set text' >>= next) text = next ⟨⟩ text' := rfl

/-- The next key of an object is found. -/
theorem SpellsBreak.nextKey_eq {first : Bool} {gap : List Char} (h : SpellsBreak first gap)
    (rest : List Char) : nextKey first (gap ++ '"' :: rest) = .ok (true, rest) := by
  cases h with
  | start hblanks =>
    rw [nextKey, hblanks.dropBlanks_eq rfl]
    rfl
  | @comma blanks blanks' hblanks hblanks' =>
    have hkey : dropBlanks (blanks' ++ '"' :: rest) = '"' :: rest := hblanks'.dropBlanks_eq rfl rest
    rw [List.append_assoc, nextKey, List.cons_append, hblanks.dropBlanks_eq rfl]
    simp [hkey]

theorem AllBlank.nextKey_eq {blanks : List Char} (h : AllBlank blanks) (first : Bool)
    (rest : List Char) : nextKey first (blanks ++ '\x7d' :: rest) = .ok (false, rest) := by
  rw [nextKey, h.dropBlanks_eq rfl]
  rfl

theorem AllBlank.readColon_eq {blanks : List Char} (h : AllBlank blanks) (rest : List Char) :
    readColon (blanks ++ ':' :: rest) = .ok ((), rest) := by
  rw [readColon, h.dropBlanks_eq rfl]
  rfl

/-- **A value that may be absent is read**, if what is read where it is present does not look like
`null`. Its first character tells the two apart. -/
theorem SpellsOptional.readOptional_eq {o : Option α} {spells : α → List Char → Prop}
    (h : SpellsOptional (o.map spells) text) {read : Reader α}
    (hread : ∀ a, o = some a → spells a text → ∃ c inner, text ++ rest = c :: inner ∧
      isBlank c = false ∧ c ≠ 'n' ∧ read (c :: inner) = .ok (a, rest))
    {blanks : List Char} (hblanks : AllBlank blanks) :
    readOptional read (blanks ++ (text ++ rest)) = .ok (o, rest) := by
  rcases o with _ | a
  · obtain rfl : text = ['n', 'u', 'l', 'l'] := h
    rw [List.cons_append, readOptional, hblanks.dropBlanks_eq rfl]
    rfl
  · obtain ⟨c, inner, heq, hblank, hnull, hok⟩ := hread a rfl h
    rw [heq, readOptional, hblanks.dropBlanks_eq hblank]
    split
    · rename_i hcons
      exact (hnull (List.cons.inj hcons).1).elim
    · rw [hok]

theorem SpellsString.readText_eq {s : String} (h : SpellsString s text) {blanks : List Char}
    (hblanks : AllBlank blanks) (wanted : Wanted) (rest : List Char) :
    readText wanted (blanks ++ (text ++ rest)) = .ok (s, rest) := by
  obtain ⟨inner, heq, hread⟩ := h.readString_eq rest
  rw [heq, readText, hblanks.dropBlanks_eq rfl]
  exact hread

end Reading

section Records

variable {σ φ α : Type} {members : List (Member σ)} {name : φ → String}
  {value : φ → List Char → Prop} {draft : List φ → σ} {size : Nat}

/-- **Members of a record that are read as they are spelled.** What has been read of the record
is known from the members read before, newest first, by `draft`; one that is not among them is
not given yet, and reading any spelling of its value below a size adds it to them. -/
def Accepts (members : List (Member σ)) (name : φ → String) (value : φ → List Char → Prop)
    (draft : List φ → σ) (size : Nat) : Prop :=
  ∀ f, ∃ field, members.find? (fun field => field.name == name f) = some field ∧
    ∀ done, f ∉ done → field.isGiven (draft done) = false ∧
      ∀ blanks text rest, AllBlank blanks → value f text → text.length < size →
        field.read (draft done) (blanks ++ (text ++ rest)) = .ok (draft (f :: done), rest)

/-- The value of one member is read, and what was drafted before is kept. A member that was there
already would be an error. -/
theorem Accepts.readMember_eq (h : Accepts members name value draft size) {f : φ}
    {done : List φ} (hnew : f ∉ done) {blanks blanks' text : List Char} (hblanks : AllBlank blanks)
    (hblanks' : AllBlank blanks') (hvalue : value f text) (hsize : text.length < size) (fuel : Nat)
    (rest : List Char) :
    readMember members fuel (name f) (draft done)
      (blanks ++ ':' :: (blanks' ++ (text ++ rest))) = .ok (draft (f :: done), rest) := by
  obtain ⟨field, hfind, hfield⟩ := h f
  obtain ⟨hgiven, hread⟩ := hfield done hnew
  rw [readMember, hfind]
  simp only [hgiven, Bool.false_eq_true, if_false]
  exact (bind_of_ok (hblanks.readColon_eq _)).trans (hread _ _ rest hblanks' hvalue hsize)

/-- **The members of an object are read**, in whichever order they come, if none comes twice. By
induction on the spelling; those that have been read are carried along in the draft. -/
theorem SpellsMembers.readMembers_eq (haccepts : Accepts members name value draft size)
    {first : Bool} {fs done : List φ} {text : List Char} {fuel : Nat}
    (h : SpellsMembers name value first fs text) (hnodup : (fs.reverse ++ done).Nodup)
    (hsize : text.length ≤ size) (hfuel : fs.length < fuel) (rest : List Char) :
    readMembers members fuel first (draft done) (text ++ rest) =
      .ok (draft (fs.reverse ++ done), rest) := by
  induction h generalizing done fuel with
  | done hblanks =>
    obtain _ | fuel := fuel
    · exact (Nat.not_lt_zero _ hfuel).elim
    · rw [readMembers, List.append_assoc]
      exact bind_of_ok (hblanks.nextKey_eq _ rest)
  | @member first f fs gap key blanks blanks' text tail hgap hkey hblanks hblanks' hvalue _ ih =>
    obtain _ | fuel := fuel
    · exact (Nat.not_lt_zero _ hfuel).elim
    · rw [List.reverse_cons, List.append_assoc] at hnodup ⊢
      have hnew : f ∉ done := by
        have hdone := (List.nodup_append.1 hnodup).2.1
        exact (List.nodup_cons.1 hdone).1
      simp only [List.length_append, List.length_cons] at hsize hfuel
      obtain ⟨inner, heq, hread⟩ :=
        hkey.readString_eq (blanks ++ ':' :: (blanks' ++ (text ++ (tail ++ rest))))
      rw [readMembers]
      simp only [List.append_assoc, List.cons_append]
      rw [heq]
      refine (bind_of_ok (hgap.nextKey_eq inner)).trans ?_
      refine (bind_of_ok hread).trans ?_
      refine (bind_of_ok (haccepts.readMember_eq hnew hblanks hblanks' hvalue (by omega) fuel
        _)).trans ?_
      exact ih hnodup (by omega) (by omega)

/-- **A record is read from an object**: its members are read into a draft, and something is made of
that. -/
theorem Record.read_of_members {record : Record σ α} {a : α} {d : σ} {fuel : Nat}
    {blanks text rest : List Char} (hblanks : AllBlank blanks)
    (hmembers : readMembers record.members fuel true record.draft text = .ok (d, rest))
    (hfinish : record.finish d = .ok a) :
    record.read fuel (blanks ++ '\x7b' :: text) = .ok (a, rest) := by
  refine (get_bind _ _).trans ?_
  rw [hblanks.dropBlanks_eq rfl]
  refine (set_bind _ _ _).trans ((bind_of_ok hmembers).trans ?_)
  rw [hfinish]
  rfl

end Records

end StackUnits.Json
