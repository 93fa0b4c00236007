import Mathlib.Data.List.DropRight
import Mathlib.Data.Nat.Digits.Defs
import StackUnits.Program.Literal
import StackUnits.Tree.Build

/-!
# Integer literals and their values

An integer literal is read as a number of thirty-two bits. What is read is said here without
reading: blanks at the two ends are put aside (`StackUnits.Text.IsCore`), what is between them is
digits with at most one sign in front (`StackUnits.Numeral.Denotes`), and the value of digits is
the sum of their values, each times its power of ten, of any size. Only then is the range looked
at.

* `StackUnits.Text.trim_eq_iff` – taking off the blanks leaves what is between them;
* `StackUnits.Numeral.integer?_eq_some_iff` – the reader of whole numbers knows exactly the texts
  that denote one;
* `StackUnits.Tag.literal_reads_integer` – so a literal is accepted exactly if its text denotes a
  number within range, and every number within range is read back from its decimal text.
-/

namespace StackUnits

/-! ### Blanks at the ends -/

namespace Text

variable {text core blanks : List Char}

/-- **The core of a text**: what is left between the blanks at its two ends. It neither begins nor
ends with a blank. -/
structure IsCore (text core : List Char) : Prop where
  between : ∃ before after, text = before ++ (core ++ after) ∧
    (∀ c ∈ before, isBlank c = true) ∧ ∀ c ∈ after, isBlank c = true
  head : ∀ c ∈ core.head?, isBlank c = false
  last : ∀ c ∈ core.getLast?, isBlank c = false

/-- Blanks are dropped up to the first character that is none. -/
theorem dropWhile_blanks_append (hblanks : ∀ c ∈ blanks, isBlank c = true)
    (hhead : ∀ c ∈ text.head?, isBlank c = false) :
    (blanks ++ text).dropWhile isBlank = text := by
  rw [List.dropWhile_append_of_pos hblanks]
  cases text with
  | nil => rfl
  | cons c rest => exact List.dropWhile_cons_of_neg (by simp [hhead c rfl])

/-- The two ends are dealt with one after the other. -/
theorem trim_eq_rdropWhile (text : List Char) :
    trim text = (text.dropWhile isBlank).rdropWhile isBlank :=
  rfl

/-- What is left without the blanks is the core: it neither begins nor ends with a blank, and there
are only blanks around it. -/
theorem isCore_trim (text : List Char) : IsCore text (trim text) where
  between := by
    refine ⟨text.takeWhile isBlank, (text.dropWhile isBlank).rtakeWhile isBlank, ?_,
      fun c => List.mem_takeWhile_imp, fun c => List.mem_rtakeWhile_imp⟩
    rw [trim_eq_rdropWhile, List.rdropWhile_append_rtakeWhile, List.takeWhile_append_dropWhile]
  head := by
    intro c hc
    -- What is left begins as the text did when only its front had been dealt with.
    obtain ⟨back, hback⟩ : trim text <+: text.dropWhile isBlank := List.rdropWhile_prefix _ _
    have hhead : (text.dropWhile isBlank).head? = some c := by
      rw [← hback, List.head?_append, hc]
      rfl
    have hnot := List.head?_dropWhile_not isBlank text
    rw [hhead] at hnot
    exact hnot
  last := by
    intro c hc
    obtain ⟨hne, rfl⟩ := List.mem_getLast?_eq_getLast hc
    exact Bool.eq_false_iff.2 (List.rdropWhile_last_not isBlank _ hne)

/-- **Taking off the blanks leaves the core.** There is one core only, so that it can be spoken of
without the function. -/
theorem trim_eq_iff : trim text = core ↔ IsCore text core := by
  refine ⟨fun h => h ▸ isCore_trim text, ?_⟩
  rintro ⟨⟨before, after, rfl, hbefore, hafter⟩, hhead, hlast⟩
  have hback : (core ++ after).rdropWhile isBlank = core := by
    have hafter' : ∀ c ∈ after.reverse, isBlank c = true :=
      fun c hc => hafter c (List.mem_reverse.1 hc)
    rw [List.rdropWhile, List.reverse_append, dropWhile_blanks_append hafter', List.reverse_reverse]
    rwa [List.head?_reverse]
  rw [trim_eq_rdropWhile]
  cases core with
  | nil =>
    have hblank : ∀ c ∈ before ++ ([] ++ after), isBlank c = true :=
      List.forall_mem_append.2 ⟨hbefore, hafter⟩
    rw [List.dropWhile_eq_nil_iff.2 hblank, List.rdropWhile_nil]
  | cons c rest =>
    have hfront : ∀ d ∈ (c :: rest ++ after).head?, isBlank d = false := hhead
    rw [dropWhile_blanks_append hbefore hfront, hback]

end Text

/-! ### Whole numbers -/

namespace Numeral

variable {text digits : List Char} {n : Int}

/-- The value of decimal digits, the most significant one first. -/
def decimalValue (digits : List Char) : Nat :=
  Nat.ofDigits 10 (digits.reverse.map digitValue)

/-- **A text that denotes a whole number**: at least one of the ten digits, and before them a sign
or nothing. -/
inductive Denotes : List Char → Int → Prop
  | unsigned {digits : List Char} (hne : digits ≠ []) (hdigits : ∀ c ∈ digits, c.isDigit = true) :
      Denotes digits (decimalValue digits)
  | positive {digits : List Char} (hne : digits ≠ []) (hdigits : ∀ c ∈ digits, c.isDigit = true) :
      Denotes ('+' :: digits) (decimalValue digits)
  | negative {digits : List Char} (hne : digits ≠ []) (hdigits : ∀ c ∈ digits, c.isDigit = true) :
      Denotes ('-' :: digits) (-decimalValue digits)

/-- Reading from the front, every digit makes what is before it count ten times; the value is the
sum over the places. -/
theorem ofDigits_eq_decimalValue (digits : List Char) : ofDigits digits = decimalValue digits := by
  induction digits using List.reverseRecOn with
  | nil => rfl
  | append_singleton front c ih =>
    have hread : ofDigits (front ++ [c]) = 10 * ofDigits front + digitValue c := by
      simp [ofDigits, List.foldl_append]
    rw [hread, ih, decimalValue, decimalValue, List.reverse_concat, List.map_cons,
      Nat.ofDigits_cons, Nat.add_comm]

/-- A sign is taken off, if there is one, and a second one is not. -/
theorem sign_cases (text : List Char) :
    (∃ digits, text = '-' :: digits ∧ sign text = (true, digits)) ∨
    (∃ digits, text = '+' :: digits ∧ sign text = (false, digits)) ∨ sign text = (false, text) := by
  unfold sign
  split
  · exact .inl ⟨_, rfl, rfl⟩
  · exact .inr (.inl ⟨_, rfl, rfl⟩)
  · exact .inr (.inr rfl)

/-- A digit is no sign. -/
theorem sign_of_isDigit (h : ∀ c ∈ digits, c.isDigit = true) : sign digits = (false, digits) := by
  unfold sign
  split
  · exact absurd (h '-' List.mem_cons_self) (by decide)
  · exact absurd (h '+' List.mem_cons_self) (by decide)
  · rfl

/-- Behind the sign there have to be digits and nothing else. -/
theorem integer?_of_sign {negative : Bool} (h : sign text = (negative, digits)) :
    integer? text = some n ↔ (digits ≠ [] ∧ ∀ c ∈ digits, c.isDigit = true) ∧
      (if negative then -(decimalValue digits : Int) else decimalValue digits) = n := by
  have hdigits : (digits.isEmpty || !digits.all isDigit) = true ↔
      ¬(digits ≠ [] ∧ ∀ c ∈ digits, c.isDigit = true) := by
    rw [← Bool.not_eq_false, not_iff_not, Bool.or_eq_false_iff, List.isEmpty_eq_false_iff,
      Bool.not_eq_false', List.all_eq_true]
    rfl
  simp only [integer?, h, hdigits, ofDigits_eq_decimalValue]
  by_cases hall : digits ≠ [] ∧ ∀ c ∈ digits, c.isDigit = true
  · rw [if_neg (not_not_intro hall), Option.some_inj, and_iff_right hall]
  · rw [if_pos hall]
    exact ⟨by rintro ⟨⟩, fun h => (hall h.1).elim⟩

/-- **The texts that are read as whole numbers** are those that denote one. The number may be of any
size here. -/
theorem integer?_eq_some_iff : integer? text = some n ↔ Denotes text n := by
  constructor
  · rcases sign_cases text with ⟨digits, rfl, hsign⟩ | ⟨digits, rfl, hsign⟩ | hsign
    all_goals
      rw [integer?_of_sign hsign]
      rintro ⟨⟨hne, hdigits⟩, rfl⟩
    · exact .negative hne hdigits
    · exact .positive hne hdigits
    · exact .unsigned hne hdigits
  · rintro (⟨hne, hdigits⟩ | ⟨hne, hdigits⟩ | ⟨hne, hdigits⟩)
    · exact (integer?_of_sign (sign_of_isDigit hdigits)).2 ⟨⟨hne, hdigits⟩, rfl⟩
    · exact (integer?_of_sign rfl).2 ⟨⟨hne, hdigits⟩, rfl⟩
    · exact (integer?_of_sign rfl).2 ⟨⟨hne, hdigits⟩, rfl⟩

/-- **The texts that are read as thirty-two bits** denote a number within range, blanks at the ends
aside. A number out of range is not wrapped but refused. -/
theorem int32?_eq_some_iff {raw : String} {v : Int32} :
    int32? raw = some v ↔ ∃ core n, Text.IsCore raw.toList core ∧ Denotes core n ∧
      -2 ^ 31 ≤ n ∧ n ≤ 2 ^ 31 - 1 ∧ v = .ofInt n := by
  simp only [← Text.trim_eq_iff, exists_and_left, exists_eq_left', ← integer?_eq_some_iff]
  unfold int32?
  rcases integer? (Text.trim raw.toList) with _ | n
  · simp
  · have hrange : (decide (-0x80000000 ≤ n) && decide (n < 0x80000000)) = true ↔
        -2 ^ 31 ≤ n ∧ n ≤ 2 ^ 31 - 1 := by
      rw [Bool.and_eq_true, decide_eq_true_iff, decide_eq_true_iff]
      omega
    simp only [hrange, Option.some_inj, Option.ite_none_right_eq_some, exists_eq_left', and_assoc]
    simp only [eq_comm]

/-! ### The decimal text of a number -/

/-- The digits of a number have it as their value. -/
theorem decimalValue_toDigits (n : Nat) : decimalValue (Nat.toDigits 10 n) = n := by
  rw [← ofDigits_eq_decimalValue]
  exact Nat.ofDigitChars_ten_toDigits

/-- **The decimal text of a number denotes it**, with a minus in front if it is negative. -/
theorem denotes_toString (n : Int) : Denotes (toString n).toList n := by
  have hdigits : ∀ m, ∀ c ∈ Nat.toDigits 10 m, c.isDigit = true :=
    fun m c => Nat.isDigit_of_mem_toDigits (by decide) (by decide)
  rw [Int.toString_eq_repr, Int.repr_eq_if]
  split
  · rename_i hpos
    have hdenotes := Denotes.unsigned Nat.toDigits_ne_nil (hdigits n.toNat)
    rwa [decimalValue_toDigits, Int.toNat_of_nonneg hpos, ← Nat.toList_repr] at hdenotes
  · rename_i hneg
    have hdenotes := Denotes.negative Nat.toDigits_ne_nil (hdigits (-n).toNat)
    rw [decimalValue_toDigits, Int.toNat_of_nonneg (by omega), Int.neg_neg,
      ← Nat.toList_repr] at hdenotes
    rwa [String.toList_append]

theorem isBlank_of_isDigit {c : Char} (h : c.isDigit = true) : Text.isBlank c = false := by
  have hrange : 48 ≤ c.toNat ∧ c.toNat ≤ 57 := by
    simp only [Char.isDigit, Bool.and_eq_true, decide_eq_true_iff, ge_iff_le,
      UInt32.le_iff_toNat_le] at h
    exact h
  have hnot : ¬Text.isBlank c = true := by
    simp only [Text.isBlank, Bool.or_eq_true, Bool.and_eq_true, decide_eq_true_iff, beq_iff_eq]
    omega
  exact Bool.eq_false_iff.2 hnot

/-- Neither signs nor digits are blanks, so that a text that denotes a number is its own core. -/
theorem Denotes.isCore (h : Denotes text n) : Text.IsCore text text := by
  have hsign : Text.isBlank '+' = false ∧ Text.isBlank '-' = false := by decide
  have hblank : ∀ c ∈ text, Text.isBlank c = false := by
    cases h with
    | unsigned _ hdigits => exact fun c hc => isBlank_of_isDigit (hdigits c hc)
    | positive _ hdigits =>
      exact List.forall_mem_cons.2 ⟨hsign.1, fun c hc => isBlank_of_isDigit (hdigits c hc)⟩
    | negative _ hdigits =>
      exact List.forall_mem_cons.2 ⟨hsign.2, fun c hc => isBlank_of_isDigit (hdigits c hc)⟩
  exact ⟨⟨[], [], by simp, by simp, by simp⟩, fun c hc => hblank c (List.mem_of_mem_head? hc),
    fun c hc => hblank c (List.mem_of_mem_getLast? hc)⟩

end Numeral

/-! ### Literals -/

theorem Tag.literal_integer_eq_ok {value : Option String} {raw : String}
    {result : Constant × OperandType} :
    Tag.literal ⟨.literalInteger, value⟩ raw = .ok result ↔
      ∃ v, Numeral.int32? raw = some v ∧ result = (.int v, .int) := by
  unfold Tag.literal
  rcases Numeral.int32? raw with _ | v
  · simp
  · simp [eq_comm]

/-- **A literal node for an integer** is accepted exactly if its text, blanks at the ends aside, is
digits with at most one sign, of a value within range, and it stands for that value; and every value
within range is read back from the node that is built for it.

The text may have any number of zeros in front and any of the blanks of Unicode around it, so that a
number has many texts; the second part is about the one that is written. -/
theorem Tag.literal_reads_integer :
    (∀ value raw result, Tag.literal ⟨.literalInteger, value⟩ raw = .ok result ↔
      ∃ core n, Text.IsCore raw.toList core ∧ Numeral.Denotes core n ∧
        -2 ^ 31 ≤ n ∧ n ≤ 2 ^ 31 - 1 ∧ result = (.int (.ofInt n), .int)) ∧
    ∀ v : Int32, (Tree.ofInteger (toString v.toInt)).tag.literal (toString v.toInt) =
      .ok (.int v, .int) := by
  constructor
  · intro value raw result
    rw [literal_integer_eq_ok]
    constructor
    · rintro ⟨v, hread, rfl⟩
      obtain ⟨core, n, hcore, hdenotes, hle, hge, rfl⟩ := Numeral.int32?_eq_some_iff.1 hread
      exact ⟨core, n, hcore, hdenotes, hle, hge, rfl⟩
    · rintro ⟨core, n, hcore, hdenotes, hle, hge, rfl⟩
      exact ⟨_, Numeral.int32?_eq_some_iff.2 ⟨core, n, hcore, hdenotes, hle, hge, rfl⟩, rfl⟩
  · intro v
    have hdenotes := Numeral.denotes_toString v.toInt
    have hrange := v.toInt_lt
    exact literal_integer_eq_ok.2 ⟨v, Numeral.int32?_eq_some_iff.2 ⟨_, _, hdenotes.isCore, hdenotes,
      v.le_toInt, by omega, v.ofInt_toInt.symm⟩, rfl⟩

example : Numeral.int32? "\u3000-0002147483648\n" = some (-2147483648) ∧
    Numeral.int32? "2147483648" = none ∧ Numeral.int32? "- 1" = none ∧
    Numeral.int32? "+" = none ∧ Numeral.int32? "\u0663" = none := by
  decide

end StackUnits
