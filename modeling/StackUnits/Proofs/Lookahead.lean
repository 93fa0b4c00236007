import Mathlib.Data.List.TakeWhile
import StackUnits.Proofs.Spelling

/-!
# Where the pieces of a JSON text end

The readers of a JSON text go through it from the front, and do not see its end before they come to
it. If one of them has read a piece, it reads the same piece from a text that goes on behind it, and
leaves what was added. This is said for each piece by a lemma whose name ends in `_append`: for
words and strings, for the number that is passed over, and for whole values that are
(`StackUnits.Json.passes_skipValue`).

**Numbers are the exception**: nothing marks their end, so `1` is a number, and so is `12`. They end
at the same place only if something stands behind them already. In a text that is read to its
closing bracket this is always so.

Values are passed over with a fuel that bounds their depth; a longer text comes with more of it, and
the lemmas allow for that.
-/

namespace StackUnits.Json

variable {α β : Type} {text rest : List Char}

/-- What succeeds has succeeded in both its parts. -/
theorem exists_of_bind_ok {x : Except Problem α} {f : α → Except Problem β} {b : β}
    (h : x >>= f = .ok b) : ∃ a, x = .ok a ∧ f a = .ok b := by
  rcases x with e | a
  · cases h
  · exact ⟨a, rfl, h⟩

theorem bind_eq_of_ok {x : Except Problem α} {a : α} (h : x = .ok a) (f : α → Except Problem β) :
    x >>= f = f a := by
  rw [h]
  rfl

/-! ### Blanks, words and strings -/

/-- Blanks end at the same place if more text follows, provided that something else stands behind
them already. -/
theorem dropBlanks_append {c : Char} (h : dropBlanks text = c :: rest) (more : List Char) :
    dropBlanks (text ++ more) = c :: (rest ++ more) := by
  unfold dropBlanks at h ⊢
  rw [List.dropWhile_append, h]
  rfl

/-- Nothing is left of a text without its blanks exactly if it has nothing else. -/
theorem dropBlanks_eq_nil_iff : dropBlanks text = [] ↔ AllBlank text :=
  List.dropWhile_eq_nil_iff

/-- A word is as long as its letters, whatever follows. -/
theorem word_append {letters : List Char} (h : word letters text = .ok rest) (more : List Char) :
    word letters (text ++ more) = .ok (rest ++ more) := by
  induction letters generalizing text with
  | nil =>
    cases h
    rfl
  | cons c letters ih =>
    cases text with
    | nil => cases h
    | cons d text =>
      simp only [word, List.cons_append] at h ⊢
      split_ifs at h ⊢
      exact ih h

/-- **A string ends at its closing mark**, whatever follows. The reader is in one of several states,
by what it has seen of an escape, and the statement is about all of them. -/
theorem stringFrom_append {lenient : Bool} {state : Escape} {sofar s : String}
    (h : stringFrom lenient state sofar text = .ok (s, rest)) (more : List Char) :
    stringFrom lenient state sofar (text ++ more) = .ok (s, rest ++ more) := by
  induction text generalizing state sofar with
  | nil => cases state <;> cases h
  | cons c text ih =>
    cases state with
    | plain =>
      simp only [stringFrom, List.cons_append] at h ⊢
      split_ifs at h ⊢
      · cases h
        rfl
      · exact ih h
      · exact ih h
    | begun =>
      simp only [stringFrom, List.cons_append] at h ⊢
      split_ifs at h ⊢
      · exact ih h
      · rcases hescaped : escaped? c with _ | d
        · simp [hescaped] at h
        · simp only [hescaped] at h ⊢
          exact ih h
    | digits missing value lead =>
      simp only [stringFrom, List.cons_append] at h ⊢
      rcases hhex : hexValue? c with _ | digit
      · simp only [hhex] at h
        split_ifs at h
      · simp only [hhex] at h ⊢
        split_ifs at h ⊢
        · rcases hends : endOfDigits lenient lead (16 * value + digit) with e | ⟨state, _ | d⟩
          · simp [hends] at h
          · simp only [hends] at h ⊢
            exact ih h
          · simp only [hends] at h ⊢
            exact ih h
        · exact ih h
    | afterLead lead =>
      simp only [stringFrom, List.cons_append] at h ⊢
      split_ifs at h ⊢
      exact ih h
    | afterLeadBegun lead =>
      simp only [stringFrom, List.cons_append] at h ⊢
      split_ifs at h ⊢
      exact ih h

theorem skipString_append (h : skipString text = .ok rest) (more : List Char) :
    skipString (text ++ more) = .ok (rest ++ more) := by
  unfold skipString at h ⊢
  rcases hstring : stringFrom true .plain "" text with e | ⟨s, rest'⟩
  · simp [hstring] at h
  · simp only [hstring, Except.ok.injEq] at h
    rw [stringFrom_append hstring more, h]

/-! ### Numbers -/

/-- Digits end at the same place if something stands behind them: more digits could follow
otherwise. -/
theorem spanDigits_append {digits : List Char} (h : spanDigits text = (digits, rest))
    (hrest : rest ≠ []) (more : List Char) :
    spanDigits (text ++ more) = (digits, rest ++ more) := by
  simp only [spanDigits, Prod.mk.injEq] at h ⊢
  obtain ⟨rfl, rfl⟩ := h
  induction text with
  | nil => exact (hrest rfl).elim
  | cons c text ih =>
    rcases hc : Numeral.isDigit c
    · simp [hc]
    · simp only [List.cons_append, List.takeWhile_cons_of_pos hc, List.dropWhile_cons_of_pos hc,
        List.cons.injEq, true_and] at hrest ⊢
      exact ih hrest

theorem someDigits_append {atEnd : Problem} {digits : List Char}
    (h : someDigits atEnd text = .ok (digits, rest)) (hrest : rest ≠ []) (more : List Char) :
    someDigits atEnd (text ++ more) = .ok (digits, rest ++ more) := by
  unfold someDigits at h ⊢
  rcases hspan : spanDigits text with ⟨_ | ⟨d, ds⟩, r⟩
  · rcases r with _ | ⟨c, r⟩
    · simp [hspan] at h
    · simp [hspan] at h
  · simp only [hspan, Except.ok.injEq, Prod.mk.injEq] at h
    obtain ⟨rfl, rfl⟩ := h
    rw [spanDigits_append hspan hrest]

/-- Whether the text of an exponent begins with a minus, and what comes after its sign. -/
def exponentSign : List Char → Bool × List Char
  | '-' :: text => (true, text)
  | '+' :: text => (false, text)
  | text => (false, text)

/-- The sign of an exponent is seen from its first character. -/
theorem exponentSign_append (htext : text ≠ []) (more : List Char) :
    exponentSign (text ++ more) = ((exponentSign text).1, (exponentSign text).2 ++ more) := by
  obtain ⟨c, text, rfl⟩ := List.exists_cons_of_ne_nil htext
  by_cases hminus : c = '-'
  · subst hminus
    rfl
  · by_cases hplus : c = '+'
    · subst hplus
      rfl
    · simp [exponentSign, hminus, hplus]

/-- An exponent is read from behind its mark. -/
theorem exponentText_of_mark {c : Char} (hc : c = 'e' ∨ c = 'E') (atEnd : Problem)
    (text : List Char) :
    exponentText atEnd (c :: text) =
      match someDigits atEnd (exponentSign text).2 with
      | .ok (digits, rest) => .ok (some ((exponentSign text).1, digits), rest)
      | .error e => .error e := by
  rcases hc with rfl | rfl
  · rfl
  · rfl

theorem exponentText_of_not_mark {c : Char} (hc : ¬(c = 'e' ∨ c = 'E')) (atEnd : Problem)
    (text : List Char) : exponentText atEnd (c :: text) = .ok (none, c :: text) := by
  rw [not_or] at hc
  simp [exponentText, hc]

/-- An exponent ends at the same place if something stands behind it, since its digits do. -/
theorem exponentText_append {atEnd : Problem} {exponent : Option (Bool × List Char)}
    (h : exponentText atEnd text = .ok (exponent, rest)) (hrest : rest ≠ []) (more : List Char) :
    exponentText atEnd (text ++ more) = .ok (exponent, rest ++ more) := by
  rcases text with _ | ⟨c, text⟩
  · cases h
    exact (hrest rfl).elim
  · rw [List.cons_append]
    by_cases hc : c = 'e' ∨ c = 'E'
    · rw [exponentText_of_mark hc] at h ⊢
      rcases hdigits : someDigits atEnd (exponentSign text).2 with e | ⟨digits, rest'⟩
      · simp [hdigits] at h
      · simp only [hdigits, Except.ok.injEq, Prod.mk.injEq] at h
        obtain ⟨rfl, rfl⟩ := h
        have htext : text ≠ [] := by
          rintro rfl
          cases hdigits
        rw [exponentSign_append htext, someDigits_append hdigits hrest]
    · rw [exponentText_of_not_mark hc] at h ⊢
      cases h
      rfl

/-- What is read of a number behind the digits that it begins with. -/
def behindWhole (atEnd : Problem) (whole : List Char) :
    List Char → Except Problem (NumberText × List Char)
  | '.' :: text => do
    let (fraction, rest) ← someDigits atEnd text
    let (exponent, rest) ← exponentText atEnd rest
    return ({ whole, fraction := some fraction, exponent }, rest)
  | text => do
    let (exponent, rest) ← exponentText atEnd text
    return ({ whole, exponent }, rest)

theorem behindWhole_of_ne {c : Char} (hc : c ≠ '.') (atEnd : Problem) (whole text : List Char) :
    behindWhole atEnd whole (c :: text) =
      exponentText atEnd (c :: text) >>= fun found =>
        .ok ({ whole, exponent := found.1 }, found.2) := by
  unfold behindWhole
  split
  · rename_i hdot
    exact (hc (List.cons.inj hdot).1).elim
  · rfl

/-- So does what follows the digits that a number begins with. -/
theorem behindWhole_append {atEnd : Problem} {whole : List Char} {n : NumberText}
    (h : behindWhole atEnd whole text = .ok (n, rest)) (hrest : rest ≠ []) (more : List Char) :
    behindWhole atEnd whole (text ++ more) = .ok (n, rest ++ more) := by
  rcases text with _ | ⟨c, text⟩
  · cases h
    exact (hrest rfl).elim
  · rw [List.cons_append]
    by_cases hc : c = '.'
    · subst hc
      obtain ⟨⟨fraction, text'⟩, hfraction, h⟩ := exists_of_bind_ok h
      obtain ⟨⟨exponent, rest'⟩, hexponent, h⟩ := exists_of_bind_ok h
      cases h
      have htext' : text' ≠ [] := by
        rintro rfl
        cases hexponent
        exact hrest rfl
      refine (bind_eq_of_ok (someDigits_append hfraction htext' more) _).trans ?_
      exact bind_eq_of_ok (exponentText_append hexponent hrest more) _
    · rw [behindWhole_of_ne hc] at h ⊢
      obtain ⟨⟨exponent, rest'⟩, hexponent, h⟩ := exists_of_bind_ok h
      cases h
      exact bind_eq_of_ok (exponentText_append hexponent hrest more) _

/-- A number goes on behind the digits that it begins with, unless these have a zero in front. -/
theorem numberText_eq {atEnd : Problem} {whole : List Char}
    (hwhole : someDigits atEnd text = .ok (whole, rest))
    (hzero : ∀ d ds, whole = '0' :: d :: ds → False) :
    numberText atEnd text = behindWhole atEnd whole rest := by
  refine (bind_eq_of_ok hwhole _).trans ?_
  dsimp only
  split
  · exact (hzero _ _ rfl).elim
  · rfl

theorem numberText_append {atEnd : Problem} {n : NumberText}
    (h : numberText atEnd text = .ok (n, rest)) (hrest : rest ≠ []) (more : List Char) :
    numberText atEnd (text ++ more) = .ok (n, rest ++ more) := by
  obtain ⟨⟨whole, text'⟩, hwhole, h'⟩ := exists_of_bind_ok h
  by_cases hzero : ∃ d ds, whole = '0' :: d :: ds
  · obtain ⟨d, ds, rfl⟩ := hzero
    cases h'
  · have hzero' : ∀ d ds, whole = '0' :: d :: ds → False := fun d ds hd => hzero ⟨d, ds, hd⟩
    rw [numberText_eq hwhole hzero'] at h
    have htext' : text' ≠ [] := by
      rintro rfl
      cases h
      exact hrest rfl
    rw [numberText_eq (someDigits_append hwhole htext' more) hzero']
    exact behindWhole_append h hrest more

/-- **A number ends at the same place if something stands behind it.** The sign in front is taken
off first. -/
theorem skipNumber_append (h : skipNumber text = .ok rest) (hrest : rest ≠ [])
    (more : List Char) : skipNumber (text ++ more) = .ok (rest ++ more) := by
  obtain ⟨⟨n, rest'⟩, hnumber, h⟩ := exists_of_bind_ok h
  cases h
  exact bind_eq_of_ok (numberText_append hnumber hrest more) _

/-! ### Values that are passed over -/

/-- What one function passes over at the beginning of a text, the other passes over in any
continuation of it, if something is left. -/
def Passes (skip skip' : List Char → Except Problem (List Char)) : Prop :=
  ∀ ⦃text rest⦄, skip text = .ok rest → rest ≠ [] →
    ∀ more, skip' (text ++ more) = .ok (rest ++ more)

section Skipping

variable {value value' : List Char → Except Problem (List Char)} {fuel fuel' : Nat} {first : Bool}

/-- Where an entry begins: at its first character, or behind the comma before it. -/
theorem entry_append (first : Bool) (c : Char) (text more : List Char) :
    (if first then c :: (text ++ more) else text ++ more) =
      (if first then c :: text else text) ++ more := by
  cases first
  · rfl
  · rfl

theorem ne_nil_of_skipItems (h : skipItems value fuel first text = .ok rest) : text ≠ [] := by
  rintro rfl
  cases fuel <;> cases h

/-- The items of an array end at its bracket. What is passed over in between is followed by a comma
or by the bracket, so that something always stands behind a number. -/
theorem skipItems_append (hvalue : Passes value value') (hfuel : fuel ≤ fuel')
    (h : skipItems value fuel first text = .ok rest) (more : List Char) :
    skipItems value' fuel' first (text ++ more) = .ok (rest ++ more) := by
  induction fuel generalizing fuel' first text with
  | zero => cases h
  | succ fuel ih =>
    obtain ⟨fuel', rfl⟩ := Nat.exists_eq_add_of_le' (Nat.le_trans (Nat.le_add_left 1 fuel) hfuel)
    rw [skipItems] at h ⊢
    rcases hblanks : dropBlanks text with _ | ⟨c, inner⟩
    · simp [hblanks] at h
    · simp only [hblanks] at h
      simp only [dropBlanks_append hblanks more, entry_append]
      by_cases hclose : c = ']'
      · rw [if_pos hclose] at h ⊢
        cases h
        rfl
      · rw [if_neg hclose] at h ⊢
        by_cases hnext : (first || c = ',') = true
        · rw [if_pos hnext] at h ⊢
          rcases hitem : value (if first = true then c :: inner else inner) with e | text'
          · simp [hitem] at h
          · simp only [hitem] at h
            simp only [hvalue hitem (ne_nil_of_skipItems h) more]
            exact ih (Nat.le_of_succ_le_succ hfuel) h
        · rw [if_neg hnext] at h
          cases h

theorem skipKey_append (h : skipKey text = .ok rest) (more : List Char) :
    skipKey (text ++ more) = .ok (rest ++ more) := by
  unfold skipKey at h ⊢
  rcases hblanks : dropBlanks text with _ | ⟨c, inner⟩
  · simp [hblanks] at h
  · simp only [hblanks] at h
    simp only [dropBlanks_append hblanks more]
    by_cases hquote : c ≠ '"'
    · rw [if_pos hquote] at h
      cases h
    · rw [if_neg hquote] at h ⊢
      rcases hstring : skipString inner with e | text'
      · simp [hstring] at h
      · simp only [hstring] at h
        simp only [skipString_append hstring more]
        rcases hblanks' : dropBlanks text' with _ | ⟨d, inner'⟩
        · simp [hblanks'] at h
        · simp only [hblanks'] at h
          simp only [dropBlanks_append hblanks' more]
          by_cases hcolon : d = ':'
          · rw [if_pos hcolon] at h ⊢
            cases h
            rfl
          · rw [if_neg hcolon] at h
            cases h

theorem ne_nil_of_skipMembers (h : skipMembers value fuel first text = .ok rest) : text ≠ [] := by
  rintro rfl
  cases fuel <;> cases h

/-- The members of an object end at its brace, for the same reason. Each of them has a name, which
is passed over as a string is. -/
theorem skipMembers_append (hvalue : Passes value value') (hfuel : fuel ≤ fuel')
    (h : skipMembers value fuel first text = .ok rest) (more : List Char) :
    skipMembers value' fuel' first (text ++ more) = .ok (rest ++ more) := by
  induction fuel generalizing fuel' first text with
  | zero => cases h
  | succ fuel ih =>
    obtain ⟨fuel', rfl⟩ := Nat.exists_eq_add_of_le' (Nat.le_trans (Nat.le_add_left 1 fuel) hfuel)
    rw [skipMembers] at h ⊢
    rcases hblanks : dropBlanks text with _ | ⟨c, inner⟩
    · simp [hblanks] at h
    · simp only [hblanks] at h
      simp only [dropBlanks_append hblanks more, entry_append]
      by_cases hclose : c = '\x7d'
      · rw [if_pos hclose] at h ⊢
        cases h
        rfl
      · rw [if_neg hclose] at h ⊢
        by_cases hnext : (first || c = ',') = true
        · rw [if_pos hnext] at h ⊢
          rcases hkey : skipKey (if first = true then c :: inner else inner) with e | text'
          · simp [hkey] at h
          · simp only [hkey] at h
            simp only [skipKey_append hkey more]
            rcases hmember : value text' with e | text''
            · simp [hmember] at h
            · simp only [hmember] at h
              simp only [hvalue hmember (ne_nil_of_skipMembers h) more]
              exact ih (Nat.le_of_succ_le_succ hfuel) h
        · rw [if_neg hnext] at h
          cases h

end Skipping

/-- **A value is passed over** in the same way if more text follows, and with more fuel. By
induction on the fuel, which bounds the depth of the value. -/
theorem passes_skipValue {fuel fuel' : Nat} (hfuel : fuel ≤ fuel') :
    Passes (skipValue fuel) (skipValue fuel') := by
  induction fuel generalizing fuel' with
  | zero =>
    intro text rest h
    cases h
  | succ fuel ih =>
    intro text rest h hrest more
    obtain ⟨fuel', rfl⟩ := Nat.exists_eq_add_of_le' (Nat.le_trans (Nat.le_add_left 1 fuel) hfuel)
    have hle : fuel ≤ fuel' := Nat.le_of_succ_le_succ hfuel
    rcases hblanks : dropBlanks text with _ | ⟨c, inner⟩
    · simp [skipValue, hblanks] at h
    · rw [skipValue, hblanks] at h
      rw [skipValue, dropBlanks_append hblanks more]
      -- What a value is, is seen by its first character.
      by_cases hnull : c = 'n'
      · subst hnull
        exact word_append h more
      by_cases htrue : c = 't'
      · subst htrue
        exact word_append h more
      by_cases hfalse : c = 'f'
      · subst hfalse
        exact word_append h more
      by_cases hminus : c = '-'
      · subst hminus
        exact skipNumber_append h hrest more
      by_cases hquote : c = '"'
      · subst hquote
        exact skipString_append h more
      by_cases hbracket : c = '['
      · subst hbracket
        exact skipItems_append (ih hle) hle h more
      by_cases hbrace : c = '\x7b'
      · subst hbrace
        exact skipMembers_append (ih hle) hle h more
      -- It is a number or nothing.
      simp only at h ⊢
      by_cases hdigit : Numeral.isDigit c = true
      · rw [if_pos hdigit] at h ⊢
        exact skipNumber_append h hrest more
      · rw [if_neg hdigit] at h
        cases h

end StackUnits.Json
