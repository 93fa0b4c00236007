/-!
# Cutting a text at a separator

`StackUnits.Text.split` cuts a text at every occurrence of one character. It never
gives the empty list: a text without the character is its own only piece, and two
separators in a row have an empty piece between them. Joining the pieces gives the
text back (`StackUnits.Text.join_splitChars`).
-/

namespace StackUnits.Text

/-- The pieces between the occurrences of `sep`. -/
def splitChars (sep : Char) : List Char → List (List Char)
  | [] => [[]]
  | c :: rest =>
    if c = sep then [] :: splitChars sep rest
    else
      match splitChars sep rest with
      | piece :: pieces => (c :: piece) :: pieces
      | [] => [[c]]

/-- The pieces of a text between the occurrences of `sep`. -/
def split (sep : Char) (text : String) : List String :=
  (splitChars sep text.toList).map String.ofList

/-- The pieces with `sep` between them. -/
def joinChars (sep : Char) : List (List Char) → List Char
  | [] => []
  | [piece] => piece
  | piece :: pieces => piece ++ sep :: joinChars sep pieces

/-- There is always a piece. -/
theorem splitChars_ne_nil (sep : Char) (text : List Char) : splitChars sep text ≠ [] := by
  cases text with
  | nil => simp [splitChars]
  | cons c rest =>
    rw [splitChars]
    split
    · simp
    · split <;> simp

/-- **Cutting and joining again changes nothing.** -/
theorem join_splitChars (sep : Char) (text : List Char) :
    joinChars sep (splitChars sep text) = text := by
  induction text with
  | nil => rfl
  | cons c rest ih =>
    rw [splitChars]
    split
    · rename_i h
      subst h
      cases hs : splitChars c rest with
      | nil => exact absurd hs (splitChars_ne_nil c rest)
      | cons piece pieces =>
        rw [hs] at ih
        simp [joinChars, ih]
    · cases hs : splitChars sep rest with
      | nil => exact absurd hs (splitChars_ne_nil sep rest)
      | cons piece pieces =>
        rw [hs] at ih
        cases pieces with
        | nil => simpa [joinChars] using ih
        | cons second others => simpa [joinChars] using ih

end StackUnits.Text
