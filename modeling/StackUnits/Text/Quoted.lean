import StackUnits.Text.Hidden

/-!
# Quoted text

Listings and messages show a text between quotation marks, with everything that a
reader could not see, or that would end the quotation, written as an escape. The
same rule with another mark serves for single characters; a list of texts in
brackets puts a backslash before marks of either sort.
-/

namespace StackUnits.Text

/-- The digits of a number in base sixteen, in small letters. -/
def hex (n : Nat) : String :=
  String.ofList (Nat.toDigits 16 n)

/-- A character inside a quotation in which the characters `marks` are marked with
a backslash. -/
def escape (marks : List Char) (c : Char) : String :=
  if c = '\x00' then "\\0"
  else if c = '\t' then "\\t"
  else if c = '\r' then "\\r"
  else if c = '\n' then "\\n"
  else if c = '\\' then "\\\\"
  else if marks.contains c then String.ofList ['\\', c]
  else if isHidden c then "\\u\x7b" ++ hex c.toNat ++ "\x7d"
  else String.singleton c

/-- The characters of a text, each escaped as needed. -/
def escapeAll (marks : List Char) (text : String) : String :=
  text.toList.foldl (fun acc c => acc ++ escape marks c) ""

/-- **A text in double quotation marks.** -/
def quote (text : String) : String :=
  "\"" ++ escapeAll ['"'] text ++ "\""

/-- A character in single quotation marks. -/
def quoteChar (c : Char) : String :=
  "'" ++ escape ['\''] c ++ "'"

/-- A list of texts in brackets, each in double quotation marks; inside it a mark
of either sort is escaped. -/
def quoteList (texts : List String) : String :=
  "[" ++ ", ".intercalate (texts.map fun t => "\"" ++ escapeAll ['"', '\''] t ++ "\"") ++ "]"

end StackUnits.Text
