import StackUnits.Decimal.Layout
import StackUnits.Text.Quoted
import StackUnits.Tree.Kind

/-!
# What can be wrong with a JSON text

Reading a tree or the settings from a JSON text stops at the first thing that does not
fit, in the order of the text. A value of the wrong sort is a problem at the place where
it starts, though it is read to its end first if it is a number or a string, because
the message shows it.
-/

namespace StackUnits.Json

/-- A value that was found, as far as messages show it. -/
inductive Found
  | null
  | boolean (value : Bool)
  | integer (value : Int)
  /-- A number that is not a whole one of sixty-four bits, by its bit pattern. -/
  | float (bits : Nat)
  | string (text : String)
  | sequence
  | map
  deriving DecidableEq, Inhabited

/-- The sort of value that was wanted. -/
inductive Wanted
  | string
  | path
  | boolean
  | unit
  | record (name : String)
  deriving DecidableEq, Inhabited

/-- **Why a JSON text could not be read.** -/
inductive Problem
  | endInValue
  | endInString
  | endInObject
  | endInList
  | expectedValue
  | expectedWord
  | expectedColon
  | expectedCommaOrBrace
  | expectedCommaOrBracket
  | keyNotString
  | trailingComma
  | trailingCharacters
  | invalidNumber
  | numberOutOfRange
  | invalidEscape
  | unfinishedSurrogatePair
  | loneSurrogate
  | controlCharacter
  | missingField (name : String)
  | duplicateField (name : String)
  | unknownKind (name : String)
  | wrongSort (found : Found) (wanted : Wanted)
  | tooFewItems (count : Nat) (record : String) (members : Nat)
  deriving DecidableEq, Inhabited

/-- The text of a found value in messages. -/
def Found.text : Found → String
  | null => "null"
  | boolean value => s!"boolean `{value}`"
  | integer value => s!"integer `{value}`"
  | float bits => "floating point `" ++ Layout.message.write .double bits ++ "`"
  | string text => "string " ++ Text.quote text
  | sequence => "sequence"
  | map => "map"

/-- The text of a wanted sort in messages. -/
def Wanted.text : Wanted → String
  | string => "a string"
  | path => "path string"
  | boolean => "a boolean"
  | unit => "unit"
  | record name => "struct " ++ name

/-- The names of all kinds, in grave accents. -/
def kindNames : String :=
  ", ".intercalate (Kind.all.map fun kind => "`" ++ kind.name ++ "`")

/-- **The message of a problem.** -/
def Problem.message : Problem → String
  | endInValue => "EOF while parsing a value"
  | endInString => "EOF while parsing a string"
  | endInObject => "EOF while parsing an object"
  | endInList => "EOF while parsing a list"
  | expectedValue => "expected value"
  | expectedWord => "expected ident"
  | expectedColon => "expected `:`"
  | expectedCommaOrBrace => "expected `,` or `\x7d`"
  | expectedCommaOrBracket => "expected `,` or `]`"
  | keyNotString => "key must be a string"
  | trailingComma => "trailing comma"
  | trailingCharacters => "trailing characters"
  | invalidNumber => "invalid number"
  | numberOutOfRange => "number out of range"
  | invalidEscape => "invalid escape"
  | unfinishedSurrogatePair => "unexpected end of hex escape"
  | loneSurrogate => "lone leading surrogate in hex escape"
  | controlCharacter => "control character (\\u0000-\\u001F) found while parsing a string"
  | missingField name => s!"missing field `{name}`"
  | duplicateField name => s!"duplicate field `{name}`"
  | unknownKind name => s!"unknown variant `{name}`, expected one of {kindNames}"
  | wrongSort found wanted => s!"invalid type: {found.text}, expected {wanted.text}"
  | tooFewItems count record members =>
    s!"invalid length {count}, expected struct {record} with {members} elements"

end StackUnits.Json
