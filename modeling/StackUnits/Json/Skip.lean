import StackUnits.Json.Lexeme

/-!
# Passing over a value

A member of an object that nobody asked for may have any value, and the value is still
held to the rules of the format, though in a lenient way: strings may have lone
surrogates, numbers may be of any size.

The fuel bounds how deep the brackets go and how many values stand between two of them.
Every value has at least one character, so the length of the text is always enough.
-/

namespace StackUnits.Json

/-- Pass over the entries of a list up to its closing bracket, given how to pass over
one. -/
def skipItems (value : List Char → Except Problem (List Char)) :
    Nat → Bool → List Char → Except Problem (List Char)
  | 0, _, _ => .error .endInList
  | fuel + 1, first, text =>
    match dropBlanks text with
    | [] => .error .endInList
    | c :: rest =>
      if c = ']' then .ok rest
      else if first || c = ',' then
        match value (if first then c :: rest else rest) with
        | .ok text => skipItems value fuel false text
        | .error e => .error e
      else .error .expectedCommaOrBracket

/-- Pass over a key and the colon after it, from the key on. -/
def skipKey (text : List Char) : Except Problem (List Char) :=
  match dropBlanks text with
  | [] => .error .endInObject
  | c :: rest =>
    if c ≠ '"' then .error .keyNotString
    else
      match skipString rest with
      | .error e => .error e
      | .ok text =>
        match dropBlanks text with
        | [] => .error .endInObject
        | c :: rest => if c = ':' then .ok rest else .error .expectedColon

/-- Pass over the members of an object up to its closing brace, given how to pass over
a value. -/
def skipMembers (value : List Char → Except Problem (List Char)) :
    Nat → Bool → List Char → Except Problem (List Char)
  | 0, _, _ => .error .endInObject
  | fuel + 1, first, text =>
    match dropBlanks text with
    | [] => .error .endInObject
    | c :: rest =>
      if c = '\x7d' then .ok rest
      else if first || c = ',' then
        match skipKey (if first then c :: rest else rest) with
        | .error e => .error e
        | .ok text =>
          match value text with
          | .ok text => skipMembers value fuel false text
          | .error e => .error e
      else .error .expectedCommaOrBrace

/-- **Pass over a value.** -/
def skipValue : Nat → List Char → Except Problem (List Char)
  | 0, _ => .error .endInValue
  | fuel + 1, text =>
    match dropBlanks text with
    | [] => .error .endInValue
    | 'n' :: rest => word ['u', 'l', 'l'] rest
    | 't' :: rest => word ['r', 'u', 'e'] rest
    | 'f' :: rest => word ['a', 'l', 's', 'e'] rest
    | '-' :: rest => skipNumber rest
    | '"' :: rest => skipString rest
    | '[' :: rest => skipItems (skipValue fuel) fuel true rest
    | '\x7b' :: rest => skipMembers (skipValue fuel) fuel true rest
    | c :: rest => if Numeral.isDigit c then skipNumber (c :: rest) else .error .expectedValue

end StackUnits.Json
