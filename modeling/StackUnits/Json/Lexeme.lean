import StackUnits.Decimal.Numeral
import StackUnits.Json.Problem

/-!
# The smallest pieces of a JSON text

Blanks, the words `null`, `true` and `false`, strings and numbers. Every reader takes
the characters that remain and gives back those after the piece it read.

A **string** is read one character at a time by a machine with a handful of states
(`StackUnits.Json.Escape`), so the reader recurs on the text itself. An escape that
names half of a surrogate pair has to be followed by one that names the other half.
There is a lenient mode for strings that nobody looks at, where only the shape of
escapes matters.

A **number** is read to sixty-four bits: while its digits fit they are kept, those that
do not fit only count as a power of ten, and a number with a fraction, an exponent or
too many digits is rounded, twice if it has both many digits and an exponent.
-/

namespace StackUnits.Json

/-- A reader of a piece at the start of the remaining text. -/
abbrev Reader := StateT (List Char) (Except Problem)

/-- The characters that may stand between the pieces of a text. -/
def isBlank (c : Char) : Bool :=
  c == ' ' || c == '\n' || c == '\t' || c == '\r'

/-- The text from its first character that is not blank. -/
def dropBlanks (text : List Char) : List Char :=
  text.dropWhile isBlank

/-- Read the given characters, the rest of a word. -/
def word : List Char → List Char → Except Problem (List Char)
  | [], text => .ok text
  | _ :: _, [] => .error .endInValue
  | c :: rest, d :: text => if d = c then word rest text else .error .expectedWord

/-! ### Strings -/

/-- **Where the reader of a string stands.** -/
inductive Escape
  /-- Not in an escape. -/
  | plain
  /-- After a backslash. -/
  | begun
  /-- In the digits of an escape, with so many more to come; `value` is that of the
  digits so far, and `lead` the first half of a surrogate pair if there is one. -/
  | digits (missing value : Nat) (lead : Option Nat)
  /-- After the first half of a surrogate pair. -/
  | afterLead (lead : Nat)
  /-- After the first half of a surrogate pair and a backslash. -/
  | afterLeadBegun (lead : Nat)
  deriving DecidableEq

/-- The value of a hexadecimal digit. -/
def hexValue? (c : Char) : Option Nat :=
  if '0' ≤ c ∧ c ≤ '9' then some (c.toNat - '0'.toNat)
  else if 'a' ≤ c ∧ c ≤ 'f' then some (c.toNat - 'a'.toNat + 10)
  else if 'A' ≤ c ∧ c ≤ 'F' then some (c.toNat - 'A'.toNat + 10)
  else none

/-- The character that a one-letter escape stands for. -/
def escaped? : Char → Option Char
  | '"' => some '"'
  | '\\' => some '\\'
  | '/' => some '/'
  | 'b' => some '\x08'
  | 'f' => some '\x0c'
  | 'n' => some '\n'
  | 'r' => some '\r'
  | 't' => some '\t'
  | _ => none

/-- Whether a number is in the range of first halves of surrogate pairs. -/
def isLead (n : Nat) : Bool :=
  0xD800 ≤ n && n < 0xDC00

/-- Whether a number is in the range of second halves of surrogate pairs. -/
def isTrail (n : Nat) : Bool :=
  0xDC00 ≤ n && n < 0xE000

/-- The character that a surrogate pair stands for. -/
def pairChar (lead trail : Nat) : Char :=
  Char.ofNat ((lead - 0xD800) * 0x400 + (trail - 0xDC00) + 0x10000)

/-- Whether the text has at least so many bytes. -/
def hasBytes : Nat → List Char → Bool
  | 0, _ => true
  | _ + 1, [] => false
  | count + 1, c :: rest => hasBytes (count + 1 - c.utf8Size) rest

/-- What the last digit of an escape leads to: the state after it, and the character it
completes if there is one. -/
def endOfDigits (lenient : Bool) (lead : Option Nat) (value : Nat) :
    Except Problem (Escape × Option Char) :=
  if lenient then .ok (.plain, none)
  else
    match lead with
    | some lead =>
      if isTrail value then .ok (.plain, some (pairChar lead value))
      else .error .loneSurrogate
    | none =>
      if isTrail value then .error .loneSurrogate
      else if isLead value then .ok (.afterLead value, none)
      else .ok (.plain, some (Char.ofNat value))

/-- **Read a string** from after its opening mark, or from the midst of it: `sofar` has
the characters read before. An escape that ends with the text is an end of the text,
even if one of its digits is none. -/
def stringFrom (lenient : Bool) :
    Escape → String → List Char → Except Problem (String × List Char)
  | _, _, [] => .error .endInString
  | .plain, sofar, c :: rest =>
    if c = '"' then .ok (sofar, rest)
    else if c = '\\' then stringFrom lenient .begun sofar rest
    else if c.toNat < 0x20 then .error .controlCharacter
    else stringFrom lenient .plain (sofar.push c) rest
  | .begun, sofar, c :: rest =>
    if c = 'u' then stringFrom lenient (.digits 4 0 none) sofar rest
    else
      match escaped? c with
      | some d => stringFrom lenient .plain (sofar.push d) rest
      | none => .error .invalidEscape
  | .digits missing value lead, sofar, c :: rest =>
    match hexValue? c with
    | none =>
      if hasBytes missing (c :: rest) then .error .invalidEscape else .error .endInString
    | some digit =>
      let value := 16 * value + digit
      if missing ≤ 1 then
        match endOfDigits lenient lead value with
        | .ok (state, some d) => stringFrom lenient state (sofar.push d) rest
        | .ok (state, none) => stringFrom lenient state sofar rest
        | .error e => .error e
      else stringFrom lenient (.digits (missing - 1) value lead) sofar rest
  | .afterLead lead, sofar, c :: rest =>
    if c = '\\' then stringFrom lenient (.afterLeadBegun lead) sofar rest
    else .error .unfinishedSurrogatePair
  | .afterLeadBegun lead, sofar, c :: rest =>
    if c = 'u' then stringFrom lenient (.digits 4 0 (some lead)) sofar rest
    else .error .unfinishedSurrogatePair

/-- Read a string from after its opening mark. -/
def readString : Reader String :=
  stringFrom false .plain ""

/-- Pass over a string from after its opening mark. -/
def skipString (text : List Char) : Except Problem (List Char) :=
  match stringFrom true .plain "" text with
  | .ok (_, rest) => .ok rest
  | .error e => .error e

/-! ### Numbers -/

/-- A number as its text has it: digits before the point, after it if there is one, and
the exponent if there is one, as its sign and digits. -/
structure NumberText where
  whole : List Char
  fraction : Option (List Char) := none
  exponent : Option (Bool × List Char) := none

/-- The longest run of digits, and what follows. -/
def spanDigits (text : List Char) : List Char × List Char :=
  (text.takeWhile Numeral.isDigit, text.dropWhile Numeral.isDigit)

/-- Read at least one digit; the problem is another if the text ends instead. -/
def someDigits (atEnd : Problem) (text : List Char) : Except Problem (List Char × List Char) :=
  match spanDigits text with
  | ([], []) => .error atEnd
  | ([], _ :: _) => .error .invalidNumber
  | (digits, rest) => .ok (digits, rest)

/-- Read the exponent of a number, if there is one. -/
def exponentText (atEnd : Problem) (text : List Char) :
    Except Problem (Option (Bool × List Char) × List Char) :=
  match text with
  | 'e' :: rest | 'E' :: rest =>
    let (negative, rest) :=
      match rest with
      | '-' :: rest => (true, rest)
      | '+' :: rest => (false, rest)
      | rest => (false, rest)
    match someDigits atEnd rest with
    | .ok (digits, rest) => .ok (some (negative, digits), rest)
    | .error e => .error e
  | text => .ok (none, text)

/-- Read the text of a number from after its sign. A leading zero is the only digit
before the point. -/
def numberText (atEnd : Problem) (text : List Char) :
    Except Problem (NumberText × List Char) := do
  let (whole, text) ← someDigits atEnd text
  match whole with
  | '0' :: _ :: _ => throw .invalidNumber
  | _ => pure ()
  match text with
  | '.' :: rest =>
    let (fraction, rest) ← someDigits atEnd rest
    let (exponent, rest) ← exponentText atEnd rest
    return ({ whole, fraction := some fraction, exponent }, rest)
  | text =>
    let (exponent, rest) ← exponentText atEnd text
    return ({ whole, exponent }, rest)

/-- The digits of a whole number as far as they fit in sixty-four bits, and how many
are left after the first that does not. -/
def wholePart : List Char → Nat → Nat × Nat
  | [], n => (n, 0)
  | c :: rest, n =>
    let next := 10 * n + Numeral.digitValue c
    if next < 0x10000000000000000 then wholePart rest next else (n, rest.length + 1)

/-- The digits of a fraction added to a number as far as they fit in sixty-four bits,
and how many they are. -/
def fractionPart : List Char → Nat → Nat → Nat × Nat
  | [], n, count => (n, count)
  | c :: rest, n, count =>
    let next := 10 * n + Numeral.digitValue c
    if next < 0x10000000000000000 then fractionPart rest next (count + 1) else (n, count)

/-- A power of ten as a bit pattern. -/
def powerOfTen (exponent : Nat) : Nat :=
  Format.double.round (tenTo exponent) 1

/-- The bit pattern of a number times a power of ten, rounded at each step of at most
308 places; `bits` is that of the number. -/
def scale (bits : Nat) (exponent : Int) : Except Problem Nat :=
  if exponent.natAbs ≤ 308 then
    if 0 ≤ exponent then
      let product := Format.double.multiply bits (powerOfTen exponent.natAbs)
      if product < Format.double.infinityBits then .ok product else .error .numberOutOfRange
    else .ok (Format.double.divide bits (powerOfTen exponent.natAbs))
  else if bits = 0 then .ok 0
  else if 0 ≤ exponent then .error .numberOutOfRange
  else scale (Format.double.divide bits (powerOfTen 308)) (exponent + 308)
termination_by exponent.natAbs
decreasing_by omega

/-- The bit pattern of a nonnegative number, given by its significant digits, a power
of ten and its written exponent. An exponent beyond thirty-two bits makes any number
zero or too large. -/
def floatBits (significand : Nat) (place : Int) : Option (Bool × List Char) → Except Problem Nat
  | none => scale (Format.double.round significand 1) place
  | some (negative, digits) =>
    let written := Numeral.ofDigits digits
    if written < 0x80000000 then
      scale (Format.double.round significand 1)
        (if negative then place - written else place + written)
    else if significand ≠ 0 && !negative then .error .numberOutOfRange
    else .ok 0

/-- The number that a text denotes. -/
def NumberText.value (negative : Bool) (n : NumberText) : Except Problem Found :=
  let (significand, dropped) := wholePart n.whole 0
  let float (bits : Except Problem Nat) : Except Problem Found :=
    bits.map fun bits => .float (if negative then Format.double.signBit + bits else bits)
  match n.fraction, n.exponent with
  | none, none =>
    if dropped ≠ 0 then float (floatBits significand dropped none)
    else if !negative then .ok (.integer significand)
    else if significand = 0 || 0x8000000000000000 < significand then
      float (.ok (Format.double.round significand 1))
    else .ok (.integer (-(significand : Int)))
  | none, some exponent => float (floatBits significand dropped (some exponent))
  | some fraction, exponent =>
    let (significand, count) := fractionPart fraction significand 0
    float (floatBits significand ((dropped : Int) - count) exponent)

/-- Read a number from after its sign. -/
def readNumber (negative : Bool) : Reader Found := fun text => do
  let (n, rest) ← numberText .endInValue text
  let found ← n.value negative
  return (found, rest)

/-- Pass over a number from after its sign; its size does not matter. -/
def skipNumber (text : List Char) : Except Problem (List Char) := do
  let (_, rest) ← numberText .invalidNumber text
  return rest

/-! ### Values of the wrong sort -/

/-- **The problem with a value that is not of the wanted sort**, from its first
character on. If the value itself is malformed, that is the problem. -/
def wrongSort (wanted : Wanted) (text : List Char) : Problem :=
  let shown (found : Except Problem Found) : Problem :=
    match found with
    | .ok found => .wrongSort found wanted
    | .error e => e
  match text with
  | [] => .endInValue
  | 'n' :: rest => shown ((word ['u', 'l', 'l'] rest).map fun _ => .null)
  | 't' :: rest => shown ((word ['r', 'u', 'e'] rest).map fun _ => .boolean true)
  | 'f' :: rest => shown ((word ['a', 'l', 's', 'e'] rest).map fun _ => .boolean false)
  | '-' :: rest => shown ((readNumber true rest).map fun (found, _) => found)
  | '"' :: rest => shown ((readString rest).map fun (text, _) => .string text)
  | '[' :: _ => shown (.ok .sequence)
  | '\x7b' :: _ => shown (.ok .map)
  | c :: rest =>
    if Numeral.isDigit c then shown ((readNumber false (c :: rest)).map fun (found, _) => found)
    else .expectedValue

end StackUnits.Json
