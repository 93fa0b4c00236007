import StackUnits.Decimal.Binary
import StackUnits.Text.Blank

/-!
# Numerals in a program

The texts that number literals may have. An integer is an optional sign and decimal
digits; a float is an optional sign, digits with at most one point among or around
them, and an optional power of ten. Both may be surrounded by blanks, and neither
admits anything else between its parts.

A reader here takes the text apart and leaves the arithmetic to
`StackUnits.Format.ofDecimal`, so that rounding is decided in one place.
-/

namespace StackUnits.Numeral

/-- One of the ten decimal digits. -/
def isDigit (c : Char) : Bool :=
  '0' ≤ c && c ≤ '9'

/-- The value of a decimal digit. -/
def digitValue (c : Char) : Nat :=
  c.toNat - '0'.toNat

/-- The number that a string of decimal digits denotes. -/
def ofDigits (digits : List Char) : Nat :=
  digits.foldl (fun n c => 10 * n + digitValue c) 0

/-- An optional sign in front, and what follows it. -/
def sign : List Char → Bool × List Char
  | '-' :: rest => (true, rest)
  | '+' :: rest => (false, rest)
  | rest => (false, rest)

/-- A whole number: an optional sign and at least one digit. -/
def integer? (text : List Char) : Option Int :=
  let (negative, digits) := sign text
  if digits.isEmpty || !digits.all isDigit then none
  else some (if negative then -(ofDigits digits : Int) else ofDigits digits)

/-- **The value of an integer literal**: a whole number, blanks around it aside,
that fits in thirty-two bits. -/
def int32? (text : String) : Option Int32 :=
  match integer? (Text.trim text.toList) with
  | some n => if -0x80000000 ≤ n && n < 0x80000000 then some (Int32.ofInt n) else none
  | none => none

/-- A power of ten at the end of a numeral: nothing, or a letter `e` and a whole
number. -/
def exponent? : List Char → Option Int
  | [] => some 0
  | 'e' :: rest | 'E' :: rest => integer? rest
  | _ => none

/-- An unsigned decimal numeral, as its digits and the place of the last of them. -/
def decimal? (text : List Char) : Option (Nat × Int) :=
  let whole := text.takeWhile isDigit
  let rest := text.dropWhile isDigit
  let (fraction, rest) :=
    match rest with
    | '.' :: more => (more.takeWhile isDigit, more.dropWhile isDigit)
    | _ => ([], rest)
  if whole.isEmpty && fraction.isEmpty then none
  else (exponent? rest).map fun e => (ofDigits (whole ++ fraction), e - fraction.length)

/-- **The bit pattern of a float literal**: a decimal numeral, blanks around it
aside, whose nearest single-precision number is finite. -/
def single? (text : String) : Option UInt32 :=
  let (negative, digits) := sign (Text.trim text.toList)
  match decimal? digits with
  | some (digits, place) =>
    let bits := Format.single.ofDecimal digits place
    if bits < Format.single.infinityBits then
      some (UInt32.ofNat (if negative then Format.single.signBit + bits else bits))
    else none
  | none => none

end StackUnits.Numeral
