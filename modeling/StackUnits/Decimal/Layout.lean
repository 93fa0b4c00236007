import StackUnits.Decimal.Shortest

/-!
# Writing a number in decimal

`StackUnits.shortest` fixes the digits of a number; where the point goes, when the
exponent is written out and how, is a matter of the place where the number appears.
Those decisions are collected in one record, `StackUnits.Layout`, and
`StackUnits.Layout.write` carries them out. Listings and messages about tree texts
use two different records.
-/

namespace StackUnits

/-- **How a number is laid out.** It is written with a point and no exponent while
the place of its leading digit is at least `leastPositional` and below
`firstScientific`; otherwise an exponent follows, with a plus sign or not. Of two
equally good decimals `tie` takes one. -/
structure Layout where
  leastPositional : Int
  firstScientific : Int
  plus : Bool
  tie : Tie
  deriving DecidableEq

namespace Layout

/-- A listing writes numbers from a ten-thousandth up to below ten to the sixteenth
without an exponent, and takes the larger of two equally good decimals. -/
def listing : Layout :=
  { leastPositional := -4, firstScientific := 16, plus := false, tie := .up }

/-- A message about a tree text writes one more small place without an exponent,
and an exponent with its sign. It takes the even one of two equally good decimals. -/
def message : Layout :=
  { leastPositional := -5, firstScientific := 16, plus := true, tie := .toEven }

/-- A run of zeros. -/
def zeros (n : Nat) : String :=
  String.ofList (List.replicate n '0')

/-- The digits with a point in their midst or around them; `lead` is the place of
the first digit. -/
def positional (digits : List Char) (lead : Int) : String :=
  match lead with
  | .negSucc e => "0." ++ zeros e ++ String.ofList digits
  | .ofNat e =>
    if digits.length ≤ e + 1 then String.ofList digits ++ zeros (e + 1 - digits.length) ++ ".0"
    else String.ofList (digits.take (e + 1)) ++ "." ++ String.ofList (digits.drop (e + 1))

/-- The digits with the point after the first one, and the exponent. -/
def scientific (l : Layout) (digits : List Char) (lead : Int) : String :=
  let fraction := if digits.length ≤ 1 then "" else "." ++ String.ofList (digits.drop 1)
  let sign := if lead < 0 then "-" else if l.plus then "+" else ""
  String.ofList (digits.take 1) ++ fraction ++ "e" ++ sign ++ toString lead.natAbs

/-- **The text of the number a bit pattern stands for.** -/
def write (l : Layout) (f : Format) (bits : Nat) : String :=
  match f.decode bits with
  | .undefined => "NaN"
  | .infinite negative => if negative then "-inf" else "inf"
  | .finite negative significand exponent =>
    let sign := if negative then "-" else ""
    if significand = 0 then sign ++ "0.0"
    else
      let (digits, place) := shortest f l.tie significand exponent
      let digits := Nat.toDigits 10 digits
      let lead := place + digits.length - 1
      if l.leastPositional ≤ lead && lead < l.firstScientific then sign ++ positional digits lead
      else sign ++ l.scientific digits lead

end Layout

end StackUnits
