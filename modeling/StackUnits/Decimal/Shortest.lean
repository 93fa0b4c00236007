import StackUnits.Decimal.Binary

/-!
# The shortest decimal that reads back

A number `m * 2 ^ q` is printed with the fewest decimal digits that still tell it
from its neighbours. What those digits are is a question about one interval: the
reals that round to the number, whose ends lie halfway to the neighbours and
belong to it exactly when the significand is even.

`StackUnits.shortest` walks down the decimal grids `10 ^ e`, from one place above
the leading digit, and on each looks at the two grid points around the number. The
first grid that has one of them inside the interval wins; if it has both, the
nearer wins. Which of the two is taken in the midst between them is not settled here
(`StackUnits.Tie`).

All of it is a comparison of natural numbers, after numerator and denominator have
been cleared of the two exponents.
-/

namespace StackUnits

/-- Which of two neighbours on a decimal grid is taken for a number in their midst: the
larger, or the even one. -/
inductive Tie
  | up
  | toEven
  deriving DecidableEq

/-- Whether the larger neighbour is taken, given the smaller one. -/
def Tie.takesLarger (tie : Tie) (smaller : Nat) : Bool :=
  match tie with
  | up => true
  | toEven => smaller % 2 == 1

/-- **A positive number between its neighbours**, as fractions over one
denominator: `value / unit`, and the ends `low / unit` and `high / unit` of the
interval that rounds to it, which are included if `closed`. -/
structure Surrounded where
  unit : Nat
  value : Nat
  low : Nat
  high : Nat
  closed : Bool

namespace Surrounded

/-- The number `significand * 2 ^ exponent` of a format. Below a power of two the
neighbour is half as far away as above it, unless the exponent is already the
least one. -/
def ofFinite (f : Format) (significand : Nat) (exponent : Int) : Surrounded :=
  let narrow := significand == f.hidden && exponent != f.leastExponent
  let scale (n : Nat) : Nat :=
    match exponent with
    | .ofNat e => n * twoTo e
    | .negSucc _ => n
  { unit :=
      match exponent with
      | .ofNat _ => 4
      | .negSucc e => 4 * twoTo (e + 1)
    value := scale (4 * significand)
    low := scale (4 * significand - if narrow then 1 else 2)
    high := scale (4 * significand + 2)
    closed := significand % 2 == 0 }

/-- Whether the grid point `digits * 10 ^ place` rounds to the number. -/
def covers (s : Surrounded) (digits : Nat) (place : Int) : Bool :=
  let point :=
    match place with
    | .ofNat e => digits * tenTo e * s.unit
    | .negSucc _ => digits * s.unit
  let grid := match place with | .ofNat _ => 1 | .negSucc e => tenTo (e + 1)
  if s.closed then decide (s.low * grid ≤ point ∧ point ≤ s.high * grid)
  else decide (s.low * grid < point ∧ point < s.high * grid)

/-- The digits of the number cut off at the given place, and how what is cut off
compares with half a unit of that place. -/
def cut (s : Surrounded) (place : Int) : Nat × Ordering :=
  let num := match place with | .ofNat _ => s.value | .negSucc e => s.value * tenTo (e + 1)
  let den := match place with | .ofNat e => s.unit * tenTo e | .negSucc _ => s.unit
  (num / den, compare (2 * (num % den)) den)

/-- The place of the leading decimal digit. -/
def leadingPlace (s : Surrounded) : Int :=
  if s.unit ≤ s.value then ((Nat.toDigits 10 (s.value / s.unit)).length : Int) - 1
  else -((Nat.toDigits 10 ((s.unit - 1) / s.value)).length : Int)

/-- The grid point of the given place that is chosen for the number, if one of the
two around it will do. -/
def pick? (s : Surrounded) (tie : Tie) (place : Int) : Option Nat :=
  let (below, order) := s.cut place
  match s.covers below place, s.covers (below + 1) place with
  | true, true =>
    match order with
    | .lt => some below
    | .eq => some (if tie.takesLarger below then below + 1 else below)
    | .gt => some (below + 1)
  | true, false => some below
  | false, true => some (below + 1)
  | false, false => none

/-- The first of the given number of places, downwards from `place`, that has a
point for the number. -/
def search (s : Surrounded) (tie : Tie) : Nat → Int → Nat × Int
  | 0, place => ((s.cut place).1, place)
  | more + 1, place =>
    match s.pick? tie place with
    | some digits => (digits, place)
    | none => s.search tie more (place - 1)

end Surrounded

/-- Drop the zeros at the end of a digit string, as a number. -/
def dropZeros : Nat → Nat → Int → Nat × Int
  | 0, digits, place => (digits, place)
  | more + 1, digits, place =>
    if digits % 10 = 0 then dropZeros more (digits / 10) (place + 1) else (digits, place)

/-- **The shortest decimal of a positive number**: digits and place such that
`digits * 10 ^ place` rounds to `significand * 2 ^ exponent`, no decimal with
fewer digits does, and none with as many is nearer; `tie` says what to do if another is
as near. -/
def shortest (f : Format) (tie : Tie) (significand : Nat) (exponent : Int) : Nat × Int :=
  let s := Surrounded.ofFinite f significand exponent
  let (digits, place) := s.search tie 20 (s.leadingPlace + 1)
  dropZeros 20 digits place

end StackUnits
