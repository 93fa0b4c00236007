/-!
# Binary floating-point formats

A floating-point constant is kept as its bit pattern, and everything done with one
is done in exact arithmetic on natural numbers. This file is the bridge between
the two: it takes a bit pattern apart into a significand and an exponent
(`StackUnits.Format.decode`), and it rounds a quotient of natural numbers to the
nearest bit pattern, ties to the even one (`StackUnits.Format.round`).

The two widths that occur, `StackUnits.Format.single` and
`StackUnits.Format.double`, are two values of one structure, so that reading and
printing are written once.
-/

namespace StackUnits

/-- A power of two. -/
def twoTo (exponent : Nat) : Nat :=
  Nat.pow 2 exponent

/-- A power of ten. -/
def tenTo (exponent : Nat) : Nat :=
  Nat.pow 10 exponent

/-- **A binary interchange format**, by the number of bits of its significand
(leading bit included) and of its exponent field. -/
structure Format where
  precision : Nat
  exponentBits : Nat
  deriving DecidableEq

/-- The numbers a format can hold. A finite one is
`significand * 2 ^ exponent`, negated if `negative`. -/
inductive Number
  | undefined
  | infinite (negative : Bool)
  | finite (negative : Bool) (significand : Nat) (exponent : Int)
  deriving DecidableEq

namespace Format

/-- Thirty-two bits. -/
def single : Format := ⟨24, 8⟩

/-- Sixty-four bits. -/
def double : Format := ⟨53, 11⟩

/-- The exponent of the smallest positive number. -/
def leastExponent (f : Format) : Int :=
  3 - (twoTo (f.exponentBits - 1) : Int) - f.precision

/-- One more than the largest significand field. -/
def hidden (f : Format) : Nat :=
  twoTo (f.precision - 1)

/-- The bit pattern of positive infinity; the patterns below it are those of the
nonnegative finite numbers, in increasing order. -/
def infinityBits (f : Format) : Nat :=
  (twoTo f.exponentBits - 1) * f.hidden

/-- The bit pattern with only the sign set. -/
def signBit (f : Format) : Nat :=
  twoTo f.exponentBits * f.hidden

/-- The number a bit pattern stands for. -/
def decode (f : Format) (bits : Nat) : Number :=
  let negative := bits / f.signBit % 2 == 1
  let field := bits / f.hidden % twoTo f.exponentBits
  let fraction := bits % f.hidden
  if field = twoTo f.exponentBits - 1 then
    if fraction = 0 then .infinite negative else .undefined
  else if field = 0 then
    .finite negative fraction f.leastExponent
  else
    .finite negative (f.hidden + fraction) (f.leastExponent + field - 1)

/-- The quotient of two natural numbers rounded to the nearest natural number, a
half to the even neighbour. -/
def roundDiv (num den : Nat) : Nat :=
  let quotient := num / den
  let rest := num % den
  if 2 * rest < den then quotient
  else if den < 2 * rest then quotient + 1
  else quotient + quotient % 2

/-- `num / den` in units of `2 ^ exponent`, rounded as `StackUnits.Format.roundDiv`
does. -/
def scaled (num den : Nat) (exponent : Int) : Nat :=
  match exponent with
  | .ofNat e => roundDiv num (den * twoTo e)
  | .negSucc e => roundDiv (num * twoTo (e + 1)) den

/-- The exponent at which `num / den` has as many significant bits as the format
holds, or the least exponent if that is too small. -/
def unitExponent (f : Format) (num den : Nat) : Int :=
  let estimate := (num.log2 : Int) - den.log2 - f.precision
  let enough :=
    match estimate with
    | .ofNat e => decide (den * twoTo e * twoTo f.precision ≤ num)
    | .negSucc e => decide (den * twoTo f.precision ≤ num * twoTo (e + 1))
  max f.leastExponent (if enough then estimate + 1 else estimate)

/-- **The bit pattern nearest to `num / den`**, the infinite one if no finite
number is near enough.

A significand that rounding has carried to the next power of two needs no case of
its own: as bit patterns count upwards, the carry runs into the exponent field. -/
def round (f : Format) (num den : Nat) : Nat :=
  let exponent := f.unitExponent num den
  let significand := scaled num den exponent
  let field := (exponent - f.leastExponent).toNat
  if significand < f.hidden then significand
  else min f.infinityBits (field * f.hidden + significand)

/-- **The bit pattern nearest to `digits * 10 ^ exponent`.**

An exponent far outside the format's range is settled without computing the
power. -/
def ofDecimal (f : Format) (digits : Nat) (exponent : Int) : Nat :=
  let magnitude := (Nat.toDigits 10 digits).length + exponent
  if digits = 0 || magnitude < -(twoTo f.exponentBits : Int) then 0
  else if (twoTo f.exponentBits : Int) < magnitude then f.infinityBits
  else
    match exponent with
    | .ofNat e => f.round (digits * tenTo e) 1
    | .negSucc e => f.round digits (tenTo (e + 1))

/-- The product of two nonnegative finite bit patterns. -/
def multiply (f : Format) (a b : Nat) : Nat :=
  match f.decode a, f.decode b with
  | .finite _ m p, .finite _ n q =>
    match p + q with
    | .ofNat e => f.round (m * n * twoTo e) 1
    | .negSucc e => f.round (m * n) (twoTo (e + 1))
  | _, _ => f.infinityBits

/-- The quotient of two nonnegative finite bit patterns, the second not zero. -/
def divide (f : Format) (a b : Nat) : Nat :=
  match f.decode a, f.decode b with
  | .finite _ m p, .finite _ n q =>
    match p - q with
    | .ofNat e => f.round (m * twoTo e) n
    | .negSucc e => f.round m (n * twoTo (e + 1))
  | _, _ => f.infinityBits

/-- Whether two bit patterns stand for equal numbers: the two zeros are equal, and
nothing is equal to what is undefined. -/
def sameNumber (f : Format) (a b : Nat) : Bool :=
  match f.decode a, f.decode b with
  | .undefined, _ | _, .undefined => false
  | .finite _ 0 _, .finite _ 0 _ => true
  | _, _ => a == b

end Format

end StackUnits
