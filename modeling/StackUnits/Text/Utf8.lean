/-!
# Where a text stops being UTF-8

Whether bytes are the UTF-8 form of a text is a question for the string type itself.
Readers that refuse a text have to say where it goes wrong, and that is what this file
is about: `StackUnits.Utf8.fault` walks along the bytes, keeping the list of ranges
that the next bytes have to lie in, and stops at the first byte that is out of its
range.

A sequence is the longest start of the form of some character. So its length counts the
bytes that were in their ranges, and is unknown if the text ends before that is decided.
-/

namespace StackUnits.Utf8

/-- The range of a byte, both ends included. -/
abbrev ByteRange := UInt8 × UInt8

/-- The range of a byte that continues a character. -/
def continuation : ByteRange := (0x80, 0xBF)

/-- The ranges of the bytes that have to follow a first byte, if it can be one. The
second byte is restricted where there would be a shorter form, a surrogate, or nothing
at all in the code space. -/
def following? (lead : UInt8) : Option (List ByteRange) :=
  if lead < 0x80 then some []
  else if lead < 0xC2 then none
  else if lead < 0xE0 then some [continuation]
  else if lead = 0xE0 then some [(0xA0, 0xBF), continuation]
  else if lead = 0xED then some [(0x80, 0x9F), continuation]
  else if lead < 0xF0 then some [continuation, continuation]
  else if lead = 0xF0 then some [(0x90, 0xBF), continuation, continuation]
  else if lead < 0xF4 then some [continuation, continuation, continuation]
  else if lead = 0xF4 then some [(0x80, 0x8F), continuation, continuation]
  else none

/-- The fault in bytes of which the first stands at `position`, in the midst of a
character that began at `start` and needs bytes in the ranges `pending`. -/
def faultFrom (start position : Nat) : List ByteRange → List UInt8 → Nat × Option Nat
  | [], [] => (position, none)
  | _ :: _, [] => (start, none)
  | [], byte :: rest =>
    match following? byte with
    | none => (position, some 1)
    | some pending => faultFrom position (position + 1) pending rest
  | (low, high) :: pending, byte :: rest =>
    if low ≤ byte ∧ byte ≤ high then faultFrom start (position + 1) pending rest
    else (start, some (position - start))

/-- **Where bytes stop being UTF-8**: the number of bytes before the first sequence
that is no character, and the length of that sequence unless the bytes end within it. -/
def fault (bytes : List UInt8) : Nat × Option Nat :=
  faultFrom 0 0 [] bytes

end StackUnits.Utf8
