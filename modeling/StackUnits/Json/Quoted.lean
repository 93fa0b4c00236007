/-!
# Writing strings in JSON

A string is written with as few escapes as the format allows: the quotation mark, the
backslash, and the characters below the space. What is written is put in front of a
text that follows, so that long texts are built from their end.
-/

namespace StackUnits.Json

/-- A hexadecimal digit, in small letters. -/
def hexDigit (n : Nat) : Char :=
  if n < 10 then Char.ofNat ('0'.toNat + n) else Char.ofNat ('a'.toNat + (n - 10))

/-- A character of a string as it is written. -/
def escapeChar (c : Char) : List Char :=
  if c = '"' then ['\\', '"']
  else if c = '\\' then ['\\', '\\']
  else if c = '\x08' then ['\\', 'b']
  else if c = '\t' then ['\\', 't']
  else if c = '\n' then ['\\', 'n']
  else if c = '\x0c' then ['\\', 'f']
  else if c = '\r' then ['\\', 'r']
  else if c.toNat < 0x20 then
    ['\\', 'u', '0', '0', hexDigit (c.toNat / 16), hexDigit (c.toNat % 16)]
  else [c]

/-- **A string in quotation marks**, in front of what follows. -/
def quoteBefore (text : String) (rest : List Char) : List Char :=
  '"' :: text.toList.foldr (fun c rest => escapeChar c ++ rest) ('"' :: rest)

end StackUnits.Json
