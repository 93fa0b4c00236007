/-!
# Blanks

The characters that count as empty space around a number or in a path list: the
code points with the Unicode property `White_Space`. There are twenty-five of them,
and core's `Char.isWhitespace` knows only the ASCII ones that occur in source
texts.
-/

namespace StackUnits.Text

/-- A character with the Unicode property `White_Space`. -/
def isBlank (c : Char) : Bool :=
  let n := c.toNat
  (0x9 ≤ n && n ≤ 0xd) || n == 0x20 || n == 0x85 || n == 0xa0 || n == 0x1680
    || (0x2000 ≤ n && n ≤ 0x200a) || n == 0x2028 || n == 0x2029 || n == 0x202f || n == 0x205f
    || n == 0x3000

/-- The text without the blanks at either end. -/
def trim (text : List Char) : List Char :=
  ((text.dropWhile isBlank).reverse.dropWhile isBlank).reverse

end StackUnits.Text
