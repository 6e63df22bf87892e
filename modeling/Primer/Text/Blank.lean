/-!
# Blank Characters

The characters that count as blank space around the answers a user types in, and
taking them off the ends of a text. These are the characters with the Unicode
property `White_Space`, which covers more than the ASCII blanks and leaves out
the zero-width characters.

## Main definitions

* `Text.isBlank`: The class of blank characters.
* `Text.trim`: A text without the blanks at its ends.
-/

namespace Primer

namespace Text

/-- Whether a character is a blank. -/
def isBlank (c : Char) : Bool :=
  let n := c.toNat
  (0x09 ≤ n && n ≤ 0x0D) || n == 0x20 || n == 0x85 || n == 0xA0 || n == 0x1680
    || (0x2000 ≤ n && n ≤ 0x200A) || n == 0x2028 || n == 0x2029 || n == 0x202F
    || n == 0x205F || n == 0x3000

/-- A text without the blanks at its two ends. -/
def trim (cs : List Char) : List Char :=
  ((cs.dropWhile isBlank).reverse.dropWhile isBlank).reverse

end Text

end Primer
