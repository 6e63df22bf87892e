/-!
# Decimal Digits

Reading a run of decimal digits as a natural number. Only the ten ASCII digits
count, and there is no separator between them.

## Main definitions

* `Text.natural?`: The number that a text of digits spells.
-/

namespace Primer

namespace Text

/-- The number that a text of at least one digit, and nothing else, spells. -/
def natural? (cs : List Char) : Option Nat :=
  if !cs.isEmpty && cs.all Char.isDigit then some (Nat.ofDigitChars 10 cs 0) else none

end Text

end Primer
