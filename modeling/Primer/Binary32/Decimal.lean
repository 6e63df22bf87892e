import Primer.Binary32.Basic
import Primer.Text.Digits

/-!
# Decimal Text of Single-Precision Numbers

How a single-precision number is written in decimal, and how decimal text is
read as one.

A unit is `5 ^ 149` times `10 ^ (-149)`, so every finite number has an exact
decimal expansion with at most 149 places, and both directions can work on
naturals alone. A number is written with the fewest digits that still read back
as it. The decimals that read back as a given number are those between the
midpoints to its two neighbours, the midpoints included exactly when the number
has an even index, because a half goes to the even index. For each count of
digits only the two decimals around the number have to be tried: if any decimal
of that length reads back, one of these does.

Reading goes the other way in a single rounding, by `ofUnits`.

## Main definitions

* `Decimal`: A whole number of powers of ten.
* `Binary32.shortest`: The shortest decimal that reads back.
* `Binary32.render`: The text of a number in a program's output.
* `Binary32.describe`: The text of a number in a diagnostic.
* `Binary32.ofDecimal`: The number nearest to a decimal.
* `Binary32.ofText?`: The number that a text spells.
-/

namespace Primer

/-- The number `digits * 10 ^ exponent`. -/
structure Decimal where
  digits : Nat
  exponent : Int
deriving DecidableEq, Repr

namespace Decimal

/-- The digits of a decimal, the leading one first. -/
def digitChars (d : Decimal) : List Char :=
  Nat.toDigits 10 d.digits

/-- How many digits stand before the point. It is negative when zeros have to
    be put between the point and the first digit. -/
def wholePlaces (d : Decimal) : Int :=
  d.digitChars.length + d.exponent

/-- The decimal written without an exponent. A whole number has nothing after
    its digits but `whole`. -/
def positional (d : Decimal) (whole : String) : String :=
  if 0 ≤ d.exponent then
    String.ofList (d.digitChars ++ List.replicate d.exponent.toNat '0') ++ whole
  else if 0 < d.wholePlaces then
    String.ofList (d.digitChars.take d.wholePlaces.toNat) ++ "."
      ++ String.ofList (d.digitChars.drop d.wholePlaces.toNat)
  else
    "0." ++ String.ofList (List.replicate (-d.wholePlaces).toNat '0' ++ d.digitChars)

/-- The decimal written with one digit before the point and an exponent. -/
def scientific (d : Decimal) : String :=
  let fraction := d.digitChars.drop 1
  String.ofList (d.digitChars.take 1)
    ++ (if fraction.isEmpty then "" else "." ++ String.ofList fraction)
    ++ "e" ++ (d.wholePlaces - 1).repr

end Decimal

namespace Binary32

/-- The exact worth of a magnitude, counted in `10 ^ (-149)`. -/
def exactDigits (index : Nat) : Nat :=
  units index * Nat.pow 5 149

/-- Whether a decimal counted in `10 ^ (-149)` reads back as the magnitude of the
    given index: it lies between the midpoints to the neighbours. -/
def readsBack (index digits : Nat) : Bool :=
  let below := exactDigits (index - 1) + exactDigits index
  let above := exactDigits index + exactDigits (index + 1)
  if index % 2 = 0 then below ≤ 2 * digits && 2 * digits ≤ above
  else below < 2 * digits && 2 * digits < above

/-- The nearest decimal with `count` digits that reads back, if there is one. Of
    two decimals equally near the larger one is taken. -/
def withDigits? (index count : Nat) : Option Decimal :=
  let exact := exactDigits index
  let dropped := (Nat.toDigits 10 exact).length - count
  let step := Nat.pow 10 dropped
  let low := exact / step
  let fits (n : Nat) : Option Decimal :=
    if readsBack index (n * step) then
      some (if n = Nat.pow 10 count then ⟨1, dropped + count - 149⟩ else ⟨n, dropped - 149⟩)
    else none
  if 2 * (exact % step) < step then (fits low).or (fits (low + 1))
  else (fits (low + 1)).or (fits low)

/-- The shortest decimal that reads back as the magnitude of the given index.
    Nine digits are always enough. -/
def shortest (index : Nat) : Decimal :=
  ((List.range 9).findSome? fun n => withDigits? index (n + 1)).getD ⟨exactDigits index, -149⟩

/-- The sign in front of a number. -/
def signText (negative : Bool) : String :=
  if negative then "-" else ""

/-- The text of a number in a program's output: always positional, and a whole
    number without a point. -/
def render : Binary32 → String
  | .nan => "NaN"
  | .infinite s => signText s ++ "inf"
  | .finite s i =>
      if i.val = 0 then signText s ++ "0" else signText s ++ (shortest i).positional ""

/-- The text of a number in a diagnostic: at least one place after the point,
    and scientific from `10 ^ 16` on and below `10 ^ (-4)`. -/
def describe : Binary32 → String
  | .nan => "NaN"
  | .infinite s => signText s ++ "inf"
  | .finite s i =>
      if i.val = 0 then signText s ++ "0.0"
      else
        let d := shortest i
        if -4 < d.wholePlaces ∧ d.wholePlaces ≤ 16 then signText s ++ d.positional ".0"
        else signText s ++ d.scientific

/-- The number nearest to a decimal with a sign in front. -/
def ofDecimal (negative : Bool) (d : Decimal) : Binary32 :=
  ofUnits negative (d.digits * Nat.pow 10 d.exponent.toNat * oneUnits)
    (Nat.pow 10 (-d.exponent).toNat)

/-- The number nearest to a decimal whose exponent may be of any size. A nonzero
    decimal is too large once the exponent alone is, and vanishes once the
    exponent outweighs all its digits, so no power of ten grows beyond what the
    text itself is long. -/
def ofScientific (negative : Bool) (digits : List Char) (exponent : Int) : Binary32 :=
  let d : Decimal := ⟨Nat.ofDigitChars 10 digits 0, exponent⟩
  if d.digits = 0 then zero negative
  else if 40 < exponent then .infinite negative
  else if exponent < -(digits.length + 60 : Int) then zero negative
  else ofDecimal negative d

/-- The value of an exponent's text: an optional sign and at least one digit. -/
def exponent? : List Char → Option Int
  | '-' :: cs => (Text.natural? cs).map fun n => -n
  | '+' :: cs => (Text.natural? cs).map fun n => n
  | cs => (Text.natural? cs).map fun n => n

/-- The number that an unsigned decimal text spells: digits with at most one
    point among them, at least one digit, and an optional exponent. -/
def unsigned? (negative : Bool) (cs : List Char) : Option Binary32 :=
  let (whole, afterWhole) := cs.span Char.isDigit
  let (fraction, afterFraction) :=
    match afterWhole with
    | '.' :: rest => rest.span Char.isDigit
    | rest => ([], rest)
  let digits := whole ++ fraction
  if digits.isEmpty then none
  else
    match afterFraction with
    | [] => some (ofScientific negative digits (-fraction.length))
    | e :: rest =>
        if e = 'e' ∨ e = 'E' then
          (exponent? rest).map fun n => ofScientific negative digits (n - fraction.length)
        else none

/-- The number that a text with its sign taken off spells: an infinity or the
    not-a-number value by name, in letters of either case, or a decimal. -/
def magnitude? (negative : Bool) (cs : List Char) : Option Binary32 :=
  let name := String.ofList (cs.map Char.toLower)
  if name = "inf" ∨ name = "infinity" then some (.infinite negative)
  else if name = "nan" then some .nan
  else unsigned? negative cs

/-- The number that a text spells, with an optional sign. -/
def ofText? (text : String) : Option Binary32 :=
  match text.toList with
  | '-' :: cs => magnitude? true cs
  | '+' :: cs => magnitude? false cs
  | cs => magnitude? false cs

end Binary32

end Primer
