import Primer.Fault
import Primer.Text.Blank
import Primer.Text.Digits

/-!
# Input Lines

How a line that a user types in becomes values: it is cut at its commas into
pieces without surrounding blanks, and each piece is read as a value of the type
of the variable it is meant for.

## Main definitions

* `Input.pieces`: The pieces of a line.
* `Input.int?`: The whole number that a text spells.
* `Input.read`: The value of a given type that a text spells.
-/

namespace Primer

namespace Input

/-- The parts of a text between its commas. There is always at least one. -/
def fields : List Char → List (List Char)
  | [] => [[]]
  | c :: cs =>
      if c = ',' then [] :: fields cs else (fields cs).modifyHead (c :: ·)

/-- The pieces of a line. A blank line has none. -/
def pieces (line : String) : List String :=
  let cs := line.toList
  if (Text.trim cs).isEmpty then [] else (fields cs).map fun f => String.ofList (Text.trim f)

/-- The whole number that a text spells: an optional sign, then digits. It has to
    fit in 32 bits. -/
def int? (text : String) : Option Int32 :=
  match text.toList with
  | '-' :: cs => ((Text.natural? cs).filter (· ≤ 0x80000000)).map fun n => Int32.ofInt (-n)
  | '+' :: cs => ((Text.natural? cs).filter (· < 0x80000000)).map fun n => Int32.ofInt n
  | cs => ((Text.natural? cs).filter (· < 0x80000000)).map fun n => Int32.ofInt n

/-- The truth value that a text names, in letters of either case. -/
def bool? (text : String) : Option Bool :=
  let name := String.ofList (text.toList.map Char.toLower)
  if name = "true" then some true
  else if name = "false" then some false
  else none

/-- The one character that a text consists of. -/
def char? (text : String) : Option Char :=
  match text.toList with
  | [c] => some c
  | _ => none

/-- The value of a given type that a text spells. -/
def value? (type : DataType) (text : String) : Option Value :=
  match type with
  | .int => (int? text).map .int
  | .float => (Binary32.ofText? text).map .float
  | .bool => (bool? text).map .bool
  | .char => (char? text).map .char
  | .string => some (.string text)

/-- Reads a piece of input as a value of a given type. -/
def read (type : DataType) (text : String) (pos : Position) : Except Fault Value :=
  match value? type text with
  | some value => .ok value
  | none => .error (.program pos (.inputFormat text type))

end Input

end Primer
