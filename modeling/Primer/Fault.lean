import Primer.Operator
import Primer.Position
import Primer.Value.Basic

/-!
# Faults of a Running Program

What can go wrong while a program runs. Most faults are the program's own and
happen at a place in its text; the rest come from the channels it reads from and
writes to, and have no place.

A fault records its cause, and its wording is given once, by `Fault.message`. The
one cause that is not fatal is declaring a variable a second time: a running
program reports it and goes on.

## Main definitions

* `Cause`: Why a program failed at some place.
* `ChannelFault`: Why input or output failed.
* `Fault`: A cause with its place, or a failed channel.
* `Fault.message`: The wording of a fault.
-/

namespace Primer

/-- Why a program failed at some place. -/
inductive Cause where
  /-- The value of a variable was used, and there is no such variable. -/
  | undefined (name : String)
  /-- The type of a variable was asked for, and there is no such variable. -/
  | undeclared (name : String)
  /-- A variable was declared a second time. -/
  | redeclared (name : String)
  /-- A value was stored in a variable of another type. -/
  | mismatch (found : Option DataType) (expected : DataType)
  /-- A value that is no boolean was used as a condition. -/
  | notCondition (value : Value)
  /-- The operands of an arithmetic operator do not fit it. -/
  | badArith (op : ArithOp) (left right : Option DataType)
  /-- The operands of a comparison cannot be ordered. -/
  | badComparison (op : Comparison) (left right : Option DataType)
  /-- The operands of a connective are not both conditions. -/
  | badConnective (op : Connective) (left right : Option DataType)
  /-- A sign stands in front of something that is no number. -/
  | badSign (sign : Sign)
  /-- The operand of a negation is no condition. -/
  | badNegation
  /-- A character without an escape was escaped. -/
  | badEscape (c : Char)
  /-- A whole number was divided by zero. -/
  | divisionByZero
  /-- A loop ran into the cap on its rounds. -/
  | endlessLoop
  /-- A line of input has too few or too many pieces. -/
  | inputCount (expected found : Nat)
  /-- A piece of input cannot be read as a value of the variable's type. -/
  | inputFormat (text : String) (type : DataType)
deriving DecidableEq

/-- Why input or output failed. -/
inductive ChannelFault where
  /-- The output has no room left. -/
  | full
  /-- The output could not be flushed. -/
  | flush
  /-- A line of input is no text. -/
  | notText
deriving DecidableEq, Repr

/-- A fault of a running program. -/
inductive Fault where
  /-- The program failed at a place in its text. -/
  | program (pos : Position) (cause : Cause)
  /-- Input or output failed. -/
  | channel (fault : ChannelFault)
deriving DecidableEq

namespace Cause

/-- What a diagnostic says after naming the place. -/
def text : Cause → String
  | .undefined name => s!"variable '{name}' is not defined."
  | .undeclared name => s!"variable '{name}' has not been declared."
  | .redeclared name => s!"redefinition of variable '{name}'."
  | .mismatch found expected => s!"cannot convert {kindName found} to {expected.name}."
  | .notCondition value => s!"cannot convert {value.render} to boolean."
  | .badArith op left right =>
      s!"cannot {op.verb} values of types {kindName left} and {kindName right}."
  | .badComparison op left right =>
      s!"cannot compare values of types {kindName left} and {kindName right} "
        ++ s!"with '{op.symbol}' operator."
  | .badConnective op left right =>
      s!"invalid boolean operator: cannot apply {op.symbol} "
        ++ s!"to values of types {kindName left} and {kindName right}."
  | .badSign sign => s!"cannot get unary value for symbol {sign.symbol}."
  | .badNegation => "argument must be of boolean value."
  | .badEscape c => s!"invalid escape sequence character: {c}"
  | .divisionByZero => "cannot divide by zero."
  | .endlessLoop => "infinite loop detected."
  | .inputCount expected found =>
      s!"invalid number of inputs. Expected between 1 and {expected}, but got {found}."
  | .inputFormat text type =>
      s!"input '{text}' is not in the expected format for data type {type.name}."

end Cause

namespace ChannelFault

/-- What a diagnostic says about a failed channel. -/
def text : ChannelFault → String
  | .full => "failed to write whole buffer"
  | .flush => "flush failed"
  | .notText => "stream did not contain valid UTF-8"

end ChannelFault

namespace Fault

/-- The wording of a fault. -/
def message : Fault → String
  | .program pos (.redeclared name) =>
      s!"Warning: {pos.render} -> {(Cause.redeclared name).text}"
  | .program pos (.inputFormat text type) =>
      s!"Error: in Input Scan, in line {pos.line} -> {(Cause.inputFormat text type).text}"
  | .program pos cause => s!"Error: {pos.render} -> {cause.text}"
  | .channel fault => s!"Error: {fault.text}"

/-- The place of a fault, if it has one. -/
def pos? : Fault → Option Position
  | .program pos _ => some pos
  | .channel _ => none

/-- Whether a fault ends the program. -/
def isFatal : Fault → Bool
  | .program _ (.redeclared _) => false
  | _ => true

end Fault

end Primer
