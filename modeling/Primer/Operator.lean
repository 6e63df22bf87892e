/-!
# Operators

The operators of expressions, by what their operands have to be.

## Main definitions

* `Sign`: A sign in front of a number.
* `ArithOp`: An operator between two numbers.
* `Comparison`: An operator that compares two values.
* `Connective`: An operator between two conditions.
-/

namespace Primer

/-- A sign in front of a number. -/
inductive Sign where
  | plus
  | minus
deriving DecidableEq, Repr

/-- An operator between two numbers. -/
inductive ArithOp where
  | add
  | sub
  | mul
  | div
  | mod
deriving DecidableEq, Repr

/-- An operator that compares two values. -/
inductive Comparison where
  | eq
  | ne
  | lt
  | gt
  | le
  | ge
deriving DecidableEq, Repr

/-- An operator between two conditions. -/
inductive Connective where
  | and
  | or
deriving DecidableEq, Repr

namespace Sign

/-- How a sign is written. -/
def symbol : Sign → String
  | .plus => "+"
  | .minus => "-"

end Sign

namespace ArithOp

/-- How an arithmetic operator is written. -/
def symbol : ArithOp → String
  | .add => "+"
  | .sub => "-"
  | .mul => "*"
  | .div => "/"
  | .mod => "%"

/-- What an arithmetic operator does to two values, in the words of a
    diagnostic. -/
def verb : ArithOp → String
  | .add => "add"
  | .sub => "subtract"
  | .mul => "multiply"
  | .div => "divide"
  | .mod => "get modulo for the"

end ArithOp

namespace Comparison

/-- How a comparison is written. -/
def symbol : Comparison → String
  | .eq => "=="
  | .ne => "<>"
  | .lt => "<"
  | .gt => ">"
  | .le => "<="
  | .ge => ">="

end Comparison

namespace Connective

/-- How a connective is written. -/
def symbol : Connective → String
  | .and => "AND"
  | .or => "OR"

end Connective

end Primer
