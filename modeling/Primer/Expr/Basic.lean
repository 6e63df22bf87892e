import Primer.Operator
import Primer.Position
import Primer.Value.Basic

/-!
# Expressions

The expressions of a program. Each node carries the position of the lexeme that
its faults are reported at: the operator of a compound expression, the first
lexeme of any other. Parentheses are kept as nodes of their own.

## Main definitions

* `Expr`: An expression.
-/

namespace Primer

/-- An expression. -/
inductive Expr where
  /-- A constant. -/
  | literal (pos : Position) (value : Literal)
  /-- The value of a variable. -/
  | var (pos : Position) (name : String)
  /-- A sign in front of an expression. -/
  | signed (pos : Position) (sign : Sign) (operand : Expr)
  /-- An arithmetic operator between two expressions. -/
  | arith (pos : Position) (op : ArithOp) (left right : Expr)
  /-- A comparison of two expressions. -/
  | compare (pos : Position) (op : Comparison) (left right : Expr)
  /-- A connective between two expressions. -/
  | connect (pos : Position) (op : Connective) (left right : Expr)
  /-- The texts of two expressions, joined. -/
  | concat (pos : Position) (left right : Expr)
  /-- An expression in parentheses. -/
  | paren (pos : Position) (inner : Expr)
  /-- The negation of an expression. -/
  | not (pos : Position) (operand : Expr)
  /-- An escaped character. -/
  | escape (pos : Position) (c : Char)
  /-- The line break. -/
  | newline (pos : Position)
deriving DecidableEq

end Primer
