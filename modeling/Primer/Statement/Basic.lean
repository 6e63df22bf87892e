import Primer.Expr.Basic

/-!
# Statements and Programs

The statements of a program. A statement carries the position of its first
lexeme, and so do the parts of it that faults are reported at: each declared name
and each branch of a choice.

## Main definitions

* `Declarator`: One name of a declaration.
* `Statement`: A statement.
* `Branch`: A condition with the statements that run under it.
* `Program`: A list of statements in its frame.
-/

namespace Primer

/-- One name of a declaration, with its initial value if there is one. -/
structure Declarator where
  pos : Position
  name : String
  initializer : Option Expr
deriving DecidableEq

mutual

/-- A statement. -/
inductive Statement where
  /-- Declares variables of one type. -/
  | declare (pos : Position) (type : DataType) (declarators : List Declarator)
  /-- Assigns one value to some variables. -/
  | assign (pos : Position) (targets : List String) (value : Expr)
  /-- Runs the first branch whose condition holds, or else the last body. -/
  | choose (pos : Position) (first : Branch) (others : List Branch)
      (otherwise : Option (List Statement))
  /-- Repeats a body as long as a condition holds before it. -/
  | loop (pos : Position) (guard : Expr) (body : List Statement)
  /-- Repeats a body as long as a condition holds after it. -/
  | loopAfter (pos : Position) (body : List Statement) (guard : Expr)
  /-- Writes the text of a value. -/
  | display (pos : Position) (value : Expr)
  /-- Reads a line of input into variables. -/
  | scan (pos : Position) (names : List String)

/-- A condition with the statements that run under it. -/
structure Branch where
  pos : Position
  guard : Expr
  body : List Statement

end

/-- A program: its statements, and the position of its opening line. -/
structure Program where
  pos : Position
  statements : List Statement

end Primer
