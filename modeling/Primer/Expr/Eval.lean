import Primer.Expr.Basic
import Primer.Store

/-!
# Evaluation

The value of an expression over given variables. Operands are evaluated from left
to right and both of them always are, so the fault of an expression is the first
one met in that order. Evaluating changes nothing.

## Main definitions

* `Expr.eval`: The value of an expression.
* `Expr.guard`: The value of an expression used as a condition.
-/

namespace Primer

namespace Expr

/-- The value of an expression over the given variables. -/
def eval (store : Store) : Expr → Except Fault Value
  | .literal _ l => .ok l.value
  | .var pos name => store.value name pos
  | .signed pos sign e => do (← eval store e).signed sign pos
  | .arith pos op l r => do
      let left ← eval store l
      let right ← eval store r
      left.arith op pos right
  | .compare pos op l r => do
      let left ← eval store l
      let right ← eval store r
      left.compare op pos right
  | .connect pos op l r => do
      let left ← eval store l
      let right ← eval store r
      left.connect op pos right
  | .concat _ l r => do
      let left ← eval store l
      let right ← eval store r
      return left.concat right
  | .paren _ e => eval store e
  | .not pos e => do (← eval store e).negate pos
  | .escape pos c => Value.escaped c pos
  | .newline _ => .ok (.string "\n")

/-- The truth of an expression used as the condition of the statement or branch
    at the given position. -/
def guard (store : Store) (pos : Position) (e : Expr) : Except Fault Bool := do
  (← eval store e).condition pos

end Expr

end Primer
