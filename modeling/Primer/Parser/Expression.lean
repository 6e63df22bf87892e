import Primer.Expr.Basic
import Primer.Parser.Basic

/-!
# Reading Expressions

The grammar of expressions. From the loosest binding to the tightest, the levels
are `OR`, `AND`, `NOT`, equality, order, `&`, sums, products, signs, and the
primary expressions. Operators of one level group to the left, and `NOT` and the
signs stand in front of their operand and may be repeated.

A level is built from the next tighter one, and a primary expression needs the
loosest level again for what stands in parentheses. That one is therefore a
parameter of every level, beside the bound on the number of lexemes, and
`expressionWithin` ties the knot: what stands in parentheses has fewer lexemes
than the whole. With a bound of zero no lexeme is left, and reading fails as it
does on any empty list.

## Main definitions

* `Parser.primary`, …, `Parser.disjunction`: The levels, over a parser for what
  stands in parentheses.
* `Parser.expressionWithin`: Reads an expression from a bounded number of lexemes.
* `Parser.condition`: Reads the condition of a statement, without its parentheses.
* `Parser.expression`: Reads an expression.
-/

namespace Primer

namespace Parser

/-- What a sign does to the expression after it. -/
def sign? : Lexeme → Option (Expr → Expr)
  | ⟨.symbol .plus, pos⟩ => some (.signed pos .plus)
  | ⟨.symbol .minus, pos⟩ => some (.signed pos .minus)
  | _ => none

/-- How an operator on the level of products joins two expressions. -/
def product? : Lexeme → Option (Expr → Expr → Expr)
  | ⟨.symbol .star, pos⟩ => some (.arith pos .mul)
  | ⟨.symbol .slash, pos⟩ => some (.arith pos .div)
  | ⟨.symbol .percent, pos⟩ => some (.arith pos .mod)
  | _ => none

/-- How an operator on the level of sums joins two expressions. -/
def sum? : Lexeme → Option (Expr → Expr → Expr)
  | ⟨.symbol .plus, pos⟩ => some (.arith pos .add)
  | ⟨.symbol .minus, pos⟩ => some (.arith pos .sub)
  | _ => none

/-- How the sign of joining joins two expressions. -/
def concat? : Lexeme → Option (Expr → Expr → Expr)
  | ⟨.symbol .ampersand, pos⟩ => some (.concat pos)
  | _ => none

/-- How a comparison by order joins two expressions. -/
def order? : Lexeme → Option (Expr → Expr → Expr)
  | ⟨.symbol .less, pos⟩ => some (.compare pos .lt)
  | ⟨.symbol .greater, pos⟩ => some (.compare pos .gt)
  | ⟨.symbol .lessEqual, pos⟩ => some (.compare pos .le)
  | ⟨.symbol .greaterEqual, pos⟩ => some (.compare pos .ge)
  | _ => none

/-- How a comparison by equality joins two expressions. -/
def equality? : Lexeme → Option (Expr → Expr → Expr)
  | ⟨.symbol .equal, pos⟩ => some (.compare pos .eq)
  | ⟨.symbol .notEqual, pos⟩ => some (.compare pos .ne)
  | _ => none

/-- What a negation does to the expression after it. -/
def negation? : Lexeme → Option (Expr → Expr)
  | ⟨.keyword .notKw, pos⟩ => some (.not pos)
  | _ => none

/-- How `AND` joins two expressions. -/
def conjunction? : Lexeme → Option (Expr → Expr → Expr)
  | ⟨.keyword .andKw, pos⟩ => some (.connect pos .and)
  | _ => none

/-- How `OR` joins two expressions. -/
def disjunction? : Lexeme → Option (Expr → Expr → Expr)
  | ⟨.keyword .orKw, pos⟩ => some (.connect pos .or)
  | _ => none

/-- Reads a primary expression. -/
def primary (inner : Parser Expr) : Parser Expr := do
  let l ← next .expression
  match l.token with
  | .literal value => return .literal l.pos value
  | .identifier name => return .var l.pos name
  | .symbol .dollar => return .newline l.pos
  | .escape c => return .escape l.pos c
  | .symbol .leftParen => do
      let e ← inner
      let _ ← expect (.symbol .rightParen) .closeParen
      return .paren l.pos e
  | _ => reject l .expression

variable (bound : Nat) (inner : Parser Expr)

/-- Reads a primary expression with signs in front. -/
def signs : Parser Expr := marked (primary inner) sign?

/-- Reads a product. -/
def product : Parser Expr := chain bound (signs inner) product?

/-- Reads a sum. -/
def sum : Parser Expr := chain bound (product bound inner) sum?

/-- Reads a joined text. -/
def joined : Parser Expr := chain bound (sum bound inner) concat?

/-- Reads a comparison by order. -/
def order : Parser Expr := chain bound (joined bound inner) order?

/-- Reads a comparison by equality. -/
def equality : Parser Expr := chain bound (order bound inner) equality?

/-- Reads a negation. -/
def negation : Parser Expr := marked (equality bound inner) negation?

/-- Reads a conjunction. -/
def conjunction : Parser Expr := chain bound (negation bound inner) conjunction?

/-- Reads a disjunction, the loosest level. -/
def disjunction : Parser Expr := chain bound (conjunction bound inner) disjunction?

/-- Reads an expression from at most the given number of lexemes. -/
def expressionWithin : Nat → Parser Expr
  | 0 => throw (.endOfInput .expression)
  | n + 1 => disjunction (n + 1) (expressionWithin n)

/-- Reads the condition of a statement from at most `bound` lexemes. The
    parentheses around it belong to the statement. -/
def condition : Parser Expr := do
  let _ ← expect (.symbol .leftParen) .openCondition
  let e ← expressionWithin bound
  let _ ← expect (.symbol .rightParen) .closeCondition
  return e

/-- Reads an expression. -/
def expression : Parser Expr := do
  expressionWithin (← get).length

end Parser

end Primer
