import Primer.Expr.Basic
import Primer.Lexeme

/-!
# The Grammar of Expressions

Which lexemes an expression is written with, and which expressions can be written at
all. Both are said here without a parser, so that a parser can be held against them.

An expression is spelled in order: an operator stands between its operands or in front
of its operand, and a pair of parentheses around what it encloses. Every node lends
its position to its own lexeme. The closing parenthesis belongs to a node whose
position is that of the opening one, so its own position is free.

Without parentheses the operators have to be sorted by how tightly they bind. The
levels are, from the loosest to the tightest, `OR`, `AND`, `NOT`, equality, order, `&`,
sums, products, signs, and what needs no operator. An operand may not be looser than
the operator it belongs to, and the right one of two operands has to be tighter, since
operators of one level group to the left. Inside a node of parentheses the count begins
anew.

## Main definitions

* `Expr.level`: How tightly an expression binds.
* `Expr.Layered`: No operand binds too loosely for its operator.
* `Expr.Spelled`: The lexemes that an expression is written with.
* `Token.binaryLevel?`, `Token.markLevel?`: The level of the operator that a token is
  between two operands, and in front of one.
* `Expr.Joins`, `Expr.Marks`: The nodes of an operator between operands, and in front
  of one.

## Theorems

* `Expr.Joins.layered_iff`, `Expr.Marks.layered_iff`: Layering, node by node.
* `Expr.Joins.spelled_iff`, `Expr.Marks.spelled_iff`: Spelling, node by node.
* `Expr.exists_lexemes`: Every expression can be spelled.
* `Expr.Spelled.level_le_of_mark`: An expression that begins with an operator is no
  tighter than it.
-/

namespace Primer

namespace Sign

/-- The token of a sign. -/
def token : Sign → Token
  | .plus => .symbol .plus
  | .minus => .symbol .minus

end Sign

namespace ArithOp

/-- The token of an arithmetic operator. -/
def token : ArithOp → Token
  | .add => .symbol .plus
  | .sub => .symbol .minus
  | .mul => .symbol .star
  | .div => .symbol .slash
  | .mod => .symbol .percent

/-- The level of an arithmetic operator. -/
def level : ArithOp → Nat
  | .add => 6
  | .sub => 6
  | _ => 7

end ArithOp

namespace Comparison

/-- The token of a comparison. -/
def token : Comparison → Token
  | .eq => .symbol .equal
  | .ne => .symbol .notEqual
  | .lt => .symbol .less
  | .gt => .symbol .greater
  | .le => .symbol .lessEqual
  | .ge => .symbol .greaterEqual

/-- The level of a comparison. -/
def level : Comparison → Nat
  | .eq => 3
  | .ne => 3
  | _ => 4

end Comparison

namespace Connective

/-- The token of a connective. -/
def token : Connective → Token
  | .and => .keyword .andKw
  | .or => .keyword .orKw

/-- The level of a connective. -/
def level : Connective → Nat
  | .or => 0
  | .and => 1

end Connective

namespace Token

/-- The level of the operator that a token is when it stands between two operands. -/
def binaryLevel? : Token → Option Nat
  | .keyword .orKw => some 0
  | .keyword .andKw => some 1
  | .symbol .equal => some 3
  | .symbol .notEqual => some 3
  | .symbol .less => some 4
  | .symbol .greater => some 4
  | .symbol .lessEqual => some 4
  | .symbol .greaterEqual => some 4
  | .symbol .ampersand => some 5
  | .symbol .plus => some 6
  | .symbol .minus => some 6
  | .symbol .star => some 7
  | .symbol .slash => some 7
  | .symbol .percent => some 7
  | _ => none

/-- The level of the operator that a token is when it stands in front of an
    operand. -/
def markLevel? : Token → Option Nat
  | .keyword .notKw => some 2
  | .symbol .plus => some 8
  | .symbol .minus => some 8
  | _ => none

end Token

namespace Expr

/-- How tightly an expression binds: the level of its outermost operator, and the
    tightest level if it has none. -/
def level : Expr → Nat
  | .connect _ op _ _ => op.level
  | .not _ _ => 2
  | .compare _ op _ _ => op.level
  | .concat _ _ _ => 5
  | .arith _ op _ _ => op.level
  | .signed _ _ _ => 8
  | _ => 9

/-- No operand binds too loosely for its operator. The right one of two operands
    binds more tightly than the operator, so that operators of one level are grouped to
    the left. What stands in parentheses may be of any level. -/
def Layered : Expr → Prop
  | .connect _ op l r => op.level ≤ l.level ∧ op.level < r.level ∧ l.Layered ∧ r.Layered
  | .not _ e => 2 ≤ e.level ∧ e.Layered
  | .compare _ op l r => op.level ≤ l.level ∧ op.level < r.level ∧ l.Layered ∧ r.Layered
  | .concat _ l r => 5 ≤ l.level ∧ 5 < r.level ∧ l.Layered ∧ r.Layered
  | .arith _ op l r => op.level ≤ l.level ∧ op.level < r.level ∧ l.Layered ∧ r.Layered
  | .signed _ _ e => 8 ≤ e.level ∧ e.Layered
  | .paren _ e => e.Layered
  | _ => True

/-- The lexemes that an expression is written with, in order. Each node stands at the
    position of its own lexeme. -/
inductive Spelled : Expr → List Lexeme → Prop where
  | literal (pos : Position) (v : Literal) : Spelled (.literal pos v) [⟨.literal v, pos⟩]
  | var (pos : Position) (name : String) : Spelled (.var pos name) [⟨.identifier name, pos⟩]
  | newline (pos : Position) : Spelled (.newline pos) [⟨.symbol .dollar, pos⟩]
  | escape (pos : Position) (c : Char) : Spelled (.escape pos c) [⟨.escape c, pos⟩]
  | paren (pos close : Position) {e : Expr} {ls : List Lexeme} (h : Spelled e ls) :
      Spelled (.paren pos e)
        (⟨.symbol .leftParen, pos⟩ :: (ls ++ [⟨.symbol .rightParen, close⟩]))
  | signed (pos : Position) (sign : Sign) {e : Expr} {ls : List Lexeme} (h : Spelled e ls) :
      Spelled (.signed pos sign e) (⟨sign.token, pos⟩ :: ls)
  | not (pos : Position) {e : Expr} {ls : List Lexeme} (h : Spelled e ls) :
      Spelled (.not pos e) (⟨.keyword .notKw, pos⟩ :: ls)
  | arith (pos : Position) (op : ArithOp) {l r : Expr} {ls rs : List Lexeme}
      (hl : Spelled l ls) (hr : Spelled r rs) :
      Spelled (.arith pos op l r) (ls ++ ⟨op.token, pos⟩ :: rs)
  | compare (pos : Position) (op : Comparison) {l r : Expr} {ls rs : List Lexeme}
      (hl : Spelled l ls) (hr : Spelled r rs) :
      Spelled (.compare pos op l r) (ls ++ ⟨op.token, pos⟩ :: rs)
  | connect (pos : Position) (op : Connective) {l r : Expr} {ls rs : List Lexeme}
      (hl : Spelled l ls) (hr : Spelled r rs) :
      Spelled (.connect pos op l r) (ls ++ ⟨op.token, pos⟩ :: rs)
  | concat (pos : Position) {l r : Expr} {ls rs : List Lexeme}
      (hl : Spelled l ls) (hr : Spelled r rs) :
      Spelled (.concat pos l r) (ls ++ ⟨.symbol .ampersand, pos⟩ :: rs)

/-- The expression that an operator between two operands makes of them. -/
inductive Joins : Lexeme → Expr → Expr → Expr → Prop where
  | arith (pos : Position) (op : ArithOp) (l r : Expr) :
      Joins ⟨op.token, pos⟩ l r (.arith pos op l r)
  | compare (pos : Position) (op : Comparison) (l r : Expr) :
      Joins ⟨op.token, pos⟩ l r (.compare pos op l r)
  | connect (pos : Position) (op : Connective) (l r : Expr) :
      Joins ⟨op.token, pos⟩ l r (.connect pos op l r)
  | concat (pos : Position) (l r : Expr) : Joins ⟨.symbol .ampersand, pos⟩ l r (.concat pos l r)

/-- The expression that an operator in front of an operand makes of it. -/
inductive Marks : Lexeme → Expr → Expr → Prop where
  | signed (pos : Position) (sign : Sign) (e : Expr) :
      Marks ⟨sign.token, pos⟩ e (.signed pos sign e)
  | not (pos : Position) (e : Expr) : Marks ⟨.keyword .notKw, pos⟩ e (.not pos e)

section Nodes

variable {o : Lexeme} {l r x e e' : Expr} {ls : List Lexeme}

theorem Joins.level_eq (h : Joins o l r e) : o.token.binaryLevel? = some e.level := by
  cases h with
  | arith pos op l r => cases op <;> rfl
  | compare pos op l r => cases op <;> rfl
  | connect pos op l r => cases op <;> rfl
  | concat pos l r => rfl

theorem Marks.level_eq (h : Marks o x e) : o.token.markLevel? = some e.level := by
  cases h with
  | signed pos sign e => cases sign <;> rfl
  | not pos e => rfl

theorem Joins.layered_iff (h : Joins o l r e) :
    e.Layered ↔ e.level ≤ l.level ∧ e.level < r.level ∧ l.Layered ∧ r.Layered := by
  cases h <;> rfl

theorem Marks.layered_iff (h : Marks o x e) : e.Layered ↔ e.level ≤ x.level ∧ x.Layered := by
  cases h <;> rfl

theorem Joins.spelled_iff (h : Joins o l r e) :
    e.Spelled ls ↔ ∃ lls rls, l.Spelled lls ∧ r.Spelled rls ∧ ls = lls ++ o :: rls := by
  constructor
  · intro hs
    cases h <;> cases hs <;> exact ⟨_, _, ‹_›, ‹_›, rfl⟩
  · rintro ⟨lls, rls, hl, hr, rfl⟩
    cases h with
    | arith pos op l r => exact .arith pos op hl hr
    | compare pos op l r => exact .compare pos op hl hr
    | connect pos op l r => exact .connect pos op hl hr
    | concat pos l r => exact .concat pos hl hr

theorem Marks.spelled_iff (h : Marks o x e) :
    e.Spelled ls ↔ ∃ xls, x.Spelled xls ∧ ls = o :: xls := by
  constructor
  · intro hs
    cases h <;> cases hs <;> exact ⟨_, ‹_›, rfl⟩
  · rintro ⟨xls, hx, rfl⟩
    cases h with
    | signed pos sign e => exact .signed pos sign hx
    | not pos e => exact .not pos hx

/-- On the levels of the operators in front there is nothing else. -/
theorem exists_marks (h : e.level = 2 ∨ e.level = 8) : ∃ o x, Marks o x e := by
  cases e with
  | signed pos sign e => exact ⟨_, _, .signed pos sign e⟩
  | not pos e => exact ⟨_, _, .not pos e⟩
  | arith pos op l r => cases op <;> rcases h with h | h <;> cases h
  | compare pos op l r => cases op <;> rcases h with h | h <;> cases h
  | connect pos op l r => cases op <;> rcases h with h | h <;> cases h
  | _ => rcases h with h | h <;> cases h

end Nodes

/-- Every expression has a spelling, though it need not be the one that reads back as the
    expression. -/
theorem exists_lexemes (e : Expr) : ∃ ls, e.Spelled ls := by
  induction e with
  | literal pos v => exact ⟨_, .literal pos v⟩
  | var pos name => exact ⟨_, .var pos name⟩
  | newline pos => exact ⟨_, .newline pos⟩
  | escape pos c => exact ⟨_, .escape pos c⟩
  | paren pos e ih => exact ih.elim fun _ h => ⟨_, .paren pos pos h⟩
  | signed pos sign e ih => exact ih.elim fun _ h => ⟨_, .signed pos sign h⟩
  | not pos e ih => exact ih.elim fun _ h => ⟨_, .not pos h⟩
  | arith pos op l r ihl ihr =>
      exact ihl.elim fun _ hl => ihr.elim fun _ hr => ⟨_, .arith pos op hl hr⟩
  | compare pos op l r ihl ihr =>
      exact ihl.elim fun _ hl => ihr.elim fun _ hr => ⟨_, .compare pos op hl hr⟩
  | connect pos op l r ihl ihr =>
      exact ihl.elim fun _ hl => ihr.elim fun _ hr => ⟨_, .connect pos op hl hr⟩
  | concat pos l r ihl ihr =>
      exact ihl.elim fun _ hl => ihr.elim fun _ hr => ⟨_, .concat pos hl hr⟩

theorem Spelled.ne_nil {e : Expr} {ls : List Lexeme} (h : e.Spelled ls) : ls ≠ [] := by
  cases h <;> simp only [ne_eq, reduceCtorEq, not_false_eq_true, List.append_eq_nil_iff, and_false]

/-- An expression that begins with an operator binds no tighter than that operator. -/
theorem Spelled.level_le_of_mark {e : Expr} {ls : List Lexeme} (h : e.Spelled ls) :
    e.Layered → ∀ o ∈ ls.head?, ∀ k ∈ o.token.markLevel?, e.level ≤ k := by
  -- An expression with two operands begins as its left operand does, and binds no
  -- tighter than that.
  have hjoin : ∀ {o : Lexeme} {l r e : Expr} {ls rs : List Lexeme}, Joins o l r e →
      l.Spelled ls →
      (l.Layered → ∀ o ∈ ls.head?, ∀ k ∈ o.token.markLevel?, l.level ≤ k) →
      e.Layered → ∀ o' ∈ (ls ++ o :: rs).head?, ∀ k ∈ o'.token.markLevel?, e.level ≤ k := by
    intro o l r e ls rs hj hl ih he o' ho' k hk
    have hhead : (ls ++ o :: rs).head? = ls.head? := by
      cases ls with
      | nil => exact absurd rfl hl.ne_nil
      | cons a tail => rfl
    rw [hhead] at ho'
    have hlayers := hj.layered_iff.mp he
    exact Nat.le_trans hlayers.1 (ih hlayers.2.2.1 o' ho' k hk)
  have hmark : ∀ {o : Lexeme} {x e : Expr} {ls : List Lexeme}, Marks o x e →
      ∀ o' ∈ (o :: ls).head?, ∀ k ∈ o'.token.markLevel?, e.level ≤ k := by
    intro o x e ls hm o' ho' k hk
    rcases Option.some.inj ho' with rfl
    rw [hm.level_eq] at hk
    exact Nat.le_of_eq (Option.some.inj hk)
  -- What has no operator outside begins with a lexeme that is none.
  have hatom : ∀ {e : Expr} {o : Lexeme} {ls : List Lexeme}, o.token.markLevel? = none →
      ∀ o' ∈ (o :: ls).head?, ∀ k ∈ o'.token.markLevel?, e.level ≤ k := by
    intro e o ls ho o' ho' k hk
    rcases Option.some.inj ho' with rfl
    rw [ho] at hk
    exact absurd hk nofun
  induction h with
  | literal pos v => exact fun _ => hatom rfl
  | var pos name => exact fun _ => hatom rfl
  | newline pos => exact fun _ => hatom rfl
  | escape pos c => exact fun _ => hatom rfl
  | paren pos close h ih => exact fun _ => hatom rfl
  | signed pos sign h ih => exact fun _ => hmark (.signed pos sign _)
  | not pos h ih => exact fun _ => hmark (.not pos _)
  | arith pos op hl hr ihl ihr => exact hjoin (.arith pos op _ _) hl ihl
  | compare pos op hl hr ihl ihr => exact hjoin (.compare pos op _ _) hl ihl
  | connect pos op hl hr ihl ihr => exact hjoin (.connect pos op _ _) hl ihl
  | concat pos hl hr ihl ihr => exact hjoin (.concat pos _ _) hl ihl

end Expr

end Primer
