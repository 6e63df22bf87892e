import Primer.Proofs.Decimal
import Primer.Proofs.Grammar.Program

/-!
# Writing Programs

A source text for every program, and programs without their positions.

A program is written in two steps. First its tokens are listed: each statement stands on
lines of its own, and so do the opening and the closing words of a frame. Then the tokens
are laid out, with a blank between two of them in the same line. The grammar leaves some
freedom, in the line breaks and in how a number is spelled, and the writer makes one choice
throughout.

The writer is total. What it writes for a program that no source text has, such as one
with a negative literal, is of no interest, and nothing is said about it.

A program that has been written and read again has other positions than before, because
its text has another layout. What has to come back is the program without them.

## Main definitions

* `Token.text`: How a token is written.
* `layout`: How tokens are laid out.
* `Expr.tokens`, `Declarator.tokens`, `Statement.tokens`, `Program.tokens`: The tokens that a
  construct is written with.
* `Program.source`: The source text of a program.
* `Expr.unplaced`, `Declarator.unplaced`, `Statement.unplaced`, `Program.unplaced`: A construct
  with all of its positions forgotten.

## Theorems

* `Expr.layered_of_unplaced_eq`: Layering does not depend on positions.
-/

namespace Primer

namespace Token

/-- How a token is written. A number is written without a sign. -/
def text : Token → List Char
  | .literal (.int n) => Nat.toDigits 10 n.toInt.toNat
  | .literal (.float x) => x.spelling.toList
  | .literal (.bool true) => '"' :: ("TRUE".toList ++ ['"'])
  | .literal (.bool false) => '"' :: ("FALSE".toList ++ ['"'])
  | .literal (.char c) => ['\'', c, '\'']
  | .literal (.string s) => '"' :: (s.toList ++ ['"'])
  | .escape c => ['[', c, ']']
  | .keyword k => k.word.toList
  | .type t => t.name.toList
  | .identifier name => name.toList
  | .symbol s => s.text.toList
  | .lineBreak => ['\n']

end Token

/-- What stands between a token and the tokens after it: a blank, but none at the ends of a
    line. -/
def gapBetween (t : Token) (ts : List Token) : List Char :=
  if t = .lineBreak ∨ ts = [] ∨ ts.head? = some .lineBreak then [] else [' ']

/-- The text of some tokens. -/
def layout : List Token → List Char
  | [] => []
  | t :: ts => t.text ++ (gapBetween t ts ++ layout ts)

/-- Items with commas between them. -/
def separated {α : Type} (item : α → List Token) : List α → List Token
  | [] => []
  | [x] => item x
  | x :: xs => item x ++ .symbol .comma :: separated item xs

/-- Lines in the frame of a keyword, from a line of their own on. -/
def framed (frame : Keyword) (lines : List Token) : List Token :=
  .lineBreak :: .keyword .beginKw :: .keyword frame :: .lineBreak ::
    (lines ++ [.keyword .endKw, .keyword frame])

namespace Expr

/-- The tokens of an expression. -/
def tokens : Expr → List Token
  | .literal _ v => [.literal v]
  | .var _ name => [.identifier name]
  | .signed _ sign e => sign.token :: e.tokens
  | .arith _ op l r => l.tokens ++ op.token :: r.tokens
  | .compare _ op l r => l.tokens ++ op.token :: r.tokens
  | .connect _ op l r => l.tokens ++ op.token :: r.tokens
  | .concat _ l r => l.tokens ++ .symbol .ampersand :: r.tokens
  | .paren _ e => .symbol .leftParen :: (e.tokens ++ [.symbol .rightParen])
  | .not _ e => .keyword .notKw :: e.tokens
  | .escape _ c => [.escape c]
  | .newline _ => [.symbol .dollar]

/-- The tokens of a condition. -/
def enclosed (e : Expr) : List Token :=
  .symbol .leftParen :: (e.tokens ++ [.symbol .rightParen])

/-- The expression without positions. -/
def unplaced : Expr → Expr
  | .literal _ v => .literal .start v
  | .var _ name => .var .start name
  | .signed _ sign e => .signed .start sign e.unplaced
  | .arith _ op l r => .arith .start op l.unplaced r.unplaced
  | .compare _ op l r => .compare .start op l.unplaced r.unplaced
  | .connect _ op l r => .connect .start op l.unplaced r.unplaced
  | .concat _ l r => .concat .start l.unplaced r.unplaced
  | .paren _ e => .paren .start e.unplaced
  | .not _ e => .not .start e.unplaced
  | .escape _ c => .escape .start c
  | .newline _ => .newline .start

@[simp]
theorem level_unplaced (e : Expr) : e.unplaced.level = e.level := by
  cases e <;> rfl

theorem layered_unplaced (e : Expr) : e.unplaced.Layered ↔ e.Layered := by
  induction e with
  | signed pos sign e ih => simp only [unplaced, Layered, level_unplaced, ih]
  | arith pos op l r ihl ihr => simp only [unplaced, Layered, level_unplaced, ihl, ihr]
  | compare pos op l r ihl ihr => simp only [unplaced, Layered, level_unplaced, ihl, ihr]
  | connect pos op l r ihl ihr => simp only [unplaced, Layered, level_unplaced, ihl, ihr]
  | concat pos l r ihl ihr => simp only [unplaced, Layered, level_unplaced, ihl, ihr]
  | paren pos e ih => simp only [unplaced, Layered, ih]
  | not pos e ih => simp only [unplaced, Layered, level_unplaced, ih]
  | _ => rfl

theorem layered_of_unplaced_eq {e e' : Expr} (h : e'.unplaced = e.unplaced) (he : e.Layered) :
    e'.Layered := by
  rw [← layered_unplaced, h, layered_unplaced]
  exact he

end Expr

namespace Declarator

/-- The tokens of one name of a declaration. -/
def tokens (d : Declarator) : List Token :=
  match d.initializer with
  | none => [.identifier d.name]
  | some e => .identifier d.name :: .symbol .assign :: e.tokens

/-- The declared name without positions. -/
def unplaced (d : Declarator) : Declarator :=
  ⟨.start, d.name, d.initializer.map Expr.unplaced⟩

end Declarator

namespace Statement

/-- The tokens of the names that a value is assigned to. -/
def targetTokens (names : List String) : List Token :=
  names.flatMap fun name => [.identifier name, .symbol .assign]

mutual

/-- The tokens of a statement, without the line break after it. -/
def tokens : Statement → List Token
  | .declare _ type ds => .type type :: separated Declarator.tokens ds
  | .assign _ names e => targetTokens names ++ e.tokens
  | .choose _ first others otherwise =>
      branchTokens first ++ (othersTokens others ++ otherwiseTokens otherwise)
  | .loop _ guard body =>
      .keyword .whileKw :: (guard.enclosed ++ framed .whileKw (linesTokens body))
  | .loopAfter _ body guard =>
      .keyword .doKw :: (framed .doKw (linesTokens body) ++
        .lineBreak :: .keyword .whileKw :: guard.enclosed)
  | .display _ e => .keyword .displayKw :: .symbol .colon :: e.tokens
  | .scan _ names =>
      .keyword .scanKw :: .symbol .colon :: separated (fun name => [.identifier name]) names

/-- The tokens of a branch. -/
def branchTokens : Branch → List Token
  | ⟨_, guard, body⟩ => .keyword .ifKw :: (guard.enclosed ++ framed .ifKw (linesTokens body))

/-- The tokens of the further branches of a choice, each from a line of its own on. -/
def othersTokens : List Branch → List Token
  | [] => []
  | b :: bs => .lineBreak :: .keyword .elseKw :: (branchTokens b ++ othersTokens bs)

/-- The tokens of the body for the case that no branch is taken. -/
def otherwiseTokens : Option (List Statement) → List Token
  | none => []
  | some body => .lineBreak :: .keyword .elseKw :: framed .ifKw (linesTokens body)

/-- The tokens of statements, each on lines of its own. -/
def linesTokens : List Statement → List Token
  | [] => []
  | st :: sts => tokens st ++ .lineBreak :: linesTokens sts

end

mutual

/-- The statement without positions. -/
def unplaced : Statement → Statement
  | .declare _ type ds => .declare .start type (ds.map Declarator.unplaced)
  | .assign _ names e => .assign .start names e.unplaced
  | .choose _ first others otherwise =>
      .choose .start (unplacedBranch first) (unplacedBranches others)
        (unplacedOtherwise otherwise)
  | .loop _ guard body => .loop .start guard.unplaced (unplacedAll body)
  | .loopAfter _ body guard => .loopAfter .start (unplacedAll body) guard.unplaced
  | .display _ e => .display .start e.unplaced
  | .scan _ names => .scan .start names

/-- The branch without positions. -/
def unplacedBranch : Branch → Branch
  | ⟨_, guard, body⟩ => ⟨.start, guard.unplaced, unplacedAll body⟩

/-- The branches without positions. -/
def unplacedBranches : List Branch → List Branch
  | [] => []
  | b :: bs => unplacedBranch b :: unplacedBranches bs

/-- The last body of a choice without positions. -/
def unplacedOtherwise : Option (List Statement) → Option (List Statement)
  | none => none
  | some body => some (unplacedAll body)

/-- The statements without positions. -/
def unplacedAll : List Statement → List Statement
  | [] => []
  | st :: sts => unplaced st :: unplacedAll sts

end

end Statement

namespace Program

/-- The tokens of a program. -/
def tokens (p : Program) : List Token :=
  .keyword .beginKw :: .keyword .codeKw :: .lineBreak ::
    (Statement.linesTokens p.statements ++ [.keyword .endKw, .keyword .codeKw, .lineBreak])

/-- The source text of a program: one statement a line, with blanks between tokens. -/
def source (p : Program) : String :=
  String.ofList (layout p.tokens)

/-- The program without positions. -/
def unplaced (p : Program) : Program :=
  ⟨.start, Statement.unplacedAll p.statements⟩

end Program

end Primer
