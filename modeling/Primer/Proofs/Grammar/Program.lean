import Primer.Proofs.Grammar.Expression
import Primer.Statement.Basic

/-!
# The Grammar of Programs

Which lexemes a program is written with. As for expressions, this is said without a
parser. Each construct is a relation between the construct and a list of lexemes, and
its rules are the rules of the grammar, so that a derivation is a proof of the relation.

Line breaks are lexemes, and the grammar says where they stand. A statement is followed
by at least one. In front of a frame, of an `ELSE`, and of the `WHILE` after a body
there may be any number, and `BEGIN` with its keyword is followed by one, except in the
frame of a program.

A statement stands at the position of its first lexeme, a branch at that of its `IF`, a
declared name at its own, and a program at its `BEGIN`. The positions of all other
lexemes are free.

## Main definitions

* `Breaks`: Line breaks, in any number.
* `Separated`: Items with commas between them.
* `Token.inExpression`: The tokens of expressions.
* `Expr.Written`, `Declarator.Written`, `Statement.Written`, `Statement.BranchWritten`:
  How an expression, a declared name, a statement and a branch are written.
* `Statement.Lines`, `Statement.Listed`, `Statement.Framed`: Statements, each with its
  line breaks; the same with line breaks in front; the same in a frame.
* `Program.Written`: How a program is written.

## Theorems

* `separated_map_iff`: Items that are read off other items are separated as those are.
* `Expr.Spelled.inExpression`: What an expression is written with.
* `Statement.Written.head`, `Statement.Framed.head`: What a statement and a frame do not
  begin with.
-/

namespace Primer

/-- Line breaks, in any number. -/
def Breaks (ls : List Lexeme) : Prop :=
  ∀ l ∈ ls, l.token = .lineBreak

/-- Items with commas between them, at least one. -/
inductive Separated {α : Type} (item : α → List Lexeme → Prop) :
    List α → List Lexeme → Prop where
  | one {x : α} {ls : List Lexeme} (h : item x ls) : Separated item [x] ls
  | more {x : α} {xs : List α} {ls rest : List Lexeme} (comma : Position) (h : item x ls)
      (hrest : Separated item xs rest) :
      Separated item (x :: xs) (ls ++ ⟨.symbol .comma, comma⟩ :: rest)

/-- Items that are read off other items are separated as those are. -/
theorem separated_map_iff {α β : Type} {item : α → List Lexeme → Prop}
    {item' : β → List Lexeme → Prop} {f : α → β}
    (hf : ∀ y ls, item' y ls ↔ ∃ x, f x = y ∧ item x ls) {ys : List β} {ls : List Lexeme} :
    Separated item' ys ls ↔ ∃ xs, xs.map f = ys ∧ Separated item xs ls := by
  constructor
  · intro h
    induction h with
    | one h =>
        rcases (hf _ _).mp h with ⟨x, rfl, hx⟩
        exact ⟨[x], rfl, .one hx⟩
    | more comma h _ ih =>
        rcases (hf _ _).mp h with ⟨x, rfl, hx⟩
        rcases ih with ⟨xs, rfl, hxs⟩
        exact ⟨x :: xs, rfl, .more comma hx hxs⟩
  · rintro ⟨xs, rfl, h⟩
    induction h with
    | one h => exact .one ((hf _ _).mpr ⟨_, rfl, h⟩)
    | more comma h _ ih => exact .more comma ((hf _ _).mpr ⟨_, rfl, h⟩) ih

/-- Whether a token can stand in an expression. -/
def Token.inExpression : Token → Bool
  | .literal _ => true
  | .escape _ => true
  | .identifier _ => true
  | .keyword word => word = .andKw || word = .orKw || word = .notKw
  | .symbol sign => sign ≠ .assign && sign ≠ .comma && sign ≠ .colon
  | .type _ => false
  | .lineBreak => false

namespace Expr

/-- How an expression is written: it is spelled in order, and needs no parentheses
    beyond those it has. -/
def Written (e : Expr) (ls : List Lexeme) : Prop :=
  e.Layered ∧ e.Spelled ls

/-- How the condition of a statement is written. The parentheses around it are no part
    of the expression. -/
inductive Enclosed : Expr → List Lexeme → Prop where
  | mk (opening close : Position) {e : Expr} {ls : List Lexeme} (h : e.Written ls) :
      Enclosed e (⟨.symbol .leftParen, opening⟩ :: (ls ++ [⟨.symbol .rightParen, close⟩]))

/-- An expression is written with such tokens only. -/
theorem Spelled.inExpression {e : Expr} {ls : List Lexeme} (h : e.Spelled ls) :
    ∀ l ∈ ls, l.token.inExpression := by
  induction h with
  | literal pos v => exact List.forall_mem_singleton.mpr rfl
  | var pos name => exact List.forall_mem_singleton.mpr rfl
  | newline pos => exact List.forall_mem_singleton.mpr rfl
  | escape pos c => exact List.forall_mem_singleton.mpr rfl
  | paren pos close h ih =>
      refine List.forall_mem_cons.mpr ⟨rfl, List.forall_mem_append.mpr ⟨ih, ?_⟩⟩
      exact List.forall_mem_singleton.mpr rfl
  | signed pos sign h ih => exact List.forall_mem_cons.mpr ⟨by cases sign <;> rfl, ih⟩
  | not pos h ih => exact List.forall_mem_cons.mpr ⟨rfl, ih⟩
  | arith pos op hl hr ihl ihr =>
      refine List.forall_mem_append.mpr ⟨ihl, List.forall_mem_cons.mpr ⟨?_, ihr⟩⟩
      cases op <;> rfl
  | compare pos op hl hr ihl ihr =>
      refine List.forall_mem_append.mpr ⟨ihl, List.forall_mem_cons.mpr ⟨?_, ihr⟩⟩
      cases op <;> rfl
  | connect pos op hl hr ihl ihr =>
      refine List.forall_mem_append.mpr ⟨ihl, List.forall_mem_cons.mpr ⟨?_, ihr⟩⟩
      cases op <;> rfl
  | concat pos hl hr ihl ihr =>
      exact List.forall_mem_append.mpr ⟨ihl, List.forall_mem_cons.mpr ⟨rfl, ihr⟩⟩

theorem Spelled.ne {e : Expr} {ls : List Lexeme} (h : e.Spelled ls) {t : Token}
    (ht : t.inExpression = false) : ∀ l ∈ ls, l.token ≠ t := by
  rintro l hl rfl
  have hin := h.inExpression l hl
  rw [ht] at hin
  cases hin

end Expr

namespace Declarator

/-- How one name of a declaration is written. -/
inductive Written : Declarator → List Lexeme → Prop where
  | bare (pos : Position) (name : String) : Written ⟨pos, name, none⟩ [⟨.identifier name, pos⟩]
  | initialized (pos : Position) (name : String) (sign : Position) {e : Expr}
      {ls : List Lexeme} (h : e.Written ls) :
      Written ⟨pos, name, some e⟩ (⟨.identifier name, pos⟩ :: ⟨.symbol .assign, sign⟩ :: ls)

end Declarator

namespace Statement

/-- A name that a line of input is read into. -/
def NameWritten (name : String) (ls : List Lexeme) : Prop :=
  ∃ pos, ls = [⟨.identifier name, pos⟩]

/-- Names of an assignment, each with the sign of assignment behind it. -/
inductive Targets : List String → List Lexeme → Prop where
  | nil : Targets [] []
  | cons (pos sign : Position) {name : String} {names : List String} {ls : List Lexeme}
      (h : Targets names ls) :
      Targets (name :: names) (⟨.identifier name, pos⟩ :: ⟨.symbol .assign, sign⟩ :: ls)

mutual

/-- How a statement is written. -/
inductive Written : Statement → List Lexeme → Prop where
  | declare (pos : Position) (type : DataType) {ds : List Declarator} {ls : List Lexeme}
      (h : Separated Declarator.Written ds ls) :
      Written (.declare pos type ds) (⟨.type type, pos⟩ :: ls)
  | assign (pos : Position) (sign : Position) {name : String} {names : List String} {e : Expr}
      {tls els : List Lexeme} (ht : Targets names tls) (he : e.Written els) :
      Written (.assign pos (name :: names) e)
        (⟨.identifier name, pos⟩ :: ⟨.symbol .assign, sign⟩ :: (tls ++ els))
  | display (pos colon : Position) {e : Expr} {ls : List Lexeme} (h : e.Written ls) :
      Written (.display pos e) (⟨.keyword .displayKw, pos⟩ :: ⟨.symbol .colon, colon⟩ :: ls)
  | scan (pos colon : Position) {names : List String} {ls : List Lexeme}
      (h : Separated NameWritten names ls) :
      Written (.scan pos names) (⟨.keyword .scanKw, pos⟩ :: ⟨.symbol .colon, colon⟩ :: ls)
  | choose {first : Branch} {others : List Branch} {otherwise : Option (List Statement)}
      {fls ols els : List Lexeme} (hfirst : BranchWritten first fls)
      (hothers : OthersWritten others ols) (helse : OtherwiseWritten otherwise els) :
      Written (.choose first.pos first others otherwise) (fls ++ (ols ++ els))
  | loop (pos : Position) {guard : Expr} {body : List Statement} {gls bls : List Lexeme}
      (hguard : guard.Enclosed gls) (hbody : Framed .whileKw body bls) :
      Written (.loop pos guard body) (⟨.keyword .whileKw, pos⟩ :: (gls ++ bls))
  | loopAfter (pos word : Position) {body : List Statement} {guard : Expr}
      {bls nls gls : List Lexeme} (hbody : Framed .doKw body bls) (hn : Breaks nls)
      (hguard : guard.Enclosed gls) :
      Written (.loopAfter pos body guard)
        (⟨.keyword .doKw, pos⟩ :: (bls ++ (nls ++ ⟨.keyword .whileKw, word⟩ :: gls)))

/-- How a branch is written, beginning with its `IF`. -/
inductive BranchWritten : Branch → List Lexeme → Prop where
  | mk (pos : Position) {guard : Expr} {body : List Statement} {gls bls : List Lexeme}
      (hguard : guard.Enclosed gls) (hbody : Framed .ifKw body bls) :
      BranchWritten ⟨pos, guard, body⟩ (⟨.keyword .ifKw, pos⟩ :: (gls ++ bls))

/-- How the further branches of a choice are written, each after an `ELSE`. -/
inductive OthersWritten : List Branch → List Lexeme → Prop where
  | nil : OthersWritten [] []
  | cons (word : Position) {b : Branch} {bs : List Branch} {nls bls ls : List Lexeme}
      (hn : Breaks nls) (hb : BranchWritten b bls) (hbs : OthersWritten bs ls) :
      OthersWritten (b :: bs) (nls ++ ⟨.keyword .elseKw, word⟩ :: (bls ++ ls))

/-- How the body for the case that no branch is taken is written. -/
inductive OtherwiseWritten : Option (List Statement) → List Lexeme → Prop where
  | none : OtherwiseWritten none []
  | some (word : Position) {body : List Statement} {nls bls : List Lexeme} (hn : Breaks nls)
      (hbody : Framed .ifKw body bls) :
      OtherwiseWritten (some body) (nls ++ ⟨.keyword .elseKw, word⟩ :: bls)

/-- How statements are written in the frame of a keyword. -/
inductive Framed : Keyword → List Statement → List Lexeme → Prop where
  | mk (frame : Keyword) (opening word line closing word' : Position) {body : List Statement}
      {nls ls : List Lexeme} (hn : Breaks nls) (h : Listed body ls) :
      Framed frame body
        (nls ++ ⟨.keyword .beginKw, opening⟩ :: ⟨.keyword frame, word⟩ :: ⟨.lineBreak, line⟩ ::
          (ls ++ [⟨.keyword .endKw, closing⟩, ⟨.keyword frame, word'⟩]))

/-- How statements are written up to an `END`. -/
inductive Listed : List Statement → List Lexeme → Prop where
  | mk {sts : List Statement} {nls ls : List Lexeme} (hn : Breaks nls) (h : Lines sts ls) :
      Listed sts (nls ++ ls)

/-- How statements are written that are each followed by line breaks. -/
inductive Lines : List Statement → List Lexeme → Prop where
  | nil : Lines [] []
  | cons {st : Statement} {sts : List Statement} {sls nls ls : List Lexeme}
      (hst : Written st sls) (hn : Breaks nls) (hne : nls ≠ []) (hsts : Lines sts ls) :
      Lines (st :: sts) (sls ++ (nls ++ ls))

end

theorem listed_nil {nls : List Lexeme} (hn : Breaks nls) : Listed [] nls := by
  have h := Listed.mk hn .nil
  rw [List.append_nil] at h
  exact h

/-- A statement does not begin with a line break, an `END` or an `ELSE`. -/
theorem Written.head {st : Statement} {ls : List Lexeme} (h : st.Written ls) :
    ∃ o tail, ls = o :: tail ∧ o.token ≠ .lineBreak ∧ o.token ≠ .keyword .endKw ∧
      o.token ≠ .keyword .elseKw := by
  cases h with
  | choose hfirst hothers helse =>
      cases hfirst
      exact ⟨_, _, rfl, nofun, nofun, nofun⟩
  | _ => exact ⟨_, _, rfl, nofun, nofun, nofun⟩

/-- A frame does not begin with an `IF`. -/
theorem Framed.head {frame : Keyword} {body : List Statement} {ls : List Lexeme}
    (h : Framed frame body ls) : ∃ o tail, ls = o :: tail ∧ o.token ≠ .keyword .ifKw := by
  cases h with
  | @mk _ _ _ _ _ _ _ nls _ hn _ =>
      cases nls with
      | nil => exact ⟨_, _, rfl, nofun⟩
      | cons l nls =>
          refine ⟨l, _, rfl, ?_⟩
          rw [hn l List.mem_cons_self]
          exact nofun

end Statement

namespace Program

/-- How a program is written. -/
inductive Written : Program → List Lexeme → Prop where
  | mk (pos word closing word' : Position) {sts : List Statement} {nls ls nls' : List Lexeme}
      (hn : Breaks nls) (h : Statement.Listed sts ls) (hn' : Breaks nls') :
      Written ⟨pos, sts⟩
        (nls ++ ⟨.keyword .beginKw, pos⟩ :: ⟨.keyword .codeKw, word⟩ ::
          (ls ++ ⟨.keyword .endKw, closing⟩ :: ⟨.keyword .codeKw, word'⟩ :: nls'))

end Program

end Primer
