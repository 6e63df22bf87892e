import Primer.Statement.Basic
import Primer.Value.Operation

/-!
# A Static Checker

Which statements can be trusted before they are run. Running a statement checks the
types of what it meets as it goes; the checker here asks for the same things once,
from the text alone, given the types of the variables there are.

An expression has the type that its operators give it, and none if an operator does
not fit its operands. The table of operators is the one that evaluation follows, read
on types in place of values. A sign of plus fits anything, since it changes nothing.

A declaration widens what is known for the statements after it, so it is admitted at
the top of a list only: inside a branch or a loop it might not be reached, or be
reached twice. Every name it declares must be new and must be given a value at once,
since a variable without one would have no type to read.

## Main definitions

* `Typing`: The types of the variables there are.
* `Expr.type?`: The type of an expression.
* `Statement.checks`: Whether a statement without declarations is accepted.
* `Typing.extend?`: The types after the names of a declaration.
* `Typing.check?`: The types after a list of statements, if it is accepted.
* `Typing.Extends`: One typing knows all that another does.
-/

namespace Primer

/-- The types of the variables there are. -/
abbrev Typing : Type := String → Option DataType

namespace DataType

/-- Whether a type is one of numbers. -/
def isNumeric : DataType → Bool
  | .int => true
  | .float => true
  | _ => false

end DataType

namespace ArithOp

/-- The type of the result of an arithmetic operator. A whole number next to a
    single-precision one is promoted, and adding to a text joins the texts. -/
def type? (op : ArithOp) : DataType → DataType → Option DataType
  | .int, .int => some .int
  | .float, .float => some .float
  | .int, .float => some .float
  | .float, .int => some .float
  | left, right => if op = .add ∧ (left = .string ∨ right = .string) then some .string else none

end ArithOp

namespace Comparison

/-- The type of the result of a comparison. Equality takes any operands, and order
    takes two numbers of one type. -/
def type? (op : Comparison) (left right : DataType) : Option DataType :=
  match op with
  | .eq => some .bool
  | .ne => some .bool
  | _ => if left = right ∧ left.isNumeric then some .bool else none

end Comparison

namespace Expr

/-- The type of an expression over variables of the given types. -/
def type? (G : Typing) : Expr → Option DataType
  | .literal _ l => l.value.type?
  | .var _ name => G name
  | .signed _ .plus e => type? G e
  | .signed _ .minus e => (type? G e).filter DataType.isNumeric
  | .arith _ op l r => do op.type? (← type? G l) (← type? G r)
  | .compare _ op l r => do op.type? (← type? G l) (← type? G r)
  | .connect _ _ l r =>
      if type? G l = some .bool ∧ type? G r = some .bool then some .bool else none
  | .concat _ l r => do
      let _ ← type? G l
      let _ ← type? G r
      return .string
  | .paren _ e => type? G e
  | .not _ e => if type? G e = some .bool then some .bool else none
  | .escape _ c => if isEscapable c then some .string else none
  | .newline _ => some .string

end Expr

namespace Statement

mutual

/-- Whether a statement is accepted over variables of the given types. A declaration
    is not: it is a matter of the list it stands in. -/
def checks (G : Typing) : Statement → Bool
  | .declare _ _ _ => false
  | .assign _ names e => (e.type? G).any fun t => names.all fun name => G name = some t
  | .choose _ first others otherwise =>
      checksBranch G first && checksBranches G others && checksOtherwise G otherwise
  | .loop _ guard body => guard.type? G = some .bool && checksAll G body
  | .loopAfter _ body guard => guard.type? G = some .bool && checksAll G body
  | .display _ e => (e.type? G).isSome
  | .scan _ names => names.all fun name => (G name).isSome

/-- Whether the statements of a body are accepted. -/
def checksAll (G : Typing) : List Statement → Bool
  | [] => true
  | s :: rest => checks G s && checksAll G rest

/-- Whether a branch is accepted. -/
def checksBranch (G : Typing) : Branch → Bool
  | ⟨_, guard, body⟩ => guard.type? G = some .bool && checksAll G body

/-- Whether branches are accepted. -/
def checksBranches (G : Typing) : List Branch → Bool
  | [] => true
  | b :: rest => checksBranch G b && checksBranches G rest

/-- Whether the body for the case that no branch is taken is accepted, if there is
    one. -/
def checksOtherwise (G : Typing) : Option (List Statement) → Bool
  | none => true
  | some body => checksAll G body

end

end Statement

namespace Typing

/-- The types after one more variable has been declared. -/
def insert (G : Typing) (name : String) (type : DataType) : Typing :=
  fun other => if other = name then some type else G other

/-- The types after the names of a declaration, if each of them is new and has an
    initial value of the declared type. -/
def extend? (G : Typing) (type : DataType) : List Declarator → Option Typing
  | [] => some G
  | d :: ds =>
      if G d.name = none ∧ d.initializer.bind (Expr.type? G) = some type then
        extend? (G.insert d.name type) type ds
      else none

/-- The types after a list of statements, if the list is accepted. -/
def check? (G : Typing) : List Statement → Option Typing
  | [] => some G
  | .declare _ type ds :: rest => (G.extend? type ds).bind fun G' => check? G' rest
  | s :: rest => if s.checks G then check? G rest else none

/-- Every variable of one typing is in the other, with the same type. -/
def Extends (G' G : Typing) : Prop :=
  ∀ name type, G name = some type → G' name = some type

theorem Extends.refl (G : Typing) : Extends G G :=
  fun _ _ h => h

theorem Extends.trans {G G' G'' : Typing} (h : Extends G' G) (h' : Extends G'' G') :
    Extends G'' G :=
  fun name type hG => h' name type (h name type hG)

theorem extends_insert {G : Typing} {name : String} {type : DataType} (hnew : G name = none) :
    Extends (G.insert name type) G := by
  intro other t ht
  by_cases ho : other = name
  · rw [ho, hnew] at ht
    exact absurd ht nofun
  · rw [insert, if_neg ho]
    exact ht

theorem extends_of_extend? {G G' : Typing} {type : DataType} {ds : List Declarator}
    (h : G.extend? type ds = some G') : Extends G' G := by
  induction ds generalizing G with
  | nil =>
      rcases Option.some.inj h with rfl
      exact .refl G
  | cons d ds ih =>
      rw [extend?] at h
      split at h
      · rename_i hd
        exact (extends_insert hd.1).trans (ih h)
      · exact absurd h nofun

/-- The two ways a list with a first statement is accepted. -/
theorem check?_cons {G G' : Typing} {st : Statement} {rest : List Statement}
    (h : G.check? (st :: rest) = some G') :
    (∃ pos type ds G₁, st = .declare pos type ds ∧ G.extend? type ds = some G₁ ∧
      G₁.check? rest = some G') ∨ (st.checks G = true ∧ G.check? rest = some G') := by
  cases st with
  | declare pos type ds =>
      rw [check?] at h
      rcases Option.bind_eq_some_iff.mp h with ⟨G₁, h₁, h₂⟩
      exact Or.inl ⟨pos, type, ds, G₁, rfl, h₁, h₂⟩
  | _ =>
      refine Or.inr ?_
      simp only [check?] at h
      exact Option.ite_none_right_eq_some.mp h

theorem extends_of_check? {G G' : Typing} {sts : List Statement}
    (h : G.check? sts = some G') : Extends G' G := by
  induction sts generalizing G with
  | nil =>
      rw [← Option.some.inj h]
      exact .refl G
  | cons st rest ih =>
      rcases check?_cons h with ⟨_, _, _, G₁, -, h₁, h₂⟩ | ⟨-, h₂⟩
      · exact (extends_of_extend? h₁).trans (ih h₂)
      · exact ih h₂

end Typing

end Primer
