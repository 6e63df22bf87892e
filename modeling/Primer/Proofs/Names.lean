import Primer.Expr.Eval
import Primer.Statement.Basic

/-!
# The Names in a Program

Which names occur in a construct, and that an expression depends on no others. A name
occurs where it is declared, assigned to or read input into, and where its value is used.

## Main definitions

* `Expr.names`, `Declarator.names`, `Statement.names`: The names in a construct.

## Theorems

* `Expr.eval_congr`: An expression sees the names in it.
-/

namespace Primer

namespace Expr

/-- The names in an expression. -/
def names : Expr → List String
  | .literal _ _ => []
  | .var _ name => [name]
  | .signed _ _ e => e.names
  | .arith _ _ l r => l.names ++ r.names
  | .compare _ _ l r => l.names ++ r.names
  | .connect _ _ l r => l.names ++ r.names
  | .concat _ l r => l.names ++ r.names
  | .paren _ e => e.names
  | .not _ e => e.names
  | .escape _ _ => []
  | .newline _ => []

end Expr

namespace Declarator

/-- The declared name, and the names in its initial value. -/
def names (d : Declarator) : List String :=
  d.name :: d.initializer.elim [] Expr.names

end Declarator

namespace Statement

mutual

/-- The names in a statement: those it declares, assigns to or reads input into, and those
    in its expressions and bodies. -/
def names : Statement → List String
  | .declare _ _ declarators => declarators.flatMap Declarator.names
  | .assign _ targets e => targets ++ e.names
  | .choose _ first others otherwise =>
      branchNames first ++ (branchesNames others ++ otherwiseNames otherwise)
  | .loop _ guard body => guard.names ++ allNames body
  | .loopAfter _ body guard => allNames body ++ guard.names
  | .display _ e => e.names
  | .scan _ names => names

/-- The names in some statements. -/
def allNames : List Statement → List String
  | [] => []
  | st :: rest => names st ++ allNames rest

/-- The names in a branch. -/
def branchNames : Branch → List String
  | ⟨_, guard, body⟩ => guard.names ++ allNames body

/-- The names in some branches. -/
def branchesNames : List Branch → List String
  | [] => []
  | b :: rest => branchNames b ++ branchesNames rest

/-- The names in the last body of a choice. -/
def otherwiseNames : Option (List Statement) → List String
  | none => []
  | some body => allNames body

end

end Statement

namespace Expr

variable {store store' : Store}

/-- The value of an expression depends on the names in it. -/
theorem eval_congr (e : Expr) (h : ∀ name ∈ e.names, store.find? name = store'.find? name) :
    e.eval store = e.eval store' := by
  induction e with
  | literal pos l => rfl
  | var pos name =>
      simp only [eval, Store.value, h name List.mem_cons_self]
  | signed pos sign e ih => simp only [eval, ih h]
  | arith pos op l r ihl ihr =>
      rcases List.forall_mem_append.mp h with ⟨hl, hr⟩
      simp only [eval, ihl hl, ihr hr]
  | compare pos op l r ihl ihr =>
      rcases List.forall_mem_append.mp h with ⟨hl, hr⟩
      simp only [eval, ihl hl, ihr hr]
  | connect pos op l r ihl ihr =>
      rcases List.forall_mem_append.mp h with ⟨hl, hr⟩
      simp only [eval, ihl hl, ihr hr]
  | concat pos l r ihl ihr =>
      rcases List.forall_mem_append.mp h with ⟨hl, hr⟩
      simp only [eval, ihl hl, ihr hr]
  | paren pos e ih => simp only [eval, ih h]
  | not pos e ih => simp only [eval, ih h]
  | escape pos c => rfl
  | newline pos => rfl

end Expr

end Primer
