import Primer.Proofs.Action
import Primer.Proofs.Evaluation.FirstFault
import Primer.Statement.Exec

/-!
# Parentheses and Plus Signs Do Nothing

Parentheses tell the reader of a text what belongs together. Once a program has been read they have
done their work, since the tree of an expression says the same by its form. They stay in the tree
all the same, as nodes of their own, and so do the plus signs in front of operands. A run goes
through these nodes and nothing happens there: a pair of parentheses passes on the value of what
is inside, or its fault, and so does a plus sign, in front of whatever value.

So they can be taken out. `bare` does this, in every expression of a program and at any depth. What
is left is every other node, in the same order and with its position, which is what faults are
reported at. A bare program does what the program does, in every respect.

Only the value of an expression matters to a statement, over each store that it may meet. So this
is not about parentheses: expressions may be exchanged for others of the same value everywhere
in a program (`exec_mapExprs`), and that is where loops and choices come in.

## Main definitions

* `Node`, `Expr.nodes`: What stands at the nodes of an expression, operands in front.
* `Node.isSilent`: A node is a pair of parentheses or a plus sign.
* `Expr.bare`, `Program.bare`: An expression or a program without such nodes.
* `Expr.SameValues`: Expressions are exchanged for others of the same value.
* `Statement.mapExprs`: A statement with its expressions exchanged for others.
* `Statement.exprs`: The expressions in a statement.

## Theorems

* `Expr.sameValues_bare`: A bare expression has the same value.
* `Expr.nodes_bare`: A bare expression has all other nodes.
* `Statement.exprs_mapExprs`: The expressions in a statement are exchanged one by one.
* `Statement.exec_mapExprs`: If the values are the same, so is what the statement does.
* `Program.exec_bare`: A bare program does the same.
-/

namespace Primer

open Session

/-- What stands at a node of an expression, without its operands. -/
inductive Node where
  | literal (pos : Position) (value : Literal)
  | var (pos : Position) (name : String)
  | signed (pos : Position) (sign : Sign)
  | arith (pos : Position) (op : ArithOp)
  | compare (pos : Position) (op : Comparison)
  | connect (pos : Position) (op : Connective)
  | concat (pos : Position)
  | paren (pos : Position)
  | not (pos : Position)
  | escape (pos : Position) (c : Char)
  | newline (pos : Position)
deriving DecidableEq

/-- Whether a node only passes on what its operand gives: parentheses do, and so does a plus
    sign. -/
def Node.isSilent : Node → Bool
  | .paren _ => true
  | .signed _ .plus => true
  | _ => false

namespace Expr

/-- What stands at the outermost node of an expression. -/
def node : Expr → Node
  | .literal pos l => .literal pos l
  | .var pos name => .var pos name
  | .signed pos sign _ => .signed pos sign
  | .arith pos op _ _ => .arith pos op
  | .compare pos op _ _ => .compare pos op
  | .connect pos op _ _ => .connect pos op
  | .concat pos _ _ => .concat pos
  | .paren pos _ => .paren pos
  | .not pos _ => .not pos
  | .escape pos c => .escape pos c
  | .newline pos => .newline pos

/-- What stands at the nodes of an expression, operands in front of their operator. -/
def nodes (e : Expr) : List Node :=
  e.postOrder.map node

/-- An expression without its parentheses and plus signs. -/
def bare : Expr → Expr
  | .literal pos l => .literal pos l
  | .var pos name => .var pos name
  | .signed _ .plus e => e.bare
  | .signed pos .minus e => .signed pos .minus e.bare
  | .arith pos op l r => .arith pos op l.bare r.bare
  | .compare pos op l r => .compare pos op l.bare r.bare
  | .connect pos op l r => .connect pos op l.bare r.bare
  | .concat pos l r => .concat pos l.bare r.bare
  | .paren _ e => e.bare
  | .not pos e => .not pos e.bare
  | .escape pos c => .escape pos c
  | .newline pos => .newline pos

/-- Every expression has an image with the same value over every store, or with the same fault. -/
def SameValues (f : Expr → Expr) : Prop :=
  ∀ (e : Expr) (store : Store), (f e).eval store = e.eval store

theorem sameValues_bare : SameValues bare := by
  intro e store
  induction e with
  | literal pos l => rfl
  | var pos name => rfl
  | signed pos sign e ih =>
      cases sign with
      | plus =>
          rw [bare, ih, eval]
          -- A plus sign hands on every value.
          exact (bind_pure (eval store e)).symm
      | minus => rw [bare, eval, eval, ih]
  | arith pos op l r ihl ihr => rw [bare, eval, eval, ihl, ihr]
  | compare pos op l r ihl ihr => rw [bare, eval, eval, ihl, ihr]
  | connect pos op l r ihl ihr => rw [bare, eval, eval, ihl, ihr]
  | concat pos l r ihl ihr => rw [bare, eval, eval, ihl, ihr]
  | paren pos e ih => rw [bare, eval, ih]
  | not pos e ih => rw [bare, eval, eval, ih]
  | escape pos c => rfl
  | newline pos => rfl

/-- What is left in a bare expression is every node that is not silent, in the same order. -/
theorem nodes_bare (e : Expr) : e.bare.nodes = e.nodes.filter fun n => !n.isSilent := by
  unfold nodes
  induction e with
  | literal pos l => rfl
  | var pos name => rfl
  | signed pos sign e ih =>
      cases sign with
      | plus =>
          rw [bare, ih, postOrder, List.map_append, List.filter_append]
          exact (List.append_nil _).symm
      | minus =>
          rw [bare, postOrder, postOrder, List.map_append, List.map_append, List.filter_append, ih]
          rfl
  | arith pos op l r ihl ihr =>
      simp only [bare, postOrder, List.map_append, List.filter_append, ihl, ihr]
      rfl
  | compare pos op l r ihl ihr =>
      simp only [bare, postOrder, List.map_append, List.filter_append, ihl, ihr]
      rfl
  | connect pos op l r ihl ihr =>
      simp only [bare, postOrder, List.map_append, List.filter_append, ihl, ihr]
      rfl
  | concat pos l r ihl ihr =>
      simp only [bare, postOrder, List.map_append, List.filter_append, ihl, ihr]
      rfl
  | paren pos e ih =>
      rw [bare, ih, postOrder, List.map_append, List.filter_append]
      exact (List.append_nil _).symm
  | not pos e ih =>
      rw [bare, postOrder, postOrder, List.map_append, List.map_append, List.filter_append, ih]
      rfl
  | escape pos c => rfl
  | newline pos => rfl

end Expr

/-- A declared name with its initial value exchanged for another. -/
def Declarator.mapExpr (f : Expr → Expr) (d : Declarator) : Declarator :=
  { d with initializer := d.initializer.map f }

namespace Statement

section Exchange

variable (f : Expr → Expr)

mutual

/-- A statement with its expressions exchanged for others, at any depth. -/
def mapExprs : Statement → Statement
  | .declare pos type declarators => .declare pos type (declarators.map (Declarator.mapExpr f))
  | .assign pos targets e => .assign pos targets (f e)
  | .choose pos first others otherwise =>
      .choose pos (mapBranch first) (mapBranches others) (mapOtherwise otherwise)
  | .loop pos guard body => .loop pos (f guard) (mapAll body)
  | .loopAfter pos body guard => .loopAfter pos (mapAll body) (f guard)
  | .display pos e => .display pos (f e)
  | .scan pos names => .scan pos names

/-- Some statements with their expressions exchanged. -/
def mapAll : List Statement → List Statement
  | [] => []
  | st :: rest => mapExprs st :: mapAll rest

/-- A branch with its expressions exchanged. -/
def mapBranch : Branch → Branch
  | ⟨pos, guard, body⟩ => ⟨pos, f guard, mapAll body⟩

/-- Some branches with their expressions exchanged. -/
def mapBranches : List Branch → List Branch
  | [] => []
  | b :: rest => mapBranch b :: mapBranches rest

/-- The last body of a choice with its expressions exchanged. -/
def mapOtherwise : Option (List Statement) → Option (List Statement)
  | none => none
  | some body => some (mapAll body)

end

end Exchange

mutual

/-- The expressions in a statement, in the order of the text. -/
def exprs : Statement → List Expr
  | .declare _ _ declarators => declarators.flatMap fun d => d.initializer.toList
  | .assign _ _ e => [e]
  | .choose _ first others otherwise =>
      branchExprs first ++ (branchesExprs others ++ otherwiseExprs otherwise)
  | .loop _ guard body => guard :: allExprs body
  | .loopAfter _ body guard => allExprs body ++ [guard]
  | .display _ e => [e]
  | .scan _ _ => []

/-- The expressions in some statements. -/
def allExprs : List Statement → List Expr
  | [] => []
  | st :: rest => exprs st ++ allExprs rest

/-- The expressions in a branch. -/
def branchExprs : Branch → List Expr
  | ⟨_, guard, body⟩ => guard :: allExprs body

/-- The expressions in some branches. -/
def branchesExprs : List Branch → List Expr
  | [] => []
  | b :: rest => branchExprs b ++ branchesExprs rest

/-- The expressions in the last body of a choice. -/
def otherwiseExprs : Option (List Statement) → List Expr
  | none => []
  | some body => allExprs body

end

section Exchanged

variable {f : Expr → Expr}

theorem initializers_map (f : Expr → Expr) (ds : List Declarator) :
    ((ds.map (Declarator.mapExpr f)).flatMap fun d => d.initializer.toList)
      = (ds.flatMap fun d => d.initializer.toList).map f := by
  rw [List.flatMap_map, List.map_flatMap]
  refine congrArg (List.flatMap · ds) (funext fun d => ?_)
  exact Option.toList_map

mutual

/-- The expressions in a statement are exchanged one by one. -/
theorem exprs_mapExprs (f : Expr → Expr) : ∀ st : Statement,
    (st.mapExprs f).exprs = st.exprs.map f
  | .declare _ _ declarators => by
      rw [mapExprs, exprs, exprs, initializers_map]
  | .assign _ _ e => by rw [mapExprs, exprs, exprs, List.map_singleton]
  | .choose _ first others otherwise => by
      rw [mapExprs, exprs, exprs, branchExprs_map f first, branchesExprs_map f others,
        otherwiseExprs_map f otherwise, List.map_append, List.map_append]
  | .loop _ guard body => by rw [mapExprs, exprs, exprs, allExprs_map f body, List.map_cons]
  | .loopAfter _ body guard => by
      rw [mapExprs, exprs, exprs, allExprs_map f body, List.map_append, List.map_singleton]
  | .display _ e => by rw [mapExprs, exprs, exprs, List.map_singleton]
  | .scan _ _ => by rw [mapExprs, exprs, List.map_nil]

theorem allExprs_map (f : Expr → Expr) : ∀ sts : List Statement,
    allExprs (mapAll f sts) = (allExprs sts).map f
  | [] => rfl
  | st :: rest => by
      rw [mapAll, allExprs, allExprs, exprs_mapExprs f st, allExprs_map f rest, List.map_append]

theorem branchExprs_map (f : Expr → Expr) : ∀ b : Branch,
    branchExprs (mapBranch f b) = (branchExprs b).map f
  | ⟨_, guard, body⟩ => by
      rw [mapBranch, branchExprs, branchExprs, allExprs_map f body, List.map_cons]

theorem branchesExprs_map (f : Expr → Expr) : ∀ bs : List Branch,
    branchesExprs (mapBranches f bs) = (branchesExprs bs).map f
  | [] => rfl
  | b :: rest => by
      rw [mapBranches, branchesExprs, branchesExprs, branchExprs_map f b, branchesExprs_map f rest,
        List.map_append]

theorem otherwiseExprs_map (f : Expr → Expr) : ∀ body : Option (List Statement),
    otherwiseExprs (mapOtherwise f body) = (otherwiseExprs body).map f
  | none => rfl
  | some body => by rw [mapOtherwise, otherwiseExprs, otherwiseExprs, allExprs_map f body]

end

theorem reading_eval_map (hf : Expr.SameValues f) (e : Expr) :
    (reading fun store => (f e).eval store) = reading fun store => e.eval store :=
  congrArg reading (funext (hf e))

theorem reading_guard_map (hf : Expr.SameValues f) (e : Expr) (pos : Position) :
    (reading fun store => (f e).guard store pos) = reading fun store => e.guard store pos := by
  refine congrArg reading (funext fun store => ?_)
  rw [Expr.guard, Expr.guard, hf]

theorem execDeclarator_map (hf : Expr.SameValues f) (type : DataType) (d : Declarator) :
    execDeclarator type (d.mapExpr f) = execDeclarator type d := by
  have hinitial : ∀ store, (d.initializer.map f).mapM (Expr.eval store)
      = d.initializer.mapM (Expr.eval store) := by
    intro store
    cases d.initializer with
    | none => rfl
    | some e =>
        rw [Option.map_some, Option.mapM_some, Option.mapM_some, hf]
  unfold execDeclarator Declarator.mapExpr
  simp only [hinitial]

theorem forM_execDeclarator_map (hf : Expr.SameValues f) (type : DataType)
    (ds : List Declarator) :
    (ds.map (Declarator.mapExpr f)).forM (execDeclarator type) = ds.forM (execDeclarator type) := by
  simp only [List.forM_eq_forM]
  induction ds with
  | nil => rfl
  | cons d ds ih =>
      rw [List.map_cons, List.forM_cons, List.forM_cons, execDeclarator_map hf, ih]

-- The induction is on the statement. All that a statement asks of an expression is its value, and
-- the loops are built from what their parts do, so equal parts make equal loops.
mutual

/-- If the expressions in a statement are exchanged for others with the same values, the statement
    does the same. -/
theorem exec_mapExprs (hf : Expr.SameValues f) (cap : Nat) : ∀ st : Statement,
    exec cap (st.mapExprs f) = exec cap st
  | .declare _ type declarators => by
      rw [mapExprs, exec, exec, forM_execDeclarator_map hf]
  | .assign pos targets e => by rw [mapExprs, exec, exec, reading_eval_map hf]
  | .choose _ first others otherwise => by
      rw [mapExprs, exec, exec, execBranch_map hf cap first, execBranches_map hf cap others,
        execOtherwise_map hf cap otherwise]
  | .loop pos guard body => by
      rw [mapExprs, exec, exec, reading_guard_map hf, execAll_map hf cap body]
  | .loopAfter pos body guard => by
      rw [mapExprs, exec, exec, reading_guard_map hf, execAll_map hf cap body]
  | .display _ e => by rw [mapExprs, exec, exec, reading_eval_map hf]
  | .scan _ _ => by rw [mapExprs]

theorem execAll_map (hf : Expr.SameValues f) (cap : Nat) : ∀ sts : List Statement,
    execAll cap (mapAll f sts) = execAll cap sts
  | [] => rfl
  | st :: rest => by rw [mapAll, execAll, execAll, exec_mapExprs hf cap st, execAll_map hf cap rest]

theorem execBranch_map (hf : Expr.SameValues f) (cap : Nat) : ∀ b : Branch,
    execBranch cap (mapBranch f b) = execBranch cap b
  | ⟨pos, guard, body⟩ => by
      rw [mapBranch, execBranch, execBranch, reading_guard_map hf, execAll_map hf cap body]

theorem execBranches_map (hf : Expr.SameValues f) (cap : Nat) : ∀ bs : List Branch,
    execBranches cap (mapBranches f bs) = execBranches cap bs
  | [] => rfl
  | b :: rest => by
      rw [mapBranches, execBranches, execBranches, execBranch_map hf cap b,
        execBranches_map hf cap rest]

theorem execOtherwise_map (hf : Expr.SameValues f) (cap : Nat) :
    ∀ body : Option (List Statement),
      execOtherwise cap (mapOtherwise f body) = execOtherwise cap body
  | none => rfl
  | some body => by rw [mapOtherwise, execOtherwise, execOtherwise, execAll_map hf cap body]

end

end Exchanged

end Statement

namespace Program

/-- What stands at the nodes of the expressions in a program, in the order of the text. -/
def nodes (p : Program) : List Node :=
  (Statement.allExprs p.statements).flatMap Expr.nodes

/-- A program without the parentheses and plus signs in its expressions. -/
def bare (p : Program) : Program :=
  { p with statements := Statement.mapAll Expr.bare p.statements }

theorem nodes_bare (p : Program) : p.bare.nodes = p.nodes.filter fun n => !n.isSilent := by
  unfold nodes bare
  rw [Statement.allExprs_map, List.flatMap_map, List.filter_flatMap]
  exact congrArg (List.flatMap · _) (funext Expr.nodes_bare)

/-- Taking all parentheses and all plus signs out of a program, and nothing else, changes none of
    its runs: from every session, with every cap, the result is the same, a fault with its position
    included, and so is the session that is left, with its variables, its unread input, its output
    and its warnings. -/
theorem exec_bare (p : Program) (cap : Nat) (s : Session) :
    (p.bare.exec cap).run s = (p.exec cap).run s ∧
      p.bare.nodes = p.nodes.filter fun n => !n.isSilent := by
  refine ⟨?_, nodes_bare p⟩
  unfold exec bare
  rw [Statement.execAll_map Expr.sameValues_bare]

/-- A negation with parentheses around it and inside it, and a plus sign in front. Its operand is no
    condition, and the fault is at the negation with them and without them. -/
example :
    let one : Expr := .literal ⟨2, 15⟩ (.int 1)
    let p : Program := ⟨⟨1, 0⟩, [.display ⟨2, 0⟩
      (.signed ⟨2, 9⟩ .plus (.paren ⟨2, 10⟩ (.not ⟨2, 11⟩ (.paren ⟨2, 14⟩ one))))]⟩
    p.bare = ⟨⟨1, 0⟩, [.display ⟨2, 0⟩ (.not ⟨2, 11⟩ one)]⟩ ∧
      (p.exec 1).fault? {} = some (.program ⟨2, 11⟩ .badNegation) ∧
      (p.bare.exec 1).fault? {} = some (.program ⟨2, 11⟩ .badNegation) :=
  ⟨rfl, by decide +kernel, by decide +kernel⟩

end Program

end Primer
