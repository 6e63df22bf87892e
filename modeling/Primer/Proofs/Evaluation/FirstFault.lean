import Primer.Expr.Eval

/-!
# The First Fault Is the One Reported

Which fault an expression fails with, if several of its nodes are faulty. A node fails by
itself if its operands have values and its operator does not fit them, or if it has no
operands and is a variable that does not exist or a character that cannot be escaped. Any
other node that fails does so because an operand of it does.

Evaluation goes through the nodes from left to right, operands before their operator, and
no node is ever passed over: there is no operator whose left operand decides whether the right
one matters. So an expression fails if and only if some node in it fails by itself, and
the fault is that of the first such node in this order.

The argument follows evaluation. `Reports` ties a result to the nodes that were gone
through to get it: a value means that all of them are in order, and a fault that it is the first
one among them. Two stages in a row report on the nodes of both (`Reports.bind`), and so the
case of each kind of node is its operands followed by the node itself.

## Main definitions

* `Expr.postOrder`: The nodes of an expression, operands before their operator.
* `Expr.FailsItself`: A node fails though its operands have values.
* `Expr.FirstFails`: The first node of a list that fails by itself.
* `Expr.Reports`: A result tells of the nodes that it was obtained from.

## Theorems

* `Expr.FailsItself.eval_eq`: A node that fails by itself evaluates to its fault.
* `Expr.FirstFails.unique`: There is one first fault.
* `Expr.eval_reports`: Evaluation reports on the nodes in post-order.
* `Expr.hasParts_postOrder`: The nodes of a part are nodes of the whole.
* `Expr.eval_first_fault`: An expression fails with the first fault among its nodes.
-/

namespace Primer

namespace Expr

/-- The nodes of an expression, each behind its operands, and these from left to right. The
    last one is the expression itself. -/
def postOrder : Expr → List Expr
  | .literal pos l => [.literal pos l]
  | .var pos name => [.var pos name]
  | .signed pos sign e => postOrder e ++ [.signed pos sign e]
  | .arith pos op l r => postOrder l ++ (postOrder r ++ [.arith pos op l r])
  | .compare pos op l r => postOrder l ++ (postOrder r ++ [.compare pos op l r])
  | .connect pos op l r => postOrder l ++ (postOrder r ++ [.connect pos op l r])
  | .concat pos l r => postOrder l ++ (postOrder r ++ [.concat pos l r])
  | .paren pos e => postOrder e ++ [.paren pos e]
  | .not pos e => postOrder e ++ [.not pos e]
  | .escape pos c => [.escape pos c]
  | .newline pos => [.newline pos]

/-- A node fails by itself: all its operands have values, and its own operator refuses them;
    or it has no operands, and is a variable that does not exist or a character that cannot be
    escaped. Literals, line breaks, parentheses and the joining of texts never fail. -/
inductive FailsItself (store : Store) : Expr → Fault → Prop where
  | unbound {pos : Position} {name : String} (h : store.find? name = none) :
      FailsItself store (.var pos name) (.program pos (.undefined name))
  | unescapable {pos : Position} {c : Char} (h : isEscapable c = false) :
      FailsItself store (.escape pos c) (.program pos (.badEscape c))
  | signed {pos : Position} {sign : Sign} {e : Expr} {v : Value} {f : Fault}
      (he : e.eval store = .ok v) (h : v.signed sign pos = .error f) :
      FailsItself store (.signed pos sign e) f
  | arith {pos : Position} {op : ArithOp} {l r : Expr} {a b : Value} {f : Fault}
      (hl : l.eval store = .ok a) (hr : r.eval store = .ok b)
      (h : a.arith op pos b = .error f) : FailsItself store (.arith pos op l r) f
  | compare {pos : Position} {op : Comparison} {l r : Expr} {a b : Value} {f : Fault}
      (hl : l.eval store = .ok a) (hr : r.eval store = .ok b)
      (h : a.compare op pos b = .error f) : FailsItself store (.compare pos op l r) f
  | connect {pos : Position} {op : Connective} {l r : Expr} {a b : Value} {f : Fault}
      (hl : l.eval store = .ok a) (hr : r.eval store = .ok b)
      (h : a.connect op pos b = .error f) : FailsItself store (.connect pos op l r) f
  | not {pos : Position} {e : Expr} {v : Value} {f : Fault}
      (he : e.eval store = .ok v) (h : v.negate pos = .error f) :
      FailsItself store (.not pos e) f

/-- No node of the list fails by itself. -/
def AllInOrder (store : Store) (nodes : List Expr) : Prop :=
  ∀ node ∈ nodes, ∀ f, ¬ node.FailsItself store f

/-- The first node of the list that fails by itself fails with the given fault. -/
def FirstFails (store : Store) (nodes : List Expr) (f : Fault) : Prop :=
  ∃ before node after, nodes = before ++ node :: after ∧ node.FailsItself store f ∧
    AllInOrder store before

/-- What a result says of the nodes that were gone through to get it: all of them are in
    order, or the fault is the first one. -/
def Reports {α : Type} (store : Store) (nodes : List Expr) : Except Fault α → Prop
  | .ok _ => AllInOrder store nodes
  | .error f => FirstFails store nodes f

section Reporting

variable {store : Store} {nodes nodes' : List Expr} {e : Expr} {f g : Fault}

/-- A node that fails by itself evaluates to its own fault. -/
theorem FailsItself.eval_eq (h : e.FailsItself store f) : e.eval store = .error f := by
  cases h with
  | unbound h => rw [eval, Store.value, h]
  | unescapable h => rw [eval, Value.escaped, h]; rfl
  | signed he h => rw [eval, he]; exact h
  | arith hl hr h => rw [eval, hl, hr]; exact h
  | compare hl hr h => rw [eval, hl, hr]; exact h
  | connect hl hr h => rw [eval, hl, hr]; exact h
  | not he h => rw [eval, he]; exact h

theorem AllInOrder.append (h : AllInOrder store nodes) (h' : AllInOrder store nodes') :
    AllInOrder store (nodes ++ nodes') :=
  List.forall_mem_append.mpr ⟨h, h'⟩

theorem FirstFails.append_right (h : FirstFails store nodes f) (more : List Expr) :
    FirstFails store (nodes ++ more) f := by
  rcases h with ⟨before, node, after, rfl, hnode, hbefore⟩
  exact ⟨before, node, after ++ more, by simp only [List.append_assoc, List.cons_append],
    hnode, hbefore⟩

theorem FirstFails.append_left (h : AllInOrder store nodes) (h' : FirstFails store nodes' f) :
    FirstFails store (nodes ++ nodes') f := by
  rcases h' with ⟨before, node, after, rfl, hnode, hbefore⟩
  exact ⟨nodes ++ before, node, after, (List.append_assoc _ _ _).symm, hnode, h.append hbefore⟩

theorem FirstFails.not_allInOrder (h : FirstFails store nodes f) :
    ¬ AllInOrder store nodes := by
  rcases h with ⟨before, node, after, rfl, hnode, -⟩
  intro horder
  exact horder node (List.mem_append_right _ List.mem_cons_self) f hnode

/-- There is no faulty node in front of the first one. -/
theorem FailsItself.eq_of_first {node node' : Expr} {front between after after' : List Expr}
    (hnode : node.FailsItself store f) (hnode' : node'.FailsItself store g)
    (hfront : AllInOrder store (front ++ between))
    (heq : node :: after = between ++ node' :: after') : f = g := by
  cases between with
  | nil =>
      rcases (List.cons.inj heq).1 with rfl
      exact Except.error.inj (hnode.eval_eq.symm.trans hnode'.eval_eq)
  | cons other between =>
      -- Otherwise the faulty node would be among those in order.
      rcases (List.cons.inj heq).1 with rfl
      exact absurd hnode (hfront _ (List.mem_append_right _ List.mem_cons_self) f)

/-- There is only one first fault. -/
theorem FirstFails.unique (h : FirstFails store nodes f) (h' : FirstFails store nodes g) :
    f = g := by
  rcases h with ⟨before, node, after, rfl, hnode, hbefore⟩
  rcases h' with ⟨before', node', after', heq, hnode', hbefore'⟩
  rcases List.append_eq_append_iff.mp heq with ⟨between, rfl, hrest⟩ | ⟨between, rfl, hrest⟩
  · exact hnode.eq_of_first hnode' hbefore' hrest
  · exact (hnode'.eq_of_first hnode hbefore hrest).symm

/-- Two stages in a row report on the nodes of both. The second one is reached only if the
    nodes of the first are in order. -/
theorem Reports.bind {α β : Type} {x : Except Fault α} {k : α → Except Fault β}
    (hx : Reports store nodes x) (hk : ∀ a, x = .ok a → Reports store nodes' (k a)) :
    Reports store (nodes ++ nodes') (x >>= k) := by
  cases x with
  | error f => exact FirstFails.append_right hx nodes'
  | ok a =>
      have hrest := hk a rfl
      change Reports store (nodes ++ nodes') (k a)
      cases hka : k a with
      | ok b => rw [hka] at hrest; exact AllInOrder.append hx hrest
      | error f => rw [hka] at hrest; exact FirstFails.append_left hx hrest

/-- Once its operands have values, a node is in order or fails by itself. -/
theorem reports_self {x : Except Fault Value} (hx : e.eval store = x)
    (h : ∀ f, x = .error f → e.FailsItself store f) : Reports store [e] x := by
  cases x with
  | ok v =>
      intro node hnode f hf
      rw [List.mem_singleton.mp hnode] at hf
      rw [hf.eval_eq] at hx
      cases hx
  | error f => exact ⟨[], e, [], rfl, h f rfl, List.forall_mem_nil _⟩

theorem failsItself_var {pos : Position} {name : String}
    (h : store.value name pos = .error f) : FailsItself store (.var pos name) f := by
  unfold Store.value at h
  split at h
  · cases h
  · next hfind =>
      rcases Except.error.inj h with rfl
      exact .unbound hfind

theorem failsItself_escape {pos : Position} {c : Char} (h : Value.escaped c pos = .error f) :
    FailsItself store (.escape pos c) f := by
  unfold Value.escaped at h
  split at h
  · cases h
  · next hc =>
      rcases Except.error.inj h with rfl
      exact .unescapable (Bool.eq_false_iff.mpr hc)

/-- Evaluation reports on the nodes of an expression in post-order. -/
theorem eval_reports (store : Store) (e : Expr) : Reports store e.postOrder (e.eval store) := by
  -- The stages of evaluation report on the operands, and the last one on the node itself.
  induction e with
  | literal pos l => exact reports_self rfl fun f h => by cases h
  | var pos name => exact reports_self rfl fun f h => failsItself_var h
  | signed pos sign e ih =>
      refine ih.bind fun v hv => reports_self ?_ fun f h => .signed hv h
      rw [eval, hv]
      rfl
  | arith pos op l r ihl ihr =>
      refine ihl.bind fun a hl => ihr.bind fun b hr => reports_self ?_ fun f h => .arith hl hr h
      rw [eval, hl, hr]
      rfl
  | compare pos op l r ihl ihr =>
      refine ihl.bind fun a hl => ihr.bind fun b hr =>
        reports_self ?_ fun f h => .compare hl hr h
      rw [eval, hl, hr]
      rfl
  | connect pos op l r ihl ihr =>
      refine ihl.bind fun a hl => ihr.bind fun b hr =>
        reports_self ?_ fun f h => .connect hl hr h
      rw [eval, hl, hr]
      rfl
  | concat pos l r ihl ihr =>
      refine ihl.bind fun a hl => ihr.bind fun b hr => reports_self ?_ fun f h => by cases h
      rw [eval, hl, hr]
      rfl
  | paren pos e ih =>
      -- The parentheses pass on the value of what stands in them.
      have hpass : (paren pos e).eval store = e.eval store >>= pure := (bind_pure _).symm
      rw [hpass]
      exact ih.bind fun v hv => reports_self hv fun f h => by cases h
  | not pos e ih =>
      refine ih.bind fun v hv => reports_self ?_ fun f h => .not hv h
      rw [eval, hv]
      rfl
  | escape pos c => exact reports_self rfl fun f h => failsItself_escape h
  | newline pos => exact reports_self rfl fun f h => by cases h

theorem eval_eq_error_iff : e.eval store = .error f ↔ FirstFails store e.postOrder f := by
  have hreports := eval_reports store e
  constructor
  · intro h
    rw [h] at hreports
    exact hreports
  · intro h
    cases hval : e.eval store with
    | ok v => rw [hval] at hreports; exact absurd hreports h.not_allInOrder
    | error g => rw [hval] at hreports; rw [h.unique hreports]

theorem exists_eval_eq_error_iff :
    (∃ f, e.eval store = .error f) ↔ ∃ node ∈ e.postOrder, ∃ f, node.FailsItself store f := by
  constructor
  · rintro ⟨f, h⟩
    rcases eval_eq_error_iff.mp h with ⟨before, node, after, hnodes, hnode, -⟩
    exact ⟨node, hnodes ▸ List.mem_append_right _ List.mem_cons_self, f, hnode⟩
  · rintro ⟨node, hmem, f, hnode⟩
    have hreports := eval_reports store e
    cases hval : e.eval store with
    | ok v => rw [hval] at hreports; exact absurd hnode (hreports node hmem f)
    | error g => exact ⟨g, rfl⟩

end Reporting

/-- With each node the list has the nodes of all its parts. -/
def HasParts (nodes : List Expr) : Prop :=
  ∀ node ∈ nodes, node.postOrder ⊆ nodes

theorem HasParts.append {nodes nodes' : List Expr} (h : HasParts nodes) (h' : HasParts nodes') :
    HasParts (nodes ++ nodes') := by
  intro node hmem x hx
  rcases List.mem_append.mp hmem with hmem | hmem
  · exact List.mem_append_left _ (h node hmem hx)
  · exact List.mem_append_right _ (h' node hmem hx)

/-- A node is the whole expression or lies in one of its operands. -/
theorem HasParts.of_operands {nodes : List Expr} {e : Expr} (h : HasParts nodes)
    (he : e.postOrder = nodes ++ [e]) : HasParts e.postOrder := by
  intro node hmem x hx
  rw [he, List.mem_append, List.mem_singleton] at hmem
  rcases hmem with hmem | rfl
  · rw [he]
    exact List.mem_append_left _ (h node hmem hx)
  · exact hx

theorem hasParts_postOrder (e : Expr) : HasParts e.postOrder := by
  have hnil : HasParts [] := List.forall_mem_nil _
  induction e with
  | literal pos l => exact hnil.of_operands rfl
  | var pos name => exact hnil.of_operands rfl
  | signed pos sign e ih => exact ih.of_operands rfl
  | arith pos op l r ihl ihr => exact (ihl.append ihr).of_operands (List.append_assoc ..).symm
  | compare pos op l r ihl ihr => exact (ihl.append ihr).of_operands (List.append_assoc ..).symm
  | connect pos op l r ihl ihr => exact (ihl.append ihr).of_operands (List.append_assoc ..).symm
  | concat pos l r ihl ihr => exact (ihl.append ihr).of_operands (List.append_assoc ..).symm
  | paren pos e ih => exact ih.of_operands rfl
  | not pos e ih => exact ih.of_operands rfl
  | escape pos c => exact hnil.of_operands rfl
  | newline pos => exact hnil.of_operands rfl

/-- An expression fails if and only if some node of it fails by itself, and then with the
    fault of the first such node in post-order. So it fails if any part of it does, and a
    connective in particular if its right operand does, whatever the value of the left. -/
theorem eval_first_fault (store : Store) (e : Expr) :
    (∀ f, e.eval store = .error f ↔ ∃ before node after,
        e.postOrder = before ++ node :: after ∧ node.FailsItself store f ∧
          ∀ other ∈ before, ∀ g, ¬ other.FailsItself store g) ∧
      ((∃ f, e.eval store = .error f) ↔ ∃ node ∈ e.postOrder, ∃ f, node.FailsItself store f) ∧
      (∀ node ∈ e.postOrder, (∃ f, node.eval store = .error f) →
        ∃ f, e.eval store = .error f) ∧
      ∀ pos op l r v f, l.eval store = .ok v → r.eval store = .error f →
        (Expr.connect pos op l r).eval store = .error f := by
  refine ⟨fun f => eval_eq_error_iff, exists_eval_eq_error_iff, ?_, ?_⟩
  · intro node hnode hfails
    rcases exists_eval_eq_error_iff.mp hfails with ⟨origin, horigin, f, hf⟩
    exact exists_eval_eq_error_iff.mpr ⟨origin, hasParts_postOrder e node hnode horigin, f, hf⟩
  · intro pos op l r v f hl hr
    rw [eval, hl, hr]
    rfl

/-- Both operands of the disjunction fail. The left one comes first, and in it the
    difference, whose operands have values. -/
example :
    let sum : Expr := .arith ⟨2, 5⟩ .sub (.literal ⟨2, 3⟩ (.int 1)) (.newline ⟨2, 7⟩)
    let e : Expr := .connect ⟨2, 10⟩ .or (.paren ⟨2, 2⟩ sum) (.var ⟨2, 13⟩ "x")
    e.eval .empty = .error (.program ⟨2, 5⟩ (.badArith .sub (some .int) (some .string))) :=
  rfl

end Expr

end Primer
