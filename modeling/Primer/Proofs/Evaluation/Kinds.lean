import Primer.Expr.Eval

/-!
# Kinds Decide How Evaluation Ends

What two stores have to share for an expression to end in the same way over both. It is
enough that they have the same names, bound to values of the same kinds. What the values are
then decides what the result is, but not of what kind it is, nor whether the operands fit
their operators. The one thing that depends on more than kinds is a division, which fails on
one whole number and not on another.

So a result is compared with another up to the values in it. `Akin` says that both are values
of one kind, or both the same fault, or that one of them is a division by zero. This is kept
when results are put together: a division by zero on one side ends that side for good,
whatever the other one goes on to. Each operator is looked at once, over the pairs of kinds
that its operands can be of, and the induction over expressions only puts them together.

## Main definitions

* `Store.SameKinds`: Two stores have the same names and, under each, values of one kind.
* `Akin`: Two results are the same as far as kinds tell.

## Theorems

* `Value.arith_akin`, `Value.compare_akin`, `Value.connect_akin`, `Value.signed_akin`,
  `Value.negate_akin`: The operators.
* `Expr.eval_akin`: Expressions.
* `Expr.eval_decided_by_kinds`: What evaluation over one store tells of evaluation over the
  other.
-/

namespace Primer

namespace Store

/-- The same names are bound, and each of them to values of the same kind. The empty value
    is of a kind of its own, and the declared types do not matter. -/
def SameKinds (store store' : Store) : Prop :=
  ∀ name, (store.find? name).map (fun b => b.value.type?)
    = (store'.find? name).map fun b => b.value.type?

end Store

/-- Two results are the same as far as kinds tell, unless one of them comes from dividing by
    zero. -/
inductive Akin : Except Fault Value → Except Fault Value → Prop where
  | ok {v w : Value} (h : v.type? = w.type?) : Akin (.ok v) (.ok w)
  | error (f : Fault) : Akin (.error f) (.error f)
  | divides (pos : Position) (y : Except Fault Value) :
      Akin (.error (.program pos .divisionByZero)) y
  | divided (x : Except Fault Value) (pos : Position) :
      Akin x (.error (.program pos .divisionByZero))

/-- Two values of a known kind. -/
theorem Akin.of_kind (type : DataType) {v w : Value} (hv : v.type? = some type)
    (hw : w.type? = some type) : Akin (.ok v) (.ok w) :=
  .ok (hv.trans hw.symm)

theorem Akin.bind {x y : Except Fault Value} {f g : Value → Except Fault Value} (h : Akin x y)
    (hfg : ∀ v w, v.type? = w.type? → Akin (f v) (g w)) : Akin (x >>= f) (y >>= g) := by
  cases h with
  | ok hkind => exact hfg _ _ hkind
  | error f => exact .error f
  -- Only one side goes on from here, and what it comes to does not matter.
  | divides pos y => exact .divides pos _
  | divided x pos => exact .divided _ pos

theorem Store.SameKinds.value {store store' : Store} (h : store.SameKinds store')
    (name : String) (pos : Position) :
    Akin (store.value name pos) (store'.value name pos) := by
  have hname := h name
  unfold Store.value
  cases hfind : store.find? name with
  | none =>
      rw [hfind, Option.map_none, eq_comm, Option.map_eq_none_iff] at hname
      rw [hname]
      exact .error _
  | some b =>
      rw [hfind, Option.map_some, eq_comm, Option.map_eq_some_iff] at hname
      rcases hname with ⟨b', hfind', hkind⟩
      rw [hfind']
      exact .ok hkind.symm

namespace Value

variable {left left' right right' v v' : Value} {pos : Position}

/-- Between whole numbers the values matter, but only to a division. -/
theorem arith_ints_akin (op : ArithOp) (a b a' b' : Int32) :
    Akin ((int a).arith op pos (int b)) ((int a').arith op pos (int b')) := by
  simp only [arith]
  cases op.onInts? a b with
  | none => exact .divides pos _
  | some n =>
      cases op.onInts? a' b' with
      | none => exact .divided _ pos
      | some n' => exact .of_kind .int rfl rfl

/-- Operands that are not both numbers are joined or refused, and which of the two is a
    matter of their kinds. -/
theorem joined_akin {op : ArithOp} {isText : Bool} {f : Fault} :
    Akin (if op = .add ∧ isText then .ok (left.concat right) else .error f)
      (if op = .add ∧ isText then .ok (left'.concat right') else .error f) := by
  split
  · exact .of_kind .string rfl rfl
  · exact .error f

theorem arith_akin (op : ArithOp) (hl : left.type? = left'.type?)
    (hr : right.type? = right'.type?) :
    Akin (left.arith op pos right) (left'.arith op pos right') := by
  cases left <;> cases left' <;> cases hl <;> cases right <;> cases right' <;> cases hr
  case int.int.refl.int.int.refl => exact arith_ints_akin op _ _ _ _
  case int.int.refl.float.float.refl => exact .of_kind .float rfl rfl
  case float.float.refl.int.int.refl => exact .of_kind .float rfl rfl
  case float.float.refl.float.float.refl => exact .of_kind .float rfl rfl
  all_goals exact joined_akin

theorem compare_akin (op : Comparison) (hl : left.type? = left'.type?)
    (hr : right.type? = right'.type?) :
    Akin (left.compare op pos right) (left'.compare op pos right') := by
  cases left <;> cases left' <;> cases hl <;> cases right <;> cases right' <;> cases hr
  case int.int.refl.int.int.refl => cases op <;> exact .of_kind .bool rfl rfl
  case float.float.refl.float.float.refl => cases op <;> exact .of_kind .bool rfl rfl
  all_goals
    -- Between any other kinds there is no order, but still an answer to whether two values
    -- are the same.
    cases op with
    | eq => exact .of_kind .bool rfl rfl
    | ne => exact .of_kind .bool rfl rfl
    | _ => exact .error _

theorem connect_akin (op : Connective) (hl : left.type? = left'.type?)
    (hr : right.type? = right'.type?) :
    Akin (left.connect op pos right) (left'.connect op pos right') := by
  cases left <;> cases left' <;> cases hl <;> cases right <;> cases right' <;> cases hr
  case bool.bool.refl.bool.bool.refl =>
      cases op with
      | and => exact .of_kind .bool rfl rfl
      | or => exact .of_kind .bool rfl rfl
  all_goals exact .error _

theorem signed_akin (sign : Sign) (hv : v.type? = v'.type?) :
    Akin (v.signed sign pos) (v'.signed sign pos) := by
  cases sign with
  | plus => exact .ok hv
  | minus =>
      cases v <;> cases v' <;> cases hv
      case int.int.refl => exact .of_kind .int rfl rfl
      case float.float.refl => exact .of_kind .float rfl rfl
      all_goals exact .error _

theorem negate_akin (hv : v.type? = v'.type?) : Akin (v.negate pos) (v'.negate pos) := by
  cases v <;> cases v' <;> cases hv
  case bool.bool.refl => exact .of_kind .bool rfl rfl
  all_goals exact .error _

end Value

namespace Expr

variable {store store' : Store}

/-- Over stores of the same kinds an expression has akin results. -/
theorem eval_akin (h : store.SameKinds store') (e : Expr) :
    Akin (e.eval store) (e.eval store') := by
  induction e with
  | literal pos l => exact .ok rfl
  | var pos name => exact h.value name pos
  | signed pos sign e ih => exact ih.bind fun _ _ hv => Value.signed_akin sign hv
  | arith pos op l r ihl ihr =>
      exact ihl.bind fun _ _ hl => ihr.bind fun _ _ hr => Value.arith_akin op hl hr
  | compare pos op l r ihl ihr =>
      exact ihl.bind fun _ _ hl => ihr.bind fun _ _ hr => Value.compare_akin op hl hr
  | connect pos op l r ihl ihr =>
      exact ihl.bind fun _ _ hl => ihr.bind fun _ _ hr => Value.connect_akin op hl hr
  | concat pos l r ihl ihr =>
      exact ihl.bind fun _ _ _ => ihr.bind fun _ _ _ => .of_kind .string rfl rfl
  | paren pos e ih => exact ih
  | not pos e ih => exact ih.bind fun _ _ hv => Value.negate_akin hv
  | escape pos c =>
      -- The character stands in the program, so both results are the same one.
      unfold eval Value.escaped
      split
      · exact .ok rfl
      · exact .error _
  | newline pos => exact .ok rfl

/-- Over stores of the same kinds an expression has values of the same kind, or fails with
    the same fault, as long as nothing is divided by zero. -/
theorem eval_decided_by_kinds (h : store.SameKinds store') (e : Expr) :
    (∀ v, e.eval store = .ok v →
        (∃ w, e.eval store' = .ok w ∧ w.type? = v.type?) ∨
          ∃ pos, e.eval store' = .error (.program pos .divisionByZero)) ∧
      ∀ f, e.eval store = .error f → (∀ pos, f ≠ .program pos .divisionByZero) →
        e.eval store' = .error f ∨
          ∃ pos, e.eval store' = .error (.program pos .divisionByZero) := by
  have hakin := eval_akin h e
  constructor
  · intro v hv
    rw [hv] at hakin
    generalize e.eval store' = y at hakin ⊢
    cases hakin with
    | @ok _ w hkind => exact Or.inl ⟨w, rfl, hkind.symm⟩
    | divided _ pos => exact Or.inr ⟨pos, rfl⟩
  · intro f hf hdivision
    rw [hf] at hakin
    generalize e.eval store' = y at hakin ⊢
    cases hakin with
    | error => exact Or.inl rfl
    | divides pos => exact absurd rfl (hdivision pos)
    | divided _ pos => exact Or.inr ⟨pos, rfl⟩

/-- A sum of a quotient and a truth value. With another whole number to divide by, it is
    refused in the same way; with zero, the division comes first. -/
theorem eval_decided_by_kinds_quotient :
    let pos : Position := ⟨3, 4⟩
    let e : Expr := .arith pos .add
      (.arith ⟨3, 2⟩ .div (.literal ⟨3, 0⟩ (.int 6)) (.var ⟨3, 3⟩ "x")) (.var ⟨3, 6⟩ "y")
    let store (n : Int32) (b : Bool) : Store :=
      ⟨[("y", ⟨.bool, .bool b⟩), ("x", ⟨.int, .int n⟩)]⟩
    let refused : Fault := .program pos (.badArith .add (some .int) (some .bool))
    (∀ n b n' b', (store n b).SameKinds (store n' b')) ∧
      e.eval (store 2 true) = .error refused ∧ (∀ pos, refused ≠ .program pos .divisionByZero) ∧
      (e.eval (store 3 false) = .error refused ∨
        ∃ pos, e.eval (store 3 false) = .error (.program pos .divisionByZero)) ∧
      e.eval (store 3 false) = .error refused ∧
      e.eval (store 0 false) = .error (.program ⟨3, 2⟩ .divisionByZero) := by
  intro pos e store refused
  have hkinds : ∀ n b n' b', (store n b).SameKinds (store n' b') := by
    intro n b n' b' name
    simp only [store, Store.find?_cons]
    split
    · rfl
    · split <;> rfl
  have hrefused : e.eval (store 2 true) = .error refused := rfl
  have hdivision : ∀ pos, refused ≠ .program pos .divisionByZero := by
    intro pos h
    simp only [refused, Fault.program.injEq, reduceCtorEq, and_false] at h
  exact ⟨hkinds, hrefused, hdivision,
    (eval_decided_by_kinds (hkinds 2 true 3 false) e).2 refused hrefused hdivision,
    rfl, rfl⟩

end Expr

end Primer
