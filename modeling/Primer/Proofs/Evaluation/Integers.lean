import Mathlib.Data.Int.ModEq
import Primer.Proofs.Names

/-!
# Whole Numbers Are Computed Modulo 2^32

What becomes of a whole number that does not fit into 32 bits.

Every operator computes the exact result and wraps it: among the integers that differ from it by
a multiple of 2^32 there is one in range, and this is what the operator yields. The exact result is
that of `ArithOp.onIntegers`, which works on integers without a range.

For sums, differences and products it does not matter when the wrapping is done. Wrapping the
operands first and the result after them is the same as wrapping the result alone, so an
expression made of these operators can be computed over the unbounded integers and wrapped in the
end, however many of its intermediate results were out of range. The induction is on the expression
and carries this equation. That only one integer in range is congruent to the exact value is a fact
about numbers, and comes last.

Quotients and remainders have no place in such an expression, since dividing a wrapped number is
not the same as wrapping a quotient. They obey a law of their own: a quotient that is multiplied
back leaves the remainder. One quotient only is out of range, that of the least number by -1. It
is wrapped to the least number, and so is the product with -1 after it, which is why the law has no
exception.

## Main definitions

* `ArithOp.onIntegers`: An arithmetic operator on integers without a range.
* `ArithOp.Divides`: The operators that have no result if their right operand is zero.
* `Expr.Polynomial`: Expressions made of whole numbers without division.
* `Expr.integer`: The value of such an expression over integers without a range.

## Theorems

* `ArithOp.onInts?_eq_some`, `ArithOp.onInts?_eq_none`: An operator wraps the exact result.
* `ArithOp.ofInt_onIntegers`: Without division the operands may be wrapped first.
* `eq_toInt_ofInt`: The wrapped number is the one in range.
* `Expr.Polynomial.eval_eq`: Without division a whole expression may be wrapped in the end.
* `Expr.eval_polynomial`: The value of an expression without division.
* `toInt_div_eq_iff`, `toInt_mod_bounds`, `div_mul_add_mod`: Quotients and remainders.
* `Value.arith_division_law`: The division law.
-/

namespace Primer

section Wrapping

/-- Among the integers that are congruent to `x` the wrapped one is the one in range. -/
theorem eq_toInt_ofInt (x z : Int) :
    z = (Int32.ofInt x).toInt ↔ z ≡ x [ZMOD 2 ^ 32] ∧ -2 ^ 31 ≤ z ∧ z ≤ 2 ^ 31 - 1 := by
  rw [Int32.toInt_ofInt, Int.ModEq, Int.bmod_def]
  simp only [Int32.size]
  omega

theorem eq_ofInt_of_toInt {n : Int32} {x : Int} (h : n.toInt = x.bmod (2 ^ 32)) :
    n = .ofInt x :=
  ((Int32.ofInt_eq_iff_bmod_eq_toInt x n).mpr h.symm).symm

theorem div_eq_ofInt (a b : Int32) : a / b = .ofInt (a.toInt.tdiv b.toInt) :=
  eq_ofInt_of_toInt (Int32.toInt_div a b)

/-- A remainder is never out of range. -/
theorem mod_eq_ofInt (a b : Int32) : a % b = .ofInt (a.toInt.tmod b.toInt) := by
  rw [← Int32.toInt_mod, Int32.ofInt_toInt]

/-- A quotient is out of range only if the least number is divided by -1. -/
theorem toInt_div_eq_iff (a b : Int32) :
    (a / b).toInt = a.toInt.tdiv b.toInt ↔ ¬ (a = Int32.minValue ∧ b = -1) := by
  constructor
  · rintro h ⟨rfl, rfl⟩
    exact absurd h (by decide)
  · intro h
    by_cases ha : a = Int32.minValue
    · exact Int32.toInt_div_of_ne_right a b fun hb => h ⟨ha, hb⟩
    · exact Int32.toInt_div_of_ne_left a b ha

/-- A remainder is smaller than the divisor and has the sign of the dividend. -/
theorem toInt_mod_bounds (a : Int32) {b : Int32} (hb : b ≠ 0) :
    (a % b).toInt.natAbs < b.toInt.natAbs ∧
      ((a % b).toInt = 0 ∨ (a % b).toInt.sign = a.toInt.sign) := by
  have hb : b.toInt ≠ 0 := fun h => hb (Int32.toInt_inj.mp h)
  rw [Int32.toInt_mod]
  refine ⟨?_, ?_⟩
  · rw [Int.natAbs_tmod]
    exact Nat.mod_lt _ (Int.natAbs_pos.mpr hb)
  · by_cases hdvd : b.toInt ∣ a.toInt
    · exact .inl (Int.tmod_eq_zero_of_dvd hdvd)
    · right
      rw [Int.sign_tmod, if_neg hdvd]

/-- A quotient that is multiplied back leaves the remainder, also if it had to be wrapped. -/
theorem div_mul_add_mod (a b : Int32) : a / b * b + a % b = a :=
  calc a / b * b + a % b
      = .ofInt (a.toInt.tdiv b.toInt * b.toInt + a.toInt.tmod b.toInt) := by
        rw [Int32.ofInt_add, Int32.ofInt_mul, Int32.ofInt_toInt, div_eq_ofInt, mod_eq_ofInt]
    _ = .ofInt a.toInt := by rw [Int.tdiv_mul_add_tmod]
    _ = a := Int32.ofInt_toInt a

end Wrapping

namespace ArithOp

/-- The operator on integers without a range. Division goes toward zero. -/
def onIntegers (op : ArithOp) (a b : Int) : Int :=
  match op with
  | .add => a + b
  | .sub => a - b
  | .mul => a * b
  | .div => a.tdiv b
  | .mod => a.tmod b

/-- The operator is a division: it has no result if its right operand is zero. -/
def Divides (op : ArithOp) : Prop :=
  op = .div ∨ op = .mod

instance : DecidablePred Divides :=
  fun op => inferInstanceAs (Decidable (op = .div ∨ op = .mod))

theorem onInts?_eq_none {op : ArithOp} {a b : Int32} :
    op.onInts? a b = none ↔ op.Divides ∧ b = 0 := by
  unfold onInts? Divides
  cases op <;> simp

/-- An operator wraps the exact result. -/
theorem onInts?_eq_some {op : ArithOp} {a b : Int32} (h : op.Divides → b ≠ 0) :
    op.onInts? a b = some (.ofInt (op.onIntegers a.toInt b.toInt)) := by
  cases op with
  | add => exact congrArg some (eq_ofInt_of_toInt (Int32.toInt_add a b))
  | sub => exact congrArg some (eq_ofInt_of_toInt (Int32.toInt_sub a b))
  | mul => exact congrArg some (eq_ofInt_of_toInt (Int32.toInt_mul a b))
  | div => rw [onInts?, if_neg (h (.inl rfl)), onIntegers, div_eq_ofInt]
  | mod => rw [onInts?, if_neg (h (.inr rfl)), onIntegers, mod_eq_ofInt]

/-- Without division it makes no difference if the operands are wrapped first. -/
theorem ofInt_onIntegers {op : ArithOp} (h : ¬ op.Divides) (x y : Int) :
    Int32.ofInt (op.onIntegers (Int32.ofInt x).toInt (Int32.ofInt y).toInt)
      = .ofInt (op.onIntegers x y) := by
  cases op with
  | add => simp only [onIntegers, Int32.ofInt_add, Int32.ofInt_toInt]
  | sub => simp only [onIntegers, Int32.ofInt_sub, Int32.ofInt_toInt]
  | mul => simp only [onIntegers, Int32.ofInt_mul, Int32.ofInt_toInt]
  | div => exact absurd (.inl rfl) h
  | mod => exact absurd (.inr rfl) h

end ArithOp

namespace Value

/-- The result of an operator on whole numbers. -/
theorem arith_ints {op : ArithOp} {a b : Int32} (h : op.Divides → b ≠ 0) (pos : Position) :
    arith op pos (.int a) (.int b) = .ok (.int (.ofInt (op.onIntegers a.toInt b.toInt))) := by
  rw [arith, ArithOp.onInts?_eq_some h]

theorem arith_ints_eq_error {op : ArithOp} {a b : Int32} {pos : Position} {f : Fault} :
    arith op pos (.int a) (.int b) = .error f ↔
      (op.Divides ∧ b = 0) ∧ f = .program pos .divisionByZero := by
  by_cases h : op.Divides ∧ b = 0
  · rw [arith, ArithOp.onInts?_eq_none.mpr h]
    simp only [h, Except.error.injEq, true_and, and_self]
    exact eq_comm
  · rw [arith_ints fun hop hb => h ⟨hop, hb⟩]
    simp only [h, reduceCtorEq, false_and]

end Value

namespace Expr

/-- The expression is made of whole-number literals and variables by signs, sums, differences,
    products and parentheses. -/
inductive Polynomial : Expr → Prop where
  | literal (pos : Position) (n : Int32) : Polynomial (.literal pos (.int n))
  | var (pos : Position) (name : String) : Polynomial (.var pos name)
  | signed (pos : Position) (sign : Sign) {e : Expr} (he : Polynomial e) :
      Polynomial (.signed pos sign e)
  | arith (pos : Position) {op : ArithOp} {l r : Expr} (hop : ¬ op.Divides) (hl : Polynomial l)
      (hr : Polynomial r) : Polynomial (.arith pos op l r)
  | paren (pos : Position) {e : Expr} (he : Polynomial e) : Polynomial (.paren pos e)

/-- The value of an expression over integers without a range, with the given integers for its
    variables. What is no whole number counts as zero. -/
def integer (vars : String → Int) : Expr → Int
  | .literal _ (.int n) => n.toInt
  | .var _ name => vars name
  | .signed _ .plus e => integer vars e
  | .signed _ .minus e => -integer vars e
  | .arith _ op l r => op.onIntegers (integer vars l) (integer vars r)
  | .paren _ e => integer vars e
  | _ => 0

variable {store : Store} {vars : String → Int32} {e : Expr}

/-- An expression without division may be computed over integers without a range, and wrapped in
    the end. -/
theorem Polynomial.eval_eq (h : e.Polynomial)
    (hvars : ∀ name ∈ e.names, ∃ type, store.find? name = some ⟨type, .int (vars name)⟩) :
    e.eval store = .ok (.int (.ofInt (e.integer fun name => (vars name).toInt))) := by
  induction h with
  | literal pos n => rw [integer, Int32.ofInt_toInt]; rfl
  | var pos name =>
      rcases hvars name List.mem_cons_self with ⟨type, hfind⟩
      rw [eval, Store.value, hfind, integer, Int32.ofInt_toInt]
  | signed pos sign he ih =>
      rw [eval, ih hvars]
      cases sign with
      | plus => rfl
      | minus => rw [integer, Int32.ofInt_neg]; rfl
  | arith pos hop hl hr ihl ihr =>
      rcases List.forall_mem_append.mp hvars with ⟨hvarsl, hvarsr⟩
      -- The operator finds its operands wrapped, which makes no difference.
      rw [eval, ihl hvarsl, ihr hvarsr, integer, ← ArithOp.ofInt_onIntegers hop]
      exact Value.arith_ints (fun h => absurd h hop) pos
  | paren pos he ih => exact ih hvars

/-- An expression made of whole numbers without division has a value if its variables hold whole
    numbers. The value is congruent to the exact one modulo 2^32 and lies between -2^31 and
    2^31 - 1, and no other integer does both. -/
theorem eval_polynomial (h : e.Polynomial)
    (hvars : ∀ name ∈ e.names, ∃ type, store.find? name = some ⟨type, .int (vars name)⟩) :
    ∃ n : Int32, e.eval store = .ok (.int n) ∧
      ∀ z : Int, z = n.toInt ↔ z ≡ e.integer (fun name => (vars name).toInt) [ZMOD 2 ^ 32] ∧
        -2 ^ 31 ≤ z ∧ z ≤ 2 ^ 31 - 1 :=
  ⟨_, h.eval_eq hvars, eq_toInt_ofInt _⟩

/-- In `y * y - (-x - 5)` the product, the negation of the least number and the whole are out of
    range. -/
theorem eval_polynomial_out_of_range :
    let pos : Position := ⟨2, 0⟩
    let e : Expr := .arith pos .sub (.arith pos .mul (.var pos "y") (.var pos "y"))
      (.paren pos (.arith pos .sub (.signed pos .minus (.var pos "x")) (.literal pos (.int 5))))
    let vars (name : String) : Int32 := if name = "x" then Int32.minValue else 65536
    let store : Store := ⟨[("y", ⟨.int, .int 65536⟩), ("x", ⟨.int, .int Int32.minValue⟩)]⟩
    e.Polynomial ∧ (∀ name ∈ e.names, ∃ type, store.find? name = some ⟨type, .int (vars name)⟩) ∧
      e.integer (fun name => (vars name).toInt) = 2147483653 ∧
      e.eval store = .ok (.int (-2147483643)) := by
  intro pos e vars store
  have hform : e.Polynomial := by
    refine .arith pos (by decide) (.arith pos (by decide) (.var pos _) (.var pos _)) ?_
    exact .paren pos (.arith pos (by decide) (.signed pos _ (.var pos _)) (.literal pos 5))
  have hvars : ∀ name ∈ e.names,
      ∃ type, store.find? name = some ⟨type, .int (vars name)⟩ := by
    intro name hname
    refine ⟨.int, ?_⟩
    revert name
    exact List.forall_mem_cons.mpr ⟨rfl, List.forall_mem_cons.mpr ⟨rfl,
      List.forall_mem_singleton.mpr rfl⟩⟩
  have hexact : e.integer (fun name => (vars name).toInt) = 2147483653 := by decide
  rcases eval_polynomial hform hvars with ⟨n, heval, hn⟩
  have hvalue : (-2147483643 : Int) = n.toInt := by
    rw [hn, hexact]
    exact ⟨by decide, by decide, by decide⟩
  have hint : n = -2147483643 := Int32.toInt_inj.mp hvalue.symm
  exact ⟨hform, hvars, hexact, hint ▸ heval⟩

end Expr

namespace Value

/-- A quotient or a remainder of two whole numbers fails if and only if the right one is zero, and
    then because of it. Otherwise the quotient is that toward zero, wrapped, and the only one that
    wrapping changes is that of the least number by -1; the remainder is smaller than the right
    number and zero or of the sign of the left one; and in an expression the quotient, multiplied
    back, and the remainder add up to the left number. -/
theorem arith_division_law (a b : Int32) (pos : Position) :
    (∀ op, op = .div ∨ op = .mod → ∀ f, arith op pos (.int a) (.int b) = .error f ↔
        b = 0 ∧ f = .program pos .divisionByZero) ∧
      (b ≠ 0 → ∃ q r : Int32,
        arith .div pos (.int a) (.int b) = .ok (.int q) ∧
        arith .mod pos (.int a) (.int b) = .ok (.int r) ∧
        q = Int32.ofInt (a.toInt.tdiv b.toInt) ∧
        (q.toInt = a.toInt.tdiv b.toInt ↔ ¬ (a = Int32.minValue ∧ b = -1)) ∧
        r.toInt.natAbs < b.toInt.natAbs ∧ (r.toInt = 0 ∨ r.toInt.sign = a.toInt.sign) ∧
        ∀ (store : Store) (l m : Expr) (p₁ p₂ p₃ p₄ p₅ : Position),
          l.eval store = .ok (.int a) → m.eval store = .ok (.int b) →
          (Expr.arith p₁ .add (.arith p₂ .mul (.paren p₃ (.arith p₄ .div l m)) m)
            (.arith p₅ .mod l m)).eval store = .ok (.int a)) := by
  refine ⟨?_, ?_⟩
  · intro op hop f
    have hdivides : op.Divides := hop
    simp only [arith_ints_eq_error, hdivides, true_and]
  · intro hb
    have hquotient : ∀ p, arith .div p (.int a) (.int b) = .ok (.int (a / b)) := fun p => by
      rw [arith_ints (fun _ => hb), div_eq_ofInt, ArithOp.onIntegers]
    have hremainder : ∀ p, arith .mod p (.int a) (.int b) = .ok (.int (a % b)) := fun p => by
      rw [arith_ints (fun _ => hb), mod_eq_ofInt, ArithOp.onIntegers]
    rcases toInt_mod_bounds a hb with ⟨hless, hsign⟩
    refine ⟨a / b, a % b, hquotient pos, hremainder pos, div_eq_ofInt a b, toInt_div_eq_iff a b,
      hless, hsign, ?_⟩
    intro store l m p₁ p₂ p₃ p₄ p₅ hl hm
    simp only [Expr.eval, hl, hm, hquotient, hremainder, bind, Except.bind]
    show Except.ok (Value.int (a / b * b + a % b)) = .ok (.int a)
    rw [div_mul_add_mod]

/-- Division goes toward zero, and the least number divided by -1 is itself. -/
example :
    let pos : Position := ⟨2, 0⟩
    arith .div pos (.int (-7)) (.int 2) = .ok (.int (-3)) ∧
      arith .mod pos (.int (-7)) (.int 2) = .ok (.int (-1)) ∧
      arith .div pos (.int (-2147483648)) (.int (-1)) = .ok (.int (-2147483648)) ∧
      arith .mod pos (.int (-2147483648)) (.int (-1)) = .ok (.int 0) := by
  decide

end Value

end Primer
