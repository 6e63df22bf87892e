import Primer.Fault

/-!
# Operations on Values

What the operators of expressions do to values. Every operation takes the
position that a fault of its own is reported at.

Whole numbers wrap around at 32 bits and their division goes toward zero, and a
whole number next to a single-precision one is taken to single precision first.
Equality is defined between any two values and is false between different kinds;
an order exists only between two numbers of the same kind. The connectives look
at both operands, so neither side can hide a fault of the other.

## Main definitions

* `Value.arith`: The arithmetic operators.
* `Value.compare`: The comparisons.
* `Value.connect`: The connectives.
* `Value.concat`: The texts of two values, joined.
* `Value.signed`: A sign in front of a value.
* `Value.negate`: The negation of a condition.
* `Value.escaped`: The text of an escaped character.
* `Value.condition`: A value used as a condition.
* `Value.conform`: A value stored under a type.
-/

namespace Primer

/-- Whether a character can be escaped: the punctuation characters of ASCII
    can. -/
def isEscapable (c : Char) : Bool :=
  let n := c.toNat
  (0x21 ≤ n && n ≤ 0x2F) || (0x3A ≤ n && n ≤ 0x40) || (0x5B ≤ n && n ≤ 0x60)
    || (0x7B ≤ n && n ≤ 0x7E)

namespace ArithOp

/-- The operator on whole numbers. There is no quotient and no remainder by
    zero. -/
def onInts? (op : ArithOp) (a b : Int32) : Option Int32 :=
  match op with
  | .add => some (a + b)
  | .sub => some (a - b)
  | .mul => some (a * b)
  | .div => if b = 0 then none else some (a / b)
  | .mod => if b = 0 then none else some (a % b)

/-- The operator on single-precision numbers. -/
def onFloats (op : ArithOp) (x y : Binary32) : Binary32 :=
  match op with
  | .add => x.add y
  | .sub => x.sub y
  | .mul => x.mul y
  | .div => x.div y
  | .mod => x.rem y

end ArithOp

namespace Value

/-- Whether two values are the same. Values of different kinds never are. -/
def same : Value → Value → Bool
  | .int a, .int b => a == b
  | .float x, .float y => x.same y
  | .bool a, .bool b => a == b
  | .char a, .char b => a == b
  | .string a, .string b => a == b
  | .empty, .empty => true
  | _, _ => false

/-- The texts of two values, joined. -/
def concat (left right : Value) : Value :=
  .string (left.render ++ right.render)

/-- The result of an arithmetic operator. Adding to a text joins the texts. -/
def arith (op : ArithOp) (pos : Position) : Value → Value → Except Fault Value
  | .int a, .int b =>
      match op.onInts? a b with
      | some n => .ok (.int n)
      | none => .error (.program pos .divisionByZero)
  | .float x, .float y => .ok (.float (op.onFloats x y))
  | .int a, .float y => .ok (.float (op.onFloats (.ofInt a.toInt) y))
  | .float x, .int b => .ok (.float (op.onFloats x (.ofInt b.toInt)))
  | left, right =>
      if op = .add ∧ (left.isString || right.isString) then .ok (left.concat right)
      else .error (.program pos (.badArith op left.type? right.type?))

/-- The result of a comparison. -/
def compare (op : Comparison) (pos : Position) (left right : Value) : Except Fault Value :=
  match op, left, right with
  | .eq, _, _ => .ok (.bool (left.same right))
  | .ne, _, _ => .ok (.bool (!left.same right))
  | .lt, .int a, .int b => .ok (.bool (a < b))
  | .gt, .int a, .int b => .ok (.bool (b < a))
  | .le, .int a, .int b => .ok (.bool (a ≤ b))
  | .ge, .int a, .int b => .ok (.bool (b ≤ a))
  | .lt, .float x, .float y => .ok (.bool (x.lt y))
  | .gt, .float x, .float y => .ok (.bool (y.lt x))
  | .le, .float x, .float y => .ok (.bool (x.le y))
  | .ge, .float x, .float y => .ok (.bool (y.le x))
  | _, _, _ => .error (.program pos (.badComparison op left.type? right.type?))

/-- The result of a connective. -/
def connect (op : Connective) (pos : Position) : Value → Value → Except Fault Value
  | .bool a, .bool b =>
      match op with
      | .and => .ok (.bool (a && b))
      | .or => .ok (.bool (a || b))
  | left, right => .error (.program pos (.badConnective op left.type? right.type?))

/-- A value with a sign in front. A plus sign changes nothing and may stand in
    front of anything. -/
def signed (sign : Sign) (pos : Position) (v : Value) : Except Fault Value :=
  match sign, v with
  | .plus, v => .ok v
  | .minus, .int n => .ok (.int (-n))
  | .minus, .float x => .ok (.float x.neg)
  | .minus, _ => .error (.program pos (.badSign sign))

/-- The negation of a condition. -/
def negate (pos : Position) : Value → Except Fault Value
  | .bool b => .ok (.bool !b)
  | _ => .error (.program pos .badNegation)

/-- A value used as a condition. -/
def condition (pos : Position) : Value → Except Fault Bool
  | .bool b => .ok b
  | v => .error (.program pos (.notCondition v))

/-- A value stored under a type has to be of that type. -/
def conform (type : DataType) (pos : Position) (v : Value) : Except Fault Unit :=
  if v.type? = some type then .ok ()
  else .error (.program pos (.mismatch v.type? type))

/-- The text of an escaped character. -/
def escaped (c : Char) (pos : Position) : Except Fault Value :=
  if isEscapable c then .ok (.string (String.singleton c))
  else .error (.program pos (.badEscape c))

end Value

end Primer
