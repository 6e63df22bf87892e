/-!
# Single-Precision Numbers

The numbers a `FLOAT` variable holds, with the arithmetic on them.

Every finite single-precision number is a whole number of units of `2 ^ (-149)`,
the smallest positive one. The finite magnitudes in ascending order are numbered
`0, 1, 2, …`, and `units` says how many units the magnitude of a given index is
worth: the first `2 ^ 23` steps are one unit each, and after every further
`2 ^ 23` magnitudes the step doubles. A finite number is therefore a sign and an
index, each number has one spelling, and comparing magnitudes is comparing
indices.

The operations compute their result exactly, as a quotient of two naturals
counted in units, and round it once by `ofUnits`. That is all that correct
rounding asks for, so no operation needs guard digits or an exponent of its own.
The not-a-number value carries neither sign nor payload, since nothing the
language does can tell two of them apart.

## Main definitions

* `Binary32`: A single-precision number.
* `Binary32.units`: The worth of a magnitude in units.
* `Binary32.ofUnits`: The number nearest to a quotient of units.
* `Binary32.add`, `sub`, `mul`, `div`, `rem`: The arithmetic.
* `Binary32.lt`, `le`, `same`: The comparisons.
-/

namespace Primer

/-- The number of finite magnitudes, `255 * 2 ^ 23`. The index that follows the
    last of them would be worth `2 ^ 128`, and stands for everything too large. -/
abbrev Binary32.finiteCount : Nat := 0x7F800000

/-- A single-precision number. -/
inductive Binary32 where
  | nan
  | infinite (negative : Bool)
  | finite (negative : Bool) (index : Fin Binary32.finiteCount)
deriving DecidableEq, Repr

namespace Binary32

/-- After how many magnitudes the step doubles, `2 ^ 23`. -/
abbrev span : Nat := 0x800000

/-- How many units of `2 ^ (-149)` the magnitude of the given index is worth. -/
def units (index : Nat) : Nat :=
  if index < span then index
  else (span + index % span) * Nat.pow 2 (index / span - 1)

/-- One, in units. -/
def oneUnits : Nat := Nat.pow 2 149

/-- The quotient rounded to a whole number, a half going to the even one. -/
def roundDiv (num den : Nat) : Nat :=
  let quotient := num / den
  let twice := 2 * (num % den)
  if twice < den ∨ twice = den ∧ quotient % 2 = 0 then quotient else quotient + 1

/-- The number nearest to `num / den` units, a half going to the even index.
    `shift` is how often the step has doubled at that size; a magnitude that
    rounds up to the next doubling lands on the right index by itself, and one
    past the last index is infinite. -/
def ofUnits (negative : Bool) (num den : Nat) : Binary32 :=
  let shift := (num / den).log2 - 23
  let index := shift * span + roundDiv num (den * Nat.pow 2 shift)
  if h : index < finiteCount then .finite negative ⟨index, h⟩ else .infinite negative

/-- The zero of the given sign. -/
def zero (negative : Bool) : Binary32 :=
  .finite negative ⟨0, by decide⟩

/-- The number nearest to a whole number. -/
def ofInt (n : Int) : Binary32 :=
  ofUnits (n < 0) (n.natAbs * oneUnits) 1

/-- A natural with a sign in front. -/
def signed (negative : Bool) (n : Nat) : Int :=
  if negative then -n else n

/-- The number with its sign turned over. -/
def neg : Binary32 → Binary32
  | .nan => .nan
  | .infinite s => .infinite !s
  | .finite s i => .finite (!s) i

/-- The sum. A sum of zero is negative only if both terms are. -/
def add : Binary32 → Binary32 → Binary32
  | .nan, _ => .nan
  | _, .nan => .nan
  | .infinite s, .infinite t => if s = t then .infinite s else .nan
  | .infinite s, .finite _ _ => .infinite s
  | .finite _ _, .infinite t => .infinite t
  | .finite s i, .finite t j =>
      let sum := signed s (units i) + signed t (units j)
      let negative := if sum = 0 then s && t else decide (sum < 0)
      ofUnits negative sum.natAbs 1

/-- The difference. -/
def sub (x y : Binary32) : Binary32 :=
  add x (neg y)

/-- The product. -/
def mul : Binary32 → Binary32 → Binary32
  | .nan, _ => .nan
  | _, .nan => .nan
  | .infinite s, .infinite t => .infinite (s != t)
  | .infinite s, .finite t j => if j.val = 0 then .nan else .infinite (s != t)
  | .finite s i, .infinite t => if i.val = 0 then .nan else .infinite (s != t)
  | .finite s i, .finite t j => ofUnits (s != t) (units i * units j) oneUnits

/-- The quotient. Dividing by zero gives an infinity, or no number at all when
    the dividend is zero too. -/
def div : Binary32 → Binary32 → Binary32
  | .nan, _ => .nan
  | _, .nan => .nan
  | .infinite _, .infinite _ => .nan
  | .infinite s, .finite t _ => .infinite (s != t)
  | .finite s _, .infinite t => zero (s != t)
  | .finite s i, .finite t j =>
      if j.val = 0 then
        if i.val = 0 then .nan else .infinite (s != t)
      else ofUnits (s != t) (units i * oneUnits) (units j)

/-- What is left of `x` after taking `y` away as often as it fits. It has the
    sign of `x` and is always exact. -/
def rem : Binary32 → Binary32 → Binary32
  | .nan, _ => .nan
  | _, .nan => .nan
  | .infinite _, _ => .nan
  | .finite s i, .infinite _ => .finite s i
  | .finite s i, .finite _ j =>
      if j.val = 0 then .nan else ofUnits s (units i % units j) 1

/-- The place of a number in ascending order. The two zeros share one, and the
    not-a-number value has none. -/
def rank? : Binary32 → Option Int
  | .nan => none
  | .infinite s => some (signed s finiteCount)
  | .finite s i => some (signed s i)

/-- Whether two numbers are the same. -/
def same (x y : Binary32) : Bool :=
  match x.rank?, y.rank? with
  | some a, some b => a == b
  | _, _ => false

/-- Whether the first number is the smaller one. -/
def lt (x y : Binary32) : Bool :=
  match x.rank?, y.rank? with
  | some a, some b => a < b
  | _, _ => false

/-- Whether the first number is at most the second. -/
def le (x y : Binary32) : Bool :=
  match x.rank?, y.rank? with
  | some a, some b => a ≤ b
  | _, _ => false

end Binary32

end Primer
