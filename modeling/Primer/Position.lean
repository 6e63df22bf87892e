/-!
# Source Positions

Where in a source text something stands. Diagnostics name the place by line and
column, so every lexeme and every node of a program carries its position.

## Main definitions

* `Position`: A line and a column.
* `Position.render`: The position as diagnostics show it.
-/

namespace Primer

/-- A place in a source text. Lines count from one, and columns count characters
    from zero. -/
structure Position where
  line : Nat
  column : Nat
deriving DecidableEq, Repr

namespace Position

/-- The beginning of a text. -/
def start : Position := ⟨1, 0⟩

/-- The place `n` characters further on in the same line. -/
def advance (pos : Position) (n : Nat) : Position :=
  { pos with column := pos.column + n }

/-- The beginning of the next line. -/
def nextLine (pos : Position) : Position :=
  ⟨pos.line + 1, 0⟩

/-- The position as diagnostics show it. -/
def render (pos : Position) : String :=
  s!"{pos.line}:{pos.column}"

end Position

end Primer
