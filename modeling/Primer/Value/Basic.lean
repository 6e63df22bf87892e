import Primer.Binary32.Decimal

/-!
# Values

What a variable can hold. There are five data types. A variable that has been
declared without an initial value holds nothing yet, and reading it yields that
nothing, so `Value` has an `empty` case beside the five kinds of data; a literal
in a program is always one of the five.

## Main definitions

* `DataType`: The type of a variable.
* `Literal`: A constant written in a program.
* `Value`: The content of a variable or the result of an expression.
* `Value.type?`: The type of a value, if it has one.
* `Value.render`: The text that displaying a value writes.
-/

namespace Primer

/-- The type of a variable. -/
inductive DataType where
  | int
  | float
  | bool
  | char
  | string
deriving DecidableEq, Repr

namespace DataType

/-- The keyword that names a type. -/
def name : DataType → String
  | .int => "INT"
  | .float => "FLOAT"
  | .bool => "BOOL"
  | .char => "CHAR"
  | .string => "STRING"

end DataType

/-- A constant written in a program. -/
inductive Literal where
  | int (n : Int32)
  | float (x : Binary32)
  | bool (b : Bool)
  | char (c : Char)
  | string (s : String)
deriving DecidableEq

/-- The content of a variable or the result of an expression. -/
inductive Value where
  | int (n : Int32)
  | float (x : Binary32)
  | bool (b : Bool)
  | char (c : Char)
  | string (s : String)
  | empty
deriving DecidableEq

namespace Literal

/-- The value a literal stands for. -/
def value : Literal → Value
  | .int n => .int n
  | .float x => .float x
  | .bool b => .bool b
  | .char c => .char c
  | .string s => .string s

end Literal

namespace Value

/-- The type of a value. The empty value has none. -/
def type? : Value → Option DataType
  | .int _ => some .int
  | .float _ => some .float
  | .bool _ => some .bool
  | .char _ => some .char
  | .string _ => some .string
  | .empty => none

/-- Whether a value is a text. -/
def isString : Value → Bool
  | .string _ => true
  | _ => false

/-- The text that displaying a value writes. -/
def render : Value → String
  | .int n => n.toInt.repr
  | .float x => x.render
  | .bool true => "TRUE"
  | .bool false => "FALSE"
  | .char c => String.singleton c
  | .string s => s
  | .empty => ""

end Value

/-- The name of a kind of value in diagnostics. -/
def kindName : Option DataType → String
  | some type => type.name
  | none => "NULL"

end Primer
