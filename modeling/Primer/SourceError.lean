import Primer.Position
import Primer.Token

/-!
# Errors in a Source Text

Why a source text is not a program. Either some piece of it is no token, or the
tokens do not follow the grammar: then the error says which token was met and
what the grammar asked for there, or that the text ended too early.

## Main definitions

* `Expectation`: What the grammar asks for at some point.
* `SourceError`: Why a text is not a program.
* `SourceError.message`: The wording of an error.
-/

namespace Primer

/-- What the grammar asks for at some point. -/
inductive Expectation where
  /-- The opening line of the frame named by a keyword. -/
  | opening (frame : Keyword)
  /-- The keyword of a frame after `BEGIN`. -/
  | afterBegin (frame : Keyword)
  /-- The end of the opening line of a frame. -/
  | breakAfterBegin (frame : Keyword)
  /-- The closing line of a frame. -/
  | closing (frame : Keyword)
  /-- The keyword of a frame after `END`. -/
  | afterEnd (frame : Keyword)
  /-- Nothing more. -/
  | endOfProgram
  /-- The end of a line. -/
  | endOfLine
  | statement
  | expression
  | identifier
  /-- The colon after a keyword. -/
  | colonAfter (word : Keyword)
  /-- The sign between a variable and what it is assigned. -/
  | assignment
  /-- The keyword that begins the condition of a loop after its body. -/
  | loopCondition
  | openCondition
  | closeCondition
  | closeParen
deriving DecidableEq, Repr

/-- Why a text is not a program. -/
inductive SourceError where
  /-- A piece of the text is no token and does not begin one. -/
  | unrecognized (text : String) (pos : Position)
  /-- A whole number does not fit in 32 bits. -/
  | tooLarge (text : String) (pos : Position)
  /-- A token stands where the grammar asks for something else. -/
  | unexpected (found : Token) (expected : Expectation) (pos : Position)
  /-- The text ends where the grammar asks for something. -/
  | endOfInput (expected : Expectation)
deriving DecidableEq

namespace Expectation

/-- An expectation in the words of a diagnostic. -/
def text : Expectation → String
  | .opening frame => s!"'BEGIN {frame.word}'"
  | .afterBegin frame => s!"'{frame.word}' after 'BEGIN'"
  | .breakAfterBegin frame => s!"line break after 'BEGIN {frame.word}'"
  | .closing frame => s!"'END {frame.word}'"
  | .afterEnd frame => s!"'{frame.word}' after 'END'"
  | .endOfProgram => "end of program"
  | .endOfLine => "end of line"
  | .statement => "statement"
  | .expression => "expression"
  | .identifier => "identifier"
  | .colonAfter word => s!"':' after '{word.word}'"
  | .assignment => "'=' in assignment"
  | .loopCondition => "'WHILE' after 'END DO'"
  | .openCondition => "'(' before condition"
  | .closeCondition => "')' after condition"
  | .closeParen => "')'"

end Expectation

namespace SourceError

/-- The wording of an error. -/
def message : SourceError → String
  | .unrecognized text pos => s!"Syntax error: {pos.render} -> unrecognized input '{text}'."
  | .tooLarge text pos => s!"Syntax error: {pos.render} -> literal '{text}' is too large."
  | .unexpected found expected pos =>
      s!"Syntax error: {pos.render} -> unexpected token {found.describe}, "
        ++ s!"expected {expected.text}."
  | .endOfInput expected =>
      s!"Syntax error: unexpected end of input, expected {expected.text}."

/-- The place of an error, if it has one. -/
def pos? : SourceError → Option Position
  | .unrecognized _ pos => some pos
  | .tooLarge _ pos => some pos
  | .unexpected _ _ pos => some pos
  | .endOfInput _ => none

end SourceError

end Primer
