import Primer.Parser.Statement

/-!
# Reading Programs

A program is a frame around its statements: `BEGIN CODE` and `END CODE`, with
nothing but line breaks outside.

## Main definitions

* `Parser.program`: Reads a program.
* `Program.ofLexemes`: The program that some lexemes are.
* `Program.ofSource`: The program that a source text is.
-/

namespace Primer

namespace Parser

/-- Takes the end of the text. -/
def textEnd : Parser Unit := do
  match ← get with
  | [] => return
  | l :: rest => do
      set rest
      reject l .endOfProgram

/-- Reads a program. Unlike in the other frames, a statement may follow the opening
    words in the same line. Nothing but line breaks may follow the closing
    words. -/
def program : Parser Program := do
  skipBreaks
  let pos ← expect (.keyword .beginKw) (.opening .codeKw)
  let _ ← expect (.keyword .codeKw) (.afterBegin .codeKw)
  let statements ← statements
  let _ ← expect (.keyword .endKw) (.closing .codeKw)
  let _ ← expect (.keyword .codeKw) (.afterEnd .codeKw)
  skipBreaks
  textEnd
  return ⟨pos, statements⟩

end Parser

namespace Program

/-- The program that some lexemes are. -/
def ofLexemes (ls : List Lexeme) : Except SourceError Program :=
  match Parser.program.run ls with
  | .ok p _ => .ok p
  | .error e _ => .error e

/-- The program that a source text is. -/
def ofSource (source : String) : Except SourceError Program := do
  ofLexemes (← Lexeme.ofSource source)

end Program

end Primer
