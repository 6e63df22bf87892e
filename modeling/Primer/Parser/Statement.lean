import Primer.Parser.Expression
import Primer.Statement.Basic

/-!
# Reading Statements

The grammar of statements. A statement ends with its line, and the bodies of
choices and loops stand in a frame of their own: `BEGIN` and `END`, each followed
by the keyword that the frame belongs to.

As with expressions, the statements inside a frame are a parameter of what reads
a statement, beside the bound on the number of lexemes, and `statementsWithin`
ties the knot, since opening a frame takes lexemes. With a bound of zero no lexeme
is left, and there are no statements.

## Main definitions

* `Parser.framed`: Reads the statements in a frame, over a parser for them.
* `Parser.single`: Reads one statement, over a parser for the statements in a
  frame.
* `Parser.statementsWithin`: Reads statements from a bounded number of lexemes.
* `Parser.statement`, `Parser.statements`, `Parser.block`: Read a statement, the
  statements up to an `END`, and the statements in a frame.
-/

namespace Primer

namespace Parser

/-- Reads one name of a declaration. -/
def declarator (bound : Nat) : Parser Declarator := do
  let (name, pos) ← identifier
  if ← takes (.symbol .assign) then return ⟨pos, name, some (← expressionWithin bound)⟩
  else return ⟨pos, name, none⟩

/-- The names in front of some lexemes that are each followed by the sign of
    assignment, and the lexemes after them. -/
def targets : List Lexeme → List String × List Lexeme
  | ⟨.identifier name, _⟩ :: ⟨.symbol .assign, _⟩ :: rest =>
      let (more, after) := targets rest
      (name :: more, after)
  | ls => ([], ls)

/-- Reads an assignment. A name is a target as long as the sign of assignment
    follows it, and begins the assigned expression otherwise. -/
def assignment (bound : Nat) : Parser Statement := do
  let (name, pos) ← identifier
  let _ ← expect (.symbol .assign) .assignment
  let (more, rest) := targets (← get)
  set rest
  let value ← expressionWithin bound
  return .assign pos (name :: more) value

/-- Reads the statements in the frame of a keyword. -/
def framed (body : Parser (List Statement)) (frame : Keyword) : Parser (List Statement) := do
  skipBreaks
  let _ ← expect (.keyword .beginKw) (.opening frame)
  let _ ← expect (.keyword frame) (.afterBegin frame)
  let _ ← expect .lineBreak (.breakAfterBegin frame)
  let statements ← body
  let _ ← expect (.keyword .endKw) (.closing frame)
  let _ ← expect (.keyword frame) (.afterEnd frame)
  return statements

/-- Reads a branch after its keyword. -/
def branch (bound : Nat) (body : Parser (List Statement)) (pos : Position) :
    Parser Branch := do
  let guard ← condition bound
  return ⟨pos, guard, ← framed body .ifKw⟩

/-- Reads the further branches of a choice, at most the given number of them, and
    the body that runs if no branch does. Line breaks in front of an `ELSE` are
    taken, and those in front of anything else are left. -/
def branches (bound : Nat) (body : Parser (List Statement)) :
    Nat → Parser (List Branch × Option (List Statement))
  | 0 => return ([], none)
  | n + 1 => do
      match afterBreaks (← get) with
      | ⟨.keyword .elseKw, _⟩ :: ⟨.keyword .ifKw, pos⟩ :: rest => do
          set rest
          let b ← branch bound body pos
          let (bs, otherwise) ← branches bound body n
          return (b :: bs, otherwise)
      | ⟨.keyword .elseKw, _⟩ :: rest => do
          set rest
          return ([], some (← framed body .ifKw))
      | _ => return ([], none)

/-- Reads one statement. Its first lexeme decides what kind it is, and a lexeme
    that begins no statement is left. -/
def single (bound : Nat) (body : Parser (List Statement)) : Parser Statement := do
  match ← get with
  | [] => throw (.endOfInput .statement)
  | l :: rest =>
      match l.token with
      | .type type => do
          set rest
          return .declare l.pos type (← commaSeparated bound (declarator bound))
      | .identifier _ => assignment bound
      | .keyword .displayKw => do
          set rest
          let _ ← expect (.symbol .colon) (.colonAfter .displayKw)
          return .display l.pos (← expressionWithin bound)
      | .keyword .scanKw => do
          set rest
          let _ ← expect (.symbol .colon) (.colonAfter .scanKw)
          return .scan l.pos ((← commaSeparated bound identifier).map Prod.fst)
      | .keyword .ifKw => do
          set rest
          let first ← branch bound body l.pos
          let (others, otherwise) ← branches bound body bound
          return .choose l.pos first others otherwise
      | .keyword .whileKw => do
          set rest
          let guard ← condition bound
          return .loop l.pos guard (← framed body .whileKw)
      | .keyword .doKw => do
          set rest
          let statements ← framed body .doKw
          skipBreaks
          let _ ← expect (.keyword .whileKw) .loopCondition
          return .loopAfter l.pos statements (← condition bound)
      | _ => reject l .statement

/-- Takes the end of the line that a statement ends with. The end of the text
    will do as well. -/
def lineEnd : Parser Unit := do
  match ← get with
  | [] => return
  | l :: rest => do
      set rest
      if l.token = .lineBreak then return else reject l .endOfLine

/-- Reads the statements up to an `END` or the end of the text, at most the given
    number of them. -/
def upToEnd (one : Parser Statement) : Nat → Parser (List Statement)
  | 0 => return []
  | n + 1 => do
      skipBreaks
      match front? (← get) with
      | none => return []
      | some (.keyword .endKw) => return []
      | some _ => do
          let s ← one
          lineEnd
          return s :: (← upToEnd one n)

/-- Reads the statements up to an `END` or the end of the text, from at most the
    given number of lexemes. -/
def statementsWithin : Nat → Parser (List Statement)
  | 0 => return []
  | n + 1 => upToEnd (single (n + 1) (statementsWithin n)) (n + 1)

/-- Reads the statements up to an `END` or the end of the text. -/
def statements : Parser (List Statement) := do
  statementsWithin (← get).length

/-- Reads one statement. -/
def statement : Parser Statement := do
  let bound := (← get).length
  single bound (statementsWithin bound)

/-- Reads the statements in the frame of a keyword. -/
def block (frame : Keyword) : Parser (List Statement) := do
  framed (statementsWithin (← get).length) frame

end Parser

end Primer
