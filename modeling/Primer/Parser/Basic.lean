import Primer.Lexeme

/-!
# Parsers

A parser reads a value off the front of a list of lexemes. It leaves the lexemes
it has not taken, and does so when it fails as well, so a failure also shows how
far the reading got. A lexeme that is taken and turns out to be the wrong one
stays taken.

A parser that repeats something is given a bound on the number of lexemes that
are left. The bound is never what ends it: each round takes at least one lexeme,
and with no lexemes left there is nothing to repeat on.

## Main definitions

* `Parser`: A parser.
* `Parser.expect`: Takes one given token.
* `Parser.identifier`: Takes an identifier.
* `Parser.skipBreaks`: Takes all line breaks.
* `Parser.commaSeparated`: Takes a list with commas between its items.
* `Parser.marked`: Takes an operand with operators in front of it.
* `Parser.chain`: Takes operands with operators between them.
-/

namespace Primer

/-- A parser of values of type `α`. -/
abbrev Parser (α : Type) : Type := EStateM SourceError (List Lexeme) α

namespace Parser

variable {α : Type}

/-- Takes the next lexeme, whatever it is. -/
def next (expected : Expectation) : Parser Lexeme := do
  match ← get with
  | [] => throw (.endOfInput expected)
  | l :: rest => do
      set rest
      return l

/-- Fails because of a lexeme. -/
def reject (found : Lexeme) (expected : Expectation) : Parser α :=
  throw (.unexpected found.token expected found.pos)

/-- Takes the given token and yields its position. -/
def expect (token : Token) (expected : Expectation) : Parser Position := do
  let l ← next expected
  if l.token = token then return l.pos else reject l expected

/-- Takes an identifier and yields its name and position. -/
def identifier : Parser (String × Position) := do
  let l ← next .identifier
  match l.token with
  | .identifier name => return (name, l.pos)
  | _ => reject l .identifier

/-- The lexemes after the line breaks in front. -/
def afterBreaks (ls : List Lexeme) : List Lexeme :=
  ls.dropWhile fun l => l.token = .lineBreak

/-- Takes all line breaks in front. -/
def skipBreaks : Parser Unit :=
  modify afterBreaks

/-- The token in front of some lexemes. -/
def front? (ls : List Lexeme) : Option Token :=
  ls.head?.map Lexeme.token

/-- Takes the given token if it is in front, and says whether it was. -/
def takes (token : Token) : Parser Bool := do
  match ← get with
  | [] => return false
  | l :: rest =>
      if l.token = token then
        set rest
        return true
      else return false

/-- Takes further items, each after a comma, at most the given number of them. -/
def moreItems (item : Parser α) : Nat → Parser (List α)
  | 0 => return []
  | n + 1 => do
      if ← takes (.symbol .comma) then
        let x ← item
        return x :: (← moreItems item n)
      else return []

/-- Takes items with commas between them, at least one, from at most `bound`
    lexemes. -/
def commaSeparated (bound : Nat) (item : Parser α) : Parser (List α) := do
  let first ← item
  return first :: (← moreItems item bound)

/-- The operators in front of some lexemes, and the lexemes after them. `mark?`
    says which lexemes are operators and what one does to its operand. -/
def marks (mark? : Lexeme → Option (α → α)) : List Lexeme → List (α → α) × List Lexeme
  | [] => ([], [])
  | l :: rest =>
      match mark? l with
      | none => ([], l :: rest)
      | some mark =>
          let (more, after) := marks mark? rest
          (mark :: more, after)

/-- Takes an operand with any number of operators in front of it. -/
def marked (operand : Parser α) (mark? : Lexeme → Option (α → α)) : Parser α := do
  let (found, rest) := marks mark? (← get)
  set rest
  let x ← operand
  return found.foldr (fun mark x => mark x) x

/-- Goes on taking operators and operands after `left`, at most the given number
    of them, and joins each to what has been read so far. -/
def chainFrom (operand : Parser α) (join? : Lexeme → Option (α → α → α)) :
    Nat → α → Parser α
  | 0, left => return left
  | n + 1, left => do
      match ← get with
      | [] => return left
      | l :: rest =>
          match join? l with
          | none => return left
          | some join => do
              set rest
              let right ← operand
              chainFrom operand join? n (join left right)

/-- Takes operands with operators between them from at most `bound` lexemes,
    grouping to the left. `join?` says which lexemes are operators and how one
    joins its operands. -/
def chain (bound : Nat) (operand : Parser α) (join? : Lexeme → Option (α → α → α)) :
    Parser α := do
  let first ← operand
  chainFrom operand join? bound first

end Parser

end Primer
