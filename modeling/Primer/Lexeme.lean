import Primer.SourceError

/-!
# Lexemes

Cutting a source text into lexemes: the pieces that are tokens, each with the
position of its first character. Every piece is as long as it can be. The kinds
of pieces differ in their first character, with one exception, so the first
character decides how a piece is read. The exception is the carriage return: it
belongs to the line break when a line feed follows it directly, and is a blank
otherwise.

Reading a piece says how many characters it has after its first one. The cutting
itself walks over the text one character at a time and leaves out those that
belong to the piece read last. Lines grow by line breaks alone, because no other
piece can hold a line feed.

## Main definitions

* `Lexeme`: A token with its position.
* `Piece`: What stands at the front of a text.
* `Piece.scan`: Reads the piece at the front of a text.
* `Lexeme.ofSource`: The lexemes of a source text.
-/

namespace Primer

/-- A token with the position of its first character. -/
structure Lexeme where
  token : Token
  pos : Position
deriving DecidableEq

/-- What stands at the front of a text. `more` counts the characters after the
    first that belong to it. -/
inductive Piece where
  /-- A token. -/
  | token (token : Token) (more : Nat)
  /-- Blanks or a comment. -/
  | gap (more : Nat)
  /-- A whole number that does not fit in 32 bits. -/
  | tooLarge (digits : List Char)
  /-- Characters that no token begins with, or that no token continues. -/
  | unrecognized (text : List Char)
deriving DecidableEq

namespace Piece

/-- Whether a character can begin a word. -/
def isWordStart (c : Char) : Bool :=
  c.isAlpha || c == '_'

/-- Whether a character can continue a word. -/
def isWordPart (c : Char) : Bool :=
  c.isAlphanum || c == '_'

/-- Whether a character is a blank between tokens. -/
def isGap (c : Char) : Bool :=
  c == ' ' || c == '\t' || c == '\x0c' || c == '\r'

/-- The token that a word is. -/
def ofWord (word : String) : Token :=
  match Keyword.ofWord? word, DataType.ofName? word with
  | some k, _ => .keyword k
  | none, some t => .type t
  | none, none => .identifier word

/-- The token that a text between double quotes is. Two texts are the names of
    the truth values. -/
def ofQuoted (body : String) : Token :=
  if body = "TRUE" then .literal (.bool true)
  else if body = "FALSE" then .literal (.bool false)
  else .literal (.string body)

/-- The number that begins with the digit `c`. A point belongs to it only if
    another digit follows. -/
def scanNumber (c : Char) (cs : List Char) : Piece :=
  let whole := c :: cs.takeWhile Char.isDigit
  match cs.dropWhile Char.isDigit with
  | '.' :: d :: rest =>
      if d.isDigit then
        let fraction := d :: rest.takeWhile Char.isDigit
        let x := Binary32.ofDecimal false
          ⟨Nat.ofDigitChars 10 (whole ++ fraction) 0, -fraction.length⟩
        .token (.literal (.float x)) (whole.length + fraction.length)
      else scanInt whole
  | _ => scanInt whole
where
  /-- The whole number with the given digits. -/
  scanInt (digits : List Char) : Piece :=
    let n := Nat.ofDigitChars 10 digits 0
    if n < 0x80000000 then .token (.literal (.int (Int32.ofNat n))) (digits.length - 1)
    else .tooLarge digits

/-- The word that begins with the letter `c`. -/
def scanWord (c : Char) (cs : List Char) : Piece :=
  let part := cs.takeWhile isWordPart
  .token (ofWord (String.ofList (c :: part))) part.length

/-- The text that begins with a double quote. It ends in the same line. -/
def scanText (cs : List Char) : Piece :=
  let body := cs.takeWhile fun c => c != '"' && c != '\n'
  match cs.drop body.length with
  | '"' :: _ => .token (ofQuoted (String.ofList body)) (body.length + 1)
  | _ => .unrecognized ('"' :: body)

/-- The character that begins with a single quote. -/
def scanChar : List Char → Piece
  | [] => .unrecognized ['\'']
  | c :: rest =>
      if c == '\'' || c == '\n' then .unrecognized ['\'']
      else
        match rest with
        | '\'' :: _ => .token (.literal (.char c)) 2
        | _ => .unrecognized ['\'', c]

/-- The escaped character that begins with a bracket. -/
def scanEscape : List Char → Piece
  | [] => .unrecognized ['[']
  | c :: rest =>
      if c == '\n' then .unrecognized ['[']
      else
        match rest with
        | ']' :: _ => .token (.escape c) 2
        | _ => .unrecognized ['[', c]

/-- The piece at the front of the text that begins with `c` and goes on with
    `cs`. -/
def scan (c : Char) (cs : List Char) : Piece :=
  if c.isDigit then scanNumber c cs
  else if isWordStart c then scanWord c cs
  else if c = '"' then scanText cs
  else if c = '\'' then scanChar cs
  else if c = '[' then scanEscape cs
  else if c = '#' then .gap (cs.takeWhile (· != '\n')).length
  else if c = '\n' then .token .lineBreak 0
  else if c = '\r' ∧ cs.head? = some '\n' then .token .lineBreak 1
  else if isGap c then .gap (cs.takeWhile isGap).length
  else
    match Symbol.front? (c :: cs) with
    | some sign => .token (.symbol sign) (sign.text.length - 1)
    | none => .unrecognized [c]

end Piece

namespace Lexeme

/-- The lexemes of a text, of which the first `owned` characters belong to the
    piece read last and what follows them stands at `pos`. -/
def cut (pos : Position) (owned : Nat) : List Char → Except SourceError (List Lexeme)
  | [] => .ok []
  | c :: cs =>
      match owned with
      | k + 1 => cut pos k cs
      | 0 =>
          match Piece.scan c cs with
          | .token t more => do
              let next := if t = .lineBreak then pos.nextLine else pos.advance (more + 1)
              return ⟨t, pos⟩ :: (← cut next more cs)
          | .gap more => cut (pos.advance (more + 1)) more cs
          | .tooLarge digits => .error (.tooLarge (String.ofList digits) pos)
          | .unrecognized text => .error (.unrecognized (String.ofList text) pos)

/-- The lexemes of a source text. -/
def ofSource (source : String) : Except SourceError (List Lexeme) :=
  cut .start 0 source.toList

end Lexeme

end Primer
