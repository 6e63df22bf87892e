import Primer.Text.Quoted
import Primer.Value.Basic

/-!
# Tokens

The words that a program is written with. A token is what a piece of source text
means to the grammar; the blanks and comments between tokens mean nothing and
have none, but the end of a line is a token, since it ends a statement.

## Main definitions

* `Keyword`, `Symbol`: The fixed words and signs.
* `Token`: A token.
* `Keyword.ofWord?`: The keyword with a given spelling.
* `Symbol.front?`: The sign at the front of a text.
* `Token.describe`: A token as diagnostics show it.
-/

namespace Primer

/-- A word with a fixed meaning, other than the name of a type. -/
inductive Keyword where
  | beginKw
  | endKw
  | codeKw
  | ifKw
  | elseKw
  | whileKw
  | doKw
  | displayKw
  | scanKw
  | andKw
  | orKw
  | notKw
deriving DecidableEq, Repr

/-- A sign with a fixed meaning. -/
inductive Symbol where
  | plus
  | minus
  | star
  | slash
  | percent
  | ampersand
  | assign
  | equal
  | notEqual
  | lessEqual
  | greaterEqual
  | less
  | greater
  | leftParen
  | rightParen
  | comma
  | colon
  | dollar
deriving DecidableEq, Repr

/-- A word of a program. -/
inductive Token where
  | literal (value : Literal)
  | escape (c : Char)
  | keyword (word : Keyword)
  | type (type : DataType)
  | identifier (name : String)
  | symbol (sign : Symbol)
  | lineBreak
deriving DecidableEq

namespace Keyword

/-- Every keyword. -/
def all : List Keyword :=
  [.beginKw, .endKw, .codeKw, .ifKw, .elseKw, .whileKw, .doKw, .displayKw, .scanKw, .andKw,
    .orKw, .notKw]

/-- How a keyword is written. -/
def word : Keyword → String
  | .beginKw => "BEGIN"
  | .endKw => "END"
  | .codeKw => "CODE"
  | .ifKw => "IF"
  | .elseKw => "ELSE"
  | .whileKw => "WHILE"
  | .doKw => "DO"
  | .displayKw => "DISPLAY"
  | .scanKw => "SCAN"
  | .andKw => "AND"
  | .orKw => "OR"
  | .notKw => "NOT"

/-- The keyword with a given spelling. -/
def ofWord? (word : String) : Option Keyword :=
  all.find? fun k => k.word = word

/-- The name of a keyword in diagnostics. -/
def kind : Keyword → String
  | .beginKw => "Begin"
  | .endKw => "End"
  | .codeKw => "Code"
  | .ifKw => "If"
  | .elseKw => "Else"
  | .whileKw => "While"
  | .doKw => "Do"
  | .displayKw => "Display"
  | .scanKw => "Scan"
  | .andKw => "And"
  | .orKw => "Or"
  | .notKw => "Not"

end Keyword

namespace Symbol

/-- Every sign, the longer ones first. -/
def all : List Symbol :=
  [.equal, .notEqual, .lessEqual, .greaterEqual, .assign, .less, .greater, .plus, .minus, .star,
    .slash, .percent, .ampersand, .leftParen, .rightParen, .comma, .colon, .dollar]

/-- How a sign is written. -/
def text : Symbol → String
  | .plus => "+"
  | .minus => "-"
  | .star => "*"
  | .slash => "/"
  | .percent => "%"
  | .ampersand => "&"
  | .assign => "="
  | .equal => "=="
  | .notEqual => "<>"
  | .lessEqual => "<="
  | .greaterEqual => ">="
  | .less => "<"
  | .greater => ">"
  | .leftParen => "("
  | .rightParen => ")"
  | .comma => ","
  | .colon => ":"
  | .dollar => "$"

/-- The longest sign at the front of a text. -/
def front? (cs : List Char) : Option Symbol :=
  all.find? fun s => s.text.toList.isPrefixOf cs

/-- The name of a sign in diagnostics. -/
def kind : Symbol → String
  | .plus => "Plus"
  | .minus => "Minus"
  | .star => "Star"
  | .slash => "Slash"
  | .percent => "Percent"
  | .ampersand => "Ampersand"
  | .assign => "Equals"
  | .equal => "EqualEqual"
  | .notEqual => "NotEqual"
  | .lessEqual => "LessEqual"
  | .greaterEqual => "GreaterEqual"
  | .less => "Less"
  | .greater => "Greater"
  | .leftParen => "LParen"
  | .rightParen => "RParen"
  | .comma => "Comma"
  | .colon => "Colon"
  | .dollar => "Dollar"

end Symbol

namespace DataType

/-- Every type. -/
def all : List DataType :=
  [.int, .float, .bool, .char, .string]

/-- The type with a given name. -/
def ofName? (name : String) : Option DataType :=
  all.find? fun t => t.name = name

/-- The name of a type's keyword in diagnostics. -/
def kind : DataType → String
  | .int => "Int"
  | .float => "Float"
  | .bool => "BoolType"
  | .char => "CharType"
  | .string => "StringType"

end DataType

namespace Literal

/-- The name of a kind of literal in diagnostics. -/
def kind : Literal → String
  | .int _ => "Integer"
  | .float _ => "Real"
  | .bool _ => "Bool"
  | .char _ => "Char"
  | .string _ => "Text"

/-- A literal's value as diagnostics show it. -/
def payload : Literal → String
  | .int n => n.toInt.repr
  | .float x => x.describe
  | .bool true => "true"
  | .bool false => "false"
  | .char c => Text.quoted '\'' (String.singleton c)
  | .string s => Text.quoted '"' s

end Literal

namespace Token

/-- The name of a kind of token in diagnostics. -/
def kind : Token → String
  | .literal l => l.kind
  | .escape _ => "Escape"
  | .keyword k => k.kind
  | .type t => t.kind
  | .identifier _ => "Identifier"
  | .symbol s => s.kind
  | .lineBreak => "NewLine"

/-- A token as diagnostics show it: its kind, and what it holds in
    parentheses. -/
def describe (t : Token) : String :=
  match t with
  | .literal l => t.kind ++ "(" ++ l.payload ++ ")"
  | .escape c => t.kind ++ "(" ++ Text.quoted '\'' (String.singleton c) ++ ")"
  | .identifier name => t.kind ++ "(" ++ Text.quoted '"' name ++ ")"
  | _ => t.kind

end Token

end Primer
