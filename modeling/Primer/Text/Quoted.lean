import Primer.Text.Coded

/-!
# Quoted Text

How a diagnostic shows a character or a text that stood in a program: between
quotes, with the quote itself, the backslash and a few controls behind a
backslash, and other characters that would not be seen as their code.

## Main definitions

* `Text.shown`: One character inside quotes.
* `Text.quoted`: A text between quotes.
-/

namespace Primer

namespace Text

/-- A character as its code. -/
def codeText (c : Char) : String :=
  "\\u\x7b" ++ String.ofList (Nat.toDigits 16 c.toNat) ++ "\x7d"

/-- One character inside the given quotes. -/
def shown (quote c : Char) : String :=
  if c = quote then String.ofList ['\\', c]
  else
    match c with
    | '\x00' => "\\0"
    | '\t' => "\\t"
    | '\r' => "\\r"
    | '\n' => "\\n"
    | '\\' => "\\\\"
    | _ => if isCoded c then codeText c else String.singleton c

/-- A text between the given quotes. -/
def quoted (quote : Char) (text : String) : String :=
  String.singleton quote ++ String.join (text.toList.map (shown quote)) ++ String.singleton quote

end Text

end Primer
