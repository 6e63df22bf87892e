import Mathlib.Computability.Language
import Mathlib.Data.Bool.AllAny
import Primer.Lexeme

/-!
# The Lexical Rules

Which texts are lexemes, and what they mean. This is said here without a scanner, by one
rule for each kind of lexeme: a rule has a language, and it says which token a text of
that language is. Blanks and comments are lexemes too, but they are no tokens.

Some texts belong to two languages. The words of the language are written like
identifiers, and the names of the truth values like texts in quotes. There the rule with
the fewer texts is preferred, and `Rule.Beats` lists these cases. Which of two lexemes is
taken when one is longer is no matter of the rules: that is said where a text is cut.

Where a lexeme begins decides almost everything about it. The rules fall into eight
families, and no two of them share a first character. A proof about the lexemes at the
front of a text therefore has to look at one family only.

## Main definitions

* `Lexing.Rule`: The rules.
* `Lexing.Rule.language`: The texts of a rule.
* `Lexing.Rule.Beats`: Which rule is preferred for a text of two.
* `Lexing.Rule.token?`: The token that a text of a rule is.
* `Lexing.lexemes`: The texts of all rules.
* `Lexing.Family`, `Lexing.Rule.family`: The rules sorted by how their texts begin.
* `Lexing.familyOf?`: The family that begins with a character.

## Theorems

* `Lexing.mem_oneOf_kstar`, `Lexing.mem_run`: Repetition of a class of characters.
* `Lexing.Rule.opens_of_mem`: The first character of a text tells the family of its rule.
-/

namespace Primer

namespace Lexing

open scoped Computability

/-- The texts that consist of one character of a class. -/
def oneOf (p : Char → Prop) : Language Char :=
  {w | ∃ c, p c ∧ w = [c]}

/-- The one text that is given. -/
def exactly (text : String) : Language Char :=
  {text.toList}

/-- The texts of at least one character, all of a class. -/
def run (p : Char → Prop) : Language Char :=
  oneOf p * (oneOf p)∗

/-- The rules by which texts are lexemes. -/
inductive Rule where
  | real
  | integer
  | truth (value : Bool)
  | character
  | text
  | escape
  | symbol (sign : Symbol)
  | keyword (word : Keyword)
  | type (type : DataType)
  | identifier
  | comment
  | lineBreak
  | blanks
deriving DecidableEq

/-- The rules sorted by how their texts begin. -/
inductive Family where
  | number
  | word
  | quoted
  | character
  | escape
  | sign
  | comment
  | space
deriving DecidableEq

namespace Rule

/-- The texts of a rule. -/
def language : Rule → Language Char
  | .real => run (fun c => c.isDigit) * (exactly "." * run (fun c => c.isDigit))
  | .integer => run (fun c => c.isDigit)
  | .truth true => exactly "\"TRUE\""
  | .truth false => exactly "\"FALSE\""
  | .character => exactly "'" * (oneOf (fun c => c ≠ '\'' ∧ c ≠ '\n') * exactly "'")
  | .text => exactly "\"" * ((oneOf fun c => c ≠ '"' ∧ c ≠ '\n')∗ * exactly "\"")
  | .escape => exactly "[" * (oneOf (fun c => c ≠ '\n') * exactly "]")
  | .symbol sign => exactly sign.text
  | .keyword word => exactly word.word
  | .type t => exactly t.name
  | .identifier =>
      oneOf (fun c => c.isAlpha ∨ c = '_') * (oneOf fun c => c.isAlphanum ∨ c = '_')∗
  | .comment => exactly "#" * (oneOf fun c => c ≠ '\n')∗
  | .lineBreak => (1 + exactly "\r") * exactly "\n"
  | .blanks => run fun c => c = ' ' ∨ c = '\t' ∨ c = '\x0c' ∨ c = '\r'

/-- Which rule is preferred for a text of two: a fixed word is no identifier, and the
    name of a truth value is no text. -/
def Beats : Rule → Rule → Prop
  | .keyword _, .identifier => True
  | .type _, .identifier => True
  | .truth _, .text => True
  | _, _ => False

/-- The token that a text of a rule is. Comments and blanks are none. A whole number is
    given its value here whether or not it fits in 32 bits. -/
def token? (w : List Char) : Rule → Option Token
  | .real => (Binary32.ofText? (String.ofList w)).map fun x => .literal (.float x)
  | .integer => some (.literal (.int (Int32.ofNat (Nat.ofDigitChars 10 w 0))))
  | .truth value => some (.literal (.bool value))
  | .character => w[1]?.map fun c => .literal (.char c)
  | .text => some (.literal (.string (String.ofList (w.drop 1).dropLast)))
  | .escape => w[1]?.map .escape
  | .symbol sign => some (.symbol sign)
  | .keyword word => some (.keyword word)
  | .type t => some (.type t)
  | .identifier => some (.identifier (String.ofList w))
  | .comment => none
  | .lineBreak => some .lineBreak
  | .blanks => none

/-- The family of a rule. -/
def family : Rule → Family
  | .real => .number
  | .integer => .number
  | .truth _ => .quoted
  | .character => .character
  | .text => .quoted
  | .escape => .escape
  | .symbol _ => .sign
  | .keyword _ => .word
  | .type _ => .word
  | .identifier => .word
  | .comment => .comment
  | .lineBreak => .space
  | .blanks => .space

end Rule

/-- The texts of all rules. -/
def lexemes : Language Char :=
  {w | ∃ rule : Rule, w ∈ rule.language}

/-- The family whose texts begin with a character, if there is one. -/
def familyOf? (c : Char) : Option Family :=
  if c.isDigit then some .number
  else if c.isAlpha || c == '_' then some .word
  else if c = '"' then some .quoted
  else if c = '\'' then some .character
  else if c = '[' then some .escape
  else if c = '#' then some .comment
  else if c ∈ ['\n', ' ', '\t', '\x0c', '\r'] then some .space
  else if c ∈ "+-*/%&=<>(),:$".toList then some .sign
  else none

section Languages

variable {p : Char → Prop} {l : Language Char} {w : List Char}

theorem mem_exactly {text : String} : w ∈ exactly text ↔ w = text.toList :=
  Iff.rfl

theorem mem_oneOf_mul : w ∈ oneOf p * l ↔ ∃ c tail, p c ∧ tail ∈ l ∧ w = c :: tail := by
  rw [Language.mem_mul]
  constructor
  · rintro ⟨_, ⟨c, hc, rfl⟩, tail, htail, rfl⟩
    exact ⟨c, tail, hc, htail, rfl⟩
  · rintro ⟨c, tail, hc, htail, rfl⟩
    exact ⟨[c], ⟨c, hc, rfl⟩, tail, htail, rfl⟩

theorem mem_exactly_mul {text : String} :
    w ∈ exactly text * l ↔ ∃ tail ∈ l, w = text.toList ++ tail := by
  rw [Language.mem_mul]
  constructor
  · rintro ⟨_, rfl, tail, htail, rfl⟩
    exact ⟨tail, htail, rfl⟩
  · rintro ⟨tail, htail, rfl⟩
    exact ⟨text.toList, rfl, tail, htail, rfl⟩

theorem mem_oneOf_kstar : w ∈ (oneOf p)∗ ↔ ∀ c ∈ w, p c := by
  rw [Language.mem_kstar]
  constructor
  · rintro ⟨parts, rfl, hparts⟩ c hc
    rcases List.mem_flatten.mp hc with ⟨part, hpart, hcpart⟩
    rcases hparts part hpart with ⟨d, hd, rfl⟩
    rw [List.mem_singleton.mp hcpart]
    exact hd
  · -- A text is cut into its characters.
    intro h
    refine ⟨w.map fun c => [c], ?_, ?_⟩
    · rw [← List.flatMap_def, List.flatMap_singleton']
    · intro part hpart
      rcases List.mem_map.mp hpart with ⟨c, hc, rfl⟩
      exact ⟨c, h c hc, rfl⟩

theorem mem_run : w ∈ run p ↔ w ≠ [] ∧ ∀ c ∈ w, p c := by
  unfold run
  rw [mem_oneOf_mul]
  constructor
  · rintro ⟨c, tail, hc, htail, rfl⟩
    exact ⟨List.cons_ne_nil c tail, List.forall_mem_cons.mpr ⟨hc, mem_oneOf_kstar.mp htail⟩⟩
  · rintro ⟨hne, h⟩
    cases w with
    | nil => exact absurd rfl hne
    | cons c tail =>
        have hall := List.forall_mem_cons.mp h
        exact ⟨c, tail, hall.1, mem_oneOf_kstar.mpr hall.2, rfl⟩

theorem mem_lexemes : w ∈ lexemes ↔ ∃ rule : Rule, w ∈ rule.language :=
  Iff.rfl

end Languages

namespace Rule

variable {w : List Char}

theorem mem_integer : w ∈ language .integer ↔ w ≠ [] ∧ ∀ c ∈ w, c.isDigit :=
  mem_run

theorem mem_real :
    w ∈ language .real ↔
      ∃ whole fraction, whole ∈ language .integer ∧ fraction ∈ language .integer ∧
        w = whole ++ '.' :: fraction := by
  unfold language
  rw [Language.mem_mul]
  constructor
  · rintro ⟨whole, hwhole, _, hpoint, rfl⟩
    rcases mem_exactly_mul.mp hpoint with ⟨fraction, hfraction, rfl⟩
    exact ⟨whole, fraction, hwhole, hfraction, rfl⟩
  · rintro ⟨whole, fraction, hwhole, hfraction, rfl⟩
    exact ⟨whole, hwhole, _, mem_exactly_mul.mpr ⟨fraction, hfraction, rfl⟩, rfl⟩

theorem mem_character :
    w ∈ language .character ↔ ∃ c, c ≠ '\'' ∧ c ≠ '\n' ∧ w = ['\'', c, '\''] := by
  unfold language
  rw [mem_exactly_mul]
  constructor
  · rintro ⟨_, htail, rfl⟩
    rcases mem_oneOf_mul.mp htail with ⟨c, _, hc, rfl, rfl⟩
    exact ⟨c, hc.1, hc.2, rfl⟩
  · rintro ⟨c, hquote, hline, rfl⟩
    exact ⟨[c, '\''], mem_oneOf_mul.mpr ⟨c, _, ⟨hquote, hline⟩, mem_exactly.mpr rfl, rfl⟩, rfl⟩

theorem mem_escape : w ∈ language .escape ↔ ∃ c, c ≠ '\n' ∧ w = ['[', c, ']'] := by
  unfold language
  rw [mem_exactly_mul]
  constructor
  · rintro ⟨_, htail, rfl⟩
    rcases mem_oneOf_mul.mp htail with ⟨c, _, hc, rfl, rfl⟩
    exact ⟨c, hc, rfl⟩
  · rintro ⟨c, hc, rfl⟩
    exact ⟨[c, ']'], mem_oneOf_mul.mpr ⟨c, _, hc, mem_exactly.mpr rfl, rfl⟩, rfl⟩

theorem mem_text :
    w ∈ language .text ↔
      ∃ body : List Char, (∀ c ∈ body, c ≠ '"' ∧ c ≠ '\n') ∧ w = '"' :: (body ++ ['"']) := by
  unfold language
  rw [mem_exactly_mul]
  constructor
  · rintro ⟨_, htail, rfl⟩
    rcases Language.mem_mul.mp htail with ⟨body, hbody, _, rfl, rfl⟩
    exact ⟨body, mem_oneOf_kstar.mp hbody, rfl⟩
  · rintro ⟨body, hbody, rfl⟩
    exact ⟨body ++ ['"'], Language.append_mem_mul (mem_oneOf_kstar.mpr hbody) rfl, rfl⟩

theorem mem_identifier :
    w ∈ language .identifier ↔
      ∃ c tail, (c.isAlpha ∨ c = '_') ∧ (∀ d ∈ tail, d.isAlphanum ∨ d = '_') ∧
        w = c :: tail := by
  unfold language
  rw [mem_oneOf_mul]
  constructor
  · rintro ⟨c, tail, hc, htail, rfl⟩
    exact ⟨c, tail, hc, mem_oneOf_kstar.mp htail, rfl⟩
  · rintro ⟨c, tail, hc, htail, rfl⟩
    exact ⟨c, tail, hc, mem_oneOf_kstar.mpr htail, rfl⟩

theorem mem_comment :
    w ∈ language .comment ↔ ∃ tail : List Char, (∀ c ∈ tail, c ≠ '\n') ∧ w = '#' :: tail := by
  unfold language
  rw [mem_exactly_mul]
  constructor
  · rintro ⟨tail, htail, rfl⟩
    exact ⟨tail, mem_oneOf_kstar.mp htail, rfl⟩
  · rintro ⟨tail, htail, rfl⟩
    exact ⟨tail, mem_oneOf_kstar.mpr htail, rfl⟩

theorem mem_lineBreak : w ∈ language .lineBreak ↔ w = ['\n'] ∨ w = ['\r', '\n'] := by
  unfold language
  rw [Language.mem_mul]
  constructor
  · rintro ⟨_, hreturn, _, rfl, rfl⟩
    rcases hreturn with rfl | rfl
    · exact Or.inl rfl
    · exact Or.inr rfl
  · rintro (rfl | rfl)
    · exact ⟨[], Or.inl rfl, ['\n'], rfl, rfl⟩
    · exact ⟨['\r'], Or.inr rfl, ['\n'], rfl, rfl⟩

theorem mem_blanks :
    w ∈ language .blanks ↔
      w ≠ [] ∧ ∀ c ∈ w, c = ' ' ∨ c = '\t' ∨ c = '\x0c' ∨ c = '\r' :=
  mem_run

/-- The names of the truth values are written like texts. -/
theorem truth_le_text {b : Bool} (h : w ∈ language (.truth b)) : w ∈ language .text := by
  rw [mem_text]
  cases b with
  | true => exact ⟨"TRUE".toList, List.all_iff_forall_prop.mp (by decide), h⟩
  | false => exact ⟨"FALSE".toList, List.all_iff_forall_prop.mp (by decide), h⟩

/-- The keywords are written like identifiers. -/
theorem keyword_le_identifier {k : Keyword} (h : w ∈ language (.keyword k)) :
    w ∈ language .identifier := by
  rw [mem_identifier]
  rcases mem_exactly.mp h with rfl
  cases k <;> exact ⟨_, _, Or.inl rfl, List.all_iff_forall_prop.mp (by decide), rfl⟩

/-- So are the names of the types. -/
theorem type_le_identifier {t : DataType} (h : w ∈ language (.type t)) :
    w ∈ language .identifier := by
  rw [mem_identifier]
  rcases mem_exactly.mp h with rfl
  cases t <;> exact ⟨_, _, Or.inl rfl, List.all_iff_forall_prop.mp (by decide), rfl⟩

theorem familyOf?_of_letter {c : Char} (hc : c.isAlpha ∨ c = '_') :
    familyOf? c = some .word := by
  have hdigit : ¬ c.isDigit = true := by
    rcases hc with hc | rfl
    · intro hd
      -- The digits are before the letters.
      have hletter : (decide (65 ≤ c.val ∧ c.val ≤ 90) ||
          (decide (97 ≤ c.val) && decide (c.val ≤ 122))) = true := hc
      have hnumber : (decide (48 ≤ c.val) && decide (c.val ≤ 57)) = true := hd
      simp only [Bool.or_eq_true, Bool.and_eq_true, decide_eq_true_eq, UInt32.le_iff_toNat_le,
        UInt32.reduceToNat] at hletter hnumber
      omega
    · decide
  have hword : (c.isAlpha || c == '_') = true := by simpa using hc
  rw [familyOf?, if_neg hdigit, if_pos hword]

/-- A text of a rule is not empty, and its first character tells the family of the
    rule. -/
theorem opens_of_mem {rule : Rule} (h : w ∈ rule.language) :
    ∃ c tail, w = c :: tail ∧ familyOf? c = some rule.family := by
  have hdigits : ∀ {w : List Char}, w ∈ language .integer →
      ∃ c tail, w = c :: tail ∧ familyOf? c = some .number := by
    intro w hw
    rcases mem_integer.mp hw with ⟨hne, hall⟩
    cases w with
    | nil => exact absurd rfl hne
    | cons c tail => exact ⟨c, tail, rfl, if_pos (hall c List.mem_cons_self)⟩
  have hword : ∀ {w : List Char}, w ∈ language .identifier →
      ∃ c tail, w = c :: tail ∧ familyOf? c = some .word := by
    intro w hw
    rcases mem_identifier.mp hw with ⟨c, tail, hc, -, rfl⟩
    exact ⟨c, tail, rfl, familyOf?_of_letter hc⟩
  have hquoted : ∀ {w : List Char}, w ∈ language .text →
      ∃ c tail, w = c :: tail ∧ familyOf? c = some .quoted := by
    intro w hw
    rcases mem_text.mp hw with ⟨body, -, rfl⟩
    exact ⟨_, _, rfl, rfl⟩
  cases rule with
  | real =>
      rcases mem_real.mp h with ⟨whole, fraction, hwhole, -, rfl⟩
      rcases hdigits hwhole with ⟨c, tail, rfl, hc⟩
      exact ⟨c, _, rfl, hc⟩
  | integer => exact hdigits h
  | truth value => exact hquoted (truth_le_text h)
  | character =>
      rcases mem_character.mp h with ⟨c, -, -, rfl⟩
      exact ⟨_, _, rfl, rfl⟩
  | text => exact hquoted h
  | escape =>
      rcases mem_escape.mp h with ⟨c, -, rfl⟩
      exact ⟨_, _, rfl, rfl⟩
  | symbol sign =>
      rcases mem_exactly.mp h with rfl
      cases sign <;> exact ⟨_, _, rfl, rfl⟩
  | keyword word => exact hword (keyword_le_identifier h)
  | type type => exact hword (type_le_identifier h)
  | identifier => exact hword h
  | comment =>
      rcases mem_comment.mp h with ⟨tail, -, rfl⟩
      exact ⟨_, _, rfl, rfl⟩
  | lineBreak =>
      rcases mem_lineBreak.mp h with rfl | rfl
      · exact ⟨_, _, rfl, rfl⟩
      · exact ⟨_, _, rfl, rfl⟩
  | blanks =>
      rcases mem_blanks.mp h with ⟨hne, hall⟩
      cases w with
      | nil => exact absurd rfl hne
      | cons c tail =>
          have hc := hall c List.mem_cons_self
          exact ⟨c, tail, rfl, by rcases hc with rfl | rfl | rfl | rfl <;> rfl⟩

end Rule

end Lexing

end Primer
