import Primer.Proofs.Lexing.Rules

/-!
# Cutting by the Longest Lexeme

How a text is cut into lexemes: from the left, and each time as much is taken as any rule
allows. This fixes the cut. At the front of a text there is at most one longest lexeme,
and one rule that it is a lexeme by, so a text has exactly one cut; what is left when no
lexeme can be taken any more is a part of it.

A text that has something left is no source text. The diagnostic then shows what was read
before it became certain that there is no lexeme: the longest text at the front that some
lexeme begins with, or a single character if no lexeme begins like that.

## Main definitions

* `Lexing.Match`: A lexeme with its rule.
* `Lexing.Match.InRange`: A match that is no whole number beyond 32 bits.
* `Lexing.Match.Front`: The longest lexeme at the front of a text.
* `Lexing.Munched`: How a text is cut.
* `Lexing.Stray`: What is shown of a text that does not begin with a lexeme.
* `Lexing.textOf`: The text of a list of matches.

## Theorems

* `Lexing.Match.Front.unique`: There is one longest lexeme.
* `Lexing.Munched.unique`: There is one cut.
* `Lexing.Munched.append_eq`: The cut loses nothing.
-/

namespace Primer

namespace Lexing

/-- A lexeme, with the rule that it is one by. -/
structure Match where
  rule : Rule
  text : List Char
deriving DecidableEq

namespace Match

/-- The token that a match is. Comments and blanks are none. -/
def token? (m : Match) : Option Token :=
  m.rule.token? m.text

/-- A whole number fits in 32 bits. Other lexemes have no range to be in. -/
def InRange (m : Match) : Prop :=
  m.rule = .integer → Nat.ofDigitChars 10 m.text 0 ≤ 2147483647

instance (m : Match) : Decidable m.InRange :=
  inferInstanceAs (Decidable (m.rule = .integer → _))

/-- The text belongs to the rule, and no other rule is preferred for it. -/
structure Valid (m : Match) : Prop where
  mem : m.text ∈ m.rule.language
  preferred : ∀ rule : Rule, m.text ∈ rule.language → rule = m.rule ∨ m.rule.Beats rule

/-- The match is the longest lexeme at the front of a text. -/
structure Front (m : Match) (cs : List Char) : Prop extends m.Valid where
  ne_nil : m.text ≠ []
  isPrefix : m.text <+: cs
  longest : ∀ w ∈ lexemes, w <+: cs → w.length ≤ m.text.length

end Match

/-- The text of matches, in order. -/
def textOf (ms : List Match) : List Char :=
  ms.flatMap Match.text

/-- How a text is cut: into the longest lexemes, one after the other, and what is left
    when there is none. -/
inductive Munched : List Char → List Match → List Char → Prop where
  | stop {cs : List Char} (h : ∀ w ∈ lexemes, w <+: cs → w = []) : Munched cs [] cs
  | take {m : Match} {cs rest : List Char} {ms : List Match} (hm : m.Front (m.text ++ cs))
      (h : Munched cs ms rest) : Munched (m.text ++ cs) (m :: ms) rest

/-- A text that some lexeme begins with. -/
def Begins (w : List Char) : Prop :=
  ∃ l ∈ lexemes, w <+: l

/-- What is shown of a text that does not begin with a lexeme: as much as some lexeme
    begins with, and at least one character. -/
inductive Stray : List Char → List Char → Prop where
  | begun {shown cs : List Char} (hne : shown ≠ []) (hfront : shown <+: cs)
      (hbegins : Begins shown) (h : ∀ w, w <+: cs → Begins w → w.length ≤ shown.length) :
      Stray shown cs
  | single {c : Char} {cs : List Char} (h : ∀ w, w <+: c :: cs → Begins w → w = []) :
      Stray [c] (c :: cs)

@[simp]
theorem textOf_nil : textOf [] = [] :=
  rfl

@[simp]
theorem textOf_cons (m : Match) (ms : List Match) : textOf (m :: ms) = m.text ++ textOf ms :=
  rfl

@[simp]
theorem textOf_append (us vs : List Match) : textOf (us ++ vs) = textOf us ++ textOf vs :=
  List.flatMap_append

theorem ne_nil_of_mem_lexemes {w : List Char} (h : w ∈ lexemes) : w ≠ [] := by
  rcases mem_lexemes.mp h with ⟨rule, hw⟩
  rcases Rule.opens_of_mem hw with ⟨c, tail, rfl, -⟩
  exact List.cons_ne_nil c tail

/-- No two rules are preferred to one another. -/
theorem Rule.Beats.asymm {r r' : Rule} (h : r.Beats r') : ¬ r'.Beats r := by
  intro h'
  cases r <;> cases r' <;> first | exact h | exact h'

namespace Match

variable {m m' : Match} {cs : List Char}

theorem Valid.mem_lexemes (h : m.Valid) : m.text ∈ lexemes :=
  Lexing.mem_lexemes.mpr ⟨m.rule, h.mem⟩

theorem not_inRange :
    ¬ m.InRange ↔ m.rule = .integer ∧ 2147483647 < Nat.ofDigitChars 10 m.text 0 := by
  unfold InRange
  rw [Classical.not_imp, Nat.not_le]

/-- A text is a lexeme by one rule. -/
theorem Valid.rule_eq (h : m.Valid) (h' : m'.Valid) (htext : m.text = m'.text) :
    m.rule = m'.rule := by
  have hmem : m.text ∈ m'.rule.language := by rw [htext]; exact h'.mem
  have hmem' : m'.text ∈ m.rule.language := by rw [← htext]; exact h.mem
  rcases h.preferred m'.rule hmem with heq | hbeats
  · exact heq.symm
  · rcases h'.preferred m.rule hmem' with heq | hbeats'
    · exact heq
    · exact absurd hbeats' hbeats.asymm

theorem Front.unique (h : m.Front cs) (h' : m'.Front cs) : m = m' := by
  have hle := h'.longest m.text h.toValid.mem_lexemes h.isPrefix
  have hle' := h.longest m'.text h'.toValid.mem_lexemes h'.isPrefix
  have hfront := List.prefix_of_prefix_length_le h.isPrefix h'.isPrefix hle
  have htext : m.text = m'.text := hfront.eq_of_length (Nat.le_antisymm hle hle')
  have hrule := h.toValid.rule_eq h'.toValid htext
  cases m
  cases m'
  simp only at htext hrule
  rw [htext, hrule]

end Match

namespace Munched

variable {cs rest : List Char} {ms : List Match}

/-- The cut loses nothing. -/
theorem append_eq (h : Munched cs ms rest) : cs = textOf ms ++ rest := by
  induction h with
  | stop h => rfl
  | take hm h ih => rw [textOf_cons, List.append_assoc, ← ih]

theorem valid (h : Munched cs ms rest) : ∀ m ∈ ms, m.Valid := by
  induction h with
  | stop h => exact fun m hm => absurd hm List.not_mem_nil
  | take hm h ih => exact List.forall_mem_cons.mpr ⟨hm.toValid, ih⟩

/-- A text has one cut. -/
theorem unique (h : Munched cs ms rest) :
    ∀ {ms' rest'}, Munched cs ms' rest' → ms' = ms ∧ rest' = rest := by
  induction h with
  | stop hstop =>
      intro ms' rest' h'
      cases h' with
      | stop => exact ⟨rfl, rfl⟩
      | take hm' =>
          exact absurd (hstop _ hm'.toValid.mem_lexemes hm'.isPrefix) hm'.ne_nil
  | @take m cs rest ms hm hrest ih =>
      intro ms' rest' h'
      generalize htext : m.text ++ cs = text at h'
      cases h' with
      | stop hstop =>
          rw [← htext] at hstop
          exact absurd (hstop _ hm.toValid.mem_lexemes hm.isPrefix) hm.ne_nil
      | @take m' cs' rest' ms' hm' hrest' =>
          -- Both begin with the longest lexeme, and go on with the same text.
          rw [← htext] at hm'
          rcases hm.unique hm' with rfl
          rcases List.append_cancel_left htext with rfl
          rcases ih hrest' with ⟨rfl, rfl⟩
          exact ⟨rfl, rfl⟩

end Munched

end Lexing

end Primer
