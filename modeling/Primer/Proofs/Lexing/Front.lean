import Primer.Proofs.Lexing.Munch

/-!
# The Front of a Text

What it takes to know the longest lexeme at the front of a text.

The first character decides on the family of rules that can apply, and only the lexemes
of this family have to be compared. Within a family there are two facts to compare with. A
text of a class of characters that stands at the front is no longer than what `takeWhile`
takes. And where such a text is followed by a character outside the class, it is just that.

Lexemes that are a character between two fixed ones, such as a character in quotes, are
treated once for all such rules.

## Main definitions

* `Lexing.Tells`: What a piece says of the front of a text is true.
* `Lexing.Encloses`: A rule whose texts are a character between two fixed ones.

## Theorems

* `Lexing.length_le_takeWhile`, `Lexing.eq_takeWhile_of_append`: Classes of characters at
  the front of a text.
* `Lexing.Match.valid_of_family`, `Lexing.Match.front_of_family`,
  `Lexing.no_lexeme_of_family`, `Lexing.Begins.exists_rule`: One family is enough.
* `Lexing.Encloses.token_tells`, `Lexing.Encloses.opening_tells`,
  `Lexing.Encloses.inner_tells`: A character between two fixed ones, complete or not.
-/

namespace Primer

namespace Lexing

section Classes

variable {α : Type} {p : α → Bool} {w cs a b : List α} {x : α}

/-- A text of a class at the front is no longer than all of the class that is there. -/
theorem length_le_takeWhile (h : w <+: cs) (hw : ∀ y ∈ w, p y) :
    w.length ≤ (cs.takeWhile p).length := by
  rcases h with ⟨tail, rfl⟩
  rw [List.takeWhile_append_of_pos hw, List.length_append]
  omega

/-- A text of a class that is followed by something else is all of the class that is
    there. -/
theorem eq_takeWhile_of_append (h : a ++ x :: b <+: cs) (ha : ∀ y ∈ a, p y)
    (hx : ¬ p x = true) : a = cs.takeWhile p ∧ x :: b <+: cs.dropWhile p := by
  rcases h with ⟨tail, rfl⟩
  rw [List.append_assoc, List.cons_append]
  constructor
  · rw [List.takeWhile_append_of_pos ha, List.takeWhile_cons_of_neg hx, List.append_nil]
  · rw [List.dropWhile_append_of_pos ha, List.dropWhile_cons_of_neg hx]
    exact ⟨tail, rfl⟩

end Classes

/-- What a piece says of the front of a text is true. -/
def Tells (cs : List Char) : Piece → Prop
  | .token t more =>
      ∃ m : Match, m.Front cs ∧ m.InRange ∧ m.token? = some t ∧ m.text.length = more + 1
  | .gap more => ∃ m : Match, m.Front cs ∧ m.InRange ∧ m.token? = none ∧ m.text.length = more + 1
  | .tooLarge digits => ∃ m : Match, m.Front cs ∧ ¬ m.InRange ∧ m.text = digits
  | .unrecognized text => (∀ w ∈ lexemes, w <+: cs → w = []) ∧ Stray text cs

section Families

variable {c : Char} {cs w : List Char} {m : Match} {rule : Rule}

theorem familyOf?_of_front (hw : w ∈ rule.language) (h : w <+: c :: cs) :
    familyOf? c = some rule.family := by
  rcases Rule.opens_of_mem hw with ⟨d, tail, rfl, hd⟩
  rw [← (List.cons_prefix_cons.mp h).1]
  exact hd

/-- A lexeme competes with the rules of its own family only. -/
theorem Match.valid_of_family (hmem : m.text ∈ m.rule.language)
    (h : ∀ rule : Rule, rule.family = m.rule.family → m.text ∈ rule.language →
      rule = m.rule ∨ m.rule.Beats rule) : m.Valid := by
  refine ⟨hmem, fun rule hrule => h rule ?_ hrule⟩
  rcases Rule.opens_of_mem hmem with ⟨c, tail, htext, hc⟩
  have hc' := familyOf?_of_front hrule (by rw [htext])
  rw [hc'] at hc
  exact Option.some.inj hc

/-- So does the longest lexeme at the front of a text. -/
theorem Match.front_of_family (hvalid : m.Valid) (hfront : m.text <+: c :: cs)
    (h : ∀ rule : Rule, rule.family = m.rule.family → ∀ w ∈ rule.language, w <+: c :: cs →
      w.length ≤ m.text.length) : m.Front (c :: cs) := by
  refine ⟨hvalid, ne_nil_of_mem_lexemes hvalid.mem_lexemes, hfront, ?_⟩
  intro w hw hstart
  rcases mem_lexemes.mp hw with ⟨rule, hrule⟩
  have hc := familyOf?_of_front hvalid.mem hfront
  rw [familyOf?_of_front hrule hstart] at hc
  exact h rule (Option.some.inj hc) w hrule hstart

/-- To find no lexeme at the front of a text, it is enough to look at one family. -/
theorem no_lexeme_of_family (h : ∀ rule : Rule, familyOf? c = some rule.family →
    ∀ w ∈ rule.language, ¬ w <+: c :: cs) : ∀ w ∈ lexemes, w <+: c :: cs → w = [] := by
  intro w hw hstart
  rcases mem_lexemes.mp hw with ⟨rule, hrule⟩
  exact absurd hstart (h rule (familyOf?_of_front hrule hstart) w hrule)

/-- What begins a lexeme and stands at the front of a text begins a lexeme of the family
    of the first character. -/
theorem Begins.exists_rule (hbegins : Begins w) (hne : w ≠ []) (h : w <+: c :: cs) :
    ∃ (rule : Rule) (l : List Char), l ∈ rule.language ∧ w <+: l ∧
      familyOf? c = some rule.family := by
  rcases hbegins with ⟨l, hl, hwl⟩
  rcases mem_lexemes.mp hl with ⟨rule, hrule⟩
  rcases Rule.opens_of_mem hrule with ⟨d, ltail, rfl, hd⟩
  refine ⟨rule, _, hrule, hwl, ?_⟩
  cases w with
  | nil => exact absurd rfl hne
  | cons e tail =>
      rw [← (List.cons_prefix_cons.mp h).1, (List.cons_prefix_cons.mp hwl).1]
      exact hd

end Families

/-- The texts of a rule are a character of a class between two fixed ones, and no other
    rule has texts that begin with the first of these. -/
structure Encloses (rule : Rule) (opening closing : Char) (p : Char → Prop) : Prop where
  mem_iff : ∀ w, w ∈ rule.language ↔ ∃ x, p x ∧ w = [opening, x, closing]
  alone : ∀ other : Rule, familyOf? opening = some other.family → other = rule

namespace Encloses

variable {rule : Rule} {opening closing x : Char} {p : Char → Prop} {cs w : List Char}

/-- What begins a lexeme behind the opening character is a part of such a text. -/
theorem exists_of_begins (h : Encloses rule opening closing p) (hne : w ≠ [])
    (hstart : w <+: opening :: cs) (hbegins : Begins w) :
    ∃ y, p y ∧ w <+: [opening, y, closing] := by
  rcases hbegins.exists_rule hne hstart with ⟨other, l, hl, hwl, hother⟩
  rw [h.alone other hother] at hl
  rcases (h.mem_iff l).mp hl with ⟨y, hy, rfl⟩
  exact ⟨y, hy, hwl⟩

/-- No such text stands at the front if the two characters that follow do not fit. -/
theorem no_lexeme (h : Encloses rule opening closing p)
    (hno : ∀ y, p y → ¬ [y, closing] <+: cs) :
    ∀ w ∈ lexemes, w <+: opening :: cs → w = [] := by
  refine no_lexeme_of_family fun other hother w hw hstart => ?_
  rw [h.alone other hother] at hw
  rcases (h.mem_iff w).mp hw with ⟨y, hy, rfl⟩
  exact hno y hy (List.cons_prefix_cons.mp hstart).2

theorem token_tells (h : Encloses rule opening closing p) (hx : p x) {t : Token}
    (htoken : rule.token? [opening, x, closing] = some t) (hrule : rule ≠ .integer) :
    Tells (opening :: x :: closing :: cs) (.token t 2) := by
  have hmem : [opening, x, closing] ∈ rule.language := (h.mem_iff _).mpr ⟨x, hx, rfl⟩
  have hsame : ∀ other : Rule, other.family = rule.family → other = rule := by
    intro other hfamily
    apply h.alone
    rw [hfamily]
    exact familyOf?_of_front hmem (List.prefix_refl _)
  refine ⟨⟨rule, [opening, x, closing]⟩, ?_, fun hinteger => absurd hinteger hrule, htoken, rfl⟩
  refine Match.front_of_family (Match.valid_of_family hmem fun other hfamily _ =>
    Or.inl (hsame other hfamily)) ⟨cs, rfl⟩ fun other hfamily w hw _ => ?_
  -- All texts of the rule are of one length.
  rw [hsame other hfamily] at hw
  rcases (h.mem_iff w).mp hw with ⟨y, -, rfl⟩
  exact Nat.le_refl 3

/-- The character that follows is not of the class, or there is none. -/
theorem opening_tells (h : Encloses rule opening closing p) (hex : ∃ y, p y)
    (hhead : ∀ y ∈ cs.head?, ¬ p y) : Tells (opening :: cs) (.unrecognized [opening]) := by
  have hsecond : ∀ y tail, p y → ¬ y :: tail <+: cs := by
    rintro y tail hy ⟨rest, rfl⟩
    exact hhead y rfl hy
  refine ⟨h.no_lexeme fun y hy => hsecond y _ hy, ?_⟩
  refine Stray.begun (List.cons_ne_nil _ _) ⟨cs, rfl⟩ ?_ fun w hstart hbegins => ?_
  · rcases hex with ⟨y, hy⟩
    exact ⟨_, mem_lexemes.mpr ⟨rule, (h.mem_iff _).mpr ⟨y, hy, rfl⟩⟩, ⟨[y, closing], rfl⟩⟩
  · match w with
    | [] => exact Nat.zero_le _
    | [_] => exact Nat.le_refl _
    | d :: e :: tail =>
        rcases h.exists_of_begins (List.cons_ne_nil _ _) hstart hbegins with ⟨y, hy, hwl⟩
        have he := (List.cons_prefix_cons.mp (List.cons_prefix_cons.mp hwl).2).1
        rw [← he] at hy
        exact absurd (List.cons_prefix_cons.mp hstart).2 (hsecond e tail hy)

/-- The character that follows is of the class, but it is not closed. -/
theorem inner_tells (h : Encloses rule opening closing p) (hx : p x)
    (hhead : cs.head? ≠ some closing) :
    Tells (opening :: x :: cs) (.unrecognized [opening, x]) := by
  have hopen : ∀ y, ¬ [y, closing] <+: x :: cs := by
    rintro y hstart
    rcases (List.cons_prefix_cons.mp hstart).2 with ⟨rest, rfl⟩
    exact hhead rfl
  refine ⟨h.no_lexeme fun y _ => hopen y, ?_⟩
  refine Stray.begun (List.cons_ne_nil _ _) ⟨cs, rfl⟩ ?_ fun w hstart hbegins => ?_
  · exact ⟨_, mem_lexemes.mpr ⟨rule, (h.mem_iff _).mpr ⟨x, hx, rfl⟩⟩, ⟨[closing], rfl⟩⟩
  · by_cases hne : w = []
    · rw [hne]
      exact Nat.zero_le _
    · rcases h.exists_of_begins hne hstart hbegins with ⟨y, hy, hwl⟩
      -- A part of the lexeme is shorter, and the whole of it does not stand there.
      have hwl' : w <+: [opening, y] ++ [closing] := hwl
      rcases List.prefix_concat_iff.mp hwl' with rfl | hpart
      · exact absurd (List.cons_prefix_cons.mp hstart).2 (hopen y)
      · exact hpart.length_le

end Encloses

end Lexing

end Primer
