import Primer.Proofs.Lexing.Cut

/-!
# What Closes a Lexeme

A lexeme ends where no longer one can be read. How far a reader has to look ahead to know
this is not obvious, since a lexeme can be the beginning of a much longer one: `1` is a lexeme,
and so is `1.25`, but `1.` is none. The point is the only exception. Whenever a lexeme goes on
to a longer one with another character, it is a lexeme with that character already
(`snoc_mem_lexemes`). So the character that follows a lexeme closes it or does not, whatever
comes behind that character.

Two things follow for a text that is changed behind a lexeme. If the next character stays,
the lexeme stays the longest one. And a token is closed by a blank and by the sign of a
comment, which only blanks and comments go on with.

## Main definitions

* `Lexing.Match.Closed`: No lexeme goes on from the match with the character.
* `Lexing.Match.IsGap`: The match is a comment or blanks.

## Theorems

* `Lexing.snoc_mem_lexemes`: Lexemes go on by single characters, except at a point.
* `Lexing.Match.Valid.front_of_closed`, `Lexing.Match.Front.closed`: The longest lexeme at
  the front of a text is closed by the character behind it, and this is enough.
* `Lexing.Match.Valid.closed_of_not_gap`: Layout closes what is no layout itself.
-/

namespace Primer

namespace Lexing

section Extension

variable {x tail w : List Char} {c : Char}

theorem snoc_isPrefix (x : List Char) (c : Char) (tail : List Char) :
    x ++ [c] <+: x ++ c :: tail :=
  (List.prefix_append_right_inj x).mpr ⟨tail, rfl⟩

/-- A lexeme of three characters does not go on from a shorter one. -/
theorem Encloses.not_extends {rule : Rule} {opening closing : Char} {p : Char → Prop}
    (h : Encloses rule opening closing p) (hx : x ∈ lexemes) :
    x ++ c :: tail ∉ rule.language := by
  intro hw
  rcases (h.mem_iff _).mp hw with ⟨y, -, hy⟩
  rcases mem_lexemes.mp hx with ⟨other, hother⟩
  have hfront : x <+: [opening, y, closing] := ⟨c :: tail, hy⟩
  -- The shorter one begins in the same way, so it is of the same rule and length.
  rw [h.alone other (familyOf?_of_front hother hfront)] at hother
  rcases (h.mem_iff _).mp hother with ⟨z, -, rfl⟩
  have hlength := congrArg List.length hy
  simp at hlength

/-- A text in quotes does not go on from a shorter one. -/
theorem text_not_extends (hx : x ∈ lexemes) : x ++ c :: tail ∉ Rule.language .text := by
  intro hw
  rcases Rule.mem_text.mp hw with ⟨body, hbody, hy⟩
  rcases mem_lexemes.mp hx with ⟨other, hother⟩
  have hfront : x <+: '"' :: (body ++ ['"']) := ⟨c :: tail, hy⟩
  have hfamily : some Family.quoted = some other.family := familyOf?_of_front hother hfront
  have hxtext := mem_text_of_family (Option.some.inj hfamily).symm hother
  rcases Rule.mem_text.mp hxtext with ⟨body', -, rfl⟩
  -- The quote that closes the shorter one would stand inside the longer one.
  have hrest : body' ++ '"' :: (c :: tail) = body ++ ['"'] := by simpa using hy
  have hbefore : body' ++ '"' :: (c :: tail).dropLast = body := by
    have hlast := congrArg List.dropLast hrest
    simpa [List.dropLast_append_of_ne_nil] using hlast
  exact (hbody '"' (hbefore ▸ List.mem_append_right _ List.mem_cons_self)).1 rfl

/-- A number that goes on from some text goes on by single digits, or with its point. -/
theorem snoc_of_real (hw : x ++ c :: tail ∈ Rule.language .real) :
    c = '.' ∨ x ++ [c] ∈ lexemes := by
  rcases Rule.mem_real.mp hw with ⟨whole, fraction, hwhole, hfraction, heq⟩
  rcases List.append_eq_append_iff.mp heq with ⟨rest, rfl, hrest⟩ | ⟨rest, rfl, hrest⟩
  · -- The text ends within the whole part or right behind it.
    cases rest with
    | nil => exact .inl (List.cons.inj hrest).1
    | cons d rest =>
        rcases List.cons.inj hrest with ⟨rfl, -⟩
        refine .inr (mem_lexemes.mpr ⟨.integer, Rule.mem_integer.mpr ⟨by simp, fun e he => ?_⟩⟩)
        exact (Rule.mem_integer.mp hwhole).2 e ((snoc_isPrefix x c rest).subset he)
  · cases rest with
    | nil => exact .inl (List.cons.inj hrest).1.symm
    | cons d rest =>
        -- The text ends within the fraction.
        rcases List.cons.inj hrest with ⟨rfl, rfl⟩
        have hdigits : rest ++ [c] ∈ Rule.language .integer := by
          refine Rule.mem_integer.mpr ⟨by simp, fun e he => ?_⟩
          exact (Rule.mem_integer.mp hfraction).2 e ((snoc_isPrefix rest c tail).subset he)
        refine .inr (mem_lexemes.mpr ⟨.real, Rule.mem_real.mpr ⟨whole, _, hwhole, hdigits, ?_⟩⟩)
        rw [List.append_assoc, List.cons_append]

/-- A lexeme that goes on from another one has all lexemes in between, one for each
    character, unless it goes on with a point. -/
theorem snoc_mem_lexemes (hx : x ∈ lexemes) (h : x ++ c :: tail ∈ lexemes) :
    c = '.' ∨ x ++ [c] ∈ lexemes := by
  have hne := ne_nil_of_mem_lexemes hx
  have hmem : ∀ {rule : Rule}, x ++ [c] ∈ rule.language → c = '.' ∨ x ++ [c] ∈ lexemes :=
    fun hrule => .inr (mem_lexemes.mpr ⟨_, hrule⟩)
  have hsub : ∀ zs : List Char, zs ++ [c] ⊆ zs ++ c :: tail := fun zs =>
    (snoc_isPrefix zs c tail).subset
  have hword : x ++ c :: tail ∈ Rule.language .identifier → c = '.' ∨ x ++ [c] ∈ lexemes := by
    intro hw
    rcases Rule.mem_identifier.mp hw with ⟨d, rest, hd, hrest, heq⟩
    cases x with
    | nil => exact absurd rfl hne
    | cons e x =>
        rcases List.cons.inj heq with ⟨rfl, rfl⟩
        exact hmem (Rule.mem_identifier.mpr
          ⟨e, x ++ [c], hd, fun d hd => hrest d (hsub x hd), rfl⟩)
  -- A lexeme of two characters has nothing left behind the second one.
  have hshort : (x ++ c :: tail).length ≤ 2 → c = '.' ∨ x ++ [c] ∈ lexemes := by
    intro hlength
    have hpos := List.length_pos_of_ne_nil hne
    have htail : tail = [] := by
      rw [List.length_append, List.length_cons] at hlength
      exact List.eq_nil_of_length_eq_zero (by omega)
    rw [htail] at h
    exact .inr h
  rcases mem_lexemes.mp h with ⟨rule, hw⟩
  cases rule with
  | real => exact snoc_of_real hw
  | integer =>
      have hdigits := (Rule.mem_integer.mp hw).2
      exact hmem (Rule.mem_integer.mpr ⟨by simp, fun d hd => hdigits d (hsub x hd)⟩)
  | truth b => exact absurd (Rule.truth_le_text hw) (text_not_extends hx)
  | character => exact absurd hw (character_encloses.not_extends hx)
  | text => exact absurd hw (text_not_extends hx)
  | escape => exact absurd hw (escape_encloses.not_extends hx)
  | symbol sign =>
      refine hshort ?_
      rw [mem_exactly.mp hw]
      cases sign <;> decide
  | keyword k => exact hword (Rule.keyword_le_identifier hw)
  | type t => exact hword (Rule.type_le_identifier hw)
  | identifier => exact hword hw
  | comment =>
      rcases Rule.mem_comment.mp hw with ⟨rest, hrest, heq⟩
      cases x with
      | nil => exact absurd rfl hne
      | cons e x =>
          rcases List.cons.inj heq with ⟨rfl, rfl⟩
          exact hmem (Rule.mem_comment.mpr ⟨x ++ [c], fun d hd => hrest d (hsub x hd), rfl⟩)
  | lineBreak =>
      refine hshort ?_
      rcases Rule.mem_lineBreak.mp hw with heq | heq <;> rw [heq] <;> decide
  | blanks =>
      have hblanks := (Rule.mem_blanks.mp hw).2
      exact hmem (Rule.mem_blanks.mpr ⟨by simp, fun d hd => hblanks d (hsub x hd)⟩)

/-- A lexeme that ends in a blank or the sign of a comment is a comment or blanks. -/
theorem Rule.gap_of_last {rule : Rule} (hw : x ++ [c] ∈ rule.language)
    (hc : c = ' ' ∨ c = '\t' ∨ c = '\x0c' ∨ c = '#') : rule = .comment ∨ rule = .blanks := by
  have hlast : c ∈ x ++ [c] := List.mem_append_right _ List.mem_cons_self
  have hdigits : ∀ {v : List Char}, v ∈ Rule.language .integer → c ∉ v := by
    intro v hv hmem
    have hdigit := (Rule.mem_integer.mp hv).2 c hmem
    rcases hc with rfl | rfl | rfl | rfl <;> exact absurd hdigit (by decide)
  have hword : x ++ [c] ∉ Rule.language .identifier := by
    intro hv
    rcases Rule.mem_identifier.mp hv with ⟨d, rest, hd, hrest, heq⟩
    rw [heq] at hlast
    rcases List.mem_cons.mp hlast with rfl | hmem
    · rcases hc with rfl | rfl | rfl | rfl <;> exact absurd hd (by decide)
    · have hpart := hrest c hmem
      rcases hc with rfl | rfl | rfl | rfl <;> exact absurd hpart (by decide)
  -- What stands between two fixed characters ends in the second one.
  have hends : ∀ {v : List Char} {d : Char}, x ++ [c] = v ++ [d] → c = d := fun heq =>
    (List.cons.inj (List.append_inj_right' heq rfl)).1
  have htext : x ++ [c] ∉ Rule.language .text := by
    intro hv
    rcases Rule.mem_text.mp hv with ⟨body, -, heq⟩
    have hcd := hends (heq.trans (List.cons_append ..).symm)
    rcases hc with rfl | rfl | rfl | rfl <;> exact absurd hcd (by decide)
  cases rule with
  | comment => exact .inl rfl
  | blanks => exact .inr rfl
  | real =>
      rcases Rule.mem_real.mp hw with ⟨whole, fraction, hwhole, hfraction, heq⟩
      rw [heq] at hlast
      rcases List.mem_append.mp hlast with hmem | hmem
      · exact absurd hmem (hdigits hwhole)
      · rcases List.mem_cons.mp hmem with rfl | hmem
        · exact absurd hc (by decide)
        · exact absurd hmem (hdigits hfraction)
  | integer => exact absurd hlast (hdigits hw)
  | truth b => exact absurd (Rule.truth_le_text hw) htext
  | text => exact absurd hw htext
  | character =>
      rcases Rule.mem_character.mp hw with ⟨d, -, -, heq⟩
      have hcd : c = '\'' := hends (v := ['\'', d]) heq
      exact absurd hc (by rw [hcd]; decide)
  | escape =>
      rcases Rule.mem_escape.mp hw with ⟨d, -, heq⟩
      have hcd : c = ']' := hends (v := ['[', d]) heq
      exact absurd hc (by rw [hcd]; decide)
  | symbol sign =>
      rw [mem_exactly.mp hw] at hlast
      rcases hc with rfl | rfl | rfl | rfl <;> revert hlast <;> cases sign <;> decide
  | keyword k => exact absurd (Rule.keyword_le_identifier hw) hword
  | type t => exact absurd (Rule.type_le_identifier hw) hword
  | identifier => exact absurd hw hword
  | lineBreak =>
      have hfeed : c = '\n' := by
        rcases Rule.mem_lineBreak.mp hw with heq | heq
        · exact hends (v := []) heq
        · exact hends (v := ['\r']) heq
      exact absurd hc (by rw [hfeed]; decide)

end Extension

namespace Match

variable {m : Match} {c : Char} {rest : List Char}

/-- No lexeme goes on from the match with the character. -/
def Closed (m : Match) (c : Char) : Prop :=
  c ≠ '.' ∧ m.text ++ [c] ∉ lexemes

/-- A match that is closed by what follows is the longest lexeme at the front. -/
theorem Valid.front_of_closed (h : m.Valid) (hclosed : ∀ c ∈ rest.head?, m.Closed c) :
    m.Front (m.text ++ rest) := by
  refine ⟨h, ne_nil_of_mem_lexemes h.mem_lexemes, List.prefix_append _ _, ?_⟩
  intro w hw hfront
  by_contra hlt
  have hlonger := List.prefix_of_prefix_length_le (List.prefix_append m.text rest) hfront
    (by omega)
  rcases hlonger with ⟨more, rfl⟩
  cases more with
  | nil => exact hlt (by rw [List.append_nil])
  | cons c tail =>
      -- The longer lexeme goes on with the first character of what follows.
      rcases (List.prefix_append_right_inj m.text).mp hfront with ⟨_, rfl⟩
      have hc := hclosed c rfl
      exact (snoc_mem_lexemes h.mem_lexemes hw).elim hc.1 hc.2

theorem Front.closed (h : m.Front (m.text ++ c :: rest)) (hc : c ≠ '.') : m.Closed c := by
  refine ⟨hc, fun hmem => ?_⟩
  have hle := h.longest _ hmem (snoc_isPrefix m.text c rest)
  rw [List.length_append, List.length_singleton] at hle
  omega

/-- The match is layout: a comment or blanks. -/
def IsGap (m : Match) : Prop :=
  m.rule = .comment ∨ m.rule = .blanks

/-- Layout closes every lexeme that is no layout itself. -/
theorem Valid.closed_of_not_gap (h : m.Valid) (hgap : ¬ m.IsGap)
    (hc : c = ' ' ∨ c = '\t' ∨ c = '\x0c' ∨ c = '#') : m.Closed c := by
  refine ⟨by rcases hc with rfl | rfl | rfl | rfl <;> decide, fun hmem => hgap ?_⟩
  rcases Lexing.mem_lexemes.mp hmem with ⟨rule, hw⟩
  -- The two lexemes begin in the same way, so they are of one family.
  have hfamily : m.rule.family = rule.family := by
    rcases Rule.opens_of_mem h.mem with ⟨d, tail, htext, hd⟩
    have hd' : familyOf? d = some rule.family :=
      familyOf?_of_front hw (by rw [htext, List.cons_append])
    exact Option.some.inj (hd.symm.trans hd')
  rcases Rule.gap_of_last hw hc with rfl | rfl
  · refine .inl ?_
    cases hrule : m.rule <;> rw [hrule] at hfamily <;> first | rfl | cases hfamily
  · refine .inr ?_
    by_contra hrule
    have hbreak : m.rule = .lineBreak := by
      cases hother : m.rule <;> rw [hother] at hfamily hrule <;>
        first | rfl | exact absurd rfl hrule | cases hfamily
    have hfeed : '\n' ∈ m.text := by
      have hmem := h.mem
      rw [hbreak] at hmem
      rcases Rule.mem_lineBreak.mp hmem with htext | htext <;> rw [htext] <;> decide
    exact absurd ((Rule.mem_blanks.mp hw).2 '\n' (List.mem_append_left _ hfeed)) (by decide)

end Match

end Lexing

end Primer
