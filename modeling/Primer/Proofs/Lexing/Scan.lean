import Mathlib.Data.List.TakeWhile
import Primer.Proofs.Decimal
import Primer.Proofs.Lexing.Front
import Primer.Proofs.Vocabulary

/-!
# The Scanner Takes the Longest Lexeme

What `Piece.scan` says about the front of a text is true: it names the longest lexeme
there, or says rightly that there is none. There is one statement for each branch of the
scanner, and each of them compares what the branch takes with the lexemes of one family.

A single quote and a bracket are treated alike, and so are the two forms of a line break.

## Theorems

* `Lexing.scanNumber_tells`, `Lexing.scanWord_tells`, `Lexing.scanText_tells`,
  `Lexing.scanChar_tells`, `Lexing.scanEscape_tells`, `Lexing.comment_tells`,
  `Lexing.lineBreak_tells`, `Lexing.blanks_tells`, `Lexing.symbol_tells`,
  `Lexing.stray_tells`: The branches of the scanner.
* `Lexing.scan_tells`: The scanner.
-/

namespace Primer

namespace Lexing

section Numbers

variable {c : Char} {cs w : List Char}

/-- A number with a point at the front of a text is no longer than the digits in front of
    the point, the point and the digits behind it. -/
theorem exists_of_real_at_front (hw : w ∈ Rule.language .real) (h : w <+: cs) :
    ∃ d rest, cs.dropWhile Char.isDigit = '.' :: d :: rest ∧ d.isDigit = true ∧
      w.length ≤ (cs.takeWhile Char.isDigit).length + 1
        + ((d :: rest).takeWhile Char.isDigit).length := by
  rcases Rule.mem_real.mp hw with ⟨whole, fraction, hwhole, hfraction, rfl⟩
  rcases eq_takeWhile_of_append h (Rule.mem_integer.mp hwhole).2 (by decide) with ⟨hwhole', hpoint⟩
  rcases Rule.mem_integer.mp hfraction with ⟨hne, hdigits⟩
  rcases hpoint with ⟨tail, hdrop⟩
  cases fraction with
  | nil => exact absurd rfl hne
  | cons d fraction =>
      refine ⟨d, fraction ++ tail, hdrop.symm, hdigits d List.mem_cons_self, ?_⟩
      have hle := length_le_takeWhile (List.prefix_append (d :: fraction) tail) hdigits
      rw [List.length_append, List.length_cons, ← hwhole']
      simp only [List.cons_append] at hle
      omega

theorem integer_valid (hw : w ∈ Rule.language .integer) : (Match.mk .integer w).Valid := by
  refine Match.valid_of_family hw fun rule hfamily hrule => ?_
  cases rule with
  | integer => exact Or.inl rfl
  | real =>
      -- Digits alone have no point among them.
      rcases Rule.mem_real.mp hrule with ⟨whole, fraction, -, -, htext⟩
      have hpoint : '.' ∈ w := by
        rw [show w = whole ++ '.' :: fraction from htext]
        exact List.mem_append_right _ List.mem_cons_self
      exact absurd ((Rule.mem_integer.mp hw).2 '.' hpoint) (by decide)
  | _ => cases hfamily

theorem real_valid (hw : w ∈ Rule.language .real) : (Match.mk .real w).Valid := by
  refine Match.valid_of_family hw fun rule hfamily hrule => ?_
  cases rule with
  | integer =>
      rcases Rule.mem_real.mp hw with ⟨whole, fraction, -, -, rfl⟩
      have hpoint := (Rule.mem_integer.mp hrule).2 '.'
        (List.mem_append_right _ List.mem_cons_self)
      exact absurd hpoint (by decide)
  | real => exact Or.inl rfl
  | _ => cases hfamily

/-- Digits are a whole number unless there is a number with a point. -/
theorem scanInt_tells (hc : c.isDigit = true)
    (hreal : ∀ w ∈ Rule.language .real, ¬ w <+: c :: cs) :
    Tells (c :: cs) (Piece.scanNumber.scanInt (c :: cs.takeWhile Char.isDigit)) := by
  have htake : c :: cs.takeWhile Char.isDigit = (c :: cs).takeWhile Char.isDigit :=
    (List.takeWhile_cons_of_pos hc).symm
  have hmem : c :: cs.takeWhile Char.isDigit ∈ Rule.language .integer := by
    refine Rule.mem_integer.mpr ⟨List.cons_ne_nil _ _, ?_⟩
    rw [htake]
    exact fun d hd => List.mem_takeWhile_imp hd
  have hfront : (Match.mk .integer (c :: cs.takeWhile Char.isDigit)).Front (c :: cs) := by
    refine Match.front_of_family (integer_valid hmem) ?_ fun rule hfamily w hw hstart => ?_
    · rw [htake]
      exact List.takeWhile_prefix _
    · cases rule with
      | integer =>
          rw [htake]
          exact length_le_takeWhile hstart (Rule.mem_integer.mp hw).2
      | real => exact absurd hstart (hreal w hw)
      | _ => cases hfamily
  unfold Piece.scanNumber.scanInt
  simp only
  by_cases hrange : Nat.ofDigitChars 10 (c :: cs.takeWhile Char.isDigit) 0 < 0x80000000
  · rw [if_pos hrange]
    exact ⟨_, hfront, fun _ => Nat.le_of_lt_succ hrange, rfl, rfl⟩
  · rw [if_neg hrange]
    exact ⟨_, hfront, fun hin => hrange (Nat.lt_succ_of_le (hin rfl)), rfl⟩

theorem scanNumber_tells (hc : c.isDigit = true) : Tells (c :: cs) (Piece.scanNumber c cs) := by
  have htake : (c :: cs).takeWhile Char.isDigit = c :: cs.takeWhile Char.isDigit :=
    List.takeWhile_cons_of_pos hc
  have hdrop : (c :: cs).dropWhile Char.isDigit = cs.dropWhile Char.isDigit :=
    List.dropWhile_cons_of_pos hc
  unfold Piece.scanNumber
  simp only
  split
  · next d rest hrest =>
    by_cases hd : d.isDigit
    · rw [if_pos hd]
      have htake' : (d :: rest).takeWhile Char.isDigit = d :: rest.takeWhile Char.isDigit :=
        List.takeWhile_cons_of_pos hd
      set whole := c :: cs.takeWhile Char.isDigit with hwhole
      set fraction := d :: rest.takeWhile Char.isDigit with hfraction
      have hwhole' : whole ∈ Rule.language .integer := by
        refine Rule.mem_integer.mpr ⟨List.cons_ne_nil _ _, ?_⟩
        rw [← htake]
        exact fun e he => List.mem_takeWhile_imp he
      have hfraction' : fraction ∈ Rule.language .integer := by
        refine Rule.mem_integer.mpr ⟨List.cons_ne_nil _ _, ?_⟩
        rw [← htake']
        exact fun e he => List.mem_takeWhile_imp he
      have hmem : whole ++ '.' :: fraction ∈ Rule.language .real :=
        Rule.mem_real.mpr ⟨whole, fraction, hwhole', hfraction', rfl⟩
      have hsplit : c :: cs = whole ++ '.' :: (fraction ++ rest.dropWhile Char.isDigit) := by
        have hcs := @List.takeWhile_append_dropWhile _ Char.isDigit (c :: cs)
        have hds := @List.takeWhile_append_dropWhile _ Char.isDigit (d :: rest)
        rw [htake', List.dropWhile_cons_of_pos hd] at hds
        rw [htake, hdrop, hrest, ← hds] at hcs
        exact hcs.symm
      refine ⟨⟨.real, whole ++ '.' :: fraction⟩, ?_, nofun, ?_, ?_⟩
      · refine Match.front_of_family (real_valid hmem) ?_ fun rule hfamily w hw hstart => ?_
        · rw [hsplit]
          exact ⟨rest.dropWhile Char.isDigit, by simp only [List.append_assoc, List.cons_append]⟩
        · simp only [List.length_append, List.length_cons]
          cases rule with
          | integer =>
              have hle := length_le_takeWhile hstart (Rule.mem_integer.mp hw).2
              rw [htake] at hle
              omega
          | real =>
              rcases exists_of_real_at_front hw hstart with ⟨d', rest', hrest', -, hle⟩
              rw [hdrop, hrest] at hrest'
              cases hrest'
              rw [htake, htake'] at hle
              omega
          | _ => cases hfamily
      · -- The point and what stands around it is read as one decimal.
        have hne := (Rule.mem_integer.mp hwhole').1
        have hread := Binary32.ofText?_point (Rule.mem_integer.mp hwhole').2 hne
          (Rule.mem_integer.mp hfraction').2
        simp only [Match.token?, Rule.token?]
        rw [hread]
        rfl
      · rw [List.length_append, List.length_cons]
        rfl
    · -- A point without a digit behind it belongs to no number.
      rw [if_neg hd]
      refine scanInt_tells hc fun w hw hstart => ?_
      rcases exists_of_real_at_front hw hstart with ⟨d', rest', hrest', hd', -⟩
      rw [hdrop, hrest] at hrest'
      cases hrest'
      exact hd hd'
  · next hnone =>
    refine scanInt_tells hc fun w hw hstart => ?_
    rcases exists_of_real_at_front hw hstart with ⟨d', rest', hrest', -, -⟩
    rw [hdrop] at hrest'
    exact hnone d' rest' hrest'

end Numbers

section Words

variable {c : Char} {cs w : List Char}

/-- All words are written like identifiers. -/
theorem mem_identifier_of_family {rule : Rule} (hfamily : rule.family = .word)
    (hw : w ∈ rule.language) : w ∈ Rule.language .identifier := by
  cases rule with
  | keyword k => exact Rule.keyword_le_identifier hw
  | type t => exact Rule.type_le_identifier hw
  | identifier => exact hw
  | _ => cases hfamily

/-- The rule that a word is a lexeme by is the rule of its token. -/
theorem exists_word_valid (hw : w ∈ Rule.language .identifier) :
    ∃ m : Match, m.text = w ∧ m.Valid ∧ m.rule.family = .word ∧
      m.token? = some (Piece.ofWord (String.ofList w)) := by
  have htext : ∀ {s : String}, w ∈ exactly s ↔ s = String.ofList w := by
    intro s
    rw [mem_exactly, ← String.toList_inj, String.toList_ofList]
    exact eq_comm
  unfold Piece.ofWord
  cases hk : Keyword.ofWord? (String.ofList w) with
  | some k =>
      have hword := Keyword.ofWord?_eq_some.mp hk
      refine ⟨⟨.keyword k, w⟩, rfl, ?_, rfl, rfl⟩
      refine Match.valid_of_family (htext.mpr hword) fun rule hfamily hrule => ?_
      cases rule with
      | keyword k' =>
          have hk' := Keyword.ofWord?_eq_some.mpr (htext.mp hrule)
          rw [hk] at hk'
          rcases Option.some.inj hk' with rfl
          exact Or.inl rfl
      | type t =>
          have hname : t.name = String.ofList w := htext.mp hrule
          exact absurd (hname.trans hword.symm) (t.name_ne_word k)
      | identifier => exact Or.inr trivial
      | _ => cases hfamily
  | none =>
      have hnot := Keyword.ofWord?_eq_none.mp hk
      cases ht : DataType.ofName? (String.ofList w) with
      | some t =>
          have hname := DataType.ofName?_eq_some.mp ht
          refine ⟨⟨.type t, w⟩, rfl, ?_, rfl, rfl⟩
          refine Match.valid_of_family (htext.mpr hname) fun rule hfamily hrule => ?_
          cases rule with
          | keyword k' => exact absurd (htext.mp hrule) (hnot k')
          | type t' =>
              have ht' := DataType.ofName?_eq_some.mpr (htext.mp hrule)
              rw [ht] at ht'
              rcases Option.some.inj ht' with rfl
              exact Or.inl rfl
          | identifier => exact Or.inr trivial
          | _ => cases hfamily
      | none =>
          have hnot' := DataType.ofName?_eq_none.mp ht
          refine ⟨⟨.identifier, w⟩, rfl, ?_, rfl, rfl⟩
          refine Match.valid_of_family hw fun rule hfamily hrule => ?_
          cases rule with
          | keyword k' => exact absurd (htext.mp hrule) (hnot k')
          | type t' => exact absurd (htext.mp hrule) (hnot' t')
          | identifier => exact Or.inl rfl
          | _ => cases hfamily

theorem isWordPart_iff {c : Char} :
    Piece.isWordPart c = true ↔ c.isAlphanum = true ∨ c = '_' := by
  simp only [Piece.isWordPart, Bool.or_eq_true, beq_iff_eq]

theorem isWordStart_iff {c : Char} :
    Piece.isWordStart c = true ↔ c.isAlpha = true ∨ c = '_' := by
  simp only [Piece.isWordStart, Bool.or_eq_true, beq_iff_eq]

theorem scanWord_tells (hc : Piece.isWordStart c = true) :
    Tells (c :: cs) (Piece.scanWord c cs) := by
  have hmem : c :: cs.takeWhile Piece.isWordPart ∈ Rule.language .identifier :=
    Rule.mem_identifier.mpr ⟨c, _, isWordStart_iff.mp hc,
      fun d hd => isWordPart_iff.mp (List.mem_takeWhile_imp hd), rfl⟩
  rcases exists_word_valid hmem with ⟨m, htext, hvalid, hfamily, htoken⟩
  refine ⟨m, ?_, ?_, htoken, by rw [htext]; rfl⟩
  · refine Match.front_of_family hvalid ?_ fun rule hrule w hw hstart => ?_
    · rw [htext]
      exact List.cons_prefix_cons.mpr ⟨rfl, List.takeWhile_prefix _⟩
    · -- Whatever word stands there, it goes on with parts of words.
      rw [hfamily] at hrule
      rcases Rule.mem_identifier.mp (mem_identifier_of_family hrule hw) with
        ⟨d, tail, -, htail, rfl⟩
      have hpart : ∀ e ∈ tail, Piece.isWordPart e = true := fun e he =>
        isWordPart_iff.mpr (htail e he)
      have hle := length_le_takeWhile (List.cons_prefix_cons.mp hstart).2 hpart
      rw [htext, List.length_cons, List.length_cons]
      omega
  · intro hinteger
    rw [hinteger] at hfamily
    cases hfamily

end Words

section Texts

variable {cs w : List Char}

/-- A character that can stand between double quotes. -/
theorem isTextPart_iff {c : Char} :
    (c != '"' && c != '\n') = true ↔ c ≠ '"' ∧ c ≠ '\n' := by
  simp only [Bool.and_eq_true, bne_iff_ne]

theorem mem_text_of_family {rule : Rule} (hfamily : rule.family = .quoted)
    (hw : w ∈ rule.language) : w ∈ Rule.language .text := by
  cases rule with
  | truth b => exact Rule.truth_le_text hw
  | text => exact hw
  | _ => cases hfamily

/-- A text in quotes at the front ends at the first quote that follows. -/
theorem eq_of_text_at_front (hw : w ∈ Rule.language .text) (h : w <+: '"' :: cs) :
    w = '"' :: (cs.takeWhile (fun c => c != '"' && c != '\n') ++ ['"']) ∧
      ∃ tail, cs.dropWhile (fun c => c != '"' && c != '\n') = '"' :: tail := by
  rcases Rule.mem_text.mp hw with ⟨body, hbody, rfl⟩
  have hrest := (List.cons_prefix_cons.mp h).2
  rcases eq_takeWhile_of_append hrest (fun c hc => isTextPart_iff.mpr (hbody c hc))
    (by decide) with ⟨htake, tail, htail⟩
  exact ⟨by rw [← htake], tail, htail.symm⟩

/-- The rule that a text in quotes is a lexeme by is the rule of its token. -/
theorem exists_text_valid {body : List Char} (hbody : ∀ c ∈ body, c ≠ '"' ∧ c ≠ '\n') :
    ∃ m : Match, m.text = '"' :: (body ++ ['"']) ∧ m.Valid ∧ m.rule.family = .quoted ∧
      m.token? = some (Piece.ofQuoted (String.ofList body)) := by
  have htruth : ∀ b, '"' :: (body ++ ['"']) ∈ Rule.language (.truth b) ↔
      String.ofList body = if b then "TRUE" else "FALSE" := by
    intro b
    rw [← String.toList_inj, String.toList_ofList]
    cases b with
    | true =>
        exact ⟨fun h => List.append_cancel_right (List.cons.inj h).2,
          fun h => by rw [h]; rfl⟩
    | false =>
        exact ⟨fun h => List.append_cancel_right (List.cons.inj h).2,
          fun h => by rw [h]; rfl⟩
  unfold Piece.ofQuoted
  by_cases htrue : String.ofList body = "TRUE"
  · rw [if_pos htrue]
    refine ⟨⟨.truth true, _⟩, rfl, ?_, rfl, rfl⟩
    refine Match.valid_of_family ((htruth true).mpr htrue) fun rule hfamily hrule => ?_
    cases rule with
    | truth b =>
        cases b with
        | true => exact Or.inl rfl
        | false =>
            rw [(htruth false).mp hrule] at htrue
            exact absurd htrue (by decide)
    | text => exact Or.inr trivial
    | _ => cases hfamily
  · rw [if_neg htrue]
    by_cases hfalse : String.ofList body = "FALSE"
    · rw [if_pos hfalse]
      refine ⟨⟨.truth false, _⟩, rfl, ?_, rfl, rfl⟩
      refine Match.valid_of_family ((htruth false).mpr hfalse) fun rule hfamily hrule => ?_
      cases rule with
      | truth b =>
          cases b with
          | true => exact absurd ((htruth true).mp hrule) htrue
          | false => exact Or.inl rfl
      | text => exact Or.inr trivial
      | _ => cases hfamily
    · rw [if_neg hfalse]
      refine ⟨⟨.text, '"' :: (body ++ ['"'])⟩, rfl, ?_, rfl, ?_⟩
      · refine Match.valid_of_family (Rule.mem_text.mpr ⟨body, hbody, rfl⟩)
          fun rule hfamily hrule => ?_
        cases rule with
        | truth b =>
            cases b with
            | true => exact absurd ((htruth true).mp hrule) htrue
            | false => exact absurd ((htruth false).mp hrule) hfalse
        | text => exact Or.inl rfl
        | _ => cases hfamily
      · simp only [Match.token?, Rule.token?, List.drop_succ_cons, List.drop_zero,
          List.dropLast_concat]

theorem scanText_tells : Tells ('"' :: cs) (Piece.scanText cs) := by
  set body := cs.takeWhile (fun c => c != '"' && c != '\n') with hbody
  have hpart : ∀ c ∈ body, c ≠ '"' ∧ c ≠ '\n' := by
    intro c hc
    have hc' := List.mem_takeWhile_imp hc
    exact isTextPart_iff.mp hc'
  have hcs := @List.takeWhile_append_dropWhile _ (fun c : Char => c != '"' && c != '\n') cs
  have hdrop : cs.drop body.length = cs.dropWhile (fun c => c != '"' && c != '\n') := by
    conv_lhs => rw [← hcs]
    exact List.drop_left
  unfold Piece.scanText
  simp only
  rw [← hbody, hdrop]
  split
  · next tail htail =>
    rcases exists_text_valid hpart with ⟨m, htext, hvalid, hfamily, htoken⟩
    refine ⟨m, ?_, ?_, htoken, ?_⟩
    · refine Match.front_of_family hvalid ?_ fun rule hrule w hw hstart => ?_
      · rw [htext, ← hcs, htail]
        exact ⟨tail, by simp only [hbody, List.cons_append, List.append_assoc, List.nil_append]⟩
      · rw [hfamily] at hrule
        rw [(eq_of_text_at_front (mem_text_of_family hrule hw) hstart).1, htext]
    · intro hinteger
      rw [hinteger] at hfamily
      cases hfamily
    · rw [htext, List.length_cons, List.length_append]
      rfl
  · next hnone =>
    -- The quote is not closed in its line.
    have hno : ∀ w ∈ Rule.language .text, ¬ w <+: '"' :: cs := by
      intro w hw hstart
      rcases (eq_of_text_at_front hw hstart).2 with ⟨tail, htail⟩
      exact hnone tail htail
    have hquoted : ∀ rule : Rule, familyOf? '"' = some rule.family → rule.family = .quoted :=
      fun rule h => (Option.some.inj h).symm
    refine ⟨no_lexeme_of_family fun rule hrule w hw =>
      hno w (mem_text_of_family (hquoted rule hrule) hw), ?_⟩
    refine Stray.begun (List.cons_ne_nil _ _)
      (List.cons_prefix_cons.mpr ⟨rfl, List.takeWhile_prefix _⟩) ?_ fun w hstart hbegins => ?_
    · have hl : '"' :: (body ++ ['"']) ∈ lexemes :=
        mem_lexemes.mpr ⟨.text, Rule.mem_text.mpr ⟨body, hpart, rfl⟩⟩
      exact ⟨_, hl, List.cons_prefix_cons.mpr ⟨rfl, List.prefix_append _ _⟩⟩
    · by_cases hne : w = []
      · rw [hne]
        exact Nat.zero_le _
      · rcases hbegins.exists_rule hne hstart with ⟨rule, l, hl, hwl, hrule⟩
        have hl' := mem_text_of_family (hquoted rule hrule) hl
        rcases Rule.mem_text.mp hl' with ⟨inner, hinner, rfl⟩
        rw [← List.cons_append] at hwl
        -- What is not the whole of the lexeme has no closing quote.
        rcases List.prefix_concat_iff.mp hwl with hwhole | hwl
        · rw [hwhole] at hstart
          exact absurd hstart (hno _ hl')
        · cases w with
          | nil => exact absurd rfl hne
          | cons d tail =>
              have hsub := (List.cons_prefix_cons.mp hwl).2
              have htail : ∀ e ∈ tail, (e != '"' && e != '\n') = true := fun e he =>
                isTextPart_iff.mpr (hinner e (hsub.mem he))
              have hle := length_le_takeWhile (List.cons_prefix_cons.mp hstart).2 htail
              rw [← hbody] at hle
              simp only [List.length_cons]
              omega

end Texts

theorem character_encloses :
    Encloses .character '\'' '\'' fun c => c ≠ '\'' ∧ c ≠ '\n' where
  mem_iff w := by
    rw [Rule.mem_character]
    exact exists_congr fun c => and_assoc.symm
  alone other hother := by
    cases other <;> first | rfl | cases hother

theorem escape_encloses : Encloses .escape '[' ']' fun c => c ≠ '\n' where
  mem_iff w := Rule.mem_escape
  alone other hother := by
    cases other <;> first | rfl | cases hother

section Rest

variable {c : Char} {cs w : List Char}

theorem scanChar_tells : Tells ('\'' :: cs) (Piece.scanChar cs) := by
  unfold Piece.scanChar
  cases cs with
  | nil => exact character_encloses.opening_tells ⟨'a', by decide⟩ nofun
  | cons c rest =>
      simp only
      by_cases hc : (c == '\'' || c == '\n') = true
      · rw [if_pos hc]
        refine character_encloses.opening_tells ⟨'a', by decide⟩ fun y hy hpart => ?_
        rcases Option.some.inj hy with rfl
        simp only [Bool.or_eq_true, beq_iff_eq] at hc
        exact hc.elim hpart.1 hpart.2
      · rw [if_neg hc]
        simp only [Bool.or_eq_true, beq_iff_eq, not_or] at hc
        split
        · exact character_encloses.token_tells hc rfl nofun
        · next hnone =>
          refine character_encloses.inner_tells hc fun hhead => ?_
          rcases List.head?_eq_some_iff.mp hhead with ⟨tail, htail⟩
          exact hnone tail htail

theorem scanEscape_tells : Tells ('[' :: cs) (Piece.scanEscape cs) := by
  unfold Piece.scanEscape
  cases cs with
  | nil => exact escape_encloses.opening_tells ⟨'a', by decide⟩ nofun
  | cons c rest =>
      simp only
      by_cases hc : (c == '\n') = true
      · rw [if_pos hc]
        refine escape_encloses.opening_tells ⟨'a', by decide⟩ fun y hy hpart => ?_
        rcases Option.some.inj hy with rfl
        exact hpart (beq_iff_eq.mp hc)
      · rw [if_neg hc]
        rw [beq_iff_eq] at hc
        split
        · exact escape_encloses.token_tells hc rfl nofun
        · next hnone =>
          refine escape_encloses.inner_tells hc fun hhead => ?_
          rcases List.head?_eq_some_iff.mp hhead with ⟨tail, htail⟩
          exact hnone tail htail

theorem comment_tells :
    Tells ('#' :: cs) (.gap (cs.takeWhile (· != '\n')).length) := by
  have hpart : ∀ c ∈ cs.takeWhile (· != '\n'), c ≠ '\n' := by
    intro c hc
    have hc' := List.mem_takeWhile_imp hc
    exact bne_iff_ne.mp hc'
  refine ⟨⟨.comment, '#' :: cs.takeWhile (· != '\n')⟩, ?_, nofun, rfl, rfl⟩
  refine Match.front_of_family (Match.valid_of_family
    (Rule.mem_comment.mpr ⟨_, hpart, rfl⟩) ?_) ?_ ?_
  · intro rule hfamily _
    cases rule <;> first | exact Or.inl rfl | cases hfamily
  · exact List.cons_prefix_cons.mpr ⟨rfl, List.takeWhile_prefix _⟩
  · intro rule hfamily w hw hstart
    cases rule with
    | comment =>
        rcases Rule.mem_comment.mp hw with ⟨tail, htail, rfl⟩
        have htail' : ∀ e ∈ tail, (e != '\n') = true := fun e he => bne_iff_ne.mpr (htail e he)
        have hle := length_le_takeWhile (List.cons_prefix_cons.mp hstart).2 htail'
        simp only [List.length_cons]
        omega
    | _ => cases hfamily

/-- A line feed is a line break, and so is the carriage return in front of one together
    with it. -/
theorem lineBreak_tells {w : List Char} (hw : w = ['\n'] ∨ w = ['\r', '\n']) :
    Tells (w ++ cs) (.token .lineBreak (w.length - 1)) := by
  have hmem : w ∈ Rule.language .lineBreak := Rule.mem_lineBreak.mpr hw
  have hfeed : '\n' ∈ w := by rcases hw with rfl | rfl <;> decide
  have hvalid : (Match.mk .lineBreak w).Valid := by
    refine Match.valid_of_family hmem fun rule hfamily hrule => ?_
    cases rule with
    | lineBreak => exact Or.inl rfl
    | blanks => exact absurd ((Rule.mem_blanks.mp hrule).2 '\n' hfeed) (by decide)
    | _ => cases hfamily
  have hfront : (Match.mk .lineBreak w).Front (w ++ cs) := by
    rcases Rule.opens_of_mem hmem with ⟨d, tail, rfl, -⟩
    refine Match.front_of_family hvalid (List.prefix_append _ _)
      fun rule hfamily v hv hstart => ?_
    cases rule with
    | lineBreak =>
        -- The two line breaks differ in their first character.
        rcases Rule.mem_lineBreak.mp hv with rfl | rfl
        · exact Nat.succ_le_succ (Nat.zero_le _)
        · rcases hw with hw | hw
          · cases hw
            exact absurd (List.cons_prefix_cons.mp hstart).1 (by decide)
          · rw [hw]
    | blanks =>
        -- Blanks end in front of the line feed.
        rcases List.prefix_or_prefix_of_prefix hstart (List.prefix_append (d :: tail) cs)
          with hle | hle
        · exact hle.length_le
        · exact absurd ((Rule.mem_blanks.mp hv).2 '\n' (hle.mem hfeed)) (by decide)
    | _ => cases hfamily
  refine ⟨⟨.lineBreak, w⟩, hfront, nofun, rfl, ?_⟩
  rcases hw with rfl | rfl <;> rfl

theorem isGap_iff : Piece.isGap c = true ↔ c = ' ' ∨ c = '\t' ∨ c = '\x0c' ∨ c = '\r' := by
  simp only [Piece.isGap, Bool.or_eq_true, beq_iff_eq, or_assoc]

theorem blanks_tells (hc : Piece.isGap c = true) (hbreak : ¬ (c = '\r' ∧ cs.head? = some '\n')) :
    Tells (c :: cs) (.gap (cs.takeWhile Piece.isGap).length) := by
  have htake : (c :: cs).takeWhile Piece.isGap = c :: cs.takeWhile Piece.isGap :=
    List.takeWhile_cons_of_pos hc
  have hpart : ∀ d ∈ c :: cs.takeWhile Piece.isGap, Piece.isGap d = true := by
    rw [← htake]
    exact fun d hd => List.mem_takeWhile_imp hd
  have hmem : c :: cs.takeWhile Piece.isGap ∈ Rule.language .blanks :=
    Rule.mem_blanks.mpr ⟨List.cons_ne_nil _ _, fun d hd => isGap_iff.mp (hpart d hd)⟩
  have hvalid : (Match.mk .blanks (c :: cs.takeWhile Piece.isGap)).Valid := by
    refine Match.valid_of_family hmem fun rule hfamily hrule => ?_
    cases rule with
    | blanks => exact Or.inl rfl
    | lineBreak =>
        have hfeed : '\n' ∈ c :: cs.takeWhile Piece.isGap := by
          rcases Rule.mem_lineBreak.mp hrule with h | h <;>
            rw [show c :: cs.takeWhile Piece.isGap = _ from h] <;> decide
        exact absurd (hpart '\n' hfeed) (by decide)
    | _ => cases hfamily
  refine ⟨⟨.blanks, _⟩, Match.front_of_family hvalid ?_ fun rule hfamily w hw hstart => ?_,
    nofun, rfl, rfl⟩
  · rw [← htake]
    exact List.takeWhile_prefix _
  · cases rule with
    | blanks =>
        have hw' : ∀ d ∈ w, Piece.isGap d = true := fun d hd =>
          isGap_iff.mpr ((Rule.mem_blanks.mp hw).2 d hd)
        rw [← htake]
        exact length_le_takeWhile hstart hw'
    | lineBreak =>
        -- A line break at the front would begin with the carriage return.
        rcases Rule.mem_lineBreak.mp hw with rfl | rfl
        · exact Nat.succ_le_succ (Nat.zero_le _)
        · have hreturn := List.cons_prefix_cons.mp hstart
          rcases hreturn.2 with ⟨tail, rfl⟩
          exact absurd ⟨hreturn.1.symm, rfl⟩ hbreak
    | _ => cases hfamily

theorem symbol_tells {sign : Symbol} (h : Symbol.front? (c :: cs) = some sign) :
    Tells (c :: cs) (.token (.symbol sign) (sign.text.length - 1)) := by
  rcases Symbol.front?_eq_some h with ⟨hfront, hlongest⟩
  have hvalid : (Match.mk (.symbol sign) sign.text.toList).Valid := by
    refine Match.valid_of_family rfl fun rule hfamily hrule => ?_
    cases rule with
    | symbol s => exact Or.inl (by rw [Symbol.text_inj (mem_exactly.mp hrule)])
    | _ => cases hfamily
  refine ⟨_, Match.front_of_family hvalid hfront fun rule hfamily w hw hstart => ?_, nofun, rfl,
    ?_⟩
  · cases rule with
    | symbol s =>
        rcases mem_exactly.mp hw with rfl
        exact hlongest s hstart
    | _ => cases hfamily
  · cases sign <;> rfl

/-- A character that begins no lexeme is shown alone. -/
theorem stray_tells (h : familyOf? c = none) : Tells (c :: cs) (.unrecognized [c]) := by
  refine ⟨no_lexeme_of_family fun rule hrule => ?_, Stray.single fun w hstart hbegins => ?_⟩
  · rw [h] at hrule
    cases hrule
  · by_contra hne
    rcases hbegins.exists_rule hne hstart with ⟨rule, l, -, -, hrule⟩
    rw [h] at hrule
    cases hrule

/-- What the scanner says of the front of a text is true. -/
theorem scan_tells (c : Char) (cs : List Char) : Tells (c :: cs) (Piece.scan c cs) := by
  unfold Piece.scan
  by_cases hdigit : c.isDigit = true
  · rw [if_pos hdigit]
    exact scanNumber_tells hdigit
  rw [if_neg hdigit]
  by_cases hword : Piece.isWordStart c = true
  · rw [if_pos hword]
    exact scanWord_tells hword
  rw [if_neg hword]
  by_cases hquote : c = '"'
  · rw [if_pos hquote, hquote]
    exact scanText_tells
  rw [if_neg hquote]
  by_cases hsingle : c = '\''
  · rw [if_pos hsingle, hsingle]
    exact scanChar_tells
  rw [if_neg hsingle]
  by_cases hbracket : c = '['
  · rw [if_pos hbracket, hbracket]
    exact scanEscape_tells
  rw [if_neg hbracket]
  by_cases hhash : c = '#'
  · rw [if_pos hhash, hhash]
    exact comment_tells
  rw [if_neg hhash]
  by_cases hfeed : c = '\n'
  · rw [if_pos hfeed, hfeed]
    exact lineBreak_tells (Or.inl rfl)
  rw [if_neg hfeed]
  by_cases hbreak : c = '\r' ∧ cs.head? = some '\n'
  · rw [if_pos hbreak]
    rcases hbreak with ⟨rfl, hhead⟩
    rcases List.head?_eq_some_iff.mp hhead with ⟨tail, rfl⟩
    exact lineBreak_tells (Or.inr rfl)
  rw [if_neg hbreak]
  by_cases hgap : Piece.isGap c = true
  · rw [if_pos hgap]
    exact blanks_tells hgap hbreak
  rw [if_neg hgap]
  cases hsign : Symbol.front? (c :: cs) with
  | some sign => exact symbol_tells hsign
  | none =>
      -- Every character that begins a sign is a sign by itself.
      have hsigns : ∀ d ∈ "+-*/%&=<>(),:$".toList, ∃ s ∈ Symbol.all, s.text.toList = [d] :=
        List.all_iff_forall_prop.mp (by decide)
      have hnosign : c ∉ "+-*/%&=<>(),:$".toList := by
        intro hc
        rcases hsigns c hc with ⟨s, -, hs⟩
        refine Symbol.front?_eq_none hsign s ?_
        rw [hs]
        exact ⟨cs, rfl⟩
      have hnospace : c ∉ ['\n', ' ', '\t', '\x0c', '\r'] := by
        intro hc
        rcases List.mem_cons.mp hc with hc | hc
        · exact hfeed hc
        · simp only [List.mem_cons, List.not_mem_nil, or_false] at hc
          exact hgap (isGap_iff.mpr hc)
      have hletter : ¬ (c.isAlpha || c == '_') = true := hword
      apply stray_tells
      rw [familyOf?, if_neg hdigit, if_neg hletter, if_neg hquote, if_neg hsingle,
        if_neg hbracket, if_neg hhash, if_neg hnospace, if_neg hnosign]

end Rest

end Lexing

end Primer
