import Primer.Proofs.Lexing.Scan

/-!
# Cutting a Source Text

`Lexeme.ofSource` cuts a source text as `Munched` says, and gives every lexeme, and every
error, the position at which it stands.

A position is a line and a column. It is kept up to date while the text is cut, and never
computed from the text. `Position.after` says what it has to be: the line feeds before it
are counted, and the characters after the last of them. Of the lexemes only a line break
has a line feed in it, and it ends with the one it has. So the position moves along its
line by the length of any other lexeme, and to the beginning of the next line by a line
break, and this is what the cutting does.

## Main definitions

* `Position.after`: The position behind a text.
* `Lexing.lexemesFrom`: The lexemes that matches are, each with its position.

## Theorems

* `Lexing.exists_munched`: Every text has a cut.
* `Lexing.Match.Front.cut_eq`: What cutting does with the longest lexeme.
* `Lexing.Munched.cut_append`: What cutting does with the lexemes in a row that are in range.
* `Lexing.ofSource_cases`: The three ways in which cutting a text can end.
* `Lexing.ofSource_maximal_munch`: Cutting takes the longest lexemes and shows what is none.
* `Lexing.ofSource_positions`: The positions of lexemes and errors.
-/

namespace Primer

namespace Position

/-- The position behind a text: one line more than it has line feeds, and as many columns
    as characters follow the last of them. -/
def after (u : List Char) : Position :=
  ⟨1 + u.count '\n', (u.reverse.takeWhile (· != '\n')).length⟩

/-- A text without a line feed stays in its line. -/
theorem after_append_of_notMem {u w : List Char} (hw : '\n' ∉ w) :
    after (u ++ w) = (after u).advance w.length := by
  have hclass : ∀ c ∈ w.reverse, (c != '\n') = true := by
    intro c hc
    rw [bne_iff_ne]
    rintro rfl
    exact hw (List.mem_reverse.mp hc)
  have hcount : (u ++ w).count '\n' = u.count '\n' := by
    rw [List.count_append, List.count_eq_zero.mpr hw, Nat.add_zero]
  have hcolumn : ((u ++ w).reverse.takeWhile (· != '\n')).length
      = (u.reverse.takeWhile (· != '\n')).length + w.length := by
    rw [List.reverse_append, List.takeWhile_append_of_pos hclass, List.length_append,
      List.length_reverse, Nat.add_comm]
  simp only [after, advance, hcount, hcolumn]

/-- A line feed begins the next line. -/
theorem after_append_feed {u w : List Char} (hw : '\n' ∉ w) :
    after (u ++ (w ++ ['\n'])) = (after u).nextLine := by
  have hcount : (u ++ (w ++ ['\n'])).count '\n' = u.count '\n' + 1 := by
    rw [List.count_append, List.count_append, List.count_eq_zero.mpr hw, Nat.zero_add]
    rfl
  have hcolumn : ((u ++ (w ++ ['\n'])).reverse.takeWhile (· != '\n')).length = 0 := by
    rw [List.reverse_append, List.reverse_append]
    rfl
  simp only [after, nextLine, hcount, hcolumn, Nat.add_assoc]

end Position

namespace Lexing

open Lexeme

section Feeds

variable {m : Match} {w : List Char}

/-- A line break is the only lexeme with a line feed in it. -/
theorem Rule.feed_notMem {rule : Rule} (hw : w ∈ rule.language) (hrule : rule ≠ .lineBreak) :
    '\n' ∉ w := by
  intro hfeed
  have hdigits : ∀ {v : List Char}, v ∈ Rule.language .integer → '\n' ∉ v := fun hv hmem =>
    absurd ((Rule.mem_integer.mp hv).2 '\n' hmem) (by decide)
  have hword : ∀ {v : List Char}, v ∈ Rule.language .identifier → '\n' ∉ v := by
    intro v hv hmem
    rcases Rule.mem_identifier.mp hv with ⟨c, tail, hc, htail, rfl⟩
    rcases List.mem_cons.mp hmem with rfl | hmem
    · exact absurd hc (by decide)
    · exact absurd (htail '\n' hmem) (by decide)
  have htext : ∀ {v : List Char}, v ∈ Rule.language .text → '\n' ∉ v := by
    intro v hv hmem
    rcases Rule.mem_text.mp hv with ⟨body, hbody, rfl⟩
    have hmem' : '\n' ∈ body := by simpa using hmem
    exact (hbody '\n' hmem').2 rfl
  cases rule with
  | real =>
      rcases Rule.mem_real.mp hw with ⟨whole, fraction, hwhole, hfraction, rfl⟩
      rcases List.mem_append.mp hfeed with hmem | hmem
      · exact hdigits hwhole hmem
      · rcases List.mem_cons.mp hmem with hmem | hmem
        · exact absurd hmem (by decide)
        · exact hdigits hfraction hmem
  | integer => exact hdigits hw hfeed
  | truth b => exact htext (Rule.truth_le_text hw) hfeed
  | character =>
      rcases Rule.mem_character.mp hw with ⟨c, -, hc, rfl⟩
      have hmem : '\n' = c := by simpa using hfeed
      exact hc hmem.symm
  | text => exact htext hw hfeed
  | escape =>
      rcases Rule.mem_escape.mp hw with ⟨c, hc, rfl⟩
      have hmem : '\n' = c := by simpa using hfeed
      exact hc hmem.symm
  | symbol sign =>
      rcases mem_exactly.mp hw with rfl
      revert hfeed
      cases sign <;> decide
  | keyword k => exact hword (Rule.keyword_le_identifier hw) hfeed
  | type t => exact hword (Rule.type_le_identifier hw) hfeed
  | identifier => exact hword hw hfeed
  | comment =>
      rcases Rule.mem_comment.mp hw with ⟨tail, htail, rfl⟩
      rcases List.mem_cons.mp hfeed with hmem | hmem
      · exact absurd hmem (by decide)
      · exact htail '\n' hmem rfl
  | lineBreak => exact hrule rfl
  | blanks => exact absurd ((Rule.mem_blanks.mp hw).2 '\n' hfeed) (by decide)

theorem Match.token?_eq_lineBreak : m.token? = some .lineBreak ↔ m.rule = .lineBreak := by
  rcases m with ⟨rule, text⟩
  cases rule <;> simp [Match.token?, Rule.token?]

/-- How a lexeme moves the position. -/
theorem Match.Valid.after_append (h : m.Valid) (u : List Char) :
    Position.after (u ++ m.text) =
      if m.token? = some .lineBreak then (Position.after u).nextLine
      else (Position.after u).advance m.text.length := by
  have hmem := h.mem
  by_cases hrule : m.rule = .lineBreak
  · rw [if_pos (Match.token?_eq_lineBreak.mpr hrule)]
    rw [hrule] at hmem
    rcases Rule.mem_lineBreak.mp hmem with htext | htext
    · rw [htext]
      exact Position.after_append_feed List.not_mem_nil
    · rw [htext]
      exact Position.after_append_feed (w := ['\r']) (by decide)
  · rw [if_neg fun ht => hrule (Match.token?_eq_lineBreak.mp ht)]
    exact Position.after_append_of_notMem (Rule.feed_notMem hmem hrule)

/-- How many line feeds a lexeme has. -/
theorem Match.Valid.count_feed (h : m.Valid) :
    m.text.count '\n' = if m.token? = some .lineBreak then 1 else 0 := by
  have hmem := h.mem
  by_cases hrule : m.rule = .lineBreak
  · rw [if_pos (Match.token?_eq_lineBreak.mpr hrule)]
    rw [hrule] at hmem
    rcases Rule.mem_lineBreak.mp hmem with htext | htext <;> rw [htext] <;> rfl
  · rw [if_neg fun ht => hrule (Match.token?_eq_lineBreak.mp ht)]
    exact List.count_eq_zero.mpr (Rule.feed_notMem hmem hrule)

end Feeds

/-- The lexemes that matches are, of which the first stands behind the text `u`. -/
def lexemesFrom (u : List Char) : List Match → List Lexeme
  | [] => []
  | m :: ms =>
      (m.token?.map fun t => ⟨t, Position.after u⟩).toList ++ lexemesFrom (u ++ m.text) ms

section Lexemes

variable {u : List Char} {ms : List Match}

theorem map_token_lexemesFrom (u : List Char) (ms : List Match) :
    (lexemesFrom u ms).map Lexeme.token = ms.filterMap Match.token? := by
  induction ms generalizing u with
  | nil => rfl
  | cons m ms ih =>
      rw [lexemesFrom, List.map_append, ih]
      cases hm : m.token? with
      | none => rw [List.filterMap_cons_none hm]; rfl
      | some t => rw [List.filterMap_cons_some hm]; rfl

/-- Every lexeme stands behind the text of the matches before it. -/
theorem exists_of_getElem?_lexemesFrom {l : Lexeme} {i : Nat}
    (h : (lexemesFrom u ms)[i]? = some l) :
    ∃ us m vs, ms = us ++ m :: vs ∧ (us.filterMap Match.token?).length = i ∧
      m.token? = some l.token ∧ l.pos = .after (u ++ textOf us) := by
  induction ms generalizing u i with
  | nil => cases h
  | cons m ms ih =>
      rw [lexemesFrom] at h
      cases hm : m.token? with
      | none =>
          rw [hm] at h
          rcases ih h with ⟨us, m', vs, rfl, hi, htoken, hpos⟩
          refine ⟨m :: us, m', vs, rfl, ?_, htoken, ?_⟩
          · rw [List.filterMap_cons_none hm]
            exact hi
          · rw [hpos, textOf_cons, List.append_assoc]
      | some t =>
          rw [hm] at h
          cases i with
          | zero =>
              -- The first match is the lexeme itself.
              rcases Option.some.inj h with rfl
              exact ⟨[], m, ms, rfl, rfl, hm, by rw [textOf_nil, List.append_nil]⟩
          | succ i =>
              rcases ih h with ⟨us, m', vs, rfl, hi, htoken, hpos⟩
              refine ⟨m :: us, m', vs, rfl, ?_, htoken, ?_⟩
              · rw [List.filterMap_cons_some hm, List.length_cons, hi]
              · rw [hpos, textOf_cons, List.append_assoc]

/-- There are as many line breaks as line feeds. -/
theorem count_lineBreak_lexemesFrom (u : List Char) (hvalid : ∀ m ∈ ms, m.Valid) :
    (lexemesFrom u ms).countP (fun l => l.token = .lineBreak) = (textOf ms).count '\n' := by
  induction ms generalizing u with
  | nil => rfl
  | cons m ms ih =>
      have hms := List.forall_mem_cons.mp hvalid
      rw [lexemesFrom, textOf_cons, List.countP_append, List.count_append, ih _ hms.2,
        hms.1.count_feed]
      congr 1
      cases hm : m.token? with
      | none => rfl
      | some t => by_cases ht : t = .lineBreak <;> simp [ht]

end Lexemes

section Cutting

variable {u cs rest : List Char} {m : Match} {ms us vs : List Match}

/-- The characters that belong to the lexeme read last are skipped. -/
theorem cut_owned (pos : Position) (w cs : List Char) :
    cut pos w.length (w ++ cs) = cut pos 0 cs := by
  induction w with
  | nil => rfl
  | cons c w ih => exact ih

/-- What cutting does with the longest lexeme at the front. -/
theorem Match.Front.cut_eq (h : m.Front (m.text ++ cs)) (u : List Char) :
    cut (.after u) 0 (m.text ++ cs) =
      if m.InRange then
        (cut (.after (u ++ m.text)) 0 cs).map
          ((m.token?.map fun t => ⟨t, Position.after u⟩).toList ++ ·)
      else .error (.tooLarge (String.ofList m.text) (.after u)) := by
  have hafter := h.toValid.after_append u
  cases htext : m.text with
  | nil => exact absurd htext h.ne_nil
  | cons c tail =>
      have hfront := h
      rw [htext, List.cons_append] at hfront
      have htells := scan_tells c (tail ++ cs)
      rw [List.cons_append, cut]
      -- The scanner's lexeme is the longest one, and so it is this one.
      cases hscan : Piece.scan c (tail ++ cs) with
      | token t more =>
          rw [hscan] at htells
          rcases htells with ⟨m', hfront', hrange, htoken, hlength⟩
          rcases hfront'.unique hfront with rfl
          have hmore : more = tail.length := by
            rw [htext, List.length_cons] at hlength
            omega
          rw [if_pos hrange, htoken]
          rw [htoken, htext] at hafter
          simp only [hmore, cut_owned]
          rw [hafter]
          by_cases ht : t = .lineBreak
          · simp only [ht, if_true]
            cases cut (Position.after u).nextLine 0 cs <;> rfl
          · simp only [ht, if_false, Option.some.injEq, List.length_cons]
            cases cut ((Position.after u).advance (tail.length + 1)) 0 cs <;> rfl
      | gap more =>
          rw [hscan] at htells
          rcases htells with ⟨m', hfront', hrange, htoken, hlength⟩
          rcases hfront'.unique hfront with rfl
          have hmore : more = tail.length := by
            rw [htext, List.length_cons] at hlength
            omega
          rw [if_pos hrange, htoken]
          rw [htoken, htext, if_neg nofun] at hafter
          simp only [hmore, cut_owned]
          rw [hafter, List.length_cons]
          cases cut ((Position.after u).advance (tail.length + 1)) 0 cs <;> rfl
      | tooLarge digits =>
          rw [hscan] at htells
          rcases htells with ⟨m', hfront', hrange, hdigits⟩
          rcases hfront'.unique hfront with rfl
          rw [if_neg hrange, ← hdigits, htext]
      | unrecognized text =>
          rw [hscan] at htells
          have hnil := htells.1 m.text h.toValid.mem_lexemes hfront.isPrefix
          exact absurd hnil h.ne_nil

/-- Every text has a cut. -/
theorem exists_munched (cs : List Char) : ∃ ms rest, Munched cs ms rest := by
  induction hn : cs.length using Nat.strong_induction_on generalizing cs with
  | _ n ih =>
    by_cases hm : ∃ m : Match, m.Front cs
    · rcases hm with ⟨m, hm⟩
      rcases hm.isPrefix with ⟨tail, rfl⟩
      have hpos := List.length_pos_of_ne_nil hm.ne_nil
      rw [List.length_append] at hn
      rcases ih tail.length (by omega) tail rfl with ⟨ms, rest, h⟩
      exact ⟨m :: ms, rest, .take hm h⟩
    · -- The scanner finds a lexeme wherever there is one.
      refine ⟨[], cs, .stop ?_⟩
      cases cs with
      | nil =>
          intro w _ hw
          exact List.prefix_nil.mp hw
      | cons c cs =>
          have htells := scan_tells c cs
          cases hscan : Piece.scan c cs with
          | token t more =>
              rw [hscan] at htells
              rcases htells with ⟨m, hfront, -⟩
              exact absurd ⟨m, hfront⟩ hm
          | gap more =>
              rw [hscan] at htells
              rcases htells with ⟨m, hfront, -⟩
              exact absurd ⟨m, hfront⟩ hm
          | tooLarge digits =>
              rw [hscan] at htells
              rcases htells with ⟨m, hfront, -⟩
              exact absurd ⟨m, hfront⟩ hm
          | unrecognized text =>
              rw [hscan] at htells
              exact htells.1

/-- What cutting does with lexemes in a row that are in range. -/
theorem Munched.cut_append (hus : ∀ m ∈ us, m.InRange) (u : List Char)
    (h : Munched cs (us ++ vs) rest) :
    ∃ cs', Munched cs' vs rest ∧
      cut (.after u) 0 cs =
        (cut (.after (u ++ textOf us)) 0 cs').map (lexemesFrom u us ++ ·) := by
  induction us generalizing u cs with
  | nil =>
      refine ⟨cs, h, ?_⟩
      rw [textOf_nil, List.append_nil]
      cases cut (.after u) 0 cs <;> rfl
  | cons m us ih =>
      have hrange := List.forall_mem_cons.mp hus
      cases h with
      | take hm h =>
          rcases ih hrange.2 (u ++ m.text) h with ⟨cs', hcs', hcut⟩
          refine ⟨cs', hcs', ?_⟩
          rw [hm.cut_eq, if_pos hrange.1, hcut, textOf_cons, List.append_assoc, lexemesFrom]
          cases cut (.after (u ++ (m.text ++ textOf us))) 0 cs' with
          | error e => rfl
          | ok ls => simp only [Except.map, List.append_assoc]

end Cutting

/-- The three ways in which cutting a source text can end. All lexemes are in range and
    nothing is left; or the first lexeme that is not in range stops the cutting; or all of
    them are in range, and something is left. -/
theorem ofSource_cases (source : String) :
    ∃ ms rest, Munched source.toList ms rest ∧
      ((rest = [] ∧ (∀ m ∈ ms, m.InRange) ∧ ofSource source = .ok (lexemesFrom [] ms)) ∨
        (∃ us m vs, ms = us ++ m :: vs ∧ (∀ m ∈ us, m.InRange) ∧ ¬ m.InRange ∧
          ofSource source = .error (.tooLarge (String.ofList m.text) (.after (textOf us)))) ∨
        (rest ≠ [] ∧ (∀ m ∈ ms, m.InRange) ∧ ∃ shown, Stray shown rest ∧
          ofSource source
            = .error (.unrecognized (String.ofList shown) (.after (textOf ms))))) := by
  rcases exists_munched source.toList with ⟨ms, rest, h⟩
  refine ⟨ms, rest, h, ?_⟩
  have hstart : ofSource source = cut (.after []) 0 source.toList := rfl
  cases hfind : ms.find? fun m => ¬ m.InRange with
  | some m =>
      -- The first lexeme that is not in range.
      rcases List.find?_eq_some_iff_append.mp hfind with ⟨hm, us, vs, rfl, hus⟩
      have hrange : ∀ m ∈ us, m.InRange := fun m hm => by simpa using hus m hm
      have hm' : ¬ m.InRange := by simpa using hm
      refine Or.inr (Or.inl ⟨us, m, vs, rfl, hrange, hm', ?_⟩)
      rcases h.cut_append hrange [] with ⟨cs', hcs', hcut⟩
      cases hcs' with
      | take hfront _ =>
          rw [hstart, hcut, hfront.cut_eq, if_neg hm']
          rfl
  | none =>
      have hrange : ∀ m ∈ ms, m.InRange := fun m hm => by
        simpa using List.find?_eq_none.mp hfind m hm
      have hall : Munched source.toList (ms ++ []) rest := by rw [List.append_nil]; exact h
      rcases hall.cut_append hrange [] with ⟨cs', hcs', hcut⟩
      rcases hcs' with ⟨hstop⟩
      cases rest with
      | nil =>
          refine Or.inl ⟨rfl, hrange, ?_⟩
          rw [hstart, hcut, cut, Except.map, List.append_nil]
      | cons c tail =>
          refine Or.inr (Or.inr ⟨List.cons_ne_nil c tail, hrange, ?_⟩)
          have htells := scan_tells c tail
          -- What is left begins with no lexeme, so the scanner finds none.
          have hno : ∀ m : Match, ¬ m.Front (c :: tail) := fun m hm =>
            hm.ne_nil (hstop m.text hm.toValid.mem_lexemes hm.isPrefix)
          cases hscan : Piece.scan c tail with
          | token t more =>
              rw [hscan] at htells
              exact absurd htells.choose_spec.1 (hno _)
          | gap more =>
              rw [hscan] at htells
              exact absurd htells.choose_spec.1 (hno _)
          | tooLarge digits =>
              rw [hscan] at htells
              exact absurd htells.choose_spec.1 (hno _)
          | unrecognized text =>
              rw [hscan] at htells
              refine ⟨text, htells.2, ?_⟩
              rw [hstart, hcut, cut, hscan]
              rfl

/-- Cutting a source text takes the longest lexemes from the left. There is one such cut.
    It succeeds exactly if the lexemes are the whole text and all whole numbers among them
    fit in 32 bits, and the result then is their tokens in order. If it fails, it does so
    at the first place possible: at the first number that does not fit, or else where no
    lexeme follows any more. -/
theorem ofSource_maximal_munch (source : String) :
    ∃ ms rest, Munched source.toList ms rest ∧
      (∀ ms' rest', Munched source.toList ms' rest' → ms' = ms ∧ rest' = rest) ∧
      ((∃ ls, ofSource source = .ok ls) ↔
        textOf ms = source.toList ∧
          ∀ m ∈ ms, m.rule = .integer → Nat.ofDigitChars 10 m.text 0 ≤ 2147483647) ∧
      (∀ ls, ofSource source = .ok ls →
        ls.map Lexeme.token = ms.filterMap Match.token?) ∧
      ∀ e, ofSource source = .error e →
        ∃ us vs, ms = us ++ vs ∧
          (∀ m ∈ us, m.rule = .integer → Nat.ofDigitChars 10 m.text 0 ≤ 2147483647) ∧
          ((∃ m tail, vs = m :: tail ∧ m.rule = .integer ∧
              2147483647 < Nat.ofDigitChars 10 m.text 0 ∧
              e = .tooLarge (String.ofList m.text) (.after (textOf us))) ∨
            (vs = [] ∧ ∃ shown, Stray shown rest ∧
              e = .unrecognized (String.ofList shown) (.after (textOf us)))) := by
  rcases ofSource_cases source with ⟨ms, rest, h, hend⟩
  refine ⟨ms, rest, h, fun ms' rest' h' => h.unique h', ?_⟩
  have htext : textOf ms = source.toList ↔ rest = [] := by
    rw [h.append_eq]
    constructor
    · intro heq
      have heq' : textOf ms ++ [] = textOf ms ++ rest := by rw [List.append_nil]; exact heq
      exact (List.append_cancel_left heq').symm
    · rintro rfl
      rw [List.append_nil]
  rcases hend with ⟨hrest, hrange, hok⟩ | ⟨us, m, vs, rfl, hus, hm, herr⟩ |
    ⟨hrest, hrange, shown, hstray, herr⟩
  · refine ⟨⟨fun _ => ⟨htext.mpr hrest, hrange⟩, fun _ => ⟨_, hok⟩⟩, ?_, ?_⟩
    · intro ls hls
      rw [hok] at hls
      rcases Except.ok.inj hls with rfl
      exact map_token_lexemesFrom [] ms
    · intro e he
      rw [hok] at he
      cases he
  · have hm' := Match.not_inRange.mp hm
    refine ⟨⟨?_, ?_⟩, ?_, ?_⟩
    · rintro ⟨ls, hls⟩
      rw [herr] at hls
      cases hls
    · rintro ⟨-, hall⟩
      exact absurd (hall m (List.mem_append_right us List.mem_cons_self)) hm
    · intro ls hls
      rw [herr] at hls
      cases hls
    · intro e he
      rw [herr] at he
      rcases Except.error.inj he with rfl
      exact ⟨us, m :: vs, rfl, hus, Or.inl ⟨m, vs, rfl, hm'.1, hm'.2, rfl⟩⟩
  · refine ⟨⟨?_, ?_⟩, ?_, ?_⟩
    · rintro ⟨ls, hls⟩
      rw [herr] at hls
      cases hls
    · rintro ⟨hwhole, -⟩
      exact absurd (htext.mp hwhole) hrest
    · intro ls hls
      rw [herr] at hls
      cases hls
    · intro e he
      rw [herr] at he
      rcases Except.error.inj he with rfl
      exact ⟨ms, [], (List.append_nil ms).symm, hrange, Or.inr ⟨rfl, shown, hstray, rfl⟩⟩

/-- A keyword and a name that begins with it, signs that begin with other signs, the name of
    a truth value, a bracket that is escaped, and carriage returns of which the line break
    gets none. Then a point that belongs to no number, and a number that does not fit. -/
theorem maximal_munch_of_overlaps :
    (∃ ms rest, Munched "IF IF1==<=1.5\"TRUE\"[]]\r\r\n".toList ms rest ∧
      textOf ms = "IF IF1==<=1.5\"TRUE\"[]]\r\r\n".toList ∧
      ms.filterMap Match.token? =
        [.keyword .ifKw, .identifier "IF1", .symbol .equal, .symbol .lessEqual,
          .literal (.float (.ofDecimal false ⟨15, -1⟩)), .literal (.bool true), .escape ']',
          .lineBreak]) ∧
    (∃ ms rest shown, Munched "1.x".toList ms rest ∧ Stray shown rest ∧
      SourceError.unrecognized "." ⟨1, 1⟩
        = .unrecognized (String.ofList shown) (.after (textOf ms))) ∧
    ∃ ms rest us, ∃ m ∈ ms, Munched "1\n2147483648".toList ms rest ∧ m.rule = .integer ∧
      SourceError.tooLarge "2147483648" ⟨2, 0⟩
        = .tooLarge (String.ofList m.text) (.after (textOf us)) := by
  refine ⟨?_, ?_, ?_⟩
  · rcases ofSource_maximal_munch "IF IF1==<=1.5\"TRUE\"[]]\r\r\n" with
      ⟨ms, rest, h, -, hok, htokens, -⟩
    have hread : ofSource "IF IF1==<=1.5\"TRUE\"[]]\r\r\n" = .ok
        [⟨.keyword .ifKw, ⟨1, 0⟩⟩, ⟨.identifier "IF1", ⟨1, 3⟩⟩, ⟨.symbol .equal, ⟨1, 6⟩⟩,
          ⟨.symbol .lessEqual, ⟨1, 8⟩⟩, ⟨.literal (.float (.ofDecimal false ⟨15, -1⟩)), ⟨1, 10⟩⟩,
          ⟨.literal (.bool true), ⟨1, 13⟩⟩, ⟨.escape ']', ⟨1, 19⟩⟩, ⟨.lineBreak, ⟨1, 24⟩⟩] := by
      decide +kernel
    exact ⟨ms, rest, h, (hok.mp ⟨_, hread⟩).1, (htokens _ hread).symm⟩
  · rcases ofSource_maximal_munch "1.x" with ⟨ms, rest, h, -, -, -, herror⟩
    have hread : ofSource "1.x" = .error (.unrecognized "." ⟨1, 1⟩) := by decide +kernel
    rcases herror _ hread with ⟨us, vs, rfl, -, ⟨m, tail, -, -, -, heq⟩ | ⟨rfl, shown, hstray, heq⟩⟩
    · cases heq
    · exact ⟨us ++ [], rest, shown, h, hstray, by rw [List.append_nil]; exact heq⟩
  · rcases ofSource_maximal_munch "1\n2147483648" with ⟨ms, rest, h, -, -, -, herror⟩
    have hread : ofSource "1\n2147483648" = .error (.tooLarge "2147483648" ⟨2, 0⟩) := by
      decide +kernel
    rcases herror _ hread with ⟨us, vs, rfl, -, ⟨m, tail, rfl, hm, -, heq⟩ | ⟨-, shown, -, heq⟩⟩
    · exact ⟨_, rest, us, m, List.mem_append_right us List.mem_cons_self, h, hm, heq⟩
    · cases heq

/-- Every position is right. The lexeme at some place of the result is the match with as
    many tokens before it, and it stands behind the text of all matches before it. An error
    stands behind the matches before what it shows. And there are as many line breaks as
    line feeds. -/
theorem ofSource_positions (source : String) :
    ∃ ms rest, Munched source.toList ms rest ∧
      (∀ ls, ofSource source = .ok ls →
        (∀ i l, ls[i]? = some l →
          ∃ us m vs, ms = us ++ m :: vs ∧ (us.filterMap Match.token?).length = i ∧
            m.token? = some l.token ∧ l.pos = .after (textOf us)) ∧
          ls.countP (fun l => l.token = .lineBreak) = source.toList.count '\n') ∧
      ∀ e, ofSource source = .error e →
        ∃ us vs shown tail, ms = us ++ vs ∧ source.toList = textOf us ++ (shown ++ tail) ∧
          shown ≠ [] ∧ (∀ m ∈ us, m.InRange) ∧ (∀ m ∈ vs.head?, ¬ m.InRange) ∧
          (e = .tooLarge (String.ofList shown) (.after (textOf us)) ∨
            e = .unrecognized (String.ofList shown) (.after (textOf us))) := by
  rcases ofSource_cases source with ⟨ms, rest, h, hend⟩
  refine ⟨ms, rest, h, ?_⟩
  rcases hend with ⟨rfl, hrange, hok⟩ | ⟨us, m, vs, rfl, hus, hm, herr⟩ |
    ⟨hrest, hrange, shown, hstray, herr⟩
  · constructor
    · intro ls hls
      rw [hok] at hls
      rcases Except.ok.inj hls with rfl
      refine ⟨fun i l hl => exists_of_getElem?_lexemesFrom hl, ?_⟩
      rw [count_lineBreak_lexemesFrom [] h.valid, h.append_eq, List.append_nil]
    · intro e he
      rw [hok] at he
      cases he
  · constructor
    · intro ls hls
      rw [herr] at hls
      cases hls
    · intro e he
      rw [herr] at he
      rcases Except.error.inj he with rfl
      have hmem : m ∈ us ++ m :: vs := List.mem_append_right us List.mem_cons_self
      refine ⟨us, m :: vs, m.text, textOf vs ++ rest, rfl, ?_, ?_, hus, ?_, Or.inl rfl⟩
      · rw [h.append_eq, textOf_append, textOf_cons, List.append_assoc, List.append_assoc]
      · exact ne_nil_of_mem_lexemes (h.valid m hmem).mem_lexemes
      · intro m' hm'
        rcases Option.some.inj hm' with rfl
        exact hm
  · constructor
    · intro ls hls
      rw [herr] at hls
      cases hls
    · intro e he
      rw [herr] at he
      rcases Except.error.inj he with rfl
      have hshown : shown ≠ [] ∧ shown <+: rest := by
        cases hstray with
        | begun hne hfront _ _ => exact ⟨hne, hfront⟩
        | single _ => exact ⟨List.cons_ne_nil _ _, ⟨_, rfl⟩⟩
      rcases hshown.2 with ⟨tail, htail⟩
      refine ⟨ms, [], shown, tail, (List.append_nil ms).symm, ?_, hshown.1, hrange, nofun,
        Or.inr rfl⟩
      rw [htail]
      exact h.append_eq

/-- A text and a comment with a character of two bytes, of which the comment takes the
    carriage return; then a name on the third line; and a quote that is not closed. -/
theorem positions_after_wide_characters :
    (∃ ms rest us m vs, Munched "\"é\" #é\r\n\n\tx".toList ms rest ∧ ms = us ++ m :: vs ∧
      m.token? = some (.identifier "x") ∧ Position.after (textOf us) = ⟨3, 1⟩ ∧
      "\"é\" #é\r\n\n\tx".toList.count '\n' = 2) ∧
    ∃ ms rest us vs, Munched "x\n \"é".toList ms rest ∧ ms = us ++ vs ∧
      Position.after (textOf us) = ⟨2, 1⟩ := by
  constructor
  · rcases ofSource_positions "\"é\" #é\r\n\n\tx" with ⟨ms, rest, h, hok, -⟩
    have hread : ofSource "\"é\" #é\r\n\n\tx" = .ok
        [⟨.literal (.string "é"), ⟨1, 0⟩⟩, ⟨.lineBreak, ⟨1, 7⟩⟩, ⟨.lineBreak, ⟨2, 0⟩⟩,
          ⟨.identifier "x", ⟨3, 1⟩⟩] := by
      decide +kernel
    rcases hok _ hread with ⟨hplaces, hcount⟩
    rcases hplaces 3 _ rfl with ⟨us, m, vs, hms, -, htoken, hpos⟩
    exact ⟨ms, rest, us, m, vs, h, hms, htoken, hpos.symm, hcount.symm⟩
  · rcases ofSource_positions "x\n \"é" with ⟨ms, rest, h, -, herror⟩
    have hread : ofSource "x\n \"é" = .error (.unrecognized "\"é" ⟨2, 1⟩) := by decide +kernel
    rcases herror _ hread with ⟨us, vs, shown, tail, hms, -, -, -, -, heq | heq⟩
    · cases heq
    · refine ⟨ms, rest, us, vs, h, hms, ?_⟩
      simp only [SourceError.unrecognized.injEq] at heq
      exact heq.2.symm

end Lexing

end Primer
