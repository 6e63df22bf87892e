import Primer.Proofs.RoundTrip.Expressible

/-!
# Cutting a Layout

The tokens that a layout is cut into are the tokens that were laid out.

Every token is written so that it is cut again as itself if it is followed by a blank, by a
line feed or by nothing. What follows matters: a word goes on as long as there are letters, a
whole number becomes another one if a point and a digit follow it, and `<` is not `<` any
more in front of `>`. A layout separates its tokens for this reason. The blanks in turn have
to end where the next token begins, so no token may begin with a blank.

The positions in the cut play no role here, and so the statement about a text is made for
cuts from any position.

## Main definitions

* `Token.Ends`: What may follow a token in a layout.
* `Token.CutFrom`: A text that is cut as a token wherever it ends.
* `Lexeme.Yields`: A text that is cut into given tokens.

## Theorems

* `Token.cutFrom_text`: A token is cut from its text.
* `Lexeme.yields_layout`: Tokens are cut from their layout.
-/

namespace Primer

namespace Token

/-- What may follow a token in a layout: nothing, a blank or a line feed. -/
def Ends (rest : List Char) : Prop :=
  ∀ c ∈ rest.head?, c = ' ' ∨ c = '\n'

/-- Wherever the text ends, the token is cut from it, and it does not begin with a blank. -/
def CutFrom (t : Token) (w : List Char) : Prop :=
  ∃ c cs, w = c :: cs ∧ Piece.isGap c = false ∧
    ∀ rest, Ends rest → Piece.scan c (cs ++ rest) = .token t cs.length

section Runs

variable {p : Char → Bool} {c : Char} {w rest : List Char}

theorem takeWhile_append_of_ends (hw : ∀ c ∈ w, p c) (hblank : p ' ' = false)
    (hfeed : p '\n' = false) (h : Ends rest) : (w ++ rest).takeWhile p = w := by
  rw [List.takeWhile_append_of_pos hw]
  cases rest with
  | nil => rw [List.takeWhile_nil, List.append_nil]
  | cons c rest =>
      have hc : ¬ p c = true := by
        rcases h c rfl with rfl | rfl
        · rw [hblank]; decide
        · rw [hfeed]; decide
      rw [List.takeWhile_cons_of_neg hc, List.append_nil]

theorem dropWhile_append_of_ends (hw : ∀ c ∈ w, p c) (hblank : p ' ' = false)
    (hfeed : p '\n' = false) (h : Ends rest) : (w ++ rest).dropWhile p = rest := by
  have happend := List.takeWhile_append_dropWhile (p := p) (l := w ++ rest)
  rw [takeWhile_append_of_ends hw hblank hfeed h] at happend
  exact List.append_cancel_left happend

/-- A character of a class without blanks is no blank. -/
theorem isGap_eq_false (hc : p c = true)
    (h : [' ', '\t', '\x0c', '\r'].all (fun d => !p d) = true) : Piece.isGap c = false := by
  rw [Bool.eq_false_iff]
  intro hgap
  have hmem : c ∈ [' ', '\t', '\x0c', '\r'] := by
    simpa using Lexing.isGap_iff.mp hgap
  have hnot := List.all_eq_true.mp h c hmem
  rw [hc] at hnot
  cases hnot

end Runs

theorem digit_of_mem_integer {w : List Char} (hw : w ∈ Lexing.Rule.language .integer) :
    ∀ c ∈ w, c.isDigit = true :=
  (Lexing.Rule.mem_integer.mp hw).2

theorem cutFrom_int {n : Int32} (hn : 0 ≤ n) :
    CutFrom (.literal (.int n)) (Nat.toDigits 10 n.toInt.toNat) := by
  have hnonneg : 0 ≤ n.toInt := Int32.le_iff_toInt_le.mp hn
  have hlt : n.toInt.toNat < 0x80000000 := by
    have := n.toInt_lt
    omega
  have hvalue : Int32.ofNat n.toInt.toNat = n := by
    rw [← Int32.ofInt_eq_ofNat, Int.toNat_of_nonneg hnonneg, Int32.ofInt_toInt]
  have hdigits : ∀ c ∈ Nat.toDigits 10 n.toInt.toNat, c.isDigit = true := fun c hc =>
    Nat.isDigit_of_mem_toDigits (by decide) (by decide) hc
  have hread : Nat.ofDigitChars 10 (Nat.toDigits 10 n.toInt.toNat) 0 = n.toInt.toNat :=
    Nat.ofDigitChars_ten_toDigits
  cases hw : Nat.toDigits 10 n.toInt.toNat with
  | nil => exact absurd hw Nat.toDigits_ne_nil
  | cons c cs =>
      rw [hw] at hdigits hread
      rcases List.forall_mem_cons.mp hdigits with ⟨hc, hcs⟩
      refine ⟨c, cs, rfl, isGap_eq_false hc (by decide), fun rest hrest => ?_⟩
      unfold Piece.scan Piece.scanNumber
      simp only [hc, if_true, takeWhile_append_of_ends hcs (by decide) (by decide) hrest,
        dropWhile_append_of_ends hcs (by decide) (by decide) hrest]
      -- No point follows the digits.
      have hint : Piece.scanNumber.scanInt (c :: cs) = .token (.literal (.int n)) cs.length := by
        unfold Piece.scanNumber.scanInt
        simp only [hread, hlt, if_true, hvalue, List.length_cons, Nat.add_sub_cancel]
      split
      · rcases hrest '.' rfl with h | h <;> exact absurd h (by decide)
      · exact hint

theorem cutFrom_float {x : Binary32} (hx : (Literal.float x).Expressible) :
    CutFrom (.literal (.float x)) x.spelling.toList := by
  rcases hx with ⟨w, hw, hx⟩
  rcases Lexing.Rule.mem_real.mp hw with ⟨whole, fraction, hwhole, hfraction, rfl⟩
  have hunsigned := Binary32.unsigned_of_ofText?_point (digit_of_mem_integer hwhole)
    (Lexing.Rule.mem_integer.mp hwhole).1 (digit_of_mem_integer hfraction) hx
  clear hwhole hfraction hx hw whole fraction
  -- The spelling of the number need not be the one that it was read from.
  rcases Binary32.ofText?_spelling hunsigned with
    ⟨whole, fraction, htext, hwhole, hne, hfraction, hne', hread⟩
  rw [htext, Binary32.ofText?_point hwhole hne hfraction] at hread
  have hvalue := Option.some.inj hread
  rw [htext, String.toList_ofList]
  cases whole with
  | nil => exact absurd rfl hne
  | cons c whole =>
      cases fraction with
      | nil => exact absurd rfl hne'
      | cons d fraction =>
          rcases List.forall_mem_cons.mp hwhole with ⟨hc, hwhole⟩
          rcases List.forall_mem_cons.mp hfraction with ⟨hd, hfraction⟩
          refine ⟨c, whole ++ '.' :: d :: fraction, rfl, isGap_eq_false hc (by decide),
            fun rest hrest => ?_⟩
          have hassoc : whole ++ '.' :: d :: fraction ++ rest
              = whole ++ '.' :: (d :: (fraction ++ rest)) := List.append_assoc _ _ _
          rw [hassoc]
          unfold Piece.scan Piece.scanNumber
          simp only [hc, hd, if_true, Binary32.takeWhile_isDigit_point hwhole,
            Binary32.dropWhile_isDigit_point hwhole,
            takeWhile_append_of_ends hfraction (by decide) (by decide) hrest]
          rw [hvalue]
          congr 1
          simp only [List.length_cons, List.length_append]
          omega

theorem cutFrom_quoted {body : List Char} (hbody : ∀ c ∈ body, c ≠ '"' ∧ c ≠ '\n') :
    CutFrom (Piece.ofQuoted (String.ofList body)) ('"' :: (body ++ ['"'])) := by
  refine ⟨'"', body ++ ['"'], rfl, rfl, fun rest _ => ?_⟩
  have hpart : ∀ c ∈ body, (c != '"' && c != '\n') = true := fun c hc => by
    simpa using hbody c hc
  have htake : (body ++ '"' :: rest).takeWhile (fun c => c != '"' && c != '\n') = body := by
    rw [List.takeWhile_append_of_pos hpart, List.takeWhile_cons_of_neg (by decide),
      List.append_nil]
  have hscan : Piece.scan '"' (body ++ '"' :: rest) = Piece.scanText (body ++ '"' :: rest) := rfl
  rw [List.append_assoc, List.singleton_append, hscan]
  unfold Piece.scanText
  simp only [htake, List.drop_left, List.length_append, List.length_singleton]

theorem cutFrom_word {w : List Char} (hw : w ∈ Lexing.Rule.language .identifier) :
    CutFrom (Piece.ofWord (String.ofList w)) w := by
  rcases Lexing.Rule.mem_identifier.mp hw with ⟨c, cs, hc, hcs, rfl⟩
  have hstart : Piece.isWordStart c = true := Lexing.isWordStart_iff.mpr hc
  have hpart : ∀ d ∈ cs, Piece.isWordPart d = true := fun d hd =>
    Lexing.isWordPart_iff.mpr (hcs d hd)
  have hdigit : ¬ c.isDigit = true := by
    intro hd
    have hfamily := Lexing.Rule.familyOf?_of_letter hc
    rw [Lexing.familyOf?, if_pos hd] at hfamily
    cases hfamily
  refine ⟨c, cs, rfl, isGap_eq_false hstart (by decide), fun rest hrest => ?_⟩
  unfold Piece.scan Piece.scanWord
  rw [if_neg hdigit, if_pos hstart]
  simp only [takeWhile_append_of_ends hpart (by decide) (by decide) hrest]

theorem cutFrom_symbol (s : Symbol) : CutFrom (.symbol s) s.text.toList := by
  have hfollow : ∀ rest, Ends rest → rest = [] ∨ (∃ tail, rest = ' ' :: tail) ∨
      ∃ tail, rest = '\n' :: tail := by
    intro rest hrest
    cases rest with
    | nil => exact Or.inl rfl
    | cons c tail =>
        rcases hrest c rfl with rfl | rfl
        · exact Or.inr (Or.inl ⟨tail, rfl⟩)
        · exact Or.inr (Or.inr ⟨tail, rfl⟩)
  -- Two signs may begin alike, so it has to be seen what follows.
  cases s <;> refine ⟨_, _, rfl, rfl, fun rest hrest => ?_⟩ <;>
    rcases hfollow rest hrest with rfl | ⟨tail, rfl⟩ | ⟨tail, rfl⟩ <;> rfl

theorem cutFrom_char {c : Char} (hquote : c ≠ '\'') (hfeed : c ≠ '\n') :
    CutFrom (.literal (.char c)) ['\'', c, '\''] := by
  refine ⟨'\'', [c, '\''], rfl, rfl, fun rest _ => ?_⟩
  have hscan : Piece.scan '\'' ([c, '\''] ++ rest) = Piece.scanChar (c :: '\'' :: rest) := rfl
  rw [hscan, Piece.scanChar, if_neg (by simp [hquote, hfeed])]
  rfl

theorem cutFrom_escape {c : Char} (hfeed : c ≠ '\n') : CutFrom (.escape c) ['[', c, ']'] := by
  refine ⟨'[', [c, ']'], rfl, rfl, fun rest _ => ?_⟩
  have hscan : Piece.scan '[' ([c, ']'] ++ rest) = Piece.scanEscape (c :: ']' :: rest) := rfl
  rw [hscan, Piece.scanEscape, if_neg (by simp [hfeed])]
  rfl

/-- A token is cut from its text. -/
theorem cutFrom_text {t : Token} (h : t.Writable) : CutFrom t t.text := by
  cases t with
  | literal v =>
      cases v with
      | int n => exact cutFrom_int h
      | float x => exact cutFrom_float h
      | bool b =>
          cases b with
          | true => exact cutFrom_quoted (List.all_iff_forall_prop.mp (by decide))
          | false => exact cutFrom_quoted (List.all_iff_forall_prop.mp (by decide))
      | char c => exact cutFrom_char h.1 h.2
      | string s =>
          have hcut := cutFrom_quoted h.1
          rw [String.ofList_toList, Piece.ofQuoted, if_neg h.2.1, if_neg h.2.2] at hcut
          exact hcut
  | escape c => exact cutFrom_escape h
  | keyword k =>
      have hcut := cutFrom_word (Lexing.Rule.keyword_le_identifier (k := k) rfl)
      rw [String.ofList_toList, Piece.ofWord, Keyword.ofWord?_eq_some.mpr rfl] at hcut
      exact hcut
  | type t =>
      have hkeyword : Keyword.ofWord? t.name = none :=
        Keyword.ofWord?_eq_none.mpr fun k => (t.name_ne_word k).symm
      have hcut := cutFrom_word (Lexing.Rule.type_le_identifier (t := t) rfl)
      rw [String.ofList_toList, Piece.ofWord, hkeyword, DataType.ofName?_eq_some.mpr rfl] at hcut
      exact hcut
  | identifier name =>
      have hcut := cutFrom_word h.shape
      rw [String.ofList_toList, Piece.ofWord, Keyword.ofWord?_eq_none.mpr h.ne_keyword,
        DataType.ofName?_eq_none.mpr h.ne_type] at hcut
      exact hcut
  | symbol s => exact cutFrom_symbol s
  | lineBreak => exact ⟨'\n', [], rfl, rfl, fun _ _ => rfl⟩

end Token

open Token

/-- Behind a token that is no line break, the rest of a layout begins with a blank or a line
    feed. -/
theorem ends_layout {t : Token} (hline : t ≠ .lineBreak) (ts : List Token) :
    Ends (gapBetween t ts ++ layout ts) := by
  intro c hc
  unfold gapBetween at hc
  by_cases hend : ts = [] ∨ ts.head? = some .lineBreak
  · rw [if_pos (Or.inr hend), List.nil_append] at hc
    rcases hend with rfl | hhead
    · cases hc
    · rcases List.head?_eq_some_iff.mp hhead with ⟨us, rfl⟩
      exact Or.inr (Option.some.inj hc).symm
  · rw [if_neg (not_or.mpr ⟨hline, hend⟩)] at hc
    exact Or.inl (Option.some.inj hc).symm

namespace Lexeme

variable {t : Token} {ts : List Token} {c : Char} {cs rest : List Char}

/-- From every position the text is cut into the given tokens. -/
def Yields (cs : List Char) (ts : List Token) : Prop :=
  ∀ pos, ∃ ls, cut pos 0 cs = .ok ls ∧ ls.map Lexeme.token = ts

theorem Yields.cons (h : Yields rest ts)
    (hscan : Piece.scan c (cs ++ rest) = .token t cs.length) :
    Yields (c :: (cs ++ rest)) (t :: ts) := by
  intro pos
  rcases h (if t = .lineBreak then pos.nextLine else pos.advance (cs.length + 1)) with
    ⟨ls, hcut, hls⟩
  refine ⟨⟨t, pos⟩ :: ls, ?_, by rw [List.map_cons, hls]⟩
  rw [cut, hscan]
  simp only [Lexing.cut_owned, hcut]
  rfl

/-- A blank in front of a text is left out. -/
theorem Yields.blank (hc : Piece.isGap c = false) (h : Yields (c :: cs) ts) :
    Yields (' ' :: c :: cs) ts := by
  intro pos
  have hscan : Piece.scan ' ' (c :: cs) = .gap 0 := by
    have htake : (c :: cs).takeWhile Piece.isGap = [] :=
      List.takeWhile_cons_of_neg (by rw [hc]; decide)
    have hgap : Piece.scan ' ' (c :: cs) = .gap ((c :: cs).takeWhile Piece.isGap).length := rfl
    rw [hgap, htake]
    rfl
  rw [cut, hscan]
  exact h (pos.advance 1)

/-- The blank in front of a layout, if there is one, ends where the first token begins. -/
theorem Yields.gap (hts : ∀ t ∈ ts, t.Writable) (h : Yields (layout ts) ts) (t : Token) :
    Yields (gapBetween t ts ++ layout ts) ts := by
  unfold gapBetween
  by_cases hend : t = .lineBreak ∨ ts = [] ∨ ts.head? = some .lineBreak
  · rw [if_pos hend]
    exact h
  · rw [if_neg hend]
    cases ts with
    | nil => exact absurd (Or.inr (Or.inl rfl)) hend
    | cons u us =>
        rcases cutFrom_text (hts u List.mem_cons_self) with ⟨c, cs, htext, hc, -⟩
        rw [layout, htext] at h ⊢
        exact h.blank hc

/-- Tokens are cut from their layout. -/
theorem yields_layout (h : ∀ t ∈ ts, t.Writable) : Yields (layout ts) ts := by
  induction ts with
  | nil => exact fun _ => ⟨[], rfl, rfl⟩
  | cons t ts ih =>
      rcases List.forall_mem_cons.mp h with ⟨ht, hts⟩
      have hrest : Yields (gapBetween t ts ++ layout ts) ts := (ih hts).gap hts t
      rcases cutFrom_text ht with ⟨c, cs, htext, -, hcut⟩
      have hscan : Piece.scan c (cs ++ (gapBetween t ts ++ layout ts)) = .token t cs.length := by
        by_cases hline : t = .lineBreak
        · -- A line feed is a token by itself, whatever follows it.
          subst hline
          rcases List.cons.inj htext with ⟨rfl, rfl⟩
          rfl
        · exact hcut _ (ends_layout hline ts)
      rw [layout, htext]
      exact hrest.cons hscan

end Lexeme

end Primer
