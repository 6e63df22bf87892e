import Primer.Proofs.Layout.Insertion
import Primer.Proofs.Layout.Padding

/-!
# Layout Does Not Change the Program

A source text may be laid out anew. Blanks can be inserted wherever no token is cut in two, a
comment in front of a line break or at the end, and a line break behind another one. The
text that comes about is read as the same program, up to positions.

`Relaid` lists these changes. Each of them has its effect on the tokens: none in the case of
blanks and comments, and one line break more, behind another one, in the case of a line break.
In both cases the lexemes of the new text are those of the old one with padding, and how
a program is written does not depend on padding.

A boundary is a statement about the cut of a text. `scans` computes whether some texts are the
lexemes of a text in order, so that a given place can be checked to be a boundary.

## Main definitions

* `Lexing.Relaid`: A text with layout inserted.
* `Lexing.scans`: Whether some texts are scanned one after the other.

## Theorems

* `Lexing.exists_munched_of_scans`: Texts that are scanned in a row are the cut of their text.
* `Lexing.Relaid.exists_padded`: The lexemes of a text that was laid out anew.
* `Program.ofSource_relaid`: A text that was laid out anew is the same program.
-/

namespace Primer

namespace Lexing

open Lexeme

/-- The second text is the first one with layout inserted: some blanks, a comment in front of a
    line break or at the end, or a line break behind another one. -/
inductive Relaid : List Char → List Char → Prop where
  | blanks {u v w : List Char} (h : Boundary u v)
      (hw : ∀ c ∈ w, c = ' ' ∨ c = '\t' ∨ c = '\x0c') : Relaid (u ++ v) (u ++ (w ++ v))
  | comment {u v body : List Char} (h : Boundary u v) (hbody : '\n' ∉ body)
      (hv : v = [] ∨ ∃ b ∈ Rule.language .lineBreak, ∃ rest, v = b ++ rest) :
      Relaid (u ++ v) (u ++ ('#' :: (body ++ v)))
  | lineBreak {us vs : List Match} {m : Match} {b : List Char}
      (h : Munched (textOf us ++ (m.text ++ textOf vs)) (us ++ m :: vs) [])
      (hm : m.token? = some .lineBreak) (hb : b ∈ Rule.language .lineBreak) :
      Relaid (textOf us ++ (m.text ++ textOf vs)) (textOf us ++ (m.text ++ (b ++ textOf vs)))

section Places

variable {ws us vs : List (List Char)}

/-- How many characters follow the first one in a piece that is a lexeme. -/
def more? : Piece → Option Nat
  | .token _ more | .gap more => some more
  | .tooLarge _ | .unrecognized _ => none

/-- Whether some texts are what is scanned, one after the other, when they are joined. -/
def scans : List (List Char) → Bool
  | [] => true
  | [] :: _ => false
  | (c :: w) :: ws => more? (Piece.scan c (w ++ ws.flatten)) == some w.length && scans ws

theorem Tells.exists_front {cs : List Char} {piece : Piece} {n : Nat} (h : Tells cs piece)
    (hmore : more? piece = some n) : ∃ m : Match, m.Front cs ∧ m.text.length = n + 1 := by
  cases piece with
  | token t more | gap more =>
      rcases h with ⟨m, hm, -, -, hlength⟩
      exact ⟨m, hm, by rw [hlength, Option.some.inj hmore]⟩
  | tooLarge digits => cases hmore
  | unrecognized text => cases hmore

/-- Texts that are scanned one after the other are the texts of a cut. -/
theorem exists_munched_of_scans (h : scans ws = true) :
    ∃ ms, Munched ws.flatten ms [] ∧ ms.map Match.text = ws := by
  induction ws with
  | nil => exact ⟨[], .stop fun w _ hw => List.prefix_nil.mp hw, rfl⟩
  | cons w ws ih =>
      cases w with
      | nil => cases h
      | cons c w =>
          rw [scans, Bool.and_eq_true, beq_iff_eq] at h
          rcases (scan_tells c _).exists_front h.1 with ⟨m, hm, hlength⟩
          rcases ih h.2 with ⟨ms, hms, rfl⟩
          have htext : m.text = c :: w := hm.text_eq (List.prefix_append (c :: w) _) hlength
          refine ⟨m :: ms, ?_, by rw [List.map_cons, htext]⟩
          rw [List.flatten_cons, ← htext]
          rw [← List.cons_append, ← htext] at hm
          exact .take hm hms

theorem boundary_of_scans (h : scans (us ++ vs) = true) : Boundary us.flatten vs.flatten := by
  rcases exists_munched_of_scans h with ⟨ms, hms, htexts⟩
  rcases List.map_eq_append_iff.mp htexts with ⟨ms₁, ms₂, rfl, rfl, rfl⟩
  rw [List.flatten_append] at hms
  exact .between hms

theorem relaid_of_scans {a b : List Char} (h : scans (us ++ a :: vs) = true)
    (ha : a ∈ Rule.language .lineBreak) (hb : b ∈ Rule.language .lineBreak) :
    Relaid (us.flatten ++ (a ++ vs.flatten)) (us.flatten ++ (a ++ (b ++ vs.flatten))) := by
  rcases exists_munched_of_scans h with ⟨ms, hms, htexts⟩
  rcases List.map_eq_append_iff.mp htexts with ⟨ms₁, ms₂, rfl, rfl, hrest⟩
  rcases List.map_eq_cons_iff.mp hrest with ⟨m, ms₃, rfl, rfl, rfl⟩
  rw [List.flatten_append, List.flatten_cons] at hms
  have hvalid : m.Valid := hms.valid m (List.mem_append_right _ List.mem_cons_self)
  -- No rule is preferred to the one of line breaks.
  have hrule : m.rule = .lineBreak := by
    rcases hvalid.preferred .lineBreak ha with hrule | hbeats
    · exact hrule.symm
    · cases hm : m.rule <;> rw [hm] at hbeats <;> exact absurd hbeats id
  exact .lineBreak hms (Match.token?_eq_lineBreak.mpr hrule) hb

end Places

/-- A text that was laid out anew is cut into the lexemes of the old one, with padding. -/
theorem Relaid.exists_padded {source source' : String} {ls : List Lexeme}
    (h : Relaid source.toList source'.toList) (hsource : ofSource source = .ok ls) :
    ∃ ls', ofSource source' = .ok ls' ∧ Padded ls ls' := by
  have hgives := gives_of_ofSource hsource
  -- Without a change of the tokens there is nothing to pad.
  have hsame : Gives source'.toList (ls.map Lexeme.token) →
      ∃ ls', ofSource source' = .ok ls' ∧ Padded ls ls' := by
    intro hgives'
    rcases hgives'.ofSource_eq with ⟨ls', hls', htokens⟩
    exact ⟨ls', hls', padded_of_map_token htokens⟩
  generalize hold : source.toList = old at h hgives
  generalize hnew : source'.toList = new at h hsame
  cases h with
  | @blanks u v w hboundary hw =>
      have hwide : ∀ {q : Prop}, ∀ c ∈ w, c = ' ' ∨ c = '\t' ∨ c = '\x0c' ∨ q :=
        fun c hc => (hw c hc).imp_right (Or.imp_right .inl)
      refine hsame (hboundary.gives_insert (fun c hc => ?_) ?_ (fun ts hts => ?_) hgives)
      · exact hwide c (List.mem_of_head? hc)
      · exact fun hfeed => absurd (hw '\n' hfeed) (by decide)
      · exact hts.gaps_append fun c hc => isGap_iff.mpr (hwide c hc)
  | @comment u v body hboundary hbody hv =>
      have hx : ∀ c ∈ ('#' :: body).head?, c = ' ' ∨ c = '\t' ∨ c = '\x0c' ∨ c = '#' := by
        intro c hc
        rcases Option.some.inj hc with rfl
        exact .inr (.inr (.inr rfl))
      have hfeed : '\n' ∉ '#' :: body := by
        rw [List.mem_cons, not_or]
        exact ⟨by decide, hbody⟩
      exact hsame (hboundary.gives_insert hx hfeed
        (fun ts hts => hts.comment_append hbody hv) hgives)
  | @lineBreak us vs m b hmunched hm hb =>
      rcases hmunched.gives_insert_lineBreak (Match.token?_eq_lineBreak.mp hm) hb hgives with
        ⟨ts, us, hts, hgives'⟩
      rw [← hnew] at hgives'
      rcases hgives'.ofSource_eq with ⟨ls', hls', htokens⟩
      exact ⟨ls', hls', padded_of_break hts htokens⟩

end Lexing

namespace Program

/-- A source text of a program that is laid out anew is a source text of the same program, up
    to positions. -/
theorem ofSource_relaid {source source' : String} {p : Program} (hp : ofSource source = .ok p)
    (h : Lexing.Relaid source.toList source'.toList) :
    ∃ q, ofSource source' = .ok q ∧ q.unplaced = p.unplaced := by
  cases hls : Lexeme.ofSource source with
  | error e =>
      rw [ofSource, hls] at hp
      cases hp
  | ok ls =>
      rw [ofSource, hls] at hp
      rcases h.exists_padded hls with ⟨ls', hls', hpadded⟩
      have hwritten : p.Written ls := ofLexemes_eq_ok.mp hp
      rcases hwritten.padded hpadded with ⟨q, hq, heq⟩
      refine ⟨q, ?_, heq⟩
      rw [ofSource, hls']
      exact ofLexemes_eq_ok.mpr hq

open Lexing in
/-- Blanks between two tokens, a comment in front of a carriage return and an empty line leave
    a program with one statement as it is. -/
theorem ofSource_relaid_display :
    let source := "BEGIN CODE\nDISPLAY:1\r\nEND CODE"
    let p : Program := ⟨⟨1, 0⟩, [.display ⟨2, 0⟩ (.literal ⟨2, 8⟩ (.int 1))]⟩
    ofSource source = .ok p ∧
      (∃ q, ofSource "BEGIN CODE\nDISPLAY:\t 1\r\nEND CODE" = .ok q ∧
        q.unplaced = p.unplaced) ∧
      (∃ q, ofSource "BEGIN CODE\nDISPLAY:1#one\r\nEND CODE" = .ok q ∧
        q.unplaced = p.unplaced) ∧
      (∃ q, ofSource "BEGIN CODE\n\r\nDISPLAY:1\r\nEND CODE" = .ok q ∧
        q.unplaced = p.unplaced) := by
  intro source p
  have hp : ofSource source = .ok p := by
    have hread : Lexeme.ofSource source = .ok
        [⟨.keyword .beginKw, ⟨1, 0⟩⟩, ⟨.keyword .codeKw, ⟨1, 6⟩⟩, ⟨.lineBreak, ⟨1, 10⟩⟩,
          ⟨.keyword .displayKw, ⟨2, 0⟩⟩, ⟨.symbol .colon, ⟨2, 7⟩⟩,
          ⟨.literal (.int 1), ⟨2, 8⟩⟩, ⟨.lineBreak, ⟨2, 9⟩⟩,
          ⟨.keyword .endKw, ⟨3, 0⟩⟩, ⟨.keyword .codeKw, ⟨3, 4⟩⟩] := by
      decide +kernel
    rw [ofSource, hread]
    rfl
  let first := ["BEGIN", " ", "CODE"].map String.toList
  let middle := ["DISPLAY", ":"].map String.toList
  let last := ["\r\n", "END", " ", "CODE"].map String.toList
  have hfeed : ['\n'] ∈ Rule.language .lineBreak := Rule.mem_lineBreak.mpr (.inl rfl)
  have hreturn : ['\r', '\n'] ∈ Rule.language .lineBreak := Rule.mem_lineBreak.mpr (.inr rfl)
  have hblanks : Relaid source.toList "BEGIN CODE\nDISPLAY:\t 1\r\nEND CODE".toList := by
    have hboundary : Boundary (first ++ ['\n'] :: middle).flatten (['1'] :: last).flatten :=
      boundary_of_scans (by decide +kernel)
    convert Relaid.blanks hboundary (w := ['\t', ' ']) (by simp) using 1 <;> decide +kernel
  have hcomment : Relaid source.toList "BEGIN CODE\nDISPLAY:1#one\r\nEND CODE".toList := by
    have hboundary : Boundary (first ++ ['\n'] :: (middle ++ [['1']])).flatten last.flatten :=
      boundary_of_scans (by decide +kernel)
    have hbody : '\n' ∉ ['o', 'n', 'e'] := by decide
    have hlast : last.flatten = ['\r', '\n'] ++ "END CODE".toList := by decide +kernel
    convert Relaid.comment hboundary hbody (.inr ⟨_, hreturn, _, hlast⟩) using 1 <;>
      decide +kernel
  have hbreak : Relaid source.toList "BEGIN CODE\n\r\nDISPLAY:1\r\nEND CODE".toList := by
    have hscans : scans (first ++ ['\n'] :: (middle ++ ['1'] :: last)) = true := by
      decide +kernel
    convert relaid_of_scans hscans hfeed hreturn using 1 <;> decide +kernel
  exact ⟨hp, ofSource_relaid hp hblanks, ofSource_relaid hp hcomment, ofSource_relaid hp hbreak⟩

end Program

end Primer
