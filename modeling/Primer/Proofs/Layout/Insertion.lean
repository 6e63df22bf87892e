import Primer.Proofs.Lexing.Closed

/-!
# Inserting Layout

Blanks and comments can be inserted into a source text wherever no token is cut in two, and
the tokens stay what they were. This is less obvious than it sounds, since what is inserted
need not become a lexeme of its own: it may be taken by the comment or the blanks before it, or
take the blanks behind it, or the carriage return of the line break that follows. In all these
cases what changes is only where the layout is cut.

So the statements are about the tokens of a text and not about its cut. `Gives` says what
they are. A text is changed behind some matches, and these stay as long as the character
behind them still closes the last one. From there on, blanks and comments in front of a text do
not change its tokens.

## Main definitions

* `Lexing.Gives`: A text is cut into given tokens.
* `Lexing.Boundary`: A place of a text that is not inside a token.

## Theorems

* `Lexing.gives_of_ofSource`, `Lexing.Gives.ofSource_eq`: The tokens of a source text.
* `Lexing.gives_gap`, `Lexing.gives_comment`, `Lexing.gives_lineBreak`: Layout and line breaks
  in front of a text.
* `Lexing.Gives.gaps_append`, `Lexing.Gives.comment_append`: Layout that is put in front.
* `Lexing.Gives.prepend`: Matches in front of a text that was changed.
* `Lexing.Boundary.gives_insert`: Layout inserted at a boundary.
* `Lexing.Munched.gives_insert_lineBreak`: A line break inserted behind another one.
-/

namespace Primer

namespace Lexing

open Lexeme

/-- The text is cut into lexemes, all in range, that are the given tokens and layout. -/
def Gives (cs : List Char) (ts : List Token) : Prop :=
  ∃ ms, Munched cs ms [] ∧ (∀ m ∈ ms, m.InRange) ∧ ms.filterMap Match.token? = ts

section Cutting

variable {m : Match} {cs : List Char} {ts : List Token}

theorem filterMap_token?_cons (m : Match) (ms : List Match) :
    (m :: ms).filterMap Match.token? = m.token?.toList ++ ms.filterMap Match.token? := by
  rw [List.filterMap_cons]
  cases m.token? <;> rfl

theorem Match.Front.text_eq {w : List Char} (h : m.Front cs) (hw : w <+: cs)
    (hlength : m.text.length = w.length) : m.text = w :=
  (List.prefix_of_prefix_length_le h.isPrefix hw hlength.le).eq_of_length hlength

/-- The first lexeme of a text and the rest of it. -/
theorem Match.Front.gives_iff (h : m.Front (m.text ++ cs)) :
    Gives (m.text ++ cs) ts ↔
      m.InRange ∧ ∃ ts', Gives cs ts' ∧ ts = m.token?.toList ++ ts' := by
  constructor
  · rintro ⟨ms, hms, hrange, rfl⟩
    generalize htext : m.text ++ cs = text at hms
    -- The longest lexeme is the only one, so the cut begins with it.
    cases hms with
    | stop hstop =>
        have hnil := hstop m.text h.toValid.mem_lexemes (htext ▸ h.isPrefix)
        exact absurd hnil h.ne_nil
    | @take m' cs' _ ms' hm' hms' =>
        rw [← htext] at hm'
        rcases h.unique hm' with rfl
        rcases List.append_cancel_left htext with rfl
        rcases List.forall_mem_cons.mp hrange with ⟨hm, hrest⟩
        exact ⟨hm, _, ⟨ms', hms', hrest, rfl⟩, filterMap_token?_cons m ms'⟩
  · rintro ⟨hm, ts', ⟨ms, hms, hrange, rfl⟩, rfl⟩
    exact ⟨m :: ms, .take h hms, List.forall_mem_cons.mpr ⟨hm, hrange⟩,
      filterMap_token?_cons m ms⟩

theorem gives_of_ofSource {source : String} {ls : List Lexeme} (h : ofSource source = .ok ls) :
    Gives source.toList (ls.map Lexeme.token) := by
  rcases ofSource_cases source with ⟨ms, rest, hms,
    ⟨rfl, hrange, hok⟩ | ⟨us, m, vs, -, -, -, herr⟩ | ⟨-, -, shown, -, herr⟩⟩
  · rw [h] at hok
    rcases Except.ok.inj hok with rfl
    exact ⟨ms, hms, hrange, (map_token_lexemesFrom [] ms).symm⟩
  · rw [h] at herr
    cases herr
  · rw [h] at herr
    cases herr

theorem Gives.ofSource_eq {source : String} (h : Gives source.toList ts) :
    ∃ ls, ofSource source = .ok ls ∧ ls.map Lexeme.token = ts := by
  rcases h with ⟨ms, hms, hrange, rfl⟩
  rcases ofSource_cases source with ⟨ms', rest, hms', hend⟩
  -- There is one cut only, and it rules out both errors.
  rcases hms.unique hms' with ⟨rfl, rfl⟩
  rcases hend with ⟨-, -, hok⟩ | ⟨us, m, vs, rfl, -, hm, -⟩ | ⟨hrest, -⟩
  · exact ⟨_, hok, map_token_lexemesFrom [] ms'⟩
  · exact absurd (hrange m (List.mem_append_right us List.mem_cons_self)) hm
  · exact absurd rfl hrest

end Cutting

section Front

variable {c : Char} {cs : List Char} {ts : List Token}

/-- Layout at the front of a text is no token. -/
theorem Tells.gives_iff_of_gap {more : Nat} (h : Tells (c :: cs) (.gap more)) :
    Gives (c :: cs) ts ↔ Gives (cs.drop more) ts := by
  rcases h with ⟨m, hfront, hrange, htoken, hlength⟩
  have htext : c :: cs = m.text ++ cs.drop more := by
    rcases hfront.isPrefix with ⟨rest, hrest⟩
    have hdrop := congrArg (List.drop (more + 1)) hrest
    rw [← hlength, List.drop_left, hlength, List.drop_succ_cons] at hdrop
    rw [← hdrop, hrest]
  rw [htext] at hfront ⊢
  rw [hfront.gives_iff, htoken]
  constructor
  · rintro ⟨-, ts', h, rfl⟩
    exact h
  · exact fun h => ⟨hrange, ts, h, rfl⟩

theorem drop_takeWhile_length {α : Type} (p : α → Bool) (xs : List α) :
    xs.drop (xs.takeWhile p).length = xs.dropWhile p := by
  have hsplit := List.takeWhile_append_dropWhile (p := p) (l := xs)
  calc xs.drop (xs.takeWhile p).length
      = (xs.takeWhile p ++ xs.dropWhile p).drop (xs.takeWhile p).length := by rw [hsplit]
    _ = xs.dropWhile p := List.drop_left

/-- A comment goes up to the end of its line. -/
theorem gives_comment : Gives ('#' :: cs) ts ↔ Gives (cs.dropWhile (· != '\n')) ts := by
  rw [comment_tells.gives_iff_of_gap, drop_takeWhile_length]

/-- Blanks go on as long as there are blanks. -/
theorem gives_gap (hc : Piece.isGap c = true) (hbreak : ¬ (c = '\r' ∧ cs.head? = some '\n')) :
    Gives (c :: cs) ts ↔ Gives (cs.dropWhile Piece.isGap) ts := by
  rw [(blanks_tells hc hbreak).gives_iff_of_gap, drop_takeWhile_length]

/-- Both line breaks are the same token. -/
theorem gives_lineBreak {b : List Char} (hb : b ∈ Rule.language .lineBreak) :
    Gives (b ++ cs) ts ↔ ∃ ts', Gives cs ts' ∧ ts = .lineBreak :: ts' := by
  have hb' := Rule.mem_lineBreak.mp hb
  have htells : Tells (b ++ cs) (.token .lineBreak (b.length - 1)) := lineBreak_tells hb'
  rcases htells with ⟨m, hfront, hrange, htoken, hlength⟩
  have htext : m.text = b := by
    refine hfront.text_eq (List.prefix_append b cs) ?_
    rcases hb' with rfl | rfl <;> exact hlength
  rw [← htext] at hfront ⊢
  rw [hfront.gives_iff, htoken]
  exact ⟨fun h => h.2, fun h => ⟨hrange, h⟩⟩

/-- The carriage return in front of a line feed makes no difference. -/
theorem gives_feed_iff : Gives ('\r' :: '\n' :: cs) ts ↔ Gives ('\n' :: cs) ts :=
  (gives_lineBreak (b := ['\r', '\n']) (Rule.mem_lineBreak.mpr (.inr rfl))).trans
    (gives_lineBreak (b := ['\n']) (Rule.mem_lineBreak.mpr (.inl rfl))).symm

/-- Blanks at the front can be left out. -/
theorem Gives.dropGaps (h : Gives cs ts) : Gives (cs.dropWhile Piece.isGap) ts := by
  cases cs with
  | nil => exact h
  | cons c cs =>
      by_cases hc : Piece.isGap c = true
      · rw [List.dropWhile_cons_of_pos hc]
        by_cases hbreak : c = '\r' ∧ cs.head? = some '\n'
        · -- What looks like a blank belongs to the line break.
          rcases hbreak with ⟨rfl, hhead⟩
          rcases List.head?_eq_some_iff.mp hhead with ⟨rest, rfl⟩
          exact gives_feed_iff.mp h
        · exact (gives_gap hc hbreak).mp h
      · rw [List.dropWhile_cons_of_neg hc]
        exact h

/-- A blank can be put in front. -/
theorem Gives.gap_cons (h : Gives cs ts) (hc : Piece.isGap c = true) : Gives (c :: cs) ts := by
  by_cases hbreak : c = '\r' ∧ cs.head? = some '\n'
  · -- The blank becomes part of the line break, which is the same token with it.
    rcases hbreak with ⟨rfl, hhead⟩
    rcases List.head?_eq_some_iff.mp hhead with ⟨rest, rfl⟩
    exact gives_feed_iff.mpr h
  · exact (gives_gap hc hbreak).mpr h.dropGaps

theorem Gives.gaps_append (h : Gives cs ts) {w : List Char}
    (hw : ∀ c ∈ w, Piece.isGap c = true) : Gives (w ++ cs) ts := by
  induction w with
  | nil => exact h
  | cons c w ih =>
      rcases List.forall_mem_cons.mp hw with ⟨hc, hrest⟩
      exact (ih hrest).gap_cons hc

/-- A comment can be put in front of a line break and at the end of a text. -/
theorem Gives.comment_append (h : Gives cs ts) {body : List Char} (hbody : '\n' ∉ body)
    (hcs : cs = [] ∨ ∃ b ∈ Rule.language .lineBreak, ∃ rest, cs = b ++ rest) :
    Gives ('#' :: (body ++ cs)) ts := by
  have hpart : ∀ c ∈ body, (c != '\n') = true := by
    intro c hc
    rw [bne_iff_ne]
    rintro rfl
    exact hbody hc
  rw [gives_comment, List.dropWhile_append_of_pos hpart]
  rcases hcs with rfl | ⟨b, hb, rest, rfl⟩
  · exact h
  · rcases Rule.mem_lineBreak.mp hb with rfl | rfl
    · exact h
    · -- The comment takes the carriage return.
      exact gives_feed_iff.mp h

end Front

section Matches

variable {m : Match} {us vs ms : List Match} {cs cs' rest : List Char} {ts : List Token}

theorem Munched.of_cons (h : Munched (m.text ++ cs) (m :: ms) rest) :
    m.Front (m.text ++ cs) ∧ Munched cs ms rest := by
  generalize htext : m.text ++ cs = text at h
  cases h with
  | take hm h =>
      rcases List.append_cancel_left htext with rfl
      exact ⟨hm, h⟩

theorem Munched.of_append (h : Munched (textOf us ++ cs) (us ++ vs) rest) :
    Munched cs vs rest := by
  induction us with
  | nil => exact h
  | cons m us ih =>
      rw [textOf_cons, List.append_assoc, List.cons_append] at h
      exact ih h.of_cons.2

/-- A lexeme does not begin with a point. -/
theorem Match.Valid.head_ne_point (h : m.Valid) : ∀ c ∈ (m.text ++ cs).head?, c ≠ '.' := by
  rcases Rule.opens_of_mem h.mem with ⟨d, tail, htext, hd⟩
  rintro c hc rfl
  rw [htext] at hc
  rcases Option.some.inj hc with rfl
  have hnone : familyOf? '.' = none := by decide
  rw [hnone] at hd
  cases hd

/-- The last of some matches is closed by what follows them. -/
theorem Munched.closed_of_getLast? (h : Munched (textOf us ++ cs) (us ++ vs) []) :
    ∀ m ∈ us.getLast?, ∀ c ∈ cs.head?, m.Closed c := by
  intro m hm c hc
  rcases List.getLast?_eq_some_iff.mp hm with ⟨front, rfl⟩
  rw [textOf_append, textOf_cons, textOf_nil, List.append_nil, List.append_assoc,
    List.append_assoc] at h
  rcases h.of_append.of_cons with ⟨hfront, hrest⟩
  rcases List.head?_eq_some_iff.mp hc with ⟨tail, rfl⟩
  -- What follows is cut into lexemes, so it does not begin with the point.
  refine hfront.closed ?_
  generalize htext : c :: tail = text at hrest
  cases hrest with
  | stop => cases htext
  | @take m' cs' _ _ hm' _ =>
      have hhead : c ∈ (m'.text ++ cs').head? := by
        rw [← htext]
        exact rfl
      exact hm'.toValid.head_ne_point c hhead

theorem Munched.of_gives (h : Munched cs ms []) (hgives : Gives cs ts) :
    (∀ m ∈ ms, m.InRange) ∧ ms.filterMap Match.token? = ts := by
  rcases hgives with ⟨ms', hms', hrange, rfl⟩
  rcases h.unique hms' with ⟨rfl, -⟩
  exact ⟨hrange, rfl⟩

/-- Matches in front of a text stay what they are if the text is changed, as long as the last
    of them stays closed. -/
theorem Gives.prepend (hcs' : Gives cs' ts) (h : Munched (textOf us ++ cs) (us ++ vs) [])
    (hrange : ∀ m ∈ us, m.InRange) (hlast : ∀ m ∈ us.getLast?, ∀ c ∈ cs'.head?, m.Closed c) :
    Gives (textOf us ++ cs') (us.filterMap Match.token? ++ ts) := by
  induction us with
  | nil => exact hcs'
  | cons m us ih =>
      rw [textOf_cons, List.append_assoc, List.cons_append] at h
      rcases h.of_cons with ⟨hm, hrest⟩
      rcases List.forall_mem_cons.mp hrange with ⟨hmrange, husrange⟩
      have hclosed : ∀ c ∈ (textOf us ++ cs').head?, m.Closed c := by
        cases us with
        | nil => exact hlast m rfl
        | cons m' us =>
            -- The next match begins as it did.
            have hm' : m'.Valid := hrest.valid m' List.mem_cons_self
            cases htext : m'.text with
            | nil => exact absurd htext (ne_nil_of_mem_lexemes hm'.mem_lexemes)
            | cons d tail =>
                intro c hc
                rw [textOf_cons, htext] at hc hm
                rcases Option.some.inj hc with rfl
                have hhead : d ∈ (m'.text ++ textOf us).head? := by
                  rw [htext]
                  exact rfl
                exact hm.closed (hm'.head_ne_point d hhead)
      have hus : Gives (textOf us ++ cs') (us.filterMap Match.token? ++ ts) := by
        refine ih hrest husrange fun m' hm' => hlast m' ?_
        rw [List.getLast?_cons, Option.mem_def.mp hm']
        exact rfl
      rw [textOf_cons, List.append_assoc, (hm.toValid.front_of_closed hclosed).gives_iff]
      refine ⟨hmrange, _, hus, ?_⟩
      rw [filterMap_token?_cons, List.append_assoc]

end Matches

/-- The text `u ++ v` is cut somewhere between its two parts, or inside a comment or blanks that
    go from one to the other. -/
inductive Boundary : List Char → List Char → Prop where
  | between {us vs : List Match} (h : Munched (textOf us ++ textOf vs) (us ++ vs) []) :
      Boundary (textOf us) (textOf vs)
  | inGap {us vs : List Match} {g : Match} {a b : List Char}
      (h : Munched (textOf us ++ (a ++ (b ++ textOf vs))) (us ++ g :: vs) []) (hg : g.IsGap)
      (htext : g.text = a ++ b) : Boundary (textOf us ++ a) (b ++ textOf vs)

section Insertion

variable {us vs : List Match} {g : Match} {a b x u v : List Char} {ts : List Token}

theorem Match.IsGap.token?_eq (hg : g.IsGap) : g.token? = none := by
  rcases g with ⟨rule, text⟩
  rcases hg with hrule | hrule <;> rcases hrule with rfl <;> rfl

/-- A comment, and blanks, that some layout is inserted into behind the beginning. -/
theorem gives_inside_gap (hvalid : g.Valid) (hg : g.IsGap) (htext : g.text = a ++ b)
    (ha : a ≠ []) (hfeed : '\n' ∉ x)
    (habsorb : ∀ ts, Gives (b ++ v) ts → Gives (x ++ (b ++ v)) ts) (hv : Gives v ts)
    (hgv : Gives (a ++ (b ++ v)) ts) : Gives (a ++ (x ++ (b ++ v))) ts := by
  have hmem := hvalid.mem
  rcases hg with hrule | hrule
  · -- A comment stays one comment, up to where it went before.
    rw [hrule, htext] at hmem
    rcases Rule.mem_comment.mp hmem with ⟨tail, htail, heq⟩
    cases a with
    | nil => exact absurd rfl ha
    | cons c a =>
        rcases List.cons.inj heq with ⟨rfl, rfl⟩
        have hpart : ∀ {w : List Char}, (∀ c ∈ w, c ≠ '\n') → ∀ c ∈ w, (c != '\n') = true :=
          fun hw c hc => bne_iff_ne.mpr (hw c hc)
        rcases List.forall_mem_append.mp htail with ⟨ha', hb⟩
        have hx : ∀ c ∈ x, c ≠ '\n' := by
          rintro c hc rfl
          exact hfeed hc
        rw [List.cons_append, gives_comment, List.dropWhile_append_of_pos (hpart ha'),
          List.dropWhile_append_of_pos (hpart hb)] at hgv
        rw [List.cons_append, gives_comment, List.dropWhile_append_of_pos (hpart ha'),
          List.dropWhile_append_of_pos (hpart hx), List.dropWhile_append_of_pos (hpart hb)]
        exact hgv
  · -- Blanks may be cut in another way, but they are blanks.
    rw [hrule, htext] at hmem
    have hblank : ∀ c ∈ a ++ b, Piece.isGap c = true := fun c hc =>
      isGap_iff.mpr ((Rule.mem_blanks.mp hmem).2 c hc)
    rcases List.forall_mem_append.mp hblank with ⟨ha', hb⟩
    exact (habsorb ts (hv.gaps_append hb)).gaps_append ha'

/-- Layout that is inserted behind the beginning of a comment or of blanks. -/
theorem Munched.gives_insert_in_gap
    (h : Munched (textOf us ++ (a ++ (b ++ textOf vs))) (us ++ g :: vs) []) (hg : g.IsGap)
    (htext : g.text = a ++ b) (ha : a ≠ []) (hfeed : '\n' ∉ x)
    (habsorb : ∀ ts, Gives (b ++ textOf vs) ts → Gives (x ++ (b ++ textOf vs)) ts)
    (hgives : Gives (textOf us ++ (a ++ (b ++ textOf vs))) ts) :
    Gives (textOf us ++ (a ++ (x ++ (b ++ textOf vs)))) ts := by
  rcases h.of_gives hgives with ⟨hrange, rfl⟩
  rcases List.forall_mem_append.mp hrange with ⟨husrange, hgrange⟩
  rcases List.forall_mem_cons.mp hgrange with ⟨hg', hvsrange⟩
  have hgap : Munched (a ++ (b ++ textOf vs)) (g :: vs) [] := h.of_append
  have hsplit : a ++ (b ++ textOf vs) = g.text ++ textOf vs := by
    rw [htext, List.append_assoc]
  have hrest : Munched (textOf vs) vs [] := by
    rw [hsplit] at hgap
    exact hgap.of_cons.2
  have hv : Gives (textOf vs) (vs.filterMap Match.token?) := ⟨vs, hrest, hvsrange, rfl⟩
  have hgv : Gives (a ++ (b ++ textOf vs)) (vs.filterMap Match.token?) :=
    ⟨g :: vs, hgap, hgrange, List.filterMap_cons_none hg.token?_eq⟩
  have hnew := gives_inside_gap (hgap.valid g List.mem_cons_self) hg htext ha hfeed
    habsorb hv hgv
  rw [List.filterMap_append, List.filterMap_cons_none hg.token?_eq]
  refine hnew.prepend h husrange ?_
  -- The text goes on behind the matches as it did.
  rw [List.head?_append_of_ne_nil _ ha, ← List.head?_append_of_ne_nil a ha]
  exact h.closed_of_getLast?

/-- Layout that is inserted between two lexemes. -/
theorem Munched.gives_insert_between (h : Munched (textOf us ++ textOf vs) (us ++ vs) [])
    (hx : ∀ c ∈ x.head?, c = ' ' ∨ c = '\t' ∨ c = '\x0c' ∨ c = '#') (hfeed : '\n' ∉ x)
    (habsorb : ∀ ts, Gives (textOf vs) ts → Gives (x ++ textOf vs) ts)
    (hgives : Gives (textOf us ++ textOf vs) ts) :
    Gives (textOf us ++ (x ++ textOf vs)) ts := by
  cases x with
  | nil => exact hgives
  | cons c x =>
      by_cases hgap : ∃ g ∈ us.getLast?, g.IsGap
      · -- The layout goes to the layout before it.
        rcases hgap with ⟨g, hlast, hg⟩
        rcases List.getLast?_eq_some_iff.mp hlast with ⟨front, rfl⟩
        have htext : textOf (front ++ [g]) = textOf front ++ g.text := by
          rw [textOf_append, textOf_cons, textOf_nil, List.append_nil]
        have hvalid : g.Valid := h.valid g (by simp)
        have hne := ne_nil_of_mem_lexemes hvalid.mem_lexemes
        rw [htext, List.append_assoc] at h hgives ⊢
        rw [List.append_assoc] at h
        exact h.gives_insert_in_gap (b := []) hg (List.append_nil _).symm hne hfeed habsorb hgives
      · -- It closes the token before it, and that one stays what it was.
        rcases h.of_gives hgives with ⟨hrange, rfl⟩
        rcases List.forall_mem_append.mp hrange with ⟨husrange, hvsrange⟩
        have hv : Gives (textOf vs) (vs.filterMap Match.token?) :=
          ⟨vs, h.of_append, hvsrange, rfl⟩
        rw [List.filterMap_append]
        refine (habsorb _ hv).prepend h husrange fun m hm d hd => ?_
        have hvalid : m.Valid := h.valid m (List.mem_append_left vs (List.mem_of_getLast? hm))
        exact hvalid.closed_of_not_gap (fun hg => hgap ⟨m, hm, hg⟩) (hx d hd)

/-- Layout that is inserted at a boundary does not change the tokens, if it does not change
    them in front of what follows. -/
theorem Boundary.gives_insert (h : Boundary u v)
    (hx : ∀ c ∈ x.head?, c = ' ' ∨ c = '\t' ∨ c = '\x0c' ∨ c = '#') (hfeed : '\n' ∉ x)
    (habsorb : ∀ ts, Gives v ts → Gives (x ++ v) ts) (hgives : Gives (u ++ v) ts) :
    Gives (u ++ (x ++ v)) ts := by
  cases h with
  | between h => exact h.gives_insert_between hx hfeed habsorb hgives
  | @inGap us vs g a b h hg htext =>
      cases a with
      | nil =>
          -- Nothing of the layout is in front: the place is between two lexemes.
          have htext' : b ++ textOf vs = textOf (g :: vs) := by rw [textOf_cons, htext]; rfl
          rw [List.append_nil] at hgives ⊢
          rw [List.nil_append] at h
          rw [htext'] at h habsorb hgives ⊢
          exact h.gives_insert_between hx hfeed habsorb hgives
      | cons c a =>
          rw [List.append_assoc] at hgives ⊢
          exact h.gives_insert_in_gap hg htext (List.cons_ne_nil c a) hfeed habsorb hgives

/-- A line break that is inserted behind another one is one token more. -/
theorem Munched.gives_insert_lineBreak {m : Match}
    (h : Munched (textOf us ++ (m.text ++ textOf vs)) (us ++ m :: vs) []) (hm : m.rule = .lineBreak)
    (hb : b ∈ Rule.language .lineBreak)
    (hgives : Gives (textOf us ++ (m.text ++ textOf vs)) ts) :
    ∃ ts₁ ts₂, ts = ts₁ ++ .lineBreak :: ts₂ ∧
      Gives (textOf us ++ (m.text ++ (b ++ textOf vs)))
        (ts₁ ++ .lineBreak :: .lineBreak :: ts₂) := by
  rcases h.of_gives hgives with ⟨hrange, rfl⟩
  rcases List.forall_mem_append.mp hrange with ⟨husrange, hmrange⟩
  rcases List.forall_mem_cons.mp hmrange with ⟨-, hvsrange⟩
  have hrest := h.of_append.of_cons.2
  have hmem : m.text ∈ Rule.language .lineBreak := by
    rw [← hm]
    exact (h.valid m (List.mem_append_right us List.mem_cons_self)).mem
  have hv : Gives (textOf vs) (vs.filterMap Match.token?) := ⟨vs, hrest, hvsrange, rfl⟩
  have hnew : Gives (m.text ++ (b ++ textOf vs))
      (.lineBreak :: .lineBreak :: vs.filterMap Match.token?) :=
    (gives_lineBreak hmem).mpr ⟨_, (gives_lineBreak hb).mpr ⟨_, hv, rfl⟩, rfl⟩
  refine ⟨us.filterMap Match.token?, vs.filterMap Match.token?, ?_, hnew.prepend h husrange ?_⟩
  · rw [List.filterMap_append, List.filterMap_cons_some (Match.token?_eq_lineBreak.mpr hm)]
  · have hne := ne_nil_of_mem_lexemes (mem_lexemes.mpr ⟨_, hmem⟩)
    rw [List.head?_append_of_ne_nil _ hne, ← List.head?_append_of_ne_nil m.text hne]
    exact h.closed_of_getLast?

end Insertion

end Lexing

end Primer
