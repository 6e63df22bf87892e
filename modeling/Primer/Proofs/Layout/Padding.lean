import Primer.Proofs.RoundTrip.Rereading

/-!
# Line Breaks More Than Needed

Where the grammar has a line break it allows more of them. So a program can be written with
further line breaks behind those that it has, and it is the same program at other positions.

`Padded` relates the lexemes before and after: the tokens are the same in the same order, but
each line break may be followed by more of them, and the positions are free. The proof is an
induction on how a program is written. The further line breaks go where the one before them
went: to the breaks in front of a frame or of an `ELSE`, to those at the end of a statement, or,
behind the words that open a frame, to those before its first statement. An expression has no
line breaks, so its lexemes have the same tokens as before.

## Main definitions

* `Padded`: Lexemes with further line breaks, at other positions.

## Theorems

* `Padded.of_cons`, `Padded.of_break`, `Padded.of_append`: Taking padded lexemes apart.
* `padded_of_map_token`, `padded_of_break`: Padded lexemes by their tokens.
* `Statement.Written.padded`, `Program.Written.padded`: Statements and programs are written
  with the padded lexemes too, up to positions.
-/

namespace Primer

open Lexeme

/-- The second lexemes have the tokens of the first, at any positions, and further line breaks
    behind those of the first. -/
inductive Padded : List Lexeme → List Lexeme → Prop where
  | nil : Padded [] []
  | cons {t : Token} (pos pos' : Position) {more ls ls' : List Lexeme}
      (hmore : more = [] ∨ t = .lineBreak ∧ Breaks more) (h : Padded ls ls') :
      Padded (⟨t, pos⟩ :: ls) (⟨t, pos'⟩ :: (more ++ ls'))

namespace Padded

variable {t : Token} {pos : Position} {ls rs ls' rs' : List Lexeme}

theorem of_nil (h : Padded [] ls') : ls' = [] := by
  cases h
  rfl

theorem of_cons (h : Padded (⟨t, pos⟩ :: ls) ls') (ht : t ≠ .lineBreak) :
    ∃ pos' rest, ls' = ⟨t, pos'⟩ :: rest ∧ Padded ls rest := by
  cases h with
  | @cons _ _ pos' more _ rest hmore h =>
      rcases hmore with rfl | ⟨hbreak, -⟩
      · exact ⟨pos', rest, rfl, h⟩
      · exact absurd hbreak ht

theorem of_break (h : Padded (⟨.lineBreak, pos⟩ :: ls) ls') :
    ∃ pos' more rest, ls' = ⟨.lineBreak, pos'⟩ :: (more ++ rest) ∧ Breaks more ∧
      Padded ls rest := by
  cases h with
  | @cons _ _ pos' more _ rest hmore h =>
      refine ⟨pos', more, rest, rfl, ?_, h⟩
      rcases hmore with rfl | ⟨-, hbreaks⟩
      · exact breaks_nil
      · exact hbreaks

theorem of_append (h : Padded (ls ++ rs) ls') :
    ∃ left right, ls' = left ++ right ∧ Padded ls left ∧ Padded rs right := by
  induction ls generalizing ls' with
  | nil => exact ⟨[], ls', rfl, .nil, h⟩
  | cons l ls ih =>
      cases h with
      | cons pos pos' hmore h =>
          rcases ih h with ⟨left, right, rfl, hleft, hright⟩
          refine ⟨_ :: (_ ++ left), right, ?_, .cons pos pos' hmore hleft, hright⟩
          rw [List.cons_append, List.append_assoc]

theorem append (h : Padded ls ls') (h' : Padded rs rs') : Padded (ls ++ rs) (ls' ++ rs') := by
  induction h with
  | nil => exact h'
  | cons pos pos' hmore _ ih =>
      rw [List.cons_append, List.cons_append, List.append_assoc]
      exact .cons pos pos' hmore ih

/-- Line breaks stay line breaks. -/
theorem breaks (h : Padded ls ls') (hls : Breaks ls) : Breaks ls' := by
  induction h with
  | nil => exact hls
  | cons pos pos' hmore _ ih =>
      rcases List.forall_mem_cons.mp hls with ⟨hl, hrest⟩
      refine List.forall_mem_cons.mpr ⟨hl, List.forall_mem_append.mpr ⟨?_, ih hrest⟩⟩
      rcases hmore with rfl | ⟨-, hbreaks⟩
      · exact breaks_nil
      · exact hbreaks

theorem ne_nil (h : Padded ls ls') (hls : ls ≠ []) : ls' ≠ [] := by
  cases h with
  | nil => exact absurd rfl hls
  | cons => exact List.cons_ne_nil _ _

/-- Where there is no line break nothing is added. -/
theorem map_token (h : Padded ls ls') (hls : ∀ l ∈ ls, l.token ≠ .lineBreak) :
    ls'.map Lexeme.token = ls.map Lexeme.token := by
  induction h with
  | nil => rfl
  | cons pos pos' hmore _ ih =>
      rcases List.forall_mem_cons.mp hls with ⟨hl, hrest⟩
      rcases hmore with rfl | ⟨hbreak, -⟩
      · rw [List.map_cons, List.map_cons, List.nil_append, ih hrest]
      · exact absurd hbreak hl

end Padded

/-- Lexemes with the same tokens are padded with nothing. -/
theorem padded_of_map_token {ls ls' : List Lexeme}
    (h : ls'.map Lexeme.token = ls.map Lexeme.token) : Padded ls ls' := by
  induction ls generalizing ls' with
  | nil =>
      rcases List.map_eq_nil_iff.mp h with rfl
      exact .nil
  | cons l ls ih =>
      rcases exists_cons h with ⟨pos, rest, rfl, hrest⟩
      exact .cons l.pos pos (.inl rfl) (ih hrest)

/-- Lexemes with one line break more, behind another one, are padded. -/
theorem padded_of_break {ls ls' : List Lexeme} {ts us : List Token}
    (h : ls.map Lexeme.token = ts ++ .lineBreak :: us)
    (h' : ls'.map Lexeme.token = ts ++ .lineBreak :: .lineBreak :: us) : Padded ls ls' := by
  -- Both lists are split at the line break that the other one was put behind.
  rcases exists_between h with ⟨left, pos, right, rfl, hleft, hright⟩
  rcases exists_between h' with ⟨left', pos', rest, rfl, hleft', hrest⟩
  rcases exists_cons hrest with ⟨extra, right', rfl, hright'⟩
  have hbreak : Padded (⟨.lineBreak, pos⟩ :: right)
      (⟨.lineBreak, pos'⟩ :: ([⟨.lineBreak, extra⟩] ++ right')) :=
    .cons pos pos' (.inr ⟨rfl, breaks_single extra⟩)
      (padded_of_map_token (hright'.trans hright.symm))
  exact (padded_of_map_token (hleft'.trans hleft.symm)).append hbreak

section Expressions

variable {ls ls' : List Lexeme}

theorem Expr.Spelled.map_token {e : Expr} (h : e.Spelled ls) :
    ls.map Lexeme.token = e.tokens := by
  induction h <;> simp_all [Expr.tokens]

theorem Expr.Written.padded {e : Expr} (h : e.Written ls) (hp : Padded ls ls') :
    ∃ e' : Expr, e'.Written ls' ∧ e'.unplaced = e.unplaced := by
  -- There are no line breaks in an expression, so none can have been added.
  have hls : ∀ l ∈ ls, l.token ≠ .lineBreak := h.2.ne rfl
  exact Expr.exists_written h.1 ((hp.map_token hls).trans h.2.map_token)

theorem Expr.Enclosed.padded {e : Expr} (h : e.Enclosed ls) (hp : Padded ls ls') :
    ∃ e' : Expr, e'.Enclosed ls' ∧ e'.unplaced = e.unplaced := by
  rcases h with ⟨opening, close, h⟩
  rcases hp.of_cons nofun with ⟨opening', rest, rfl, hrest⟩
  rcases hrest.of_append with ⟨inner, right, rfl, hinner, hright⟩
  rcases hright.of_cons nofun with ⟨close', last, rfl, hlast⟩
  rcases hlast.of_nil with rfl
  rcases h.padded hinner with ⟨e', he', heq⟩
  exact ⟨e', .mk opening' close' he', heq⟩

theorem Declarator.Written.padded {d : Declarator} (h : d.Written ls) (hp : Padded ls ls') :
    ∃ d' : Declarator, d'.Written ls' ∧ d'.unplaced = d.unplaced := by
  cases h with
  | bare pos name =>
      rcases hp.of_cons nofun with ⟨pos', rest, rfl, hrest⟩
      rcases hrest.of_nil with rfl
      exact ⟨_, .bare pos' name, rfl⟩
  | initialized pos name sign h =>
      rcases hp.of_cons nofun with ⟨pos', rest, rfl, hrest⟩
      rcases hrest.of_cons nofun with ⟨sign', els, rfl, hels⟩
      rcases h.padded hels with ⟨e', he', heq⟩
      refine ⟨_, .initialized pos' name sign' he', ?_⟩
      simp only [unplaced, Option.map_some, heq]

/-- Items that are written with padded lexemes are so with commas between them. -/
theorem Separated.padded {α β : Type} {item : α → List Lexeme → Prop} {f : α → β} {xs : List α}
    (hitem : ∀ x ls ls', item x ls → Padded ls ls' → ∃ x', item x' ls' ∧ f x' = f x)
    (h : Separated item xs ls) (hp : Padded ls ls') :
    ∃ xs', Separated item xs' ls' ∧ xs'.map f = xs.map f := by
  induction h generalizing ls' with
  | one h =>
      rcases hitem _ _ _ h hp with ⟨x', hx', heq⟩
      exact ⟨[x'], .one hx', by rw [List.map_singleton, List.map_singleton, heq]⟩
  | more comma h _ ih =>
      rcases hp.of_append with ⟨left, rest, rfl, hleft, hrest⟩
      rcases hrest.of_cons nofun with ⟨comma', right, rfl, hright⟩
      rcases hitem _ _ _ h hleft with ⟨x', hx', heq⟩
      rcases ih hright with ⟨xs', hxs', heqs⟩
      exact ⟨x' :: xs', .more comma' hx' hxs', by rw [List.map_cons, List.map_cons, heq, heqs]⟩

end Expressions

namespace Statement

variable {ls ls' : List Lexeme}

theorem Targets.padded {names : List String} (h : Targets names ls) (hp : Padded ls ls') :
    Targets names ls' := by
  induction h generalizing ls' with
  | nil =>
      rcases hp.of_nil with rfl
      exact .nil
  | cons pos sign _ ih =>
      rcases hp.of_cons nofun with ⟨pos', rest, rfl, hrest⟩
      rcases hrest.of_cons nofun with ⟨sign', tls, rfl, htls⟩
      exact .cons pos' sign' (ih htls)

theorem names_padded {names : List String} (h : Separated NameWritten names ls)
    (hp : Padded ls ls') : Separated NameWritten names ls' := by
  have hitem : ∀ name ls ls', NameWritten name ls → Padded ls ls' →
      ∃ name', NameWritten name' ls' ∧ id name' = id name := by
    rintro name _ ls' ⟨pos, rfl⟩ hp
    rcases hp.of_cons nofun with ⟨pos', rest, rfl, hrest⟩
    rcases hrest.of_nil with rfl
    exact ⟨name, ⟨pos', rfl⟩, rfl⟩
  rcases h.padded hitem hp with ⟨names', hnames', heq⟩
  rw [List.map_id, List.map_id] at heq
  rw [← heq]
  exact hnames'

/-- Line breaks in front of a list of statements belong to it. -/
theorem Listed.breaks_append {sts : List Statement} {nls : List Lexeme} (h : Listed sts ls)
    (hn : Breaks nls) : Listed sts (nls ++ ls) := by
  rcases h with ⟨hn', h⟩
  rw [← List.append_assoc]
  exact .mk (List.forall_mem_append.mpr ⟨hn, hn'⟩) h

-- The induction is on how the statement is written. Each rule takes the padded lexemes apart
-- as it put the lexemes together.
mutual

theorem Written.padded : ∀ {st : Statement} {ls : List Lexeme}, st.Written ls →
    ∀ {ls' : List Lexeme}, Padded ls ls' →
      ∃ st' : Statement, st'.Written ls' ∧ st'.unplaced = st.unplaced
  | _, _, .declare pos type h, ls', hp => by
      rcases hp.of_cons nofun with ⟨pos', rest, rfl, hrest⟩
      rcases h.padded (fun _ _ _ => Declarator.Written.padded) hrest with ⟨ds', hds', heq⟩
      exact ⟨_, .declare pos' type hds', by rw [unplaced, unplaced, heq]⟩
  | _, _, .assign pos sign ht he, ls', hp => by
      rcases hp.of_cons nofun with ⟨pos', rest, rfl, hrest⟩
      rcases hrest.of_cons nofun with ⟨sign', both, rfl, hboth⟩
      rcases hboth.of_append with ⟨tls, els, rfl, htls, hels⟩
      rcases he.padded hels with ⟨e', he', heq⟩
      exact ⟨_, .assign pos' sign' (ht.padded htls) he', by rw [unplaced, unplaced, heq]⟩
  | _, _, .display pos colon h, ls', hp => by
      rcases hp.of_cons nofun with ⟨pos', rest, rfl, hrest⟩
      rcases hrest.of_cons nofun with ⟨colon', els, rfl, hels⟩
      rcases h.padded hels with ⟨e', he', heq⟩
      exact ⟨_, .display pos' colon' he', by rw [unplaced, unplaced, heq]⟩
  | _, _, .scan pos colon h, ls', hp => by
      rcases hp.of_cons nofun with ⟨pos', rest, rfl, hrest⟩
      rcases hrest.of_cons nofun with ⟨colon', nls, rfl, hnls⟩
      exact ⟨_, .scan pos' colon' (names_padded h hnls), by rw [unplaced, unplaced]⟩
  | _, _, .choose hfirst hothers helse, ls', hp => by
      rcases hp.of_append with ⟨fls, rest, rfl, hfls, hrest⟩
      rcases hrest.of_append with ⟨ols, els, rfl, hols, hels⟩
      rcases hfirst.padded hfls with ⟨first', hfirst', hfeq⟩
      rcases hothers.padded hols with ⟨others', hothers', hoeq⟩
      rcases helse.padded hels with ⟨otherwise', helse', heeq⟩
      exact ⟨_, .choose hfirst' hothers' helse', by rw [unplaced, unplaced, hfeq, hoeq, heeq]⟩
  | _, _, .loop pos hguard hbody, ls', hp => by
      rcases hp.of_cons nofun with ⟨pos', rest, rfl, hrest⟩
      rcases hrest.of_append with ⟨gls, bls, rfl, hgls, hbls⟩
      rcases hguard.padded hgls with ⟨guard', hguard', hgeq⟩
      rcases hbody.padded hbls with ⟨body', hbody', hbeq⟩
      exact ⟨_, .loop pos' hguard' hbody', by rw [unplaced, unplaced, hgeq, hbeq]⟩
  | _, _, .loopAfter pos word hbody hn hguard, ls', hp => by
      rcases hp.of_cons nofun with ⟨pos', rest, rfl, hrest⟩
      rcases hrest.of_append with ⟨bls, asking, rfl, hbls, hasking⟩
      rcases hasking.of_append with ⟨nls, both, rfl, hnls, hboth⟩
      rcases hboth.of_cons nofun with ⟨word', gls, rfl, hgls⟩
      rcases hbody.padded hbls with ⟨body', hbody', hbeq⟩
      rcases hguard.padded hgls with ⟨guard', hguard', hgeq⟩
      exact ⟨_, .loopAfter pos' word' hbody' (hnls.breaks hn) hguard',
        by rw [unplaced, unplaced, hbeq, hgeq]⟩

theorem BranchWritten.padded : ∀ {b : Branch} {ls : List Lexeme}, BranchWritten b ls →
    ∀ {ls' : List Lexeme}, Padded ls ls' →
      ∃ b', BranchWritten b' ls' ∧ unplacedBranch b' = unplacedBranch b
  | _, _, .mk pos hguard hbody, ls', hp => by
      rcases hp.of_cons nofun with ⟨pos', rest, rfl, hrest⟩
      rcases hrest.of_append with ⟨gls, bls, rfl, hgls, hbls⟩
      rcases hguard.padded hgls with ⟨guard', hguard', hgeq⟩
      rcases hbody.padded hbls with ⟨body', hbody', hbeq⟩
      exact ⟨_, .mk pos' hguard' hbody', by rw [unplacedBranch, unplacedBranch, hgeq, hbeq]⟩

theorem OthersWritten.padded : ∀ {bs : List Branch} {ls : List Lexeme}, OthersWritten bs ls →
    ∀ {ls' : List Lexeme}, Padded ls ls' →
      ∃ bs', OthersWritten bs' ls' ∧ unplacedBranches bs' = unplacedBranches bs
  | _, _, .nil, ls', hp => by
      rcases hp.of_nil with rfl
      exact ⟨[], .nil, rfl⟩
  | _, _, .cons word hn hb hbs, ls', hp => by
      rcases hp.of_append with ⟨nls, rest, rfl, hnls, hrest⟩
      rcases hrest.of_cons nofun with ⟨word', both, rfl, hboth⟩
      rcases hboth.of_append with ⟨bls, ols, rfl, hbls, hols⟩
      rcases hb.padded hbls with ⟨b', hb', hbeq⟩
      rcases hbs.padded hols with ⟨bs', hbs', hoeq⟩
      exact ⟨b' :: bs', .cons word' (hnls.breaks hn) hb' hbs',
        by rw [unplacedBranches, unplacedBranches, hbeq, hoeq]⟩

theorem OtherwiseWritten.padded : ∀ {body : Option (List Statement)} {ls : List Lexeme},
    OtherwiseWritten body ls → ∀ {ls' : List Lexeme}, Padded ls ls' →
      ∃ body', OtherwiseWritten body' ls' ∧ unplacedOtherwise body' = unplacedOtherwise body
  | _, _, .none, ls', hp => by
      rcases hp.of_nil with rfl
      exact ⟨none, .none, rfl⟩
  | _, _, .some word hn hbody, ls', hp => by
      rcases hp.of_append with ⟨nls, rest, rfl, hnls, hrest⟩
      rcases hrest.of_cons nofun with ⟨word', bls, rfl, hbls⟩
      rcases hbody.padded hbls with ⟨body', hbody', hbeq⟩
      exact ⟨some body', .some word' (hnls.breaks hn) hbody',
        by rw [unplacedOtherwise, unplacedOtherwise, hbeq]⟩

theorem Framed.padded : ∀ {frame : Keyword} {body : List Statement} {ls : List Lexeme},
    Framed frame body ls → ∀ {ls' : List Lexeme}, Padded ls ls' →
      ∃ body', Framed frame body' ls' ∧ unplacedAll body' = unplacedAll body
  | _, _, _, .mk frame opening word line closing word' hn h, ls', hp => by
      rcases hp.of_append with ⟨nls, ls₁, rfl, hnls, h₁⟩
      rcases h₁.of_cons nofun with ⟨opening', ls₂, rfl, h₂⟩
      rcases h₂.of_cons nofun with ⟨word₁, ls₃, rfl, h₃⟩
      rcases h₃.of_break with ⟨line', more, ls₄, rfl, hmore, h₄⟩
      rcases h₄.of_append with ⟨bls, ls₅, rfl, hbls, h₅⟩
      rcases h₅.of_cons nofun with ⟨closing', ls₆, rfl, h₆⟩
      rcases h₆.of_cons nofun with ⟨word₂, ls₇, rfl, h₇⟩
      rcases h₇.of_nil with rfl
      rcases h.padded hbls with ⟨body', hbody', hbeq⟩
      -- The further line breaks belong to the statements inside.
      have hlisted := hbody'.breaks_append hmore
      refine ⟨body', ?_, hbeq⟩
      rw [← List.append_assoc]
      exact .mk frame opening' word₁ line' closing' word₂ (hnls.breaks hn) hlisted

theorem Listed.padded : ∀ {sts : List Statement} {ls : List Lexeme}, Listed sts ls →
    ∀ {ls' : List Lexeme}, Padded ls ls' →
      ∃ sts', Listed sts' ls' ∧ unplacedAll sts' = unplacedAll sts
  | _, _, .mk hn h, ls', hp => by
      rcases hp.of_append with ⟨nls, rest, rfl, hnls, hrest⟩
      rcases h.padded hrest with ⟨sts', hsts', heq⟩
      exact ⟨sts', .mk (hnls.breaks hn) hsts', heq⟩

theorem Lines.padded : ∀ {sts : List Statement} {ls : List Lexeme}, Lines sts ls →
    ∀ {ls' : List Lexeme}, Padded ls ls' →
      ∃ sts', Lines sts' ls' ∧ unplacedAll sts' = unplacedAll sts
  | _, _, .nil, ls', hp => by
      rcases hp.of_nil with rfl
      exact ⟨[], .nil, rfl⟩
  | _, _, .cons hst hn hne hsts, ls', hp => by
      rcases hp.of_append with ⟨sls, rest, rfl, hsls, hrest⟩
      rcases hrest.of_append with ⟨nls, lines, rfl, hnls, hlines⟩
      -- A line break behind the statement stays behind it, with all that were added.
      rcases hst.padded hsls with ⟨st', hst', hseq⟩
      rcases hsts.padded hlines with ⟨sts', hsts', hleq⟩
      exact ⟨st' :: sts', .cons hst' (hnls.breaks hn) (hnls.ne_nil hne) hsts',
        by rw [unplacedAll, unplacedAll, hseq, hleq]⟩

end

end Statement

namespace Program

/-- A program is written with the padded lexemes too, up to positions. -/
theorem Written.padded {p : Program} {ls ls' : List Lexeme} (h : p.Written ls)
    (hp : Padded ls ls') : ∃ q : Program, q.Written ls' ∧ q.unplaced = p.unplaced := by
  rcases h with ⟨pos, word, closing, word', hn, h, hn'⟩
  rcases hp.of_append with ⟨nls, ls₁, rfl, hnls, h₁⟩
  rcases h₁.of_cons nofun with ⟨pos', ls₂, rfl, h₂⟩
  rcases h₂.of_cons nofun with ⟨word₁, ls₃, rfl, h₃⟩
  rcases h₃.of_append with ⟨sls, ls₄, rfl, hsls, h₄⟩
  rcases h₄.of_cons nofun with ⟨closing', ls₅, rfl, h₅⟩
  rcases h₅.of_cons nofun with ⟨word₂, nls', rfl, hnls'⟩
  rcases h.padded hsls with ⟨sts', hsts', heq⟩
  refine ⟨⟨pos', sts'⟩, ?_, by rw [unplaced, unplaced, heq]⟩
  exact .mk pos' word₁ closing' word₂ (hnls.breaks hn) hsts' (hnls'.breaks hn')

end Program

end Primer
