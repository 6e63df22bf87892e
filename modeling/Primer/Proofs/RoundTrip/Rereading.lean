import Primer.Proofs.RoundTrip.Cutting

/-!
# Reading What Was Written

A program that is written and read again is the program that it was, up to positions.

The lexemes that a source text is cut into have the tokens that the program was written
with, and positions of their own. So there is a derivation in the grammar to be found for
these lexemes. It is the one that the writer followed, with the positions of the lexemes put
in: by induction on the construct, lexemes that have its tokens are the spelling of the same
construct at other positions. Nothing has to be said about how the parser reads them, since
it reads whatever the grammar derives, and reads it in one way only.

## Theorems

* `Expr.exists_spelled`: An expression at the positions of its lexemes.
* `Statement.exists_written`, `Statement.exists_lines`: Statements at the positions of their
  lexemes.
* `Program.exists_written`: Programs at the positions of their lexemes.
* `Program.source_roundTrip`: Programs that have been read, written and read again.
-/

namespace Primer

namespace Lexeme

variable {ls : List Lexeme} {t : Token} {ts us : List Token}

theorem exists_cons (h : ls.map Lexeme.token = t :: ts) :
    ∃ pos rest, ls = ⟨t, pos⟩ :: rest ∧ rest.map Lexeme.token = ts := by
  rcases List.map_eq_cons_iff.mp h with ⟨⟨u, pos⟩, rest, rfl, rfl, hrest⟩
  exact ⟨pos, rest, rfl, hrest⟩

theorem exists_single (h : ls.map Lexeme.token = [t]) : ∃ pos, ls = [⟨t, pos⟩] := by
  rcases exists_cons h with ⟨pos, rest, rfl, hrest⟩
  rcases List.map_eq_nil_iff.mp hrest with rfl
  exact ⟨pos, rfl⟩

theorem exists_between (h : ls.map Lexeme.token = ts ++ t :: us) :
    ∃ left pos right, ls = left ++ ⟨t, pos⟩ :: right ∧ left.map Lexeme.token = ts ∧
      right.map Lexeme.token = us := by
  rcases List.map_eq_append_iff.mp h with ⟨left, rest, rfl, hleft, hrest⟩
  rcases exists_cons hrest with ⟨pos, right, rfl, hright⟩
  exact ⟨left, pos, right, rfl, hleft, hright⟩

end Lexeme

theorem breaks_nil : Breaks [] :=
  nofun

theorem breaks_single (pos : Position) : Breaks [⟨.lineBreak, pos⟩] :=
  List.forall_mem_singleton.mpr rfl

open Lexeme

section Expressions

variable {ls : List Lexeme}

/-- Lexemes with the tokens of an expression spell it, at their positions. -/
theorem Expr.exists_spelled (e : Expr) : ∀ {ls : List Lexeme},
    ls.map Lexeme.token = e.tokens →
      ∃ e' : Expr, e'.Spelled ls ∧ e'.unplaced = e.unplaced := by
  -- The node of an operator takes the position of the lexeme between its operands.
  have hjoin : ∀ {l r : Expr} {t : Token} {node : Position → Expr → Expr → Expr},
      (∀ pos l r, Joins ⟨t, pos⟩ l r (node pos l r)) →
      (∀ {ls : List Lexeme}, ls.map Lexeme.token = l.tokens →
        ∃ l' : Expr, l'.Spelled ls ∧ l'.unplaced = l.unplaced) →
      (∀ {ls : List Lexeme}, ls.map Lexeme.token = r.tokens →
        ∃ r' : Expr, r'.Spelled ls ∧ r'.unplaced = r.unplaced) →
      ∀ {ls : List Lexeme}, ls.map Lexeme.token = l.tokens ++ t :: r.tokens →
        ∃ pos l' r', (node pos l' r').Spelled ls ∧ l'.unplaced = l.unplaced ∧
          r'.unplaced = r.unplaced := by
    intro l r t node hnode ihl ihr ls h
    rcases exists_between h with ⟨left, pos, right, rfl, hleft, hright⟩
    rcases ihl hleft with ⟨l', hl', hleq⟩
    rcases ihr hright with ⟨r', hr', hreq⟩
    exact ⟨pos, l', r', (hnode pos l' r').spelled_iff.mpr ⟨_, _, hl', hr', rfl⟩, hleq, hreq⟩
  induction e with
  | literal _ v =>
      intro ls h
      rcases exists_single h with ⟨pos, rfl⟩
      exact ⟨_, .literal pos v, rfl⟩
  | var _ name =>
      intro ls h
      rcases exists_single h with ⟨pos, rfl⟩
      exact ⟨_, .var pos name, rfl⟩
  | escape _ c =>
      intro ls h
      rcases exists_single h with ⟨pos, rfl⟩
      exact ⟨_, .escape pos c, rfl⟩
  | newline _ =>
      intro ls h
      rcases exists_single h with ⟨pos, rfl⟩
      exact ⟨_, .newline pos, rfl⟩
  | signed _ sign e ih =>
      intro ls h
      rcases exists_cons h with ⟨pos, rest, rfl, hrest⟩
      rcases ih hrest with ⟨e', he', heq⟩
      exact ⟨_, .signed pos sign he', by rw [unplaced, unplaced, heq]⟩
  | not _ e ih =>
      intro ls h
      rcases exists_cons h with ⟨pos, rest, rfl, hrest⟩
      rcases ih hrest with ⟨e', he', heq⟩
      exact ⟨_, .not pos he', by rw [unplaced, unplaced, heq]⟩
  | paren _ e ih =>
      intro ls h
      rcases exists_cons h with ⟨pos, rest, rfl, hrest⟩
      rcases exists_between hrest with ⟨inner, close, right, rfl, hinner, hright⟩
      rcases List.map_eq_nil_iff.mp hright with rfl
      rcases ih hinner with ⟨e', he', heq⟩
      exact ⟨_, .paren pos close he', by rw [unplaced, unplaced, heq]⟩
  | arith _ op l r ihl ihr =>
      intro ls h
      rcases hjoin (.arith · op) ihl ihr h with ⟨pos, l', r', he', hleq, hreq⟩
      exact ⟨_, he', by rw [unplaced, unplaced, hleq, hreq]⟩
  | compare _ op l r ihl ihr =>
      intro ls h
      rcases hjoin (.compare · op) ihl ihr h with ⟨pos, l', r', he', hleq, hreq⟩
      exact ⟨_, he', by rw [unplaced, unplaced, hleq, hreq]⟩
  | connect _ op l r ihl ihr =>
      intro ls h
      rcases hjoin (.connect · op) ihl ihr h with ⟨pos, l', r', he', hleq, hreq⟩
      exact ⟨_, he', by rw [unplaced, unplaced, hleq, hreq]⟩
  | concat _ l r ihl ihr =>
      intro ls h
      rcases hjoin .concat ihl ihr h with ⟨pos, l', r', he', hleq, hreq⟩
      exact ⟨_, he', by rw [unplaced, unplaced, hleq, hreq]⟩

theorem Expr.exists_written {e : Expr} (he : e.Layered)
    (h : ls.map Lexeme.token = e.tokens) :
    ∃ e' : Expr, e'.Written ls ∧ e'.unplaced = e.unplaced := by
  rcases e.exists_spelled h with ⟨e', hspelled, heq⟩
  exact ⟨e', ⟨layered_of_unplaced_eq heq he, hspelled⟩, heq⟩

theorem Expr.exists_enclosed {e : Expr} (he : e.Layered)
    (h : ls.map Lexeme.token = e.enclosed) :
    ∃ e' : Expr, e'.Enclosed ls ∧ e'.unplaced = e.unplaced := by
  rcases exists_cons h with ⟨opening, rest, rfl, hrest⟩
  rcases exists_between hrest with ⟨inner, close, right, rfl, hinner, hright⟩
  rcases List.map_eq_nil_iff.mp hright with rfl
  rcases exists_written he hinner with ⟨e', he', heq⟩
  exact ⟨e', .mk opening close he', heq⟩

theorem Declarator.exists_written {d : Declarator} (hd : d.Expressible)
    (h : ls.map Lexeme.token = d.tokens) :
    ∃ d' : Declarator, d'.Written ls ∧ d'.unplaced = d.unplaced := by
  rcases d with ⟨_, name, initializer⟩
  cases initializer with
  | none =>
      rcases exists_single h with ⟨pos, rfl⟩
      exact ⟨_, .bare pos name, rfl⟩
  | some e =>
      rcases exists_cons h with ⟨pos, rest, rfl, hrest⟩
      rcases exists_cons hrest with ⟨sign, els, rfl, hels⟩
      rcases Expr.exists_written (hd.2 e rfl).1 hels with ⟨e', he', heq⟩
      refine ⟨_, .initialized pos name sign he', ?_⟩
      simp only [unplaced, Option.map_some, heq]

/-- Items that come back from their lexemes come back with commas between them. -/
theorem exists_separated {α β : Type} {item : α → List Lexeme → Prop} {tokens : α → List Token}
    {f : α → β} {xs : List α} (hne : xs ≠ [])
    (hitem : ∀ x ∈ xs, ∀ ls : List Lexeme, ls.map Lexeme.token = tokens x →
      ∃ x', item x' ls ∧ f x' = f x)
    (h : ls.map Lexeme.token = separated tokens xs) :
    ∃ xs', Separated item xs' ls ∧ xs'.map f = xs.map f := by
  fun_induction separated tokens xs generalizing ls with
  | case1 => exact absurd rfl hne
  | case2 x =>
      rcases hitem x List.mem_cons_self ls h with ⟨x', hx', heq⟩
      exact ⟨[x'], .one hx', by rw [List.map_singleton, List.map_singleton, heq]⟩
  | case3 x xs hxs ih =>
      rcases List.forall_mem_cons.mp hitem with ⟨hfirst, hothers⟩
      rcases exists_between h with ⟨left, comma, right, rfl, hleft, hright⟩
      rcases hfirst left hleft with ⟨x', hx', heq⟩
      rcases ih hxs hothers hright with ⟨xs', hxs', heqs⟩
      exact ⟨x' :: xs', .more comma hx' hxs', by rw [List.map_cons, List.map_cons, heq, heqs]⟩

end Expressions

namespace Statement

variable {ls : List Lexeme}

theorem targets_of_tokens {names : List String}
    (h : ls.map Lexeme.token = targetTokens names) : Targets names ls := by
  induction names generalizing ls with
  | nil =>
      rcases List.map_eq_nil_iff.mp h with rfl
      exact .nil
  | cons name names ih =>
      rcases exists_cons h with ⟨pos, rest, rfl, hrest⟩
      rcases exists_cons hrest with ⟨sign, tls, rfl, htls⟩
      exact .cons pos sign (ih htls)

theorem exists_names {names : List String} (hne : names ≠ [])
    (h : ls.map Lexeme.token = separated (fun name => [.identifier name]) names) :
    Separated NameWritten names ls := by
  have hitem : ∀ name ∈ names, ∀ ls : List Lexeme, ls.map Lexeme.token = [.identifier name] →
      ∃ name', NameWritten name' ls ∧ id name' = id name := fun name _ ls hls =>
    ⟨name, exists_single hls, rfl⟩
  rcases exists_separated hne hitem h with ⟨names', hnames', heq⟩
  rw [List.map_id, List.map_id] at heq
  rw [← heq]
  exact hnames'

/-- A frame comes back if the lines in it do. -/
theorem exists_framed {frame : Keyword} {lines : List Token} {P : List Statement → Prop}
    (hlines : ∀ ls : List Lexeme, ls.map Lexeme.token = lines → ∃ body, Lines body ls ∧ P body)
    (h : ls.map Lexeme.token = framed frame lines) : ∃ body, Framed frame body ls ∧ P body := by
  rcases exists_cons h with ⟨front, ls₁, rfl, h₁⟩
  rcases exists_cons h₁ with ⟨opening, ls₂, rfl, h₂⟩
  rcases exists_cons h₂ with ⟨word, ls₃, rfl, h₃⟩
  rcases exists_cons h₃ with ⟨line, ls₄, rfl, h₄⟩
  rcases exists_between h₄ with ⟨bls, closing, ls₅, rfl, hbls, h₅⟩
  rcases exists_single h₅ with ⟨word', rfl⟩
  rcases hlines bls hbls with ⟨body, hbody, hP⟩
  have hlisted : Listed body ([] ++ bls) := .mk breaks_nil hbody
  exact ⟨body, .mk frame opening word line closing word' (breaks_single front) hlisted, hP⟩

-- The induction is on the statement. The positions are those of the lexemes.
mutual

theorem exists_written : ∀ {st : Statement}, st.Expressible → ∀ {ls : List Lexeme},
    ls.map Lexeme.token = st.tokens → ∃ st' : Statement, st'.Written ls ∧ st'.unplaced = st.unplaced
  | .declare _ type ds, hst, ls, h => by
      rw [tokens] at h
      rcases exists_cons h with ⟨pos, rest, rfl, hrest⟩
      rcases exists_separated hst.1
        (fun d hd ls => Declarator.exists_written (hst.2 d hd)) hrest with ⟨ds', hds', heq⟩
      exact ⟨_, .declare pos type hds', by rw [unplaced, unplaced, heq]⟩
  | .assign _ [] e, hst, ls, h => absurd rfl hst.1
  | .assign _ (name :: names) e, hst, ls, h => by
      rw [tokens] at h
      rcases List.map_eq_append_iff.mp h with ⟨front, els, rfl, hfront, hels⟩
      rcases exists_cons hfront with ⟨pos, rest, rfl, hrest⟩
      rcases exists_cons hrest with ⟨sign, tls, rfl, htls⟩
      rcases Expr.exists_written hst.2.2.1 hels with ⟨e', he', heq⟩
      exact ⟨_, .assign pos sign (targets_of_tokens htls) he', by rw [unplaced, unplaced, heq]⟩
  | .choose _ first others otherwise, hst, ls, h => by
      rw [tokens] at h
      rcases List.map_eq_append_iff.mp h with ⟨fls, rest, rfl, hfls, hrest⟩
      rcases List.map_eq_append_iff.mp hrest with ⟨ols, els, rfl, hols, hels⟩
      rcases exists_branchWritten hst.1 hfls with ⟨first', hfirst, hfeq⟩
      rcases exists_othersWritten hst.2.1 hols with ⟨others', hothers, hoeq⟩
      rcases exists_otherwiseWritten hst.2.2 hels with ⟨otherwise', helse, heeq⟩
      exact ⟨_, .choose hfirst hothers helse, by rw [unplaced, unplaced, hfeq, hoeq, heeq]⟩
  | .loop _ guard body, hst, ls, h => by
      rw [tokens] at h
      rcases exists_cons h with ⟨pos, rest, rfl, hrest⟩
      rcases List.map_eq_append_iff.mp hrest with ⟨gls, bls, rfl, hgls, hbls⟩
      rcases Expr.exists_enclosed hst.1.1 hgls with ⟨guard', hguard, hgeq⟩
      rcases exists_framed (fun ls => exists_lines hst.2) hbls with ⟨body', hbody, hbeq⟩
      exact ⟨_, .loop pos hguard hbody, by rw [unplaced, unplaced, hgeq, hbeq]⟩
  | .loopAfter _ body guard, hst, ls, h => by
      rw [tokens] at h
      rcases exists_cons h with ⟨pos, rest, rfl, hrest⟩
      rcases exists_between hrest with ⟨bls, line, asking, rfl, hbls, hasking⟩
      rcases exists_cons hasking with ⟨word, gls, rfl, hgls⟩
      rcases exists_framed (fun ls => exists_lines hst.1) hbls with ⟨body', hbody, hbeq⟩
      rcases Expr.exists_enclosed hst.2.1 hgls with ⟨guard', hguard, hgeq⟩
      exact ⟨_, .loopAfter pos word hbody (breaks_single line) hguard,
        by rw [unplaced, unplaced, hgeq, hbeq]⟩
  | .display _ e, hst, ls, h => by
      rw [tokens] at h
      rcases exists_cons h with ⟨pos, rest, rfl, hrest⟩
      rcases exists_cons hrest with ⟨colon, els, rfl, hels⟩
      rcases Expr.exists_written hst.1 hels with ⟨e', he', heq⟩
      exact ⟨_, .display pos colon he', by rw [unplaced, unplaced, heq]⟩
  | .scan _ names, hst, ls, h => by
      rw [tokens] at h
      rcases exists_cons h with ⟨pos, rest, rfl, hrest⟩
      rcases exists_cons hrest with ⟨colon, nls, rfl, hnls⟩
      exact ⟨_, .scan pos colon (exists_names hst.1 hnls), rfl⟩

theorem exists_branchWritten : ∀ {b : Branch}, BranchExpressible b → ∀ {ls : List Lexeme},
    ls.map Lexeme.token = branchTokens b →
      ∃ b', BranchWritten b' ls ∧ unplacedBranch b' = unplacedBranch b
  | ⟨_, guard, body⟩, hb, ls, h => by
      rw [branchTokens] at h
      rcases exists_cons h with ⟨pos, rest, rfl, hrest⟩
      rcases List.map_eq_append_iff.mp hrest with ⟨gls, bls, rfl, hgls, hbls⟩
      rcases Expr.exists_enclosed hb.1.1 hgls with ⟨guard', hguard, hgeq⟩
      rcases exists_framed (fun ls => exists_lines hb.2) hbls with ⟨body', hbody, hbeq⟩
      exact ⟨_, .mk pos hguard hbody, by rw [unplacedBranch, unplacedBranch, hgeq, hbeq]⟩

theorem exists_othersWritten : ∀ {bs : List Branch}, OthersExpressible bs →
    ∀ {ls : List Lexeme}, ls.map Lexeme.token = othersTokens bs →
      ∃ bs', OthersWritten bs' ls ∧ unplacedBranches bs' = unplacedBranches bs
  | [], _, ls, h => by
      rcases List.map_eq_nil_iff.mp h with rfl
      exact ⟨[], .nil, rfl⟩
  | b :: bs, hbs, ls, h => by
      rw [othersTokens] at h
      rcases exists_cons h with ⟨line, rest, rfl, hrest⟩
      rcases exists_cons hrest with ⟨word, both, rfl, hboth⟩
      rcases List.map_eq_append_iff.mp hboth with ⟨bls, ols, rfl, hbls, hols⟩
      rcases exists_branchWritten hbs.1 hbls with ⟨b', hb, hbeq⟩
      rcases exists_othersWritten hbs.2 hols with ⟨bs', hothers, hoeq⟩
      exact ⟨b' :: bs', .cons word (breaks_single line) hb hothers,
        by rw [unplacedBranches, unplacedBranches, hbeq, hoeq]⟩

theorem exists_otherwiseWritten : ∀ {body : Option (List Statement)},
    OtherwiseExpressible body → ∀ {ls : List Lexeme},
      ls.map Lexeme.token = otherwiseTokens body →
        ∃ body', OtherwiseWritten body' ls ∧ unplacedOtherwise body' = unplacedOtherwise body
  | none, _, ls, h => by
      rcases List.map_eq_nil_iff.mp h with rfl
      exact ⟨none, .none, rfl⟩
  | some body, hbody, ls, h => by
      rw [otherwiseTokens] at h
      rcases exists_cons h with ⟨line, rest, rfl, hrest⟩
      rcases exists_cons hrest with ⟨word, bls, rfl, hbls⟩
      rcases exists_framed (fun ls => exists_lines hbody) hbls with ⟨body', hframed, hbeq⟩
      exact ⟨some body', .some word (breaks_single line) hframed,
        by rw [unplacedOtherwise, unplacedOtherwise, hbeq]⟩

theorem exists_lines : ∀ {sts : List Statement}, AllExpressible sts → ∀ {ls : List Lexeme},
    ls.map Lexeme.token = linesTokens sts →
      ∃ sts', Lines sts' ls ∧ unplacedAll sts' = unplacedAll sts
  | [], _, ls, h => by
      rcases List.map_eq_nil_iff.mp h with rfl
      exact ⟨[], .nil, rfl⟩
  | st :: sts, hsts, ls, h => by
      rw [linesTokens] at h
      rcases exists_between h with ⟨sls, line, rest, rfl, hsls, hrest⟩
      rcases exists_written hsts.1 hsls with ⟨st', hst, hseq⟩
      rcases exists_lines hsts.2 hrest with ⟨sts', hlines, hleq⟩
      exact ⟨st' :: sts', .cons hst (breaks_single line) (List.cons_ne_nil _ _) hlines,
        by rw [unplacedAll, unplacedAll, hseq, hleq]⟩

end

end Statement

namespace Program

/-- Lexemes with the tokens of a program are the same program, at their positions. -/
theorem exists_written {p : Program} (hp : p.Expressible) {ls : List Lexeme}
    (h : ls.map Lexeme.token = p.tokens) :
    ∃ q : Program, q.Written ls ∧ q.unplaced = p.unplaced := by
  rcases exists_cons h with ⟨pos, ls₁, rfl, h₁⟩
  rcases exists_cons h₁ with ⟨word, ls₂, rfl, h₂⟩
  rcases exists_cons h₂ with ⟨line, ls₃, rfl, h₃⟩
  rcases exists_between h₃ with ⟨sls, closing, ls₄, rfl, hsls, h₄⟩
  rcases exists_cons h₄ with ⟨word', ls₅, rfl, h₅⟩
  rcases exists_single h₅ with ⟨last, rfl⟩
  rcases Statement.exists_lines hp hsls with ⟨sts, hlines, heq⟩
  have hlisted : Statement.Listed sts ([⟨.lineBreak, line⟩] ++ sls) :=
    .mk (breaks_single line) hlines
  refine ⟨⟨pos, sts⟩, ?_, by rw [unplaced, unplaced, heq]⟩
  exact .mk pos word closing word' breaks_nil hlisted (breaks_single last)

/-- Every program that is read from a source text is expressible, and every expressible
    program is read back from its own source text, up to positions. -/
theorem source_roundTrip :
    (∀ (source : String) (p : Program), ofSource source = .ok p → p.Expressible) ∧
    ∀ p : Program, p.Expressible →
      ∃ q, ofSource p.source = .ok q ∧ q.unplaced = p.unplaced := by
  refine ⟨fun source p h => expressible_of_ofSource h, fun p hp => ?_⟩
  rcases Lexeme.yields_layout (writable_of_expressible hp) .start with ⟨ls, hcut, htokens⟩
  have hsource : Lexeme.ofSource p.source = .ok ls := by
    rw [Lexeme.ofSource, source, String.toList_ofList]
    exact hcut
  rcases exists_written hp htokens with ⟨q, hq, heq⟩
  refine ⟨q, ?_, heq⟩
  rw [ofSource, hsource]
  exact ofLexemes_eq_ok.mpr hq

/-- A text with a comment, a tab and a statement beside `BEGIN CODE`, with a sign behind an
    operator, and with signs of comments inside a text and an escape; and a program with a
    number that has no exact decimal of few places. -/
theorem source_roundTrip_of_comment :
    let text := "BEGIN CODE DISPLAY: \"#\" &[#] # end\n\tx=y=1- -(x)\n\nIF(NOT x>=y)\nBEGIN IF\n" ++
      "END IF\n\nELSE\nBEGIN IF\nEND IF\nEND CODE"
    let written := "BEGIN CODE\nDISPLAY : \"#\" & [#]\nx = y = 1 - - ( x )\nIF ( NOT x >= y )\n" ++
      "BEGIN IF\nEND IF\nELSE\nBEGIN IF\nEND IF\nEND CODE\n"
    let tenth : Program := ⟨⟨7, 3⟩, [.display ⟨8, 2⟩
      (.literal ⟨8, 10⟩ (.float (Binary32.ofDecimal false ⟨1, -1⟩)))]⟩
    (∃ p, ofSource text = .ok p ∧ p.source = written ∧ p.Expressible ∧
      ∃ q, ofSource written = .ok q ∧ q.unplaced = p.unplaced) ∧
    tenth.Expressible ∧ ∃ q, ofSource tenth.source = .ok q ∧ q.unplaced = tenth.unplaced := by
  intro text written tenth
  constructor
  · have hwritten : (ofSource text).map source = .ok written := by decide +kernel
    cases hread : ofSource text with
    | error e =>
        rw [hread] at hwritten
        cases hwritten
    | ok p =>
        rw [hread] at hwritten
        have hsource : p.source = written := Except.ok.inj hwritten
        have hp : p.Expressible := source_roundTrip.1 text p hread
        have hback := source_roundTrip.2 p hp
        rw [hsource] at hback
        exact ⟨p, rfl, hsource, hp, hback⟩
  · have hdigit : ∀ c : Char, c.isDigit = true → [c] ∈ Lexing.Rule.language .integer :=
      fun c hc => Lexing.Rule.mem_integer.mpr
        ⟨List.cons_ne_nil _ _, List.forall_mem_singleton.mpr hc⟩
    have hdigits : ['0', '.', '1'] ∈ Lexing.Rule.language .real :=
      Lexing.Rule.mem_real.mpr ⟨['0'], ['1'], hdigit '0' rfl, hdigit '1' rfl, rfl⟩
    have htenth : tenth.Expressible :=
      ⟨⟨trivial, ['0', '.', '1'], hdigits, by decide +kernel⟩, trivial⟩
    exact ⟨htenth, source_roundTrip.2 tenth htenth⟩

end Program

end Primer
