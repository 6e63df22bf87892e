import Primer.Parser.Statement
import Primer.Proofs.Grammar.Program
import Primer.Proofs.Grammar.ReadExpression

/-!
# Reading Statements by Their Grammar

The parser of a single statement, held against the grammar in both directions, over
whatever reads the statements in its frames.

What a statement's parser takes is a statement as the grammar writes it: that is the
first direction, and it holds wherever the parser succeeds. The other direction needs
to know what comes next. An expression, a list with commas or a choice has no end of
its own, and the parser goes on as long as what follows can belong to it. The grammar
puts a line break behind every statement, and no `ELSE` behind the line breaks. With
that in sight the parser takes the whole statement and nothing more.

A condition, a frame and a branch do have an end of their own, so for them the two
directions are one equivalence. So are they for the statements in a frame, in front of
the `END` that closes it.

## Main definitions

* `Parser.Sound`, `Parser.Complete`: The two directions.
* `Parser.ReadsBody`: A parser reads the statements in front of an `END`.
* `Parser.Halts`, `Parser.EndsLine`: What comes next belongs to no expression, and ends
  a statement.

## Theorems

* `Parser.run_condition_ok`, `Parser.run_framed_ok`, `Parser.run_branch_ok`: Conditions,
  frames and branches.
* `Parser.commaSeparated_sound`, `Parser.commaSeparated_complete`: Lists with commas.
* `Parser.targets_written`: The targets of an assignment end where its expression begins.
* `Parser.run_branches_stop`, `Parser.run_branches_elseIf`, `Parser.run_branches_else`: The
  three ways a choice goes on.
* `Parser.branches_sound`, `Parser.branches_complete`: The rest of a choice.
* `Parser.single_sound`, `Parser.single_complete`: Statements.
-/

namespace Primer

namespace Parser

open Statement

variable {α : Type} {ls rest : List Lexeme} {n : Nat}

/-- What the parser takes is written as the relation says. -/
def Sound (written : α → List Lexeme → Prop) (n : Nat) (p : Parser α) : Prop :=
  ∀ ls x rest, ls.length ≤ n → p.run ls = .ok x rest →
    ∃ front, written x front ∧ ls = front ++ rest

/-- The parser takes what is written as the relation says, in front of what `follow`
    allows. -/
def Complete (follow : List Lexeme → Prop) (written : α → List Lexeme → Prop) (n : Nat)
    (p : Parser α) : Prop :=
  ∀ front x rest, (front ++ rest).length ≤ n → written x front → follow rest →
    p.run (front ++ rest) = .ok x rest

/-- The parser reads the statements in front of an `END`. -/
def ReadsBody (n : Nat) (body : Parser (List Statement)) : Prop :=
  ∀ ls sts rest, ls.length ≤ n → front? rest = some (.keyword .endKw) →
    (body.run ls = .ok sts rest ↔ ∃ front, Listed sts front ∧ ls = front ++ rest)

/-- What comes next belongs neither to an expression nor to an assignment. -/
def Halts (rest : List Lexeme) : Prop :=
  ∀ o ∈ rest.head?, o.token.binaryLevel? = none ∧ o.token ≠ .symbol .assign

/-- What comes next ends a statement: a line break, and no `ELSE` behind the line
    breaks. -/
def EndsLine (rest : List Lexeme) : Prop :=
  front? rest = some .lineBreak ∧ front? (afterBreaks rest) ≠ some (.keyword .elseKw)

theorem afterBreaks_append {nls : List Lexeme} (hn : Breaks nls) (ls : List Lexeme) :
    afterBreaks (nls ++ ls) = afterBreaks ls :=
  List.dropWhile_append_of_pos fun l hl => decide_eq_true (hn l hl)

theorem afterBreaks_cons {o : Lexeme} (ho : o.token ≠ .lineBreak) (ls : List Lexeme) :
    afterBreaks (o :: ls) = o :: ls :=
  List.dropWhile_cons_of_neg (by rw [decide_eq_true_eq]; exact ho)

theorem afterBreaks_keyword (word : Keyword) (pos : Position) (ls : List Lexeme) :
    afterBreaks (⟨.keyword word, pos⟩ :: ls) = ⟨.keyword word, pos⟩ :: ls :=
  afterBreaks_cons (o := ⟨.keyword word, pos⟩) nofun ls

theorem exists_breaks (ls : List Lexeme) : ∃ nls, Breaks nls ∧ ls = nls ++ afterBreaks ls := by
  refine ⟨ls.takeWhile fun l => l.token = .lineBreak, fun l hl => ?_,
    List.takeWhile_append_dropWhile.symm⟩
  exact of_decide_eq_true (List.all_eq_true.mp List.all_takeWhile l hl)

theorem front?_eq_some {token : Token} :
    front? ls = some token ↔ ∃ pos tail, ls = ⟨token, pos⟩ :: tail := by
  constructor
  · intro h
    cases ls with
    | nil => exact absurd h nofun
    | cons l tail =>
        rw [← Option.some.inj h]
        exact ⟨l.pos, tail, rfl⟩
  · rintro ⟨pos, tail, rfl⟩
    rfl

theorem halts_cons {o : Lexeme} (hop : o.token.binaryLevel? = none)
    (hassign : o.token ≠ .symbol .assign) : Halts (o :: ls) := by
  intro o' ho'
  rw [← Option.some.inj ho']
  exact ⟨hop, hassign⟩

theorem Halts.stops (h : Halts rest) : Stops 0 rest := by
  intro o ho j hj
  rw [(h o ho).1] at hj
  exact absurd hj nofun

theorem EndsLine.halts (h : EndsLine rest) : Halts rest := by
  rcases front?_eq_some.mp h.1 with ⟨pos, tail, rfl⟩
  exact halts_cons rfl nofun

theorem expressionWithin_sound : Sound Expr.Written n (expressionWithin n) := by
  intro ls e rest hn hrun
  -- The grammar of statements has no use for where the expression stops.
  rcases (expressionWithin_reads n ls e rest hn).mp hrun with ⟨hlay, -, ⟨front, hsp, hls⟩, -⟩
  exact ⟨front, ⟨hlay, hsp⟩, hls⟩

theorem expressionWithin_complete : Complete Halts Expr.Written n (expressionWithin n) := by
  intro front e rest hn h hrest
  exact (expressionWithin_reads n _ e rest hn).mpr
    ⟨h.1, Nat.zero_le _, ⟨front, h.2, rfl⟩, hrest.stops⟩

/-- The closing parenthesis ends a condition, whatever comes next. -/
theorem run_condition_ok {e : Expr} (hn : ls.length ≤ n) :
    (condition n).run ls = .ok e rest ↔ ∃ front, e.Enclosed front ∧ ls = front ++ rest := by
  unfold condition
  constructor
  · intro hrun
    rcases run_bind_ok.mp hrun with ⟨opening, mid, hopen, hrun₁⟩
    rcases run_bind_ok.mp hrun₁ with ⟨e', mid', hexpr, hrun₂⟩
    rcases run_bind_ok.mp hrun₂ with ⟨close, mid'', hclose, hrun₃⟩
    rcases run_pure_ok.mp hrun₃ with ⟨rfl, rfl⟩
    rw [run_expect_ok] at hopen hclose
    subst hopen hclose
    rw [List.length_cons] at hn
    rcases expressionWithin_sound _ _ _ (by omega) hexpr with ⟨front, hfront, rfl⟩
    refine ⟨_, .mk opening close hfront, ?_⟩
    rw [List.cons_append, List.append_assoc, List.singleton_append]
  · rintro ⟨front, ⟨opening, close, h⟩, rfl⟩
    rw [List.cons_append, List.append_assoc, List.singleton_append] at hn ⊢
    rw [List.length_cons] at hn
    refine run_bind_ok.mpr ⟨opening, _, run_expect_ok.mpr rfl, ?_⟩
    -- The closing parenthesis comes next, and belongs to no expression.
    refine run_bind_ok.mpr ⟨e, _, expressionWithin_complete _ e _ (by omega) h
      (halts_cons rfl nofun), ?_⟩
    exact run_bind_ok.mpr ⟨close, rest, run_expect_ok.mpr rfl, rfl⟩

section Items

variable {item : Parser α} {written : α → List Lexeme → Prop}

theorem moreItems_sound (hitem : Sound written n item) :
    ∀ (k : Nat) (ls : List Lexeme) (x : α) (fls : List Lexeme) (xs : List α)
      (rest : List Lexeme), written x fls → ls.length ≤ n →
      (moreItems item k).run ls = .ok xs rest →
      ∃ front, Separated written (x :: xs) (fls ++ front) ∧ ls = front ++ rest := by
  intro k
  induction k with
  | zero =>
      intro ls x fls xs rest hx _ hrun
      rcases run_pure_ok.mp hrun with ⟨rfl, rfl⟩
      exact ⟨[], by rw [List.append_nil]; exact .one hx, rfl⟩
  | succ k ih =>
      intro ls x fls xs rest hx hn hrun
      rw [moreItems] at hrun
      rcases run_bind_ok.mp hrun with ⟨taken, mid, htakes, hrun₁⟩
      cases taken with
      | false =>
          rcases run_takes_false.mp htakes with ⟨-, rfl⟩
          rcases run_pure_ok.mp hrun₁ with ⟨rfl, rfl⟩
          exact ⟨[], by rw [List.append_nil]; exact .one hx, rfl⟩
      | true =>
          rcases run_takes_true.mp htakes with ⟨comma, rfl⟩
          rcases run_bind_ok.mp hrun₁ with ⟨y, mid', hy, hrun₂⟩
          rcases run_bind_ok.mp hrun₂ with ⟨ys, mid'', hys, hrun₃⟩
          rcases run_pure_ok.mp hrun₃ with ⟨rfl, rfl⟩
          rw [List.length_cons] at hn
          rcases hitem mid y mid' (by omega) hy with ⟨yls, hyw, rfl⟩
          rw [List.length_append] at hn
          rcases ih mid' y yls ys rest hyw (by omega) hys with ⟨front, hsep, rfl⟩
          refine ⟨⟨.symbol .comma, comma⟩ :: (yls ++ front), .more comma hx hsep, ?_⟩
          rw [List.cons_append, List.append_assoc]

theorem commaSeparated_sound (hitem : Sound written n item) :
    Sound (Separated written) n (commaSeparated n item) := by
  intro ls xs rest hn hrun
  rcases run_bind_ok.mp hrun with ⟨x, mid, hx, hrun₁⟩
  rcases run_bind_ok.mp hrun₁ with ⟨ys, mid', hys, hrun₂⟩
  rcases run_pure_ok.mp hrun₂ with ⟨rfl, rfl⟩
  rcases hitem ls x mid hn hx with ⟨fls, hxw, rfl⟩
  rw [List.length_append] at hn
  rcases moreItems_sound hitem n mid x fls ys rest hxw (by omega) hys with ⟨front, hsep, rfl⟩
  exact ⟨fls ++ front, hsep, by rw [List.append_assoc]⟩

/-- If there may be as many items as there are lexemes, all items are taken. -/
theorem run_commaSeparated_of_separated (hitem : Complete Halts written n item)
    (hrest : EndsLine rest) {xs : List α} {front : List Lexeme}
    (hsep : Separated written xs front) :
    ∀ k, (front ++ rest).length ≤ n → (front ++ rest).length ≤ k →
      (commaSeparated k item).run (front ++ rest) = .ok xs rest := by
  induction hsep with
  | one h =>
      intro k hn _
      refine run_bind_ok.mpr ⟨_, rest, hitem _ _ rest hn h hrest.halts, ?_⟩
      refine run_bind_ok.mpr ⟨[], rest, ?_, rfl⟩
      cases k with
      | zero => rfl
      | succ k =>
          have hcomma : front? rest ≠ some (.symbol .comma) := by
            rw [hrest.1]
            exact nofun
          exact run_bind_ok.mpr ⟨false, rest, run_takes_false.mpr ⟨hcomma, rfl⟩, rfl⟩
  | @more x xs ls tail comma h _ ih =>
      intro k hn hk
      rw [List.append_assoc, List.cons_append] at hn hk ⊢
      rcases k with _ | k
      · rw [List.length_append, List.length_cons] at hk
        omega
      -- The item ends in front of the comma.
      have hfirst := hitem ls x _ hn h (halts_cons rfl nofun)
      rw [List.length_append, List.length_cons] at hn hk
      -- The items after the comma are a list of their own, and its first item is the
      -- next one here.
      rcases run_bind_ok.mp (ih k (by omega) (by omega)) with ⟨y, mid, hy, hrun⟩
      refine run_bind_ok.mpr ⟨x, _, hfirst, ?_⟩
      refine run_bind_ok.mpr ⟨xs, rest, ?_, rfl⟩
      refine run_bind_ok.mpr ⟨true, tail ++ rest, run_takes_true.mpr ⟨comma, rfl⟩, ?_⟩
      exact run_bind_ok.mpr ⟨y, mid, hy, hrun⟩

theorem commaSeparated_complete (hitem : Complete Halts written n item) :
    Complete EndsLine (Separated written) n (commaSeparated n item) :=
  fun _ _ _ hn hsep hrest => run_commaSeparated_of_separated hitem hrest hsep n hn hn

end Items

section Declaration

theorem declarator_sound : Sound Declarator.Written n (declarator n) := by
  intro ls d rest hn hrun
  unfold declarator at hrun
  rcases run_bind_ok.mp hrun with ⟨⟨name, pos⟩, mid, hname, hrun₁⟩
  rw [run_identifier_ok] at hname
  subst hname
  rcases run_bind_ok.mp hrun₁ with ⟨taken, mid', htakes, hrun₂⟩
  cases taken with
  | false =>
      rcases run_takes_false.mp htakes with ⟨-, rfl⟩
      rcases run_pure_ok.mp hrun₂ with ⟨rfl, rfl⟩
      exact ⟨_, .bare pos name, rfl⟩
  | true =>
      rcases run_takes_true.mp htakes with ⟨sign, rfl⟩
      rcases run_bind_ok.mp hrun₂ with ⟨e, mid'', hexpr, hrun₃⟩
      rcases run_pure_ok.mp hrun₃ with ⟨rfl, rfl⟩
      rw [List.length_cons, List.length_cons] at hn
      rcases expressionWithin_sound _ _ _ (by omega) hexpr with ⟨front, hfront, rfl⟩
      exact ⟨_, .initialized pos name sign hfront, rfl⟩

theorem declarator_complete : Complete Halts Declarator.Written n (declarator n) := by
  intro front d rest hn h hrest
  unfold declarator
  cases h with
  | bare pos name =>
      have hassign : front? rest ≠ some (.symbol .assign) := by
        intro hfront
        rcases front?_eq_some.mp hfront with ⟨sign, tail, rfl⟩
        exact (hrest _ rfl).2 rfl
      refine run_bind_ok.mpr ⟨(name, pos), rest, run_identifier_ok.mpr rfl, ?_⟩
      exact run_bind_ok.mpr ⟨false, rest, run_takes_false.mpr ⟨hassign, rfl⟩, rfl⟩
  | @initialized pos name sign e els he =>
      rw [List.cons_append, List.cons_append] at hn ⊢
      rw [List.length_cons, List.length_cons] at hn
      refine run_bind_ok.mpr ⟨(name, pos), _, run_identifier_ok.mpr rfl, ?_⟩
      refine run_bind_ok.mpr ⟨true, els ++ rest, run_takes_true.mpr ⟨sign, rfl⟩, ?_⟩
      exact run_bind_ok.mpr ⟨e, rest, expressionWithin_complete _ e _ (by omega) he hrest, rfl⟩

end Declaration

section Names

/-- A name together with its position. -/
def PlacedName (x : String × Position) (ls : List Lexeme) : Prop :=
  ls = [⟨.identifier x.1, x.2⟩]

theorem nameWritten_iff (name : String) (ls : List Lexeme) :
    NameWritten name ls ↔ ∃ x : String × Position, x.1 = name ∧ PlacedName x ls := by
  constructor
  · rintro ⟨pos, rfl⟩
    exact ⟨(name, pos), rfl, rfl⟩
  · rintro ⟨⟨_, pos⟩, rfl, h⟩
    exact ⟨pos, h⟩

theorem identifier_sound : Sound PlacedName n identifier := by
  intro ls x rest _ hrun
  exact ⟨_, rfl, run_identifier_ok.mp hrun⟩

theorem identifier_complete : Complete Halts PlacedName n identifier := by
  rintro front x rest _ rfl _
  exact run_identifier_ok.mpr rfl

end Names

section Assignment

theorem exists_targets (ls : List Lexeme) :
    ∃ front, Targets (targets ls).1 front ∧ ls = front ++ (targets ls).2 := by
  fun_induction targets ls with
  | case1 name pos sign rest more after htargets ih =>
      rw [htargets] at ih
      rcases ih with ⟨front, hfront, hrest⟩
      exact ⟨_, .cons pos sign hfront, by rw [hrest]; rfl⟩
  | case2 ls _ => exact ⟨[], .nil, rfl⟩

theorem targets_append {names : List String} {tls : List Lexeme} (h : Targets names tls)
    (hls : targets ls = ([], ls)) : targets (tls ++ ls) = (names, ls) := by
  induction h with
  | nil => exact hls
  | cons pos sign h ih => rw [List.cons_append, List.cons_append, targets, ih]

/-- The targets of an assignment end where its expression begins, even if that begins
    with a name. -/
theorem targets_written {e : Expr} {els : List Lexeme} (he : e.Written els) (hrest : Halts rest) :
    targets (els ++ rest) = ([], els ++ rest) := by
  have hne : els ≠ [] := he.2.ne_nil
  unfold targets
  split
  · rename_i name pos sign after heq
    exfalso
    rcases els with _ | ⟨l, _ | ⟨l', tail⟩⟩
    · exact hne rfl
    · -- The expression is a single name, and the sign would come next.
      cases heq
      exact (hrest _ rfl).2 rfl
    · -- The sign would be part of the expression.
      cases heq
      exact he.2.ne rfl ⟨.symbol .assign, sign⟩ (List.mem_cons_of_mem _ List.mem_cons_self) rfl
  · rfl

theorem assignment_sound : Sound Statement.Written n (assignment n) := by
  intro ls st rest hn hrun
  unfold assignment at hrun
  rcases run_bind_ok.mp hrun with ⟨⟨name, pos⟩, mid, hname, hrun₁⟩
  rcases run_bind_ok.mp hrun₁ with ⟨sign, mid', hsign, hrun₂⟩
  rw [run_identifier_ok] at hname
  rw [run_expect_ok] at hsign
  subst hname hsign
  rw [run_get_bind] at hrun₂
  -- The lexemes after the first sign are the other targets and the expression.
  rcases exists_targets mid' with ⟨tls, htls, hmid⟩
  rw [run_set_bind] at hrun₂
  rcases run_bind_ok.mp hrun₂ with ⟨e, mid'', hexpr, hrun₃⟩
  rcases run_pure_ok.mp hrun₃ with ⟨rfl, rfl⟩
  have hlen : (targets mid').2.length ≤ n := by
    have hmidlen := congrArg List.length hmid
    rw [List.length_append] at hmidlen
    rw [List.length_cons, List.length_cons] at hn
    omega
  rcases expressionWithin_sound _ _ _ hlen hexpr with ⟨els, hels, hafter⟩
  refine ⟨_, .assign pos sign htls hels, ?_⟩
  rw [List.cons_append, List.cons_append, List.append_assoc, ← hafter, ← hmid]

theorem run_assignment_of_written {pos sign : Position} {name : String} {names : List String}
    {e : Expr} {tls els : List Lexeme} (ht : Targets names tls) (he : e.Written els)
    (hrest : Halts rest) (hn : (els ++ rest).length ≤ n) :
    (assignment n).run (⟨.identifier name, pos⟩ :: ⟨.symbol .assign, sign⟩ ::
      (tls ++ (els ++ rest))) = .ok (.assign pos (name :: names) e) rest := by
  refine run_bind_ok.mpr ⟨(name, pos), _, run_identifier_ok.mpr rfl, ?_⟩
  refine run_bind_ok.mpr ⟨sign, _, run_expect_ok.mpr rfl, ?_⟩
  rw [run_get_bind, targets_append ht (targets_written he hrest)]
  dsimp only
  rw [run_set_bind]
  exact run_bind_ok.mpr ⟨e, rest, expressionWithin_complete els e rest hn he hrest, rfl⟩

end Assignment

section Frames

variable {body : Parser (List Statement)}

/-- The closing words end a frame, whatever comes next. -/
theorem run_framed_ok (hbody : ReadsBody n body) {frame : Keyword} {sts : List Statement}
    (hn : ls.length ≤ n) :
    (framed body frame).run ls = .ok sts rest ↔
      ∃ front, Framed frame sts front ∧ ls = front ++ rest := by
  unfold framed
  constructor
  · intro hrun
    rcases run_bind_ok.mp hrun with ⟨u, mid₀, hskip, hrun₁⟩
    rcases run_bind_ok.mp hrun₁ with ⟨opening, mid₁, hopen, hrun₂⟩
    rcases run_bind_ok.mp hrun₂ with ⟨word, mid₂, hword, hrun₃⟩
    rcases run_bind_ok.mp hrun₃ with ⟨line, mid₃, hline, hrun₄⟩
    rcases run_bind_ok.mp hrun₄ with ⟨sts', mid₄, hsts, hrun₅⟩
    rcases run_bind_ok.mp hrun₅ with ⟨closing, mid₅, hclosing, hrun₆⟩
    rcases run_bind_ok.mp hrun₆ with ⟨word', mid₆, hword', hrun₇⟩
    rcases run_pure_ok.mp hrun₇ with ⟨rfl, rfl⟩
    rw [run_skipBreaks_ok] at hskip
    rw [run_expect_ok] at hopen hword hline hclosing hword'
    rcases exists_breaks ls with ⟨nls, hnls, hls⟩
    rw [← hskip, hopen, hword, hline] at hls
    subst hclosing hword'
    rw [hls] at hn
    simp only [List.length_append, List.length_cons] at hn
    -- An `END` has been read behind the body, which is what the body needs.
    rcases (hbody _ _ _ (by omega) rfl).mp hsts with ⟨front, hfront, rfl⟩
    refine ⟨_, .mk frame opening word line closing word' hnls hfront, ?_⟩
    simp only [hls, List.append_assoc, List.cons_append, List.nil_append]
  · rintro ⟨front, ⟨_, opening, word, line, closing, word', hnls, hlist⟩, rfl⟩
    simp only [List.append_assoc, List.cons_append, List.nil_append, List.length_append,
      List.length_cons] at hn ⊢
    refine run_bind_ok.mpr ⟨⟨⟩, _, run_skipBreaks_ok.mpr rfl, ?_⟩
    rw [afterBreaks_append hnls, afterBreaks_keyword]
    refine run_bind_ok.mpr ⟨opening, _, run_expect_ok.mpr rfl, ?_⟩
    refine run_bind_ok.mpr ⟨word, _, run_expect_ok.mpr rfl, ?_⟩
    refine run_bind_ok.mpr ⟨line, _, run_expect_ok.mpr rfl, ?_⟩
    refine run_bind_ok.mpr ⟨sts, _, (hbody _ _ _ ?_ rfl).mpr ⟨_, hlist, rfl⟩, ?_⟩
    · simp only [List.length_append, List.length_cons]
      omega
    refine run_bind_ok.mpr ⟨closing, _, run_expect_ok.mpr rfl, ?_⟩
    exact run_bind_ok.mpr ⟨word', rest, run_expect_ok.mpr rfl, rfl⟩

theorem run_branch_ok (hbody : ReadsBody n body) {pos : Position} {b : Branch}
    (hn : ls.length ≤ n) :
    (branch (n + 1) body pos).run ls = .ok b rest ↔
      ∃ front, BranchWritten b (⟨.keyword .ifKw, pos⟩ :: front) ∧ ls = front ++ rest := by
  unfold branch
  constructor
  · intro hrun
    rcases run_bind_ok.mp hrun with ⟨guard, mid, hguard, hrun₁⟩
    rcases run_bind_ok.mp hrun₁ with ⟨sts, mid', hsts, hrun₂⟩
    rcases run_pure_ok.mp hrun₂ with ⟨rfl, rfl⟩
    rcases (run_condition_ok (by omega)).mp hguard with ⟨gls, hgls, rfl⟩
    rw [List.length_append] at hn
    rcases (run_framed_ok hbody (by omega)).mp hsts with ⟨bls, hbls, rfl⟩
    exact ⟨gls ++ bls, .mk pos hgls hbls, by rw [List.append_assoc]⟩
  · rintro ⟨front, hb, rfl⟩
    cases hb with
    | @mk pos guard sts gls bls hguard hsts =>
        rw [List.append_assoc] at hn ⊢
        refine run_bind_ok.mpr ⟨guard, _, (run_condition_ok (by omega)).mpr
          ⟨gls, hguard, rfl⟩, ?_⟩
        rw [List.length_append] at hn
        exact run_bind_ok.mpr ⟨sts, rest, (run_framed_ok hbody (by omega)).mpr
          ⟨bls, hsts, rfl⟩, rfl⟩

theorem branches_sound (hbody : ReadsBody n body) :
    ∀ (k : Nat) (ls : List Lexeme) (bs : List Branch) (otherwise : Option (List Statement))
      (rest : List Lexeme), ls.length ≤ n →
      (branches (n + 1) body k).run ls = .ok (bs, otherwise) rest →
      ∃ ols els, OthersWritten bs ols ∧ OtherwiseWritten otherwise els ∧
        ls = ols ++ (els ++ rest) := by
  intro k
  induction k with
  | zero =>
      intro ls bs otherwise rest _ hrun
      cases hrun
      exact ⟨[], [], .nil, .none, rfl⟩
  | succ k ih =>
      intro ls bs otherwise rest hn hrun
      rcases exists_breaks ls with ⟨nls, hnls, hls⟩
      have hlen := congrArg List.length hls
      rw [List.length_append] at hlen
      rw [branches, run_get_bind] at hrun
      split at hrun
      · -- `ELSE IF`: one more branch, and then the rest.
        rename_i word pos tail hafter
        rw [run_set_bind] at hrun
        rcases run_bind_ok.mp hrun with ⟨b, mid, hb, hrun₁⟩
        rcases run_bind_ok.mp hrun₁ with ⟨⟨bs', otherwise'⟩, mid', hbs, hrun₂⟩
        cases hrun₂
        rw [hafter, List.length_cons, List.length_cons] at hlen
        rcases (run_branch_ok hbody (by omega)).mp hb with ⟨bls, hbls, rfl⟩
        rw [List.length_append] at hlen
        rcases ih mid bs' otherwise rest (by omega) hbs with ⟨ols, els, hols, hels, rfl⟩
        refine ⟨_, els, .cons word hnls hbls hols, hels, ?_⟩
        rw [hls, hafter]
        simp only [List.append_assoc, List.cons_append]
      · -- `ELSE` alone: the choice ends with its frame.
        rename_i word tail hif hafter
        rw [run_set_bind] at hrun
        rcases run_bind_ok.mp hrun with ⟨sts, mid, hsts, hrun₁⟩
        cases hrun₁
        rw [hafter, List.length_cons] at hlen
        rcases (run_framed_ok hbody (by omega)).mp hsts with ⟨bls, hbls, rfl⟩
        refine ⟨[], _, .nil, .some word hnls hbls, ?_⟩
        rw [hls, hafter]
        simp only [List.append_assoc, List.cons_append, List.nil_append]
      · -- No `ELSE`: the line breaks are left.
        cases hrun
        exact ⟨[], [], .nil, .none, rfl⟩

section Else

variable {bound : Nat} {nls : List Lexeme}

/-- Without an `ELSE` behind the line breaks a choice ends, and the line breaks are
    left. -/
theorem run_branches_stop (hls : front? (afterBreaks ls) ≠ some (.keyword .elseKw)) (k : Nat) :
    (branches bound body k).run ls = .ok ([], none) ls := by
  cases k with
  | zero => rfl
  | succ k =>
      rw [branches, run_get_bind]
      split
      · rename_i word pos tail hafter
        exact absurd (by rw [hafter]; rfl) hls
      · rename_i word tail _ hafter
        exact absurd (by rw [hafter]; rfl) hls
      · rfl

/-- An `ELSE IF` is followed by a branch and by the rest of the choice. -/
theorem run_branches_elseIf (hnls : Breaks nls) (word pos : Position) (k : Nat) :
    (branches bound body (k + 1)).run
        (nls ++ ⟨.keyword .elseKw, word⟩ :: ⟨.keyword .ifKw, pos⟩ :: ls) =
      (branch bound body pos >>= fun b => branches bound body k >>= fun others =>
        pure (b :: others.1, others.2)).run ls := by
  rw [branches, run_get_bind, afterBreaks_append hnls, afterBreaks_keyword]
  rfl

/-- An `ELSE` without an `IF` is followed by the frame that a choice ends with. -/
theorem run_branches_else (hnls : Breaks nls) (word : Position)
    (hls : front? ls ≠ some (.keyword .ifKw)) (k : Nat) :
    (branches bound body (k + 1)).run (nls ++ ⟨.keyword .elseKw, word⟩ :: ls) =
      (framed body .ifKw >>= fun sts => pure ([], some sts)).run ls := by
  rw [branches, run_get_bind, afterBreaks_append hnls, afterBreaks_keyword]
  split
  · rename_i word' pos tail heq
    cases heq
    exact absurd rfl hls
  · rename_i word' tail _ heq
    cases heq
    rfl
  · rename_i hno
    exact absurd rfl (hno word _)

end Else

/-- The body for the case that no branch is taken is the last part of a choice. Without
    it, no `ELSE` may come next. -/
theorem run_branches_of_otherwise (hbody : ReadsBody n body)
    {otherwise : Option (List Statement)} {els : List Lexeme}
    (helse : OtherwiseWritten otherwise els)
    (hrest : front? (afterBreaks rest) ≠ some (.keyword .elseKw)) (k : Nat)
    (hn : (els ++ rest).length ≤ n) (hk : (els ++ rest).length ≤ k) :
    (branches (n + 1) body k).run (els ++ rest) = .ok ([], otherwise) rest := by
  cases helse with
  | none => exact run_branches_stop hrest k
  | @some word sts nls bls hnls hsts =>
      rw [List.append_assoc, List.cons_append] at hn hk ⊢
      rw [List.length_append, List.length_cons] at hn hk
      cases k with
      | zero => omega
      | succ k =>
          -- The frame begins with no `IF`, so this is no further branch.
          have hif : front? (bls ++ rest) ≠ some (.keyword .ifKw) := by
            rcases hsts.head with ⟨o, tail, rfl, ho⟩
            exact fun hfront => ho (Option.some.inj hfront)
          rw [run_branches_else hnls word hif]
          exact run_bind_ok.mpr ⟨sts, rest, (run_framed_ok hbody (by omega)).mpr
            ⟨bls, hsts, rfl⟩, rfl⟩

theorem branches_complete (hbody : ReadsBody n body) {otherwise : Option (List Statement)}
    {els : List Lexeme} (helse : OtherwiseWritten otherwise els)
    (hrest : front? (afterBreaks rest) ≠ some (.keyword .elseKw)) :
    ∀ (bs : List Branch) (ols : List Lexeme) (k : Nat), OthersWritten bs ols →
      (ols ++ (els ++ rest)).length ≤ n → (ols ++ (els ++ rest)).length ≤ k →
      (branches (n + 1) body k).run (ols ++ (els ++ rest)) = .ok (bs, otherwise) rest := by
  intro bs
  induction bs with
  | nil =>
      intro ols k hothers hn hk
      cases hothers
      exact run_branches_of_otherwise hbody helse hrest k hn hk
  | cons b bs ih =>
      intro ols k hothers hn hk
      cases hothers with
      | @cons word _ _ nls bls ols hnls hb hbs =>
          -- The branch is taken apart for its `IF`, and is still needed as a whole.
          have hb' := hb
          cases hb' with
          | @mk pos guard sts gls fls hguard hsts =>
              simp only [List.append_assoc, List.cons_append, List.length_append,
                List.length_cons] at hn hk ⊢
              cases k with
              | zero => omega
              | succ k =>
                  rw [run_branches_elseIf hnls word pos]
                  refine run_bind_ok.mpr ⟨_, ols ++ (els ++ rest),
                    (run_branch_ok hbody ?_).mpr ⟨gls ++ fls, hb, ?_⟩, ?_⟩
                  · simp only [List.length_append]
                    omega
                  · rw [List.append_assoc]
                  · refine run_bind_ok.mpr ⟨(bs, otherwise), rest, ih ols k hbs ?_ ?_, rfl⟩
                    · simp only [List.length_append]
                      omega
                    · simp only [List.length_append]
                      omega

/-- The first lexeme decides which rule of the grammar a statement is read by. -/
theorem single_sound (hbody : ReadsBody n body) :
    Sound Statement.Written (n + 1) (single (n + 1) body) := by
  intro ls st rest hn hrun
  unfold single at hrun
  rw [run_get_bind] at hrun
  rcases ls with _ | ⟨⟨token, pos⟩, tail⟩
  · exact absurd hrun run_throw_ne_ok
  have htail : tail.length ≤ n := Nat.le_of_succ_le_succ hn
  dsimp only at hrun
  split at hrun
  · rename_i type
    rw [run_set_bind] at hrun
    rcases run_bind_ok.mp hrun with ⟨ds, mid, hds, hrun₁⟩
    rcases run_pure_ok.mp hrun₁ with ⟨rfl, rfl⟩
    rcases commaSeparated_sound declarator_sound _ _ _ (by omega) hds with ⟨front, hsep, rfl⟩
    exact ⟨_, .declare pos type hsep, rfl⟩
  · exact assignment_sound _ _ _ hn hrun
  · rw [run_set_bind] at hrun
    rcases run_bind_ok.mp hrun with ⟨colon, mid, hcolon, hrun₁⟩
    rcases run_bind_ok.mp hrun₁ with ⟨e, mid', hexpr, hrun₂⟩
    rcases run_pure_ok.mp hrun₂ with ⟨rfl, rfl⟩
    rw [run_expect_ok] at hcolon
    subst hcolon
    rw [List.length_cons] at htail
    rcases expressionWithin_sound _ _ _ (by omega) hexpr with ⟨front, hfront, rfl⟩
    exact ⟨_, .display pos colon hfront, rfl⟩
  · rw [run_set_bind] at hrun
    rcases run_bind_ok.mp hrun with ⟨colon, mid, hcolon, hrun₁⟩
    rcases run_bind_ok.mp hrun₁ with ⟨xs, mid', hxs, hrun₂⟩
    rcases run_pure_ok.mp hrun₂ with ⟨rfl, rfl⟩
    rw [run_expect_ok] at hcolon
    subst hcolon
    rw [List.length_cons] at htail
    rcases commaSeparated_sound identifier_sound _ _ _ (by omega) hxs with ⟨front, hsep, rfl⟩
    exact ⟨_, .scan pos colon ((separated_map_iff nameWritten_iff).mpr ⟨xs, rfl, hsep⟩), rfl⟩
  · rw [run_set_bind] at hrun
    rcases run_bind_ok.mp hrun with ⟨first, mid, hfirst, hrun₁⟩
    rcases run_bind_ok.mp hrun₁ with ⟨⟨others, otherwise⟩, mid', hothers, hrun₂⟩
    rcases run_pure_ok.mp hrun₂ with ⟨rfl, rfl⟩
    rcases (run_branch_ok hbody htail).mp hfirst with ⟨fls, hfls, rfl⟩
    rw [List.length_append] at htail
    rcases branches_sound hbody _ _ _ _ _ (by omega) hothers with ⟨ols, els, hols, hels, rfl⟩
    -- The choice stands where its first branch does.
    have hpos : first.pos = pos := by
      cases hfls
      rfl
    subst hpos
    refine ⟨_, .choose hfls hols hels, ?_⟩
    simp only [List.cons_append, List.append_assoc]
  · rw [run_set_bind] at hrun
    rcases run_bind_ok.mp hrun with ⟨guard, mid, hguard, hrun₁⟩
    rcases run_bind_ok.mp hrun₁ with ⟨sts, mid', hsts, hrun₂⟩
    rcases run_pure_ok.mp hrun₂ with ⟨rfl, rfl⟩
    rcases (run_condition_ok (by omega)).mp hguard with ⟨gls, hgls, rfl⟩
    rw [List.length_append] at htail
    rcases (run_framed_ok hbody (by omega)).mp hsts with ⟨bls, hbls, rfl⟩
    refine ⟨_, .loop pos hgls hbls, ?_⟩
    simp only [List.cons_append, List.append_assoc]
  · rw [run_set_bind] at hrun
    rcases run_bind_ok.mp hrun with ⟨sts, mid, hsts, hrun₁⟩
    rcases run_bind_ok.mp hrun₁ with ⟨u, mid₁, hskip, hrun₂⟩
    rcases run_bind_ok.mp hrun₂ with ⟨word, mid₂, hword, hrun₃⟩
    rcases run_bind_ok.mp hrun₃ with ⟨guard, mid₃, hguard, hrun₄⟩
    rcases run_pure_ok.mp hrun₄ with ⟨rfl, rfl⟩
    rcases (run_framed_ok hbody htail).mp hsts with ⟨bls, hbls, rfl⟩
    -- Line breaks may stand between the frame and its condition.
    rcases exists_breaks mid with ⟨nls, hnls, hmid⟩
    rw [run_skipBreaks_ok] at hskip
    rw [run_expect_ok] at hword
    rw [← hskip, hword] at hmid
    rw [hmid] at htail
    simp only [List.length_append, List.length_cons] at htail
    rcases (run_condition_ok (by omega)).mp hguard with ⟨gls, hgls, rfl⟩
    refine ⟨_, .loopAfter pos word hbls hnls hgls, ?_⟩
    simp only [hmid, List.cons_append, List.append_assoc]
  · exact absurd hrun run_reject_ne_ok

/-- Each rule of the grammar is followed to its end, if the end of the line comes
    next. -/
theorem single_complete (hbody : ReadsBody n body) :
    Complete EndsLine Statement.Written (n + 1) (single (n + 1) body) := by
  intro front st rest hn h hrest
  unfold single
  rw [run_get_bind]
  cases h with
  | @declare pos type ds ls hsep =>
      rw [List.cons_append] at hn ⊢
      rw [List.length_cons] at hn
      dsimp only
      rw [run_set_bind]
      exact run_bind_ok.mpr ⟨ds, rest, commaSeparated_complete declarator_complete _ _ _
        (by omega) hsep hrest, rfl⟩
  | @assign pos sign name names e tls els ht he =>
      simp only [List.cons_append, List.append_assoc] at hn ⊢
      refine run_assignment_of_written ht he hrest.halts ?_
      rw [List.length_cons, List.length_cons, List.length_append] at hn
      omega
  | @display pos colon e ls he =>
      simp only [List.cons_append, List.length_cons] at hn ⊢
      rw [run_set_bind]
      refine run_bind_ok.mpr ⟨colon, _, run_expect_ok.mpr rfl, ?_⟩
      exact run_bind_ok.mpr ⟨e, rest, expressionWithin_complete _ _ _ (by omega) he
        hrest.halts, rfl⟩
  | @scan pos colon names ls hsep =>
      simp only [List.cons_append, List.length_cons] at hn ⊢
      rcases (separated_map_iff nameWritten_iff).mp hsep with ⟨xs, rfl, hxs⟩
      rw [run_set_bind]
      refine run_bind_ok.mpr ⟨colon, _, run_expect_ok.mpr rfl, ?_⟩
      exact run_bind_ok.mpr ⟨xs, rest, commaSeparated_complete identifier_complete _ _ _
        (by omega) hxs hrest, rfl⟩
  | @choose first others otherwise fls ols els hfirst hothers helse =>
      have hfirst' := hfirst
      cases hfirst' with
      | @mk pos guard sts gls bls hguard hsts =>
          simp only [List.cons_append, List.append_assoc, List.length_cons,
            List.length_append] at hn ⊢
          rw [run_set_bind]
          refine run_bind_ok.mpr ⟨_, ols ++ (els ++ rest),
            (run_branch_ok hbody ?_).mpr ⟨gls ++ bls, hfirst, ?_⟩, ?_⟩
          · simp only [List.length_append]
            omega
          · rw [List.append_assoc]
          · -- Behind the line breaks that end the statement there is no `ELSE`.
            refine run_bind_ok.mpr ⟨(others, otherwise), rest,
              branches_complete hbody helse hrest.2 others ols _ hothers ?_ ?_, rfl⟩
            · simp only [List.length_append]
              omega
            · simp only [List.length_append]
              omega
  | @loop pos guard sts gls bls hguard hsts =>
      simp only [List.cons_append, List.append_assoc, List.length_cons] at hn ⊢
      rw [run_set_bind]
      refine run_bind_ok.mpr ⟨guard, _, (run_condition_ok (by omega)).mpr
        ⟨gls, hguard, rfl⟩, ?_⟩
      rw [List.length_append] at hn
      exact run_bind_ok.mpr ⟨sts, rest, (run_framed_ok hbody (by omega)).mpr
        ⟨bls, hsts, rfl⟩, rfl⟩
  | @loopAfter pos word sts guard bls nls gls hsts hnls hguard =>
      simp only [List.cons_append, List.append_assoc, List.length_cons] at hn ⊢
      rw [run_set_bind]
      refine run_bind_ok.mpr ⟨sts, _, (run_framed_ok hbody (by omega)).mpr
        ⟨bls, hsts, rfl⟩, ?_⟩
      refine run_bind_ok.mpr ⟨⟨⟩, _, run_skipBreaks_ok.mpr rfl, ?_⟩
      rw [afterBreaks_append hnls, afterBreaks_keyword]
      refine run_bind_ok.mpr ⟨word, _, run_expect_ok.mpr rfl, ?_⟩
      simp only [List.length_append, List.length_cons] at hn
      refine run_bind_ok.mpr ⟨guard, rest, (run_condition_ok ?_).mpr ⟨gls, hguard, rfl⟩, rfl⟩
      rw [List.length_append]
      omega

end Frames

end Parser

end Primer
