import Primer.Parser.Expression
import Primer.Proofs.Grammar.Expression
import Primer.Proofs.Grammar.Steps

/-!
# Reading Expressions by Their Grammar

The parser of expressions reads exactly what the grammar allows, and builds the one
expression that is meant.

Each level of the parser is held against the same statement, `Reads`: at level `k` it
takes a layered expression that binds at least as tightly as `k`, it takes all of its
spelling, and it stops in front of whatever comes next, which is no operator that the
level or a tighter one would have taken. The statement is an equivalence, so it says at
once that nothing else is read and that nothing readable is refused.

Two lemmas carry `Reads` from a level to the next looser one: `chain_reads` for
operators between operands, and `marked_reads` for operators in front of one. Which
tokens are the operators of a level is a table, `joinAt` and `markAt`, and the parser's
own tables are shown to be its rows.

The induction that closes the circle is on the bound for what stands in parentheses.
The other bound, on the number of operators in a chain, is never the reason to stop:
every operator takes a lexeme, and there are no more operators than lexemes.

## Main definitions

* `Parser.Stops`: What comes next is no operator of a level or a tighter one.
* `Parser.Reads`: A parser reads the expressions of a level.
* `Parser.joinAt`, `Parser.markAt`: The operators of a level.

## Theorems

* `Parser.chain_reads`, `Parser.marked_reads`, `Parser.primary_reads`: The three ways a
  level is built.
* `Parser.expressionWithin_reads`: The parser reads expressions of any level.
* `Parser.run_expression_iff`: The parser accepts exactly its grammar.
-/

namespace Primer

namespace Parser

open Primer.Expr

/-- What comes next is not an operator between operands that binds at least as tightly
    as the level. -/
def Stops (k : Nat) (rest : List Lexeme) : Prop :=
  ∀ o ∈ rest.head?, ∀ j ∈ o.token.binaryLevel?, j < k

/-- On lists up to a length, the parser reads the layered expressions that bind at least
    as tightly as the level, and stops where they end. -/
def Reads (k n : Nat) (p : Parser Expr) : Prop :=
  ∀ (ls : List Lexeme) (e : Expr) (rest : List Lexeme), ls.length ≤ n →
    (p.run ls = .ok e rest ↔
      e.Layered ∧ k ≤ e.level ∧ (∃ front, e.Spelled front ∧ ls = front ++ rest) ∧ Stops k rest)

theorem stops_nil (k : Nat) : Stops k [] :=
  nofun

theorem Stops.mono {k k' : Nat} {rest : List Lexeme} (h : Stops k rest) (hk : k ≤ k') :
    Stops k' rest :=
  fun o ho j hj => Nat.lt_of_lt_of_le (h o ho j hj) hk

theorem stops_cons {k : Nat} {o : Lexeme} {rest : List Lexeme}
    (h : ∀ j, o.token.binaryLevel? = some j → j < k) : Stops k (o :: rest) := by
  intro o' ho' j hj
  rw [← Option.some.inj ho'] at hj
  exact h j hj

/-- Every operator between operands is looser than the expressions without one. -/
theorem stops_tightest (rest : List Lexeme) : Stops 9 rest := by
  intro o _ j hj
  have hlevel : ∀ t : Token, t.binaryLevel? = some j → j < 9 := by
    intro t ht
    unfold Token.binaryLevel? at ht
    split at ht <;> cases ht <;> decide
  exact hlevel o.token hj

/-- There is no operator between operands on the levels of the operators in front. -/
theorem binaryLevel?_ne_of_mark {k : Nat} (hk : k = 2 ∨ k = 8) (t : Token) :
    t.binaryLevel? ≠ some k := by
  rcases hk with rfl | rfl
  · unfold Token.binaryLevel?
    split <;> exact nofun
  · unfold Token.binaryLevel?
    split <;> exact nofun

section Tables

/-- What an operator between operands makes of them. -/
def join? : Lexeme → Option (Expr → Expr → Expr)
  | ⟨.keyword .orKw, pos⟩ => some (.connect pos .or)
  | ⟨.keyword .andKw, pos⟩ => some (.connect pos .and)
  | ⟨.symbol .equal, pos⟩ => some (.compare pos .eq)
  | ⟨.symbol .notEqual, pos⟩ => some (.compare pos .ne)
  | ⟨.symbol .less, pos⟩ => some (.compare pos .lt)
  | ⟨.symbol .greater, pos⟩ => some (.compare pos .gt)
  | ⟨.symbol .lessEqual, pos⟩ => some (.compare pos .le)
  | ⟨.symbol .greaterEqual, pos⟩ => some (.compare pos .ge)
  | ⟨.symbol .ampersand, pos⟩ => some (.concat pos)
  | ⟨.symbol .plus, pos⟩ => some (.arith pos .add)
  | ⟨.symbol .minus, pos⟩ => some (.arith pos .sub)
  | ⟨.symbol .star, pos⟩ => some (.arith pos .mul)
  | ⟨.symbol .slash, pos⟩ => some (.arith pos .div)
  | ⟨.symbol .percent, pos⟩ => some (.arith pos .mod)
  | _ => none

/-- The operators of a level between operands. -/
def joinAt (k : Nat) (o : Lexeme) : Option (Expr → Expr → Expr) :=
  if o.token.binaryLevel? = some k then join? o else none

/-- What an operator in front of an operand makes of it. -/
def mark? : Lexeme → Option (Expr → Expr)
  | ⟨.keyword .notKw, pos⟩ => some (.not pos)
  | ⟨.symbol .plus, pos⟩ => some (.signed pos .plus)
  | ⟨.symbol .minus, pos⟩ => some (.signed pos .minus)
  | _ => none

/-- The operators of a level in front of an operand. -/
def markAt (k : Nat) (o : Lexeme) : Option (Expr → Expr) :=
  if o.token.markLevel? = some k then mark? o else none

/-- The tables of the parser are the rows of these. -/
theorem operator_tables :
    disjunction? = joinAt 0 ∧ conjunction? = joinAt 1 ∧ equality? = joinAt 3 ∧
      order? = joinAt 4 ∧ concat? = joinAt 5 ∧ sum? = joinAt 6 ∧ product? = joinAt 7 ∧
      negation? = markAt 2 ∧ sign? = markAt 8 := by
  refine ⟨?_, ?_, ?_, ?_, ?_, ?_, ?_, ?_, ?_⟩
  all_goals
    funext ⟨t, pos⟩
    cases t with
    | keyword w => cases w <;> rfl
    | symbol s => cases s <;> rfl
    | _ => rfl

variable {k : Nat} {o : Lexeme}

/-- What an operator of a level makes is a node of that level. -/
theorem joins_of_joinAt {join : Expr → Expr → Expr} (h : joinAt k o = some join) (l r : Expr) :
    Joins o l r (join l r) ∧ (join l r).level = k := by
  rcases Option.ite_none_right_eq_some.mp h with ⟨hk, hjoin⟩
  have hnode : Joins o l r (join l r) := by
    unfold join? at hjoin
    split at hjoin <;> cases hjoin
    · exact .connect _ .or l r
    · exact .connect _ .and l r
    · exact .compare _ .eq l r
    · exact .compare _ .ne l r
    · exact .compare _ .lt l r
    · exact .compare _ .gt l r
    · exact .compare _ .le l r
    · exact .compare _ .ge l r
    · exact .concat _ l r
    · exact .arith _ .add l r
    · exact .arith _ .sub l r
    · exact .arith _ .mul l r
    · exact .arith _ .div l r
    · exact .arith _ .mod l r
  exact ⟨hnode, Option.some.inj (hnode.level_eq.symm.trans hk)⟩

theorem joinAt_of_joins {l r e : Expr} (h : Joins o l r e) :
    ∃ join, joinAt e.level o = some join ∧ join l r = e := by
  rw [joinAt, if_pos h.level_eq]
  cases h with
  | arith pos op => cases op <;> exact ⟨_, rfl, rfl⟩
  | compare pos op => cases op <;> exact ⟨_, rfl, rfl⟩
  | connect pos op => cases op <;> exact ⟨_, rfl, rfl⟩
  | concat pos => exact ⟨_, rfl, rfl⟩

theorem joinAt_eq_none (h : joinAt k o = none) : o.token.binaryLevel? ≠ some k := by
  intro hk
  rw [joinAt, if_pos hk] at h
  rcases o with ⟨t, pos⟩
  cases t with
  | keyword w => cases w <;> cases hk <;> cases h
  | symbol s => cases s <;> cases hk <;> cases h
  | _ => exact absurd hk nofun

theorem marks_of_markAt {mark : Expr → Expr} (h : markAt k o = some mark) (x : Expr) :
    Marks o x (mark x) ∧ (mark x).level = k := by
  rcases Option.ite_none_right_eq_some.mp h with ⟨hk, hmark⟩
  have hnode : Marks o x (mark x) := by
    unfold mark? at hmark
    split at hmark <;> cases hmark
    · exact .not _ x
    · exact .signed _ .plus x
    · exact .signed _ .minus x
  exact ⟨hnode, Option.some.inj (hnode.level_eq.symm.trans hk)⟩

theorem markAt_of_marks {x e : Expr} (h : Marks o x e) :
    ∃ mark, markAt e.level o = some mark ∧ mark x = e := by
  rw [markAt, if_pos h.level_eq]
  cases h with
  | signed pos sign => cases sign <;> exact ⟨_, rfl, rfl⟩
  | not pos => exact ⟨_, rfl, rfl⟩

end Tables

section Levels

variable {k n : Nat} {operand : Parser Expr}

/-- What a chain reads is layered and spelled in order, if what it started from is. The
    induction is on the operators that may still come. -/
theorem chainFrom_sound (hop : Reads (k + 1) n operand) :
    ∀ (m : Nat) (left : Expr) (fl ls : List Lexeme) (e : Expr) (rest : List Lexeme),
      left.Layered → k ≤ left.level → left.Spelled fl → ls.length ≤ m → ls.length ≤ n →
      Stops (k + 1) ls → (chainFrom operand (joinAt k) m left).run ls = .ok e rest →
      e.Layered ∧ k ≤ e.level ∧ (∃ front, e.Spelled (fl ++ front) ∧ ls = front ++ rest) ∧
        Stops k rest := by
  intro m
  induction m with
  | zero =>
      intro left fl ls e rest hlay hlev hsp hm _ _ hrun
      rcases run_pure_ok.mp hrun with ⟨rfl, rfl⟩
      rw [List.eq_nil_of_length_eq_zero (Nat.le_zero.mp hm)]
      exact ⟨hlay, hlev, ⟨[], by rwa [List.append_nil], rfl⟩, stops_nil k⟩
  | succ m ih =>
      intro left fl ls e rest hlay hlev hsp hm hn hstop hrun
      -- Without an operator of the level in front, the chain ends here.
      have hhere : (∀ o ∈ ls.head?, joinAt k o = none) →
          e.Layered ∧ k ≤ e.level ∧ (∃ front, e.Spelled (fl ++ front) ∧ ls = front ++ rest) ∧
            Stops k rest := by
        intro hjoin
        rw [run_chainFrom_stop hjoin] at hrun
        cases hrun
        refine ⟨hlay, hlev, ⟨[], by rwa [List.append_nil], rfl⟩, fun o ho j hj => ?_⟩
        -- The next operator is of this level or a looser one, and not of this level.
        have hle := hstop o ho j hj
        have hne : j ≠ k := by
          rintro rfl
          exact joinAt_eq_none (hjoin o ho) hj
        omega
      rcases ls with _ | ⟨o, tail⟩
      · exact hhere nofun
      cases hjoin : joinAt k o with
      | none =>
          refine hhere fun o' ho' => ?_
          rw [← Option.some.inj ho']
          exact hjoin
      | some join =>
          rcases (run_chainFrom_cons hjoin).mp hrun with ⟨right, mid, hright, hmore⟩
          rw [List.length_cons] at hm hn
          rcases (hop tail right mid (by omega)).mp hright with
            ⟨hrlay, hrlev, ⟨fr, hrsp, rfl⟩, hrstop⟩
          rw [List.length_append] at hm hn
          rcases joins_of_joinAt hjoin left right with ⟨hnode, hk⟩
          -- The node of both operands is what the rest of the chain goes on from.
          have hnlay : (join left right).Layered :=
            hnode.layered_iff.mpr ⟨by omega, by omega, hlay, hrlay⟩
          have hnsp : (join left right).Spelled (fl ++ o :: fr) :=
            hnode.spelled_iff.mpr ⟨fl, fr, hsp, hrsp, rfl⟩
          rcases ih (join left right) _ mid e rest hnlay (by omega) hnsp (by omega) (by omega)
            hrstop hmore with ⟨helay, helev, ⟨front, hesp, rfl⟩, hestop⟩
          refine ⟨helay, helev, ⟨o :: fr ++ front, ?_, ?_⟩, hestop⟩
          · rwa [List.append_assoc] at hesp
          · rw [List.append_assoc, List.cons_append]

/-- A chain that starts with the expression goes on from it: whatever the chain then
    yields, the whole yields. -/
def Leads (operand : Parser Expr) (k n : Nat) (e : Expr) : Prop :=
  ∀ (front rest : List Lexeme) (m : Nat), e.Spelled front → (front ++ rest).length ≤ m →
    (front ++ rest).length ≤ n → Stops (k + 1) rest →
    ∃ m', rest.length ≤ m' ∧ ∀ y after, (chainFrom operand (joinAt k) m' e).run rest = .ok y after →
      (chain m operand (joinAt k)).run (front ++ rest) = .ok y after

theorem leads_of_tighter (hop : Reads (k + 1) n operand) {e : Expr} (hlay : e.Layered)
    (hlev : k + 1 ≤ e.level) : Leads operand k n e := by
  intro front rest m hsp hm hn hstop
  refine ⟨m, by rw [List.length_append] at hm; omega, fun y after hrun => ?_⟩
  have hfirst : operand.run (front ++ rest) = .ok e rest :=
    (hop _ e rest hn).mpr ⟨hlay, hlev, ⟨front, hsp, rfl⟩, hstop⟩
  exact run_bind_ok.mpr ⟨e, rest, hfirst, hrun⟩

/-- The left operand leads the chain to the operator, and the operator takes it on past
    the right operand. -/
theorem leads_of_joins (hop : Reads (k + 1) n operand) {o : Lexeme} {l r e : Expr}
    (hnode : Joins o l r e) (hlay : e.Layered) (hlev : e.level = k)
    (hl : Leads operand k n l) : Leads operand k n e := by
  intro front rest m hsp hm hn hstop
  rcases hnode.spelled_iff.mp hsp with ⟨lls, rls, hlsp, hrsp, rfl⟩
  rcases hnode.layered_iff.mp hlay with ⟨-, hrlev, -, hrlay⟩
  rw [List.append_assoc, List.cons_append] at hm hn ⊢
  -- The left operand ends in front of the operator, which is of a looser level.
  have hostop : Stops (k + 1) (o :: (rls ++ rest)) := by
    refine stops_cons fun j hj => ?_
    rw [hnode.level_eq] at hj
    have hj' := Option.some.inj hj
    omega
  rcases hl lls (o :: (rls ++ rest)) m hlsp hm hn hostop with ⟨m₁, hm₁, hlead⟩
  rw [List.length_cons] at hm₁
  -- The operator itself is left, so one more may come.
  rcases m₁ with _ | m₁
  · omega
  rw [List.length_append, List.length_cons] at hn
  have hright : operand.run (rls ++ rest) = .ok r rest :=
    (hop _ r rest (by omega)).mpr ⟨hrlay, by omega, ⟨rls, hrsp, rfl⟩, hstop⟩
  rcases joinAt_of_joins hnode with ⟨join, hjoin, hje⟩
  rw [hlev] at hjoin
  rw [List.length_append] at hm₁
  refine ⟨m₁, by omega, fun y after hrun => hlead y after ?_⟩
  rw [← hje] at hrun
  exact (run_chainFrom_cons hjoin).mpr ⟨r, rest, hright, hrun⟩

theorem leads_of_layered (hop : Reads (k + 1) n operand) (h2 : k ≠ 2) (h8 : k ≠ 8) (h9 : k ≠ 9) :
    ∀ e : Expr, e.Layered → k ≤ e.level → Leads operand k n e := by
  -- One level up the operand reads the expression by itself; on the level there is an
  -- operator, and the left operand is not looser.
  have hstep : ∀ {o : Lexeme} {l r e : Expr}, Joins o l r e →
      (l.Layered → k ≤ l.level → Leads operand k n l) → e.Layered → k ≤ e.level →
      Leads operand k n e := by
    intro o l r e hnode ih hlay hlev
    by_cases hk : e.level = k
    · rcases hnode.layered_iff.mp hlay with ⟨hllev, -, hllay, -⟩
      exact leads_of_joins hop hnode hlay hk (ih hllay (by omega))
    · exact leads_of_tighter hop hlay (by omega)
  intro e
  induction e with
  | arith pos op l r ihl ihr => exact hstep (.arith pos op l r) ihl
  | compare pos op l r ihl ihr => exact hstep (.compare pos op l r) ihl
  | connect pos op l r ihl ihr => exact hstep (.connect pos op l r) ihl
  | concat pos l r ihl ihr => exact hstep (.concat pos l r) ihl
  | _ =>
      intro hlay hlev
      refine leads_of_tighter hop hlay ?_
      simp only [level] at hlev ⊢
      omega

/-- Operators between operands: the operands are of the next tighter level. -/
theorem chain_reads (hop : Reads (k + 1) n operand) (h2 : k ≠ 2) (h8 : k ≠ 8) (h9 : k ≠ 9)
    {m : Nat} (hm : n ≤ m) : Reads k n (chain m operand (joinAt k)) := by
  intro ls e rest hn
  constructor
  · intro hrun
    rcases run_bind_ok.mp hrun with ⟨first, mid, hfirst, hmore⟩
    rcases (hop ls first mid hn).mp hfirst with ⟨hlay, hlev, ⟨fl, hsp, rfl⟩, hstop⟩
    rw [List.length_append] at hn
    rcases chainFrom_sound hop m first fl mid e rest hlay (by omega) hsp (by omega) (by omega)
      hstop hmore with ⟨helay, helev, ⟨front, hesp, rfl⟩, hestop⟩
    exact ⟨helay, helev, ⟨fl ++ front, hesp, by rw [List.append_assoc]⟩, hestop⟩
  · rintro ⟨hlay, hlev, ⟨front, hsp, rfl⟩, hstop⟩
    rcases leads_of_layered hop h2 h8 h9 e hlay hlev front rest m hsp (by omega) hn
      (hstop.mono (by omega)) with ⟨m', -, hlead⟩
    refine hlead e rest (run_chainFrom_stop (fun o ho => ?_) m')
    rw [joinAt, if_neg]
    exact fun hk => absurd (hstop o ho k hk) (Nat.lt_irrefl k)

/-- Operators in front of an operand: the operand is of the next tighter level. -/
theorem marked_reads (hop : Reads (k + 1) n operand) (hk : k = 2 ∨ k = 8) :
    Reads k n (marked operand (markAt k)) := by
  -- Without an operator in front, the level adds nothing to the tighter one.
  have hplain : ∀ (ls : List Lexeme) (e : Expr) (rest : List Lexeme), ls.length ≤ n →
      (∀ o ∈ ls.head?, markAt k o = none) →
      ((marked operand (markAt k)).run ls = .ok e rest ↔
        e.Layered ∧ k ≤ e.level ∧ (∃ front, e.Spelled front ∧ ls = front ++ rest) ∧
          Stops k rest) := by
    intro ls e rest hn hmark
    rw [run_marked_operand hmark, hop ls e rest hn]
    constructor
    · rintro ⟨hlay, hlev, hsp, hstop⟩
      refine ⟨hlay, by omega, hsp, fun o ho j hj => ?_⟩
      have hlt := hstop o ho j hj
      have hne : j ≠ k := by
        rintro rfl
        exact binaryLevel?_ne_of_mark hk _ hj
      omega
    · rintro ⟨hlay, hlev, ⟨front, hsp, rfl⟩, hstop⟩
      -- On the level itself the expression would begin with one of its operators.
      have hne : e.level ≠ k := by
        intro hek
        rcases exists_marks (by rwa [hek]) with ⟨o, x, hnode⟩
        rcases hnode.spelled_iff.mp hsp with ⟨xls, -, rfl⟩
        rcases markAt_of_marks hnode with ⟨mark, hsome, -⟩
        rw [hek, hmark o rfl] at hsome
        exact absurd hsome nofun
      exact ⟨hlay, by omega, ⟨front, hsp, rfl⟩, hstop.mono (by omega)⟩
  intro ls
  induction ls with
  | nil => exact fun e rest hn => hplain [] e rest hn nofun
  | cons o tail ih =>
      intro e rest hn
      cases hmark : markAt k o with
      | none =>
          refine hplain _ e rest hn fun o' ho' => ?_
          rw [← Option.some.inj ho']
          exact hmark
      | some mark =>
          rw [List.length_cons] at hn
          rw [run_marked_cons hmark]
          constructor
          · rintro ⟨x, hx, rfl⟩
            rcases (ih x rest (by omega)).mp hx with ⟨hlay, hlev, ⟨front, hsp, rfl⟩, hstop⟩
            rcases marks_of_markAt hmark x with ⟨hnode, hek⟩
            exact ⟨hnode.layered_iff.mpr ⟨by omega, hlay⟩, by omega,
              ⟨o :: front, hnode.spelled_iff.mpr ⟨front, hsp, rfl⟩, rfl⟩, hstop⟩
          · rintro ⟨hlay, hlev, ⟨front, hsp, hls⟩, hstop⟩
            rcases front with _ | ⟨o', front⟩
            · exact absurd rfl hsp.ne_nil
            cases hls
            -- The expression begins with the operator, so that it is on its level.
            have hok : o.token.markLevel? = some k := (Option.ite_none_right_eq_some.mp hmark).1
            have hle := hsp.level_le_of_mark hlay o rfl k hok
            have hek : e.level = k := by omega
            rcases exists_marks (by rwa [hek]) with ⟨o', x, hnode⟩
            rcases hnode.spelled_iff.mp hsp with ⟨xls, hxsp, hfront⟩
            cases hfront
            rcases hnode.layered_iff.mp hlay with ⟨hxlev, hxlay⟩
            -- One lexeme is one operator, so the node is the one that was read.
            rcases markAt_of_marks hnode with ⟨mark', hmark', hme⟩
            rw [hek, hmark] at hmark'
            rw [← Option.some.inj hmark'] at hme
            refine ⟨x, ?_, hme.symm⟩
            exact (ih x rest (by omega)).mpr ⟨hxlay, by omega, ⟨front, hxsp, rfl⟩, hstop⟩

/-- An expression without an operator outside is one lexeme, or stands in
    parentheses. -/
theorem primary_reads {inner : Parser Expr} (hinner : Reads 0 n inner) :
    Reads 9 (n + 1) (primary inner) := by
  intro ls e rest hn
  constructor
  · intro hrun
    rcases run_bind_ok.mp hrun with ⟨⟨token, pos⟩, mid, hnext, hafter⟩
    rw [run_next_ok] at hnext
    subst hnext
    rw [List.length_cons] at hn
    cases token with
    | literal v =>
        rcases run_pure_ok.mp hafter with ⟨rfl, rfl⟩
        exact ⟨trivial, Nat.le_refl 9, ⟨_, .literal pos v, rfl⟩, stops_tightest _⟩
    | identifier name =>
        rcases run_pure_ok.mp hafter with ⟨rfl, rfl⟩
        exact ⟨trivial, Nat.le_refl 9, ⟨_, .var pos name, rfl⟩, stops_tightest _⟩
    | escape c =>
        rcases run_pure_ok.mp hafter with ⟨rfl, rfl⟩
        exact ⟨trivial, Nat.le_refl 9, ⟨_, .escape pos c, rfl⟩, stops_tightest _⟩
    | symbol s =>
        cases s with
        | dollar =>
            rcases run_pure_ok.mp hafter with ⟨rfl, rfl⟩
            exact ⟨trivial, Nat.le_refl 9, ⟨_, .newline pos, rfl⟩, stops_tightest _⟩
        | leftParen =>
            rcases run_bind_ok.mp hafter with ⟨x, mid', hx, hclosing⟩
            rcases run_bind_ok.mp hclosing with ⟨close, mid'', hclose, hend⟩
            rcases run_pure_ok.mp hend with ⟨rfl, rfl⟩
            rw [run_expect_ok] at hclose
            subst hclose
            rcases (hinner mid x _ (by omega)).mp hx with ⟨hlay, -, ⟨front, hsp, rfl⟩, -⟩
            refine ⟨hlay, Nat.le_refl 9, ⟨_, .paren pos close hsp, ?_⟩, stops_tightest _⟩
            rw [List.cons_append, List.append_assoc]
            rfl
        | _ => exact absurd hafter run_reject_ne_ok
    | _ => exact absurd hafter run_reject_ne_ok
  · rintro ⟨hlay, hlev, ⟨front, hsp, rfl⟩, -⟩
    cases hsp with
    | literal pos v => rfl
    | var pos name => rfl
    | newline pos => rfl
    | escape pos c => rfl
    | @paren pos close e ls h =>
        rw [List.cons_append, List.append_assoc] at hn ⊢
        rw [List.length_cons] at hn
        -- The closing parenthesis ends what is inside, of whatever level that is.
        have hstop : Stops 0 ([⟨.symbol .rightParen, close⟩] ++ rest) := stops_cons nofun
        have hin : inner.run (ls ++ ([⟨.symbol .rightParen, close⟩] ++ rest))
            = .ok e ([⟨.symbol .rightParen, close⟩] ++ rest) :=
          (hinner _ e _ (by omega)).mpr ⟨hlay, Nat.zero_le _, ⟨ls, h, rfl⟩, hstop⟩
        refine run_bind_ok.mpr ⟨⟨.symbol .leftParen, pos⟩, _, run_next_ok.mpr rfl, ?_⟩
        refine run_bind_ok.mpr ⟨e, _, hin, ?_⟩
        exact run_bind_ok.mpr ⟨close, rest, run_expect_ok.mpr rfl, rfl⟩
    | signed pos sign h => exact absurd hlev nofun
    | not pos h => exact absurd hlev nofun
    | arith pos op hl hr => cases op <;> exact absurd hlev nofun
    | compare pos op hl hr => cases op <;> exact absurd hlev nofun
    | connect pos op hl hr => cases op <;> exact absurd hlev nofun
    | concat pos hl hr => exact absurd hlev nofun

/-- The levels one after the other, from the tightest to the loosest. -/
theorem disjunction_reads {inner : Parser Expr} (hinner : Reads 0 n inner) :
    Reads 0 (n + 1) (disjunction (n + 1) inner) := by
  rcases operator_tables with ⟨h0, h1, h3, h4, h5, h6, h7, h2, h8⟩
  have hsigns : Reads 8 (n + 1) (signs inner) := by
    rw [signs, h8]
    exact marked_reads (primary_reads hinner) (Or.inr rfl)
  have hproduct : Reads 7 (n + 1) (product (n + 1) inner) := by
    rw [product, h7]
    exact chain_reads hsigns (by decide) (by decide) (by decide) (Nat.le_refl _)
  have hsum : Reads 6 (n + 1) (sum (n + 1) inner) := by
    rw [sum, h6]
    exact chain_reads hproduct (by decide) (by decide) (by decide) (Nat.le_refl _)
  have hjoined : Reads 5 (n + 1) (joined (n + 1) inner) := by
    rw [joined, h5]
    exact chain_reads hsum (by decide) (by decide) (by decide) (Nat.le_refl _)
  have horder : Reads 4 (n + 1) (order (n + 1) inner) := by
    rw [order, h4]
    exact chain_reads hjoined (by decide) (by decide) (by decide) (Nat.le_refl _)
  have hequality : Reads 3 (n + 1) (equality (n + 1) inner) := by
    rw [equality, h3]
    exact chain_reads horder (by decide) (by decide) (by decide) (Nat.le_refl _)
  have hnegation : Reads 2 (n + 1) (negation (n + 1) inner) := by
    rw [negation, h2]
    exact marked_reads hequality (Or.inl rfl)
  have hconjunction : Reads 1 (n + 1) (conjunction (n + 1) inner) := by
    rw [conjunction, h1]
    exact chain_reads hnegation (by decide) (by decide) (by decide) (Nat.le_refl _)
  rw [disjunction, h0]
  exact chain_reads hconjunction (by decide) (by decide) (by decide) (Nat.le_refl _)

/-- The parser reads expressions of any level. What stands in parentheses has fewer
    lexemes, so the induction is on the bound. -/
theorem expressionWithin_reads : ∀ n : Nat, Reads 0 n (expressionWithin n) := by
  intro n
  induction n with
  | zero =>
      intro ls e rest hn
      rw [List.eq_nil_of_length_eq_zero (Nat.le_zero.mp hn)]
      -- No expression is spelled without a lexeme.
      refine ⟨fun hrun => absurd hrun run_throw_ne_ok, ?_⟩
      rintro ⟨-, -, ⟨front, hsp, hls⟩, -⟩
      exact absurd (List.append_eq_nil_iff.mp hls.symm).1 hsp.ne_nil
  | succ n ih => exact disjunction_reads ih

end Levels

/-- The parser accepts exactly its grammar and builds the one expression that is meant:
    it yields a layered expression and takes its spelling, up to where no operator
    between operands follows. -/
theorem run_expression_iff (ts : List Lexeme) (e : Expr) (rest : List Lexeme) :
    expression.run ts = .ok e rest ↔
      e.Layered ∧ (∃ front, e.Spelled front ∧ ts = front ++ rest) ∧
        ∀ o, rest.head? = some o → o.token.binaryLevel? = none := by
  have hrun : expression.run ts = (expressionWithin ts.length).run ts := rfl
  have hstop : Stops 0 rest ↔ ∀ o, rest.head? = some o → o.token.binaryLevel? = none := by
    constructor
    · intro h o ho
      rw [Option.eq_none_iff_forall_not_mem]
      exact fun j hj => absurd (h o ho j hj) (Nat.not_lt_zero j)
    · intro h o ho j hj
      rw [h o ho] at hj
      exact absurd hj nofun
  rw [hrun, expressionWithin_reads ts.length ts e rest (Nat.le_refl _), hstop]
  constructor
  · rintro ⟨hlay, -, hsp, hnext⟩
    exact ⟨hlay, hsp, hnext⟩
  · rintro ⟨hlay, hsp, hnext⟩
    exact ⟨hlay, Nat.zero_le _, hsp, hnext⟩

end Parser

end Primer
