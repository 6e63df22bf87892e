import Primer.Proofs.Progress.Advance
import Primer.Proofs.Progress.Rules

/-!
# Every Rule Comes to an End

The rules of the grammar, which call one another without any bound, come to an end on every list of
lexemes, and the parsers find what they find.

Each parser is held against its rule, `Follows`, over parsers for the rules that it calls. Two
things have to be seen. One is that each call has a smaller measure: before it a lexeme has been
taken, or it goes to a rule of lower rank. That a lexeme has been taken is what `Advances` says of
the parsers that were run before. The other is that the bounds of the parsers are never what ends
them: on a list of fewer lexemes than the bound there is always a round left.

The parsers that are built on themselves, for what stands in parentheses and in frames, follow by
induction on their bound.

## Main definitions

* `Parser.Rule.within`: The parser of a rule, with its bounds.
* `Parser.Rule.least`: How many lexemes a rule takes at least.

## Theorems

* `Parser.Rule.follows_chain`, `Parser.Rule.follows_marked`, `Parser.Rule.follows_primary`: The
  three ways a level of expressions is built.
* `Parser.Rule.follows_expressionWithin`, `Parser.Rule.follows_statementsWithin`: Expressions and
  statements.
* `Parser.Rule.advances_within`, `Parser.Rule.follows_within`: What each rule takes, and that it
  comes to an end.
* `Parser.run_statements_line`: A round of the loop over statements.
* `Parser.rules_leave_and_answer`: Every rule on every list.
-/

namespace Primer

namespace Parser

variable {α β : Type}

/-- Two parsers in order find the same as two others on a list, if the first ones do there and the
    second ones do on what the first ones leave. -/
theorem run_bind_congr {k : Nat} {p q : Parser α} {f g : α → Parser β} {ls : List Lexeme}
    (hq : Advances k q) (hp : p.run ls = q.run ls)
    (hf : ∀ x rest, rest.length + k ≤ ls.length → (f x).run rest = (g x).run rest) :
    (p >>= f).run ls = (q >>= g).run ls := by
  rw [EStateM.run_bind, EStateM.run_bind, hp]
  have hls := hq ls
  cases hrun : q.run ls with
  | ok x rest =>
      rw [hrun] at hls
      exact hf x rest hls.2
  | error e rest => rfl

/-- Behind a token that has been taken the list is shorter. -/
theorem run_takes_congr {token : Token} {f g : Bool → Parser α} {ls : List Lexeme}
    (htrue : ∀ rest : List Lexeme, rest.length < ls.length →
      (f true).run rest = (g true).run rest)
    (hfalse : (f false).run ls = (g false).run ls) :
    (takes token >>= f).run ls = (takes token >>= g).run ls := by
  rw [EStateM.run_bind, EStateM.run_bind]
  cases hrun : (takes token).run ls with
  | ok holds rest =>
      cases holds with
      | true =>
          rcases run_takes_true.mp hrun with ⟨pos, rfl⟩
          exact htrue rest (Nat.lt_succ_self _)
      | false =>
          rcases run_takes_false.mp hrun with ⟨-, rfl⟩
          exact hfalse
  | error e rest => rfl

/-- One statement with the end of its line. -/
def ended (one : Parser Statement) : Parser Statement := do
  let s ← one
  lineEnd
  return s

theorem ended_bind (one : Parser Statement) (f : Statement → Parser α) :
    ended one >>= f = one >>= fun s => lineEnd >>= fun _ => f s := by
  simp only [ended, bind_assoc, pure_bind]

namespace Rule

section Levels

variable {r operand : Rule Expr} {op : Parser Expr} {m n : Nat}

/-- The rest of a chain. The induction is on the operators that may still come, and a list with
    fewer lexemes has fewer of them. -/
theorem follows_operands (hadv : Advances 0 op) (join? : Lexeme → Option (Expr → Expr → Expr)) :
    ∀ {m n : Nat} (left : Expr), n ≤ m + 1 → Follows n operand op →
      Follows n (.operands operand join? left) (chainFrom op join? m left) := by
  intro m
  induction m with
  | zero => exact fun _ hn _ => (follows_nil fun _ => rfl).mono hn
  | succ m ih =>
      intro n left hn hop
      refine follows_of_body fun call ls hls hcalls => ?_
      rw [body, run_get_bind]
      rcases ls with _ | ⟨l, tail⟩
      · rfl
      have hlen : (l :: tail).length = tail.length + 1 := List.length_cons
      cases hjoin : join? l with
      | none =>
          rw [run_chainFrom_stop fun l' hl' => Option.some.inj hl' ▸ hjoin]
          dsimp only
          rw [hjoin]
          rfl
      | some join =>
          rw [run_chainFrom_join hjoin]
          dsimp only
          rw [hjoin, run_set_bind]
          refine run_bind_congr hadv (hcalls.shorter (hop.mono (by omega)) tail
            (Nat.lt_succ_self _)) fun right rest hrest => ?_
          have hmore := ih (join left right) (by omega)
            (hop.mono (by omega : (l :: tail).length ≤ n))
          exact hcalls.shorter hmore rest (by omega)

/-- Operators between operands: the first operand is read by a rule of lower rank, and it takes a
    lexeme. -/
theorem follows_chain {join? : Lexeme → Option (Expr → Expr → Expr)}
    (hbody : ∀ call : Reader, r.body call = joining call operand join?)
    (hrank : operand.rank < r.rank) (hadv : Advances 1 op) (hmn : n ≤ m + 1)
    (hop : Follows n operand op) : Follows n r (chain m op join?) := by
  refine follows_of_body fun call ls hls hcalls => ?_
  rw [hbody]
  refine run_bind_congr hadv (hcalls.here (hop.mono hls) hrank) fun first rest hrest => ?_
  exact hcalls.shorter (follows_operands hadv.weaken join? first (by omega) (hop.mono (by omega)))
    rest (by omega)

/-- Operators in front of an operand. The induction is on the length of the list. -/
theorem follows_marked {mark? : Lexeme → Option (Expr → Expr)}
    (hbody : ∀ call : Reader, r.body call = marking call r operand mark?)
    (hrank : operand.rank < r.rank) (hadv : Advances 0 op) :
    ∀ {n : Nat}, Follows n operand op → Follows n r (marked op mark?) := by
  intro n
  induction n with
  | zero => exact fun _ ls hls => absurd hls (Nat.not_lt_zero _)
  | succ n ih =>
      intro hop
      refine follows_of_body fun call ls hls hcalls => ?_
      have hself : Follows ls.length r (marked op mark?) :=
        (ih (hop.mono (Nat.le_succ n))).mono (by omega)
      have hplain := hcalls.here (hop.mono hls) hrank
      rw [hbody, marking, run_get_bind]
      have hnil : ∀ l ∈ ([] : List Lexeme).head?, mark? l = none := nofun
      rcases ls with _ | ⟨l, tail⟩
      · rw [run_marked_operand hnil]
        exact hplain
      cases hmark : mark? l with
      | none =>
          rw [run_marked_operand fun l' hl' => Option.some.inj hl' ▸ hmark]
          dsimp only
          rw [hmark]
          exact hplain
      | some mark =>
          rw [run_marked_mark hmark]
          dsimp only
          rw [hmark, run_set_bind]
          exact run_bind_congr (advances_marked hadv mark?)
            (hcalls.shorter hself tail (Nat.lt_succ_self _)) fun _ _ _ => rfl

/-- Only what stands in parentheses is left to another rule, and the parenthesis has been taken
    then. -/
theorem run_primary_congr {inner inner' : Parser Expr} {ls : List Lexeme}
    (hinner : Advances 0 inner')
    (h : ∀ ls' : List Lexeme, ls'.length < ls.length → inner.run ls' = inner'.run ls') :
    (Parser.primary inner).run ls = (Parser.primary inner').run ls := by
  refine run_bind_congr (advances_next .expression) rfl fun ⟨token, pos⟩ rest hrest => ?_
  cases token with
  | symbol sign =>
      cases sign with
      | leftParen => exact run_bind_congr hinner (h rest hrest) fun _ _ _ => rfl
      | _ => rfl
  | _ => rfl

theorem follows_primary {inner : Parser Expr} (hadv : Advances 0 inner)
    (hinner : Follows n .disjunction inner) : Follows (n + 1) .primary (Parser.primary inner) := by
  refine follows_of_body fun call ls hls hcalls => ?_
  exact run_primary_congr hadv (hcalls.shorter (hinner.mono (Nat.le_of_lt_succ hls)))

/-- The levels one after the other, from the tightest to the loosest. -/
theorem follows_levels {inner : Parser Expr} (hadv : Advances 0 inner) (hmn : n ≤ m)
    (hinner : Follows n .disjunction inner) :
    Follows (n + 1) .signs (Parser.signs inner) ∧
      Follows (n + 1) .product (Parser.product m inner) ∧
      Follows (n + 1) .sum (Parser.sum m inner) ∧
      Follows (n + 1) .joined (Parser.joined m inner) ∧
      Follows (n + 1) .order (Parser.order m inner) ∧
      Follows (n + 1) .equality (Parser.equality m inner) ∧
      Follows (n + 1) .negation (Parser.negation m inner) ∧
      Follows (n + 1) .conjunction (Parser.conjunction m inner) ∧
      Follows (n + 1) .disjunction (Parser.disjunction m inner) := by
  rcases advances_levels hadv m with ⟨asigns, aproduct, asum, ajoined, aorder, aequality, anegation,
    aconjunction, -⟩
  have hbound : n + 1 ≤ m + 1 := Nat.succ_le_succ hmn
  have hsigns : Follows (n + 1) .signs (Parser.signs inner) :=
    follows_marked (fun _ => rfl) (by decide) (advances_primary hadv).weaken
      (follows_primary hadv hinner)
  have hproduct : Follows (n + 1) .product (Parser.product m inner) :=
    follows_chain (fun _ => rfl) (by decide) asigns hbound hsigns
  have hsum : Follows (n + 1) .sum (Parser.sum m inner) :=
    follows_chain (fun _ => rfl) (by decide) aproduct hbound hproduct
  have hjoined : Follows (n + 1) .joined (Parser.joined m inner) :=
    follows_chain (fun _ => rfl) (by decide) asum hbound hsum
  have horder : Follows (n + 1) .order (Parser.order m inner) :=
    follows_chain (fun _ => rfl) (by decide) ajoined hbound hjoined
  have hequality : Follows (n + 1) .equality (Parser.equality m inner) :=
    follows_chain (fun _ => rfl) (by decide) aorder hbound horder
  have hnegation : Follows (n + 1) .negation (Parser.negation m inner) :=
    follows_marked (fun _ => rfl) (by decide) aequality.weaken hequality
  have hconjunction : Follows (n + 1) .conjunction (Parser.conjunction m inner) :=
    follows_chain (fun _ => rfl) (by decide) anegation hbound hnegation
  exact ⟨hsigns, hproduct, hsum, hjoined, horder, hequality, hnegation, hconjunction,
    follows_chain (fun _ => rfl) (by decide) aconjunction hbound hconjunction⟩

theorem follows_expressionWithin : ∀ n : Nat,
    Follows (n + 1) .disjunction (expressionWithin n) := by
  intro n
  induction n with
  | zero =>
      -- On no lexemes there is nothing in parentheses, and the levels fail for want of a lexeme.
      have hlevel := (follows_levels (m := 0) (advances_expressionWithin 0).weaken (Nat.le_refl 0)
        fun ls hls => absurd hls (Nat.not_lt_zero _)).2.2.2.2.2.2.2.2
      refine hlevel.congr fun ls hls => ?_
      rcases List.eq_nil_of_length_eq_zero (by omega : ls.length = 0) with rfl
      rfl
  | succ n ih =>
      exact (follows_levels (advances_expressionWithin n).weaken (Nat.le_refl _) ih).2.2.2.2.2.2.2.2

end Levels

section Statements

variable {m n : Nat} {inside : Parser (List Statement)} {one : Parser Statement}

theorem follows_condition (hmn : n ≤ m + 1) : Follows n .condition (Parser.condition m) := by
  refine follows_of_body fun call ls hls hcalls => ?_
  refine run_bind_congr (advances_expect _ _) rfl fun _ rest hrest => ?_
  have hinner := (follows_expressionWithin m).mono (by omega : ls.length ≤ m + 1)
  exact run_bind_congr (advances_expressionWithin m) (hcalls.shorter hinner rest hrest)
    fun _ _ _ => rfl

theorem follows_identifier : Follows n .identifier Parser.identifier :=
  follows_of_body fun _ _ _ _ => rfl

theorem follows_declarator (hmn : n ≤ m + 1) : Follows n .declarator (Parser.declarator m) := by
  refine follows_of_body fun call ls hls hcalls => ?_
  have hname := hcalls.here follows_identifier (by decide)
  refine run_bind_congr advances_identifier hname fun x rest hrest => ?_
  have hinner := (follows_expressionWithin m).mono (by omega : ls.length ≤ m + 1)
  refine run_takes_congr (fun rest' hrest' => ?_) rfl
  exact run_bind_congr (advances_expressionWithin m) (hcalls.shorter hinner rest' (by omega))
    fun _ _ _ => rfl

/-- The rest of a list with commas, as for a chain of operands. -/
theorem follows_items {item : Rule α} {p : Parser α} (hadv : Advances 0 p) :
    ∀ {m n : Nat}, n ≤ m + 1 → Follows n item p → Follows n (.items item) (moreItems p m) := by
  intro m
  induction m with
  | zero => exact fun hn _ => (follows_nil fun _ => rfl).mono hn
  | succ m ih =>
      intro n hn hitem
      refine follows_of_body fun call ls hls hcalls => ?_
      refine run_takes_congr (fun rest hrest => ?_) rfl
      refine run_bind_congr hadv (hcalls.shorter (hitem.mono (by omega)) rest hrest)
        fun x rest' hrest' => ?_
      have hmore := hcalls.shorter (ih (by omega) (hitem.mono (by omega))) rest' (by omega)
      exact run_bind_congr (advances_moreItems hadv m) hmore fun _ _ _ => rfl

theorem follows_assignment (hmn : n ≤ m + 1) : Follows n .assignment (Parser.assignment m) := by
  refine follows_of_body fun call ls hls hcalls => ?_
  have hname := hcalls.here follows_identifier (by decide)
  refine run_bind_congr advances_identifier hname fun x rest hrest => ?_
  refine run_bind_congr (advances_expect _ _) rfl fun _ rest' hrest' => ?_
  have hinner := (follows_expressionWithin m).mono (by omega : ls.length ≤ m + 1)
  have hle := (targets_suffix rest').length_le
  change (call .disjunction >>= fun value =>
      pure (Statement.assign x.2 (x.1 :: (targets rest').1) value)).run (targets rest').2 =
    (expressionWithin m >>= fun value =>
      pure (Statement.assign x.2 (x.1 :: (targets rest').1) value)).run (targets rest').2
  exact run_bind_congr (advances_expressionWithin m) (hcalls.shorter hinner _ (by omega))
    fun _ _ _ => rfl

/-- What stands in a frame is left to another rule, and the opening words have been taken then. -/
theorem follows_framed (hadv : Advances 0 inside) (hinside : Follows n .statements inside)
    (frame : Keyword) : Follows (n + 1) (.block frame) (framed inside frame) := by
  refine follows_of_body fun call ls hls hcalls => ?_
  refine run_bind_congr advances_skipBreaks rfl fun _ rest hrest => ?_
  refine run_bind_congr (advances_expect _ _) rfl fun _ rest hrest => ?_
  refine run_bind_congr (advances_expect _ _) rfl fun _ rest hrest => ?_
  refine run_bind_congr (advances_expect _ _) rfl fun _ rest hrest => ?_
  exact run_bind_congr hadv (hcalls.shorter (hinside.mono (by omega)) rest (by omega))
    fun _ _ _ => rfl

theorem follows_branch (hadv : Advances 0 inside) (hinside : Follows n .statements inside)
    (hmn : n ≤ m) (pos : Position) :
    Follows (n + 1) (.branch pos) (Parser.branch m inside pos) := by
  refine follows_of_body fun call ls hls hcalls => ?_
  have hguard := hcalls.here (follows_condition (by omega : ls.length + 1 ≤ m + 1))
    (Nat.lt_succ_self 0)
  refine run_bind_congr (advances_condition m) hguard fun guard rest hrest => ?_
  have hframe := (follows_framed hadv hinside .ifKw).mono (by omega : ls.length ≤ n + 1)
  exact run_bind_congr (advances_framed hadv .ifKw) (hcalls.shorter hframe rest hrest)
    fun _ _ _ => rfl

/-- The rest of a choice. Each further branch takes an `ELSE`, so as for a chain the induction is on
    the branches that may still come. -/
theorem follows_branches (hadv : Advances 0 inside) (hinside : Follows n .statements inside)
    (hmn : n ≤ m) : ∀ {c k : Nat}, k ≤ c + 1 → k ≤ n + 1 →
      Follows k .branches (Parser.branches m inside c) := by
  intro c
  induction c with
  | zero => exact fun hk _ => (follows_nil fun _ => rfl).mono hk
  | succ c ih =>
      intro k hk hkn
      refine follows_of_body fun call ls hls hcalls => ?_
      have hle := (afterBreaks_suffix ls).length_le
      have hframe := (follows_framed hadv hinside .ifKw).mono (by omega : ls.length ≤ n + 1)
      have helse : ∀ rest : List Lexeme, rest.length < ls.length →
          (call (.block .ifKw) >>= fun sts => pure (([], some sts) : List Branch × _)).run rest =
            (framed inside .ifKw >>= fun sts => pure ([], some sts)).run rest := by
        intro rest hrest
        exact run_bind_congr (advances_framed hadv .ifKw) (hcalls.shorter hframe rest hrest)
          fun _ _ _ => rfl
      rw [body, Parser.branches, run_get_bind, run_get_bind]
      generalize afterBreaks ls = after at hle
      rcases after with _ | ⟨⟨t, word⟩, tail⟩
      · rfl
      rw [List.length_cons] at hle
      cases t with
      | keyword w =>
          cases w with
          | elseKw =>
              rcases tail with _ | ⟨⟨t', pos⟩, rest⟩
              · exact helse [] hle
              cases t' with
              | keyword w' =>
                  cases w' with
                  | ifKw =>
                      rw [List.length_cons] at hle
                      have hbranch := (follows_branch hadv hinside hmn pos).mono
                        (by omega : ls.length ≤ n + 1)
                      dsimp only
                      rw [run_set_bind, run_set_bind]
                      refine run_bind_congr (advances_branch hadv m pos)
                        (hcalls.shorter hbranch rest (by omega)) fun b rest' hrest' => ?_
                      have hmore := hcalls.shorter (ih (by omega) (by omega)) rest' (by omega)
                      exact run_bind_congr (advances_branches hadv m c) hmore fun _ _ _ => rfl
                  | _ => exact helse _ hle
              | _ => exact helse _ hle
          | _ => rfl
      | _ => rfl

/-- A list with commas, in a statement that is made of its items. -/
theorem run_commaSeparated_congr {item : Rule α} {p : Parser α} {call : Reader}
    {ls : List Lexeme} (hadv : Advances 1 p) (hp : (call item).run ls = p.run ls)
    (hmore : ∀ rest : List Lexeme, rest.length < ls.length →
      (call (.items item)).run rest = (moreItems p m).run rest) (f : List α → Statement) :
    (call item >>= fun first => call (.items item) >>= fun more =>
        pure (f (first :: more))).run ls =
      (commaSeparated m p >>= fun xs => pure (f xs)).run ls := by
  rw [commaSeparated, bind_assoc]
  refine run_bind_congr hadv hp fun first rest hrest => ?_
  rw [bind_assoc]
  exact run_bind_congr (advances_moreItems hadv.weaken m) (hmore rest hrest) fun _ _ _ => rfl

/-- The first lexeme decides which rules a statement calls. It has been taken then, but for the name
    that an assignment begins with. -/
theorem follows_single (hadv : Advances 0 inside) (hinside : Follows n .statements inside)
    (hmn : n ≤ m) : Follows (n + 1) .statement (single m inside) := by
  refine follows_of_body fun call ls hls hcalls => ?_
  rcases ls with _ | ⟨⟨t, pos⟩, tail⟩
  · rfl
  have hlen : (⟨t, pos⟩ :: tail : List Lexeme).length = tail.length + 1 := List.length_cons
  have hcondition := fun rest => hcalls.shorter (follows_condition (m := m) (by omega)) rest
  have hframe := fun frame => hcalls.shorter
    ((follows_framed hadv hinside frame).mono (by omega))
  rw [body, single, run_get_bind, run_get_bind]
  cases t with
  | type type =>
      have hdeclarator := follows_declarator (by omega : tail.length + 1 ≤ m + 1)
      have hitems := follows_items (advances_declarator m).weaken
        (by omega : tail.length + 1 ≤ m + 1) hdeclarator
      exact run_commaSeparated_congr (advances_declarator m)
        (hcalls.shorter hdeclarator tail (by omega))
        (fun rest hrest => hcalls.shorter hitems rest (by omega)) (Statement.declare pos type)
  | identifier name =>
      exact hcalls.here (follows_assignment (by omega)) (by decide)
  | keyword word =>
      cases word with
      | displayKw =>
          have hinner := (follows_expressionWithin m).mono (by omega : tail.length + 1 ≤ m + 1)
          dsimp only
          rw [run_set_bind, run_set_bind]
          refine run_bind_congr (advances_expect _ _) rfl fun _ rest hrest => ?_
          exact run_bind_congr (advances_expressionWithin m)
            (hcalls.shorter hinner rest (by omega)) fun _ _ _ => rfl
      | scanKw =>
          have hitems := follows_items advances_identifier.weaken
            (by omega : tail.length + 1 ≤ m + 1) follows_identifier
          dsimp only
          rw [run_set_bind, run_set_bind]
          refine run_bind_congr (advances_expect _ _) rfl fun _ rest hrest => ?_
          exact run_commaSeparated_congr advances_identifier
            (hcalls.shorter follows_identifier rest (by omega))
            (fun rest' hrest' => hcalls.shorter hitems rest' (by omega))
            fun names => .scan pos (names.map Prod.fst)
      | ifKw =>
          have hbranch := (follows_branch hadv hinside hmn pos).mono
            (by omega : tail.length + 1 ≤ n + 1)
          have hbranches := follows_branches hadv hinside hmn
            (by omega : tail.length + 1 ≤ m + 1) (by omega)
          dsimp only
          rw [run_set_bind, run_set_bind]
          refine run_bind_congr (advances_branch hadv m pos)
            (hcalls.shorter hbranch tail (by omega)) fun first rest hrest => ?_
          exact run_bind_congr (advances_branches hadv m m)
            (hcalls.shorter hbranches rest (by omega)) fun _ _ _ => rfl
      | whileKw =>
          dsimp only
          rw [run_set_bind, run_set_bind]
          refine run_bind_congr (advances_condition m) (hcondition tail (by omega))
            fun guard rest hrest => ?_
          exact run_bind_congr (advances_framed hadv .whileKw)
            (hframe .whileKw rest (by omega)) fun _ _ _ => rfl
      | doKw =>
          dsimp only
          rw [run_set_bind, run_set_bind]
          refine run_bind_congr (advances_framed hadv .doKw) (hframe .doKw tail (by omega))
            fun sts rest hrest => ?_
          refine run_bind_congr advances_skipBreaks rfl fun _ rest hrest => ?_
          refine run_bind_congr (advances_expect _ _) rfl fun _ rest hrest => ?_
          exact run_bind_congr (advances_condition m) (hcondition rest (by omega))
            fun _ _ _ => rfl
      | _ => rfl
  | _ => rfl

theorem advances_ended (hadv : Advances 1 one) : Advances 1 (ended one) :=
  hadv.bind fun s => advances_lineEnd.map fun _ => s

theorem follows_ended (hadv : Advances 0 one) (hone : Follows n .statement one) :
    Follows n .line (ended one) := by
  refine follows_of_body fun call ls hls hcalls => ?_
  have hstatement := hcalls.here (hone.mono hls) (by decide)
  exact run_bind_congr hadv hstatement fun _ _ _ => rfl

/-- Statements up to an `END`. Each round takes a statement, which is at least a lexeme, and the
    induction is on the rounds that may still come. -/
theorem follows_upToEnd (hadv : Advances 1 one) :
    ∀ {c n : Nat}, n ≤ c + 1 → Follows n .statement one →
      Follows n .statements (upToEnd one c) := by
  intro c
  induction c with
  | zero => exact fun hn _ => (follows_nil fun _ => rfl).mono hn
  | succ c ih =>
      intro n hn hone
      refine follows_of_body fun call ls hls hcalls => ?_
      refine run_bind_congr advances_skipBreaks rfl fun _ rest hrest => ?_
      have hround : (call .line >>= fun s => call .statements >>= fun more =>
            pure (s :: more)).run rest =
          (one >>= fun s => lineEnd >>= fun _ => upToEnd one c >>= fun more =>
            pure (s :: more)).run rest := by
        rw [← ended_bind one fun s => upToEnd one c >>= fun more => pure (s :: more)]
        have hline := hcalls.lower (follows_ended hadv.weaken (hone.mono hls)) (by decide)
          rest hrest
        refine run_bind_congr (advances_ended hadv) hline fun s rest' hrest' => ?_
        have hmore := hcalls.shorter (ih (by omega) (hone.mono (Nat.le_of_lt hls))) rest' (by omega)
        exact run_bind_congr (advances_upToEnd hadv.weaken c) hmore fun _ _ _ => rfl
      rw [run_get_bind, run_get_bind]
      rcases rest with _ | ⟨⟨t, pos⟩, tail⟩
      · rfl
      cases t with
      | keyword word =>
          cases word with
          | endKw => rfl
          | _ => exact hround
      | _ => exact hround

/-- What stands in a frame are statements again, with a smaller bound. -/
theorem follows_statementsWithin : ∀ n : Nat, Follows (n + 1) .statements (statementsWithin n) := by
  intro n
  induction n with
  | zero => exact follows_nil fun _ => rfl
  | succ n ih =>
      have hadv := advances_statementsWithin n
      have hone := follows_single hadv ih (Nat.le_refl (n + 1))
      exact follows_upToEnd (advances_single hadv (n + 1)) (Nat.le_refl _) hone

end Statements

section All

/-- The parser of a rule. The first bound is on the rounds of what is repeated and the second one on
    what stands in parentheses and in frames. -/
def within (b c : Nat) : {α : Type} → Rule α → Parser α
  | _, .disjunction => Parser.disjunction b (expressionWithin c)
  | _, .conjunction => Parser.conjunction b (expressionWithin c)
  | _, .negation => Parser.negation b (expressionWithin c)
  | _, .equality => Parser.equality b (expressionWithin c)
  | _, .order => Parser.order b (expressionWithin c)
  | _, .joined => Parser.joined b (expressionWithin c)
  | _, .sum => Parser.sum b (expressionWithin c)
  | _, .product => Parser.product b (expressionWithin c)
  | _, .signs => Parser.signs (expressionWithin c)
  | _, .primary => Parser.primary (expressionWithin c)
  | _, .operands operand join? left => chainFrom (operand.within b c) join? b left
  | _, .condition => Parser.condition b
  | _, .identifier => Parser.identifier
  | _, .declarator => Parser.declarator b
  | _, .items item => moreItems (item.within b c) b
  | _, .assignment => Parser.assignment b
  | _, .branch pos => Parser.branch b (statementsWithin c) pos
  | _, .branches => Parser.branches b (statementsWithin c) b
  | _, .statement => single b (statementsWithin c)
  | _, .line => ended (single b (statementsWithin c))
  | _, .statements => statementsWithin b
  | _, .block frame => framed (statementsWithin c) frame

/-- How many lexemes a rule takes at least. What is repeated may be there no time at all. -/
def least : {α : Type} → Rule α → Nat
  | _, .operands _ _ _ => 0
  | _, .items _ => 0
  | _, .branches => 0
  | _, .statements => 0
  | _, _ => 1

variable {α : Type} {n b c : Nat}

/-- There is a case for each rule, and what is repeated is led back to the rule of its parts. -/
theorem advances_within (r : Rule α) (b c : Nat) : Advances r.least (r.within b c) := by
  have hexpr := (advances_expressionWithin c).weaken
  have hsts := advances_statementsWithin c
  rcases advances_levels hexpr b with ⟨hsigns, hproduct, hsum, hjoined, horder, hequality,
    hnegation, hconjunction, hdisjunction⟩
  induction r with
  | disjunction => exact hdisjunction
  | conjunction => exact hconjunction
  | negation => exact hnegation
  | equality => exact hequality
  | order => exact horder
  | joined => exact hjoined
  | sum => exact hsum
  | product => exact hproduct
  | signs => exact hsigns
  | primary => exact advances_primary hexpr
  | operands operand join? left ih => exact advances_chainFrom ih.weaken join? b left
  | condition => exact advances_condition b
  | identifier => exact advances_identifier
  | declarator => exact advances_declarator b
  | items item ih => exact advances_moreItems ih.weaken b
  | assignment => exact advances_assignment b
  | branch pos => exact advances_branch hsts b pos
  | branches => exact advances_branches hsts b b
  | statement => exact advances_single hsts b
  | line => exact advances_ended (advances_single hsts b)
  | statements => exact advances_statementsWithin b
  | block frame => exact advances_framed hsts frame

/-- The bounds are large enough if there are not more lexemes than rounds, and at most one lexeme
    more than may stand inside: before what stands inside something has been taken. -/
theorem follows_within (r : Rule α) (hb : n ≤ b) (hc : n ≤ c + 1) :
    Follows (n + 1) r (r.within b c) := by
  have hexpr := (follows_expressionWithin c).mono hc
  have hsts := (follows_statementsWithin c).mono hc
  have hadv := advances_statementsWithin c
  have hbound : n + 1 ≤ b + 1 := Nat.succ_le_succ hb
  rcases follows_levels (advances_expressionWithin c).weaken hb hexpr with ⟨hsigns, hproduct, hsum,
    hjoined, horder, hequality, hnegation, hconjunction, hdisjunction⟩
  induction r with
  | disjunction => exact hdisjunction
  | conjunction => exact hconjunction
  | negation => exact hnegation
  | equality => exact hequality
  | order => exact horder
  | joined => exact hjoined
  | sum => exact hsum
  | product => exact hproduct
  | signs => exact hsigns
  | primary => exact follows_primary (advances_expressionWithin c).weaken hexpr
  | operands operand join? left ih =>
      exact follows_operands (advances_within operand b c).weaken join? left hbound ih
  | condition => exact follows_condition hbound
  | identifier => exact follows_identifier
  | declarator => exact follows_declarator hbound
  | items item ih => exact follows_items (advances_within item b c).weaken hbound ih
  | assignment => exact follows_assignment hbound
  | branch pos => exact follows_branch hadv hsts hb pos
  | branches => exact follows_branches hadv hsts hb hbound (Nat.le_refl _)
  | statement => exact follows_single hadv hsts hb
  | line =>
      exact follows_ended (advances_single hadv b).weaken (follows_single hadv hsts hb)
  | statements => exact (follows_statementsWithin b).mono hbound
  | block frame => exact follows_framed hadv hsts frame

/-- The bounds do not matter once they are large enough. -/
theorem run_within_congr {b' c' : Nat} (r : Rule α) {ls : List Lexeme} (hb : ls.length ≤ b)
    (hc : ls.length ≤ c + 1) (hb' : ls.length ≤ b') (hc' : ls.length ≤ c' + 1) :
    (r.within b c).run ls = (r.within b' c').run ls :=
  (follows_within r hb hc ls (Nat.lt_succ_self _)).unique
    (follows_within r hb' hc' ls (Nat.lt_succ_self _))

end All

end Rule

section Loop

theorem run_statement (ls : List Lexeme) :
    statement.run ls = (Rule.statement.within ls.length ls.length).run ls := by
  rw [statement, run_get_bind, Rule.within]

/-- Expressions, statements and frames are read by parsers of rules as well. -/
example (n : Nat) (ls : List Lexeme) (frame : Keyword) :
    expressionWithin (n + 1) = Rule.disjunction.within (n + 1) n ∧
      statements.run ls = (Rule.statements.within ls.length ls.length).run ls ∧
      (block frame).run ls = ((Rule.block frame).within ls.length ls.length).run ls :=
  ⟨rfl, rfl, rfl⟩

/-- A round of the loop in front of a statement. -/
theorem run_upToEnd_single {ls mid : List Lexeme} {inside : Parser (List Statement)}
    {s : Statement} {m : Nat} (hs : (single m inside).run (afterBreaks ls) = .ok s mid) (c : Nat) :
    (upToEnd (single m inside) (c + 1)).run ls =
      (lineEnd >>= fun _ => upToEnd (single m inside) c >>= fun more =>
        pure (s :: more)).run mid := by
  have hround : (single m inside >>= fun s => lineEnd >>= fun _ =>
      upToEnd (single m inside) c >>= fun more => pure (s :: more)).run (afterBreaks ls) =
        (lineEnd >>= fun _ => upToEnd (single m inside) c >>= fun more =>
          pure (s :: more)).run mid := by
    rw [EStateM.run_bind, hs]
  rw [← hround, upToEnd, EStateM.run_bind, (run_skipBreaks_ok (u := ())).mpr rfl]
  dsimp only
  rw [run_get_bind]
  generalize afterBreaks ls = after at hs
  -- No statement begins with an `END`.
  rcases after with _ | ⟨⟨t, pos⟩, tail⟩
  · cases hs
  cases t with
  | keyword word =>
      cases word with
      | endKw => cases hs
      | _ => rfl
  | _ => rfl

/-- After a statement and its line the loop goes on with what they leave. -/
theorem run_statements_line {ls mid rest : List Lexeme} {s : Statement}
    (hs : statement.run (afterBreaks ls) = .ok s mid) (hend : lineEnd.run mid = .ok () rest)
    (hrest : rest.length < ls.length) :
    statements.run ls = (statements >>= fun more => pure (s :: more)).run rest := by
  have hle := (afterBreaks_suffix ls).length_le
  obtain ⟨n, hn⟩ : ∃ n, ls.length = n + 1 := ⟨ls.length - 1, by omega⟩
  have hone : (single (n + 1) (statementsWithin n)).run (afterBreaks ls) = .ok s mid := by
    rw [← hs, run_statement]
    exact Rule.run_within_congr .statement (b := n + 1) (c := n) (by omega) (by omega)
      (Nat.le_refl _) (Nat.le_succ _)
  have hmore :
      (upToEnd (single (n + 1) (statementsWithin n)) n).run rest = statements.run rest := by
    have hadv := advances_single (advances_statementsWithin n) (n + 1)
    have hfollows := Rule.follows_upToEnd hadv (Nat.le_refl (n + 1))
      ((Rule.statement.follows_within (Nat.le_refl (n + 1)) (Nat.le_refl (n + 1))).mono
        (Nat.le_succ _))
    exact (hfollows rest (by omega)).unique
      (Rule.follows_statementsWithin rest.length rest (Nat.lt_succ_self _))
  calc statements.run ls
      = (upToEnd (single (n + 1) (statementsWithin n)) (n + 1)).run ls := by
        change (statementsWithin ls.length).run ls = _
        rw [hn, statementsWithin]
    _ = (upToEnd (single (n + 1) (statementsWithin n)) n >>= fun more =>
          pure (s :: more)).run rest := by
        rw [run_upToEnd_single hone, EStateM.run_bind, hend]
    _ = (statements >>= fun more => pure (s :: more)).run rest := by
        rw [EStateM.run_bind, EStateM.run_bind, hmore]

/-- Every rule makes progress and comes to an end, on every list of lexemes, whether or not they are
    those of a program. What a rule leaves is an end of the list, also if it fails, and after a
    success it is shorter wherever the rule is more than a repetition. With bounds that do not fall
    short of the list, the parsers find what the rules find that call one another without a bound,
    and those calls come to an end. A round of the loop over statements that reads one leaves a
    shorter list to the next round. -/
theorem rules_leave_and_answer (ls : List Lexeme) :
    (∀ {α : Type} (r : Rule α) (b c : Nat), Leaves r.least ls ((r.within b c).run ls) ∧
      (ls.length ≤ b → ls.length ≤ c + 1 → r.Answers ls ((r.within b c).run ls))) ∧
    ∀ (s : Statement) (mid rest : List Lexeme), statement.run (afterBreaks ls) = .ok s mid →
      lineEnd.run mid = .ok () rest →
        rest <:+ ls ∧ rest.length < ls.length ∧
          statements.run ls = (statements >>= fun more => pure (s :: more)).run rest := by
  refine ⟨fun r b c => ⟨r.advances_within b c ls, fun hb hc => ?_⟩, fun s mid rest hs hend => ?_⟩
  · exact r.follows_within hb hc ls (Nat.lt_succ_self _)
  · have hstatement := Rule.statement.advances_within (afterBreaks ls).length
      (afterBreaks ls).length (afterBreaks ls)
    have hline := advances_lineEnd mid
    rw [← run_statement, hs] at hstatement
    rw [hend] at hline
    have hshorter : rest.length < ls.length :=
      calc rest.length ≤ mid.length := hline.2
        _ < (afterBreaks ls).length := hstatement.2
        _ ≤ ls.length := (afterBreaks_suffix ls).length_le
    exact ⟨(hline.1.trans hstatement.1).trans (afterBreaks_suffix ls), hshorter,
      run_statements_line hs hend hshorter⟩

/-- A declaration, and a line that begins no statement. -/
def malformed : List Lexeme :=
  [⟨.type .int, ⟨1, 0⟩⟩, ⟨.identifier "x", ⟨1, 4⟩⟩, ⟨.lineBreak, ⟨1, 5⟩⟩,
    ⟨.symbol .leftParen, ⟨2, 0⟩⟩]

theorem rules_leave_and_answer_malformed :
    Rule.statements.Answers malformed (.error (.unexpected (.symbol .leftParen) .statement ⟨2, 0⟩)
        [⟨.symbol .leftParen, ⟨2, 0⟩⟩]) ∧
      Leaves 1 malformed ((Rule.statement.within 4 3).run malformed) ∧
      statements.run malformed = (statements >>= fun more =>
        pure (.declare ⟨1, 0⟩ .int [⟨⟨1, 4⟩, "x", none⟩] :: more)).run
          [⟨.symbol .leftParen, ⟨2, 0⟩⟩] := by
  rcases rules_leave_and_answer malformed with ⟨hrules, hround⟩
  refine ⟨?_, (hrules .statement 4 3).1, ?_⟩
  · exact (hrules .statements 4 3).2 (by decide) (by decide)
  · exact (hround (.declare ⟨1, 0⟩ .int [⟨⟨1, 4⟩, "x", none⟩]) [⟨.lineBreak, ⟨1, 5⟩⟩,
      ⟨.symbol .leftParen, ⟨2, 0⟩⟩] [⟨.symbol .leftParen, ⟨2, 0⟩⟩] rfl rfl).2.2

end Loop

end Parser

end Primer
