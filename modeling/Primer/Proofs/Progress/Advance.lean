import Primer.Parser.Statement
import Primer.Proofs.Grammar.Steps

/-!
# Parsers Take From the Front

A parser never puts a lexeme back that it was not given: what it leaves is an end of the list that
it started on. This holds when it fails as well, and it holds on lists that are no program at all.
Most parsers also take at least one lexeme when they succeed. Those that need not are the ones that
go on with something, as a chain goes on with operators and a choice with branches.

`Advances` says both, with the number of lexemes that a success takes at least. It is a statement
about every list, with no condition on the length, so the bounds of the parsers play no part in it:
a parser that is stopped by its bound leaves the rest as it is. Where parsers follow each other, one
of them that takes a lexeme is enough.

## Main definitions

* `Parser.Leaves`: What is left is an end of the list, shorter by some number after a success.
* `Parser.Advances`: A parser leaves an end of every list.

## Theorems

* `Parser.Advances.bind`, `Parser.Advances.bind_second`: Two parsers in order.
* `Parser.Leaves.of_suffix`: What is left of an end of the list.
* `Parser.advances_chainFrom`, `Parser.advances_marked`, `Parser.advances_primary`: The three ways
  a level of expressions is built.
* `Parser.advances_expressionWithin`, `Parser.advances_condition`: Expressions and conditions.
* `Parser.advances_single`, `Parser.advances_statementsWithin`, `Parser.advances_framed`:
  Statements and frames.
-/

namespace Primer

namespace Parser

variable {α β : Type}

/-- What is left is an end of the list. After a success it is shorter by at least `k` lexemes. -/
def Leaves (k : Nat) (ls : List Lexeme) : EStateM.Result SourceError (List Lexeme) α → Prop
  | .ok _ rest => rest <:+ ls ∧ rest.length + k ≤ ls.length
  | .error _ rest => rest <:+ ls

/-- The parser leaves an end of every list, and takes at least `k` lexemes if it succeeds. -/
def Advances (k : Nat) (p : Parser α) : Prop :=
  ∀ ls : List Lexeme, Leaves k ls (p.run ls)

section Rules

variable {k : Nat} {ls ls' : List Lexeme} {r : EStateM.Result SourceError (List Lexeme) α}
  {p q : Parser α} {f : α → Parser β}

/-- What is left of an end of the list is an end of the list. -/
theorem Leaves.of_suffix (h : Leaves k ls' r) (hsuffix : ls' <:+ ls) : Leaves k ls r := by
  cases r with
  | ok x rest => exact ⟨h.1.trans hsuffix, Nat.le_trans h.2 hsuffix.length_le⟩
  | error e rest => exact h.trans hsuffix

/-- If the end of the list is shorter by so much, then so is what is left of it. -/
theorem Leaves.of_shorter (h : Leaves 0 ls' r) (hsuffix : ls' <:+ ls)
    (hlen : ls'.length + k ≤ ls.length) : Leaves k ls r := by
  cases r with
  | ok x rest => exact ⟨h.1.trans hsuffix, by have := h.2; omega⟩
  | error e rest => exact h.trans hsuffix

/-- One lexeme is taken, and then a parser takes the rest. -/
theorem Leaves.cons {l : Lexeme} (h : Leaves 0 ls r) : Leaves 1 (l :: ls) r :=
  h.of_shorter (List.suffix_cons l ls) (Nat.le_refl _)

theorem Advances.weaken (h : Advances k p) : Advances 0 p := by
  intro ls
  have hls := h ls
  cases hrun : p.run ls with
  | ok x rest =>
      rw [hrun] at hls
      exact ⟨hls.1, hls.1.length_le⟩
  | error e rest =>
      rw [hrun] at hls
      exact hls

theorem advances_pure (x : α) : Advances 0 (pure x : Parser α) :=
  fun ls => ⟨List.suffix_refl ls, Nat.le_refl _⟩

/-- A failure takes nothing, and there is no success. -/
theorem advances_throw (e : SourceError) : Advances k (throw e : Parser α) :=
  fun ls => List.suffix_refl ls

theorem advances_reject (found : Lexeme) (expected : Expectation) :
    Advances k (reject found expected : Parser α) :=
  advances_throw _

/-- Two parsers in order leave an end of what the first one leaves, if it succeeds. -/
theorem leaves_bind {j : Nat} (hp : Advances j p)
    (hf : ∀ x rest, rest <:+ ls → rest.length + j ≤ ls.length → Leaves k ls ((f x).run rest)) :
    Leaves k ls ((p >>= f).run ls) := by
  have hls := hp ls
  rw [EStateM.run_bind]
  cases hrun : p.run ls with
  | ok x rest =>
      rw [hrun] at hls
      exact hf x rest hls.1 hls.2
  | error e rest =>
      rw [hrun] at hls
      exact hls

/-- Of two parsers in order it is enough if the first one takes so many lexemes. -/
theorem Advances.bind (hp : Advances k p) (hf : ∀ x, Advances 0 (f x)) : Advances k (p >>= f) :=
  fun _ => leaves_bind hp fun x rest => (hf x rest).of_shorter

/-- It is also enough if the second one does. -/
theorem Advances.bind_second (hp : Advances 0 p) (hf : ∀ x, Advances k (f x)) :
    Advances k (p >>= f) :=
  fun _ => leaves_bind hp fun x rest hsuffix _ => (hf x rest).of_suffix hsuffix

/-- A function of what a parser finds takes no lexeme. -/
theorem Advances.map (hp : Advances k p) (h : α → β) : Advances k (p >>= fun x => pure (h x)) :=
  hp.bind fun x => advances_pure (h x)

theorem Advances.ite (hp : Advances k p) (hq : Advances k q) (holds : Bool) :
    Advances k (if holds = true then p else q) := by
  cases holds with
  | true => exact hp
  | false => exact hq

end Rules

section Basic

theorem advances_next (expected : Expectation) : Advances 1 (next expected) := by
  intro ls
  cases ls with
  | nil => exact List.suffix_refl []
  | cons l tail => exact ⟨List.suffix_cons l tail, Nat.le_refl _⟩

theorem advances_expect (token : Token) (expected : Expectation) :
    Advances 1 (expect token expected) := by
  refine (advances_next expected).bind fun l => ?_
  split
  · exact advances_pure l.pos
  · exact advances_reject l expected

theorem advances_identifier : Advances 1 identifier := by
  refine (advances_next .identifier).bind fun l => ?_
  split
  · exact advances_pure _
  · exact advances_reject l .identifier

theorem afterBreaks_suffix (ls : List Lexeme) : afterBreaks ls <:+ ls :=
  List.dropWhile_suffix _

theorem advances_skipBreaks : Advances 0 skipBreaks :=
  fun ls => ⟨afterBreaks_suffix ls, (afterBreaks_suffix ls).length_le⟩

theorem advances_takes (token : Token) : Advances 0 (takes token) := by
  intro ls
  unfold takes
  rw [run_get_bind]
  cases ls with
  | nil => exact advances_pure false []
  | cons l tail =>
      dsimp only
      split
      · exact (advances_pure true tail).of_suffix (List.suffix_cons l tail)
      · exact advances_pure false (l :: tail)

theorem advances_lineEnd : Advances 0 lineEnd := by
  intro ls
  unfold lineEnd
  rw [run_get_bind]
  cases ls with
  | nil => exact advances_pure () []
  | cons l tail =>
      dsimp only
      rw [run_set_bind]
      split
      · exact (advances_pure () tail).of_suffix (List.suffix_cons l tail)
      · exact List.suffix_cons l tail

end Basic

section Repeated

variable {k : Nat} {operand item : Parser α}

/-- Every operator that a chain goes on with takes a lexeme. The induction is on the operators that
    may still come. -/
theorem advances_chainFrom (hop : Advances 0 operand) (join? : Lexeme → Option (α → α → α)) :
    ∀ (n : Nat) (left : α), Advances 0 (chainFrom operand join? n left) := by
  intro n
  induction n with
  | zero => exact advances_pure
  | succ n ih =>
      intro left ls
      rcases ls with _ | ⟨l, tail⟩
      · exact advances_pure left []
      cases hjoin : join? l with
      | none =>
          rw [run_chainFrom_stop fun l' hl' => Option.some.inj hl' ▸ hjoin]
          exact advances_pure left (l :: tail)
      | some join =>
          rw [run_chainFrom_join hjoin]
          have hrest := hop.bind fun right => ih (join left right)
          exact (hrest tail).of_suffix (List.suffix_cons l tail)

theorem advances_chain (hop : Advances k operand) (n : Nat)
    (join? : Lexeme → Option (α → α → α)) : Advances k (chain n operand join?) :=
  hop.bind fun first => advances_chainFrom hop.weaken join? n first

theorem marks_suffix (mark? : Lexeme → Option (α → α)) (ls : List Lexeme) :
    (marks mark? ls).2 <:+ ls := by
  induction ls with
  | nil => exact List.suffix_refl []
  | cons l tail ih =>
      rw [marks]
      split
      · exact List.suffix_refl _
      · exact ih.trans (List.suffix_cons l tail)

theorem advances_marked (hop : Advances k operand) (mark? : Lexeme → Option (α → α)) :
    Advances k (marked operand mark?) := by
  intro ls
  have hrest := (hop.map fun x => (marks mark? ls).1.foldr (fun mark x => mark x) x)
    (marks mark? ls).2
  exact hrest.of_suffix (marks_suffix mark? ls)

theorem advances_moreItems (hitem : Advances 0 item) :
    ∀ n : Nat, Advances 0 (moreItems item n) := by
  intro n
  induction n with
  | zero => exact advances_pure []
  | succ n ih =>
      refine (advances_takes _).bind (Advances.ite ?_ (advances_pure []))
      exact hitem.bind fun x => ih.map (List.cons x)

theorem advances_commaSeparated (hitem : Advances k item) (n : Nat) :
    Advances k (commaSeparated n item) :=
  hitem.bind fun first => (advances_moreItems hitem.weaken n).map (List.cons first)

end Repeated

section Expressions

variable {inner : Parser Expr}

theorem advances_primary (hinner : Advances 0 inner) : Advances 1 (primary inner) := by
  refine (advances_next .expression).bind fun ⟨token, pos⟩ => ?_
  cases token with
  | literal value => exact advances_pure _
  | identifier name => exact advances_pure _
  | escape c => exact advances_pure _
  | symbol sign =>
      cases sign with
      | dollar => exact advances_pure _
      | leftParen =>
          exact hinner.bind fun e => (advances_expect _ _).weaken.map fun _ => Expr.paren pos e
      | _ => exact advances_reject _ .expression
  | _ => exact advances_reject _ .expression

/-- Each level takes what the next tighter one takes. -/
theorem advances_levels (hinner : Advances 0 inner) (n : Nat) :
    Advances 1 (signs inner) ∧ Advances 1 (product n inner) ∧ Advances 1 (sum n inner) ∧
      Advances 1 (joined n inner) ∧ Advances 1 (order n inner) ∧ Advances 1 (equality n inner) ∧
      Advances 1 (negation n inner) ∧ Advances 1 (conjunction n inner) ∧
      Advances 1 (disjunction n inner) := by
  have hsigns : Advances 1 (signs inner) := advances_marked (advances_primary hinner) sign?
  have hproduct : Advances 1 (product n inner) := advances_chain hsigns n product?
  have hsum : Advances 1 (sum n inner) := advances_chain hproduct n sum?
  have hjoined : Advances 1 (joined n inner) := advances_chain hsum n concat?
  have horder : Advances 1 (order n inner) := advances_chain hjoined n order?
  have hequality : Advances 1 (equality n inner) := advances_chain horder n equality?
  have hnegation : Advances 1 (negation n inner) := advances_marked hequality negation?
  have hconjunction : Advances 1 (conjunction n inner) := advances_chain hnegation n conjunction?
  exact ⟨hsigns, hproduct, hsum, hjoined, horder, hequality, hnegation, hconjunction,
    advances_chain hconjunction n disjunction?⟩

/-- What stands in parentheses is an expression again, with a smaller bound. -/
theorem advances_expressionWithin : ∀ n : Nat, Advances 1 (expressionWithin n) := by
  intro n
  induction n with
  | zero => exact advances_throw _
  | succ n ih =>
      exact (advances_levels ih.weaken (n + 1)).2.2.2.2.2.2.2.2

theorem advances_condition (n : Nat) : Advances 1 (condition n) :=
  (advances_expect _ _).bind fun _ => (advances_expressionWithin n).weaken.bind fun e =>
    (advances_expect _ _).weaken.map fun _ => e

end Expressions

section Statements

variable {body : Parser (List Statement)} {one : Parser Statement}

theorem advances_declarator (n : Nat) : Advances 1 (declarator n) := by
  refine advances_identifier.bind fun x =>
    (advances_takes _).bind (Advances.ite ?_ (advances_pure _))
  exact (advances_expressionWithin n).weaken.map fun e =>
    (⟨x.2, x.1, some e⟩ : Declarator)

theorem targets_suffix (ls : List Lexeme) : (targets ls).2 <:+ ls := by
  induction ls using targets.induct with
  | case1 name pos sign rest more after htargets ih =>
      rw [targets]
      exact ih.trans ((List.suffix_cons _ rest).trans (List.suffix_cons _ _))
  | case2 ls hno =>
      have hnone : targets ls = ([], ls) := by
        rw [targets]
        exact hno
      exact ⟨[], congrArg Prod.snd hnone⟩

theorem advances_assignment (n : Nat) : Advances 1 (assignment n) := by
  refine advances_identifier.bind fun x => ?_
  refine (advances_expect _ _).weaken.bind fun _ ls => ?_
  have hrest := (advances_expressionWithin n).weaken.map
    (fun value => Statement.assign x.2 (x.1 :: (targets ls).1) value) (targets ls).2
  exact hrest.of_suffix (targets_suffix ls)

theorem advances_framed (hbody : Advances 0 body) (frame : Keyword) :
    Advances 1 (framed body frame) :=
  advances_skipBreaks.bind_second fun _ => (advances_expect _ _).bind fun _ =>
    (advances_expect _ _).weaken.bind fun _ => (advances_expect _ _).weaken.bind fun _ =>
      hbody.bind fun sts => (advances_expect _ _).weaken.bind fun _ =>
        (advances_expect _ _).weaken.map fun _ => sts

theorem advances_branch (hbody : Advances 0 body) (n : Nat) (pos : Position) :
    Advances 1 (branch n body pos) :=
  (advances_condition n).bind fun guard =>
    (advances_framed hbody .ifKw).weaken.map fun sts => (⟨pos, guard, sts⟩ : Branch)

/-- Every further branch begins with an `ELSE`. The induction is on the branches that may still
    come. -/
theorem advances_branches (hbody : Advances 0 body) (b : Nat) :
    ∀ n : Nat, Advances 0 (branches b body n) := by
  intro n
  induction n with
  | zero => exact advances_pure _
  | succ n ih =>
      intro ls
      have hsuffix := afterBreaks_suffix ls
      rw [branches, run_get_bind]
      split
      · rename_i word pos rest heq
        rw [heq] at hsuffix
        have hrest := ((advances_branch hbody b pos).weaken.bind fun first =>
          ih.map fun others => (first :: others.1, others.2)) rest
        refine hrest.of_suffix (List.IsSuffix.trans ?_ hsuffix)
        exact (List.suffix_cons _ rest).trans (List.suffix_cons _ _)
      · rename_i word rest hno heq
        rw [heq] at hsuffix
        have hrest := ((advances_framed hbody .ifKw).weaken.map fun sts =>
          (([], some sts) : List Branch × Option (List Statement))) rest
        exact hrest.of_suffix ((List.suffix_cons _ rest).trans hsuffix)
      · exact advances_pure _ ls

/-- A statement takes its first lexeme, whatever kind of statement it is. -/
theorem advances_single (hbody : Advances 0 body) (n : Nat) : Advances 1 (single n body) := by
  rintro (_ | ⟨⟨t, pos⟩, tail⟩)
  · exact List.suffix_refl []
  cases t with
  | type type =>
      have hrest := (advances_commaSeparated (advances_declarator n) n).weaken.map
        (Statement.declare pos type)
      exact (hrest tail).cons
  | identifier name => exact advances_assignment n (⟨.identifier name, pos⟩ :: tail)
  | keyword word =>
      cases word with
      | displayKw =>
          have hrest := (advances_expect (.symbol .colon) (.colonAfter .displayKw)).weaken.bind
            fun _ => (advances_expressionWithin n).weaken.map (Statement.display pos)
          exact (hrest tail).cons
      | scanKw =>
          have hrest := (advances_expect (.symbol .colon) (.colonAfter .scanKw)).weaken.bind
            fun _ => (advances_commaSeparated advances_identifier n).weaken.map fun names =>
              Statement.scan pos (names.map Prod.fst)
          exact (hrest tail).cons
      | ifKw =>
          have hrest := (advances_branch hbody n pos).weaken.bind fun first =>
            (advances_branches hbody n n).map fun others =>
              Statement.choose pos first others.1 others.2
          exact (hrest tail).cons
      | whileKw =>
          have hrest := (advances_condition n).weaken.bind fun guard =>
            (advances_framed hbody .whileKw).weaken.map (Statement.loop pos guard)
          exact (hrest tail).cons
      | doKw =>
          have hrest := (advances_framed hbody .doKw).weaken.bind fun sts =>
            advances_skipBreaks.bind fun _ =>
              (advances_expect (.keyword .whileKw) .loopCondition).weaken.bind fun _ =>
                (advances_condition n).weaken.map (Statement.loopAfter pos sts)
          exact (hrest tail).cons
      | _ => exact List.suffix_refl _
  | _ => exact List.suffix_refl _

theorem advances_upToEnd (hone : Advances 0 one) : ∀ n : Nat, Advances 0 (upToEnd one n) := by
  intro n
  induction n with
  | zero => exact advances_pure []
  | succ n ih =>
      refine advances_skipBreaks.bind fun _ ls => ?_
      rw [run_get_bind]
      split
      · exact advances_pure [] ls
      · exact advances_pure [] ls
      · exact (hone.bind fun s => advances_lineEnd.bind fun _ => ih.map (List.cons s)) ls

/-- What stands in a frame are statements again, with a smaller bound. -/
theorem advances_statementsWithin : ∀ n : Nat, Advances 0 (statementsWithin n) := by
  intro n
  induction n with
  | zero => exact advances_pure []
  | succ n ih =>
      exact advances_upToEnd (advances_single ih (n + 1)).weaken (n + 1)

end Statements

end Parser

end Primer
