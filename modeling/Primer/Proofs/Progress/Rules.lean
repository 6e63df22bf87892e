import Primer.Parser.Statement

/-!
# The Rules Without Bounds

The grammar as a system of rules that call one another. A level of expressions calls the next
tighter one, a parenthesis calls the loosest one again, a statement calls expressions and frames, a
frame calls statements. There is no bound anywhere: a rule that repeats something calls itself.

Nothing in such a system says that the calls come to an end. So the rules are not functions to begin
with. `body` is what a rule does, over what the rules do that it calls, whatever that is. Calls
inside calls are followed to some depth by `unfolded`, and what lies deeper is left to a
parameter. If the answer is the same whatever that parameter is, no call lies deeper, and the rule
has come to an end: a deeper call would show, since it could fail with any error.

A list of lexemes and a rule have a measure, which bounds the depth. It goes down with every call.
Most calls are made after a lexeme has been taken, and then the list is shorter. The
others go to a rule of lower rank. The ranks are below ten, so ten for each lexeme is enough.

## Main definitions

* `Parser.Rule`: A rule, with the type of what it reads.
* `Parser.Rule.body`: What a rule does, over its calls.
* `Parser.Rule.unfolded`: The rules with calls up to a depth.
* `Parser.Rule.rank`: The rank of a rule.
* `Parser.Rule.Answers`: A rule comes to an end with a result.
* `Parser.Rule.Follows`: A parser does what a rule does.

## Theorems

* `Parser.Rule.follows_of_body`: A parser does what a rule does, if it does so over calls that
  are known.
-/

namespace Primer

namespace Parser

/-- A rule of the grammar, with the type of what it reads. -/
inductive Rule : Type → Type 1 where
  | disjunction : Rule Expr
  | conjunction : Rule Expr
  | negation : Rule Expr
  | equality : Rule Expr
  | order : Rule Expr
  | joined : Rule Expr
  | sum : Rule Expr
  | product : Rule Expr
  | signs : Rule Expr
  | primary : Rule Expr
  /-- What follows the first operand of a chain. -/
  | operands (operand : Rule Expr) (join? : Lexeme → Option (Expr → Expr → Expr)) (left : Expr) :
      Rule Expr
  | condition : Rule Expr
  | identifier : Rule (String × Position)
  | declarator : Rule Declarator
  /-- What follows the first item of a list with commas. -/
  | items {α : Type} (item : Rule α) : Rule (List α)
  | assignment : Rule Statement
  | branch (pos : Position) : Rule Branch
  /-- What follows the first branch of a choice. -/
  | branches : Rule (List Branch × Option (List Statement))
  | statement : Rule Statement
  /-- A statement with the end of its line. -/
  | line : Rule Statement
  | statements : Rule (List Statement)
  | block (frame : Keyword) : Rule (List Statement)

/-- A parser for every rule. -/
abbrev Reader : Type 1 := ⦃α : Type⦄ → Rule α → Parser α

namespace Rule

section Bodies

variable (call : Reader)

/-- Operands with operators between them. -/
def joining (operand : Rule Expr) (join? : Lexeme → Option (Expr → Expr → Expr)) : Parser Expr := do
  let first ← call operand
  call (.operands operand join? first)

/-- An operand of its own level behind an operator, or one of the next tighter level. -/
def marking (self operand : Rule Expr) (mark? : Lexeme → Option (Expr → Expr)) : Parser Expr := do
  match ← get with
  | [] => call operand
  | l :: rest =>
      match mark? l with
      | none => call operand
      | some mark => do
          set rest
          return mark (← call self)

/-- What a rule does, over what the rules do that it calls. -/
def body : {α : Type} → Rule α → Parser α
  | _, .disjunction => joining call .conjunction disjunction?
  | _, .conjunction => joining call .negation conjunction?
  | _, .negation => marking call .negation .equality negation?
  | _, .equality => joining call .order equality?
  | _, .order => joining call .joined order?
  | _, .joined => joining call .sum concat?
  | _, .sum => joining call .product sum?
  | _, .product => joining call .signs product?
  | _, .signs => marking call .signs .primary sign?
  | _, .primary => Parser.primary (call .disjunction)
  | _, .operands operand join? left => do
      match ← get with
      | [] => return left
      | l :: rest =>
          match join? l with
          | none => return left
          | some join => do
              set rest
              let right ← call operand
              call (.operands operand join? (join left right))
  | _, .condition => do
      let _ ← expect (.symbol .leftParen) .openCondition
      let e ← call .disjunction
      let _ ← expect (.symbol .rightParen) .closeCondition
      return e
  | _, .identifier => Parser.identifier
  | _, .declarator => do
      let (name, pos) ← call .identifier
      if ← takes (.symbol .assign) then return ⟨pos, name, some (← call .disjunction)⟩
      else return ⟨pos, name, none⟩
  | _, .items item => do
      if ← takes (.symbol .comma) then
        let x ← call item
        return x :: (← call (.items item))
      else return []
  | _, .assignment => do
      let (name, pos) ← call .identifier
      let _ ← expect (.symbol .assign) .assignment
      let (more, rest) := targets (← get)
      set rest
      let value ← call .disjunction
      return .assign pos (name :: more) value
  | _, .branch pos => do
      let guard ← call .condition
      return ⟨pos, guard, ← call (.block .ifKw)⟩
  | _, .branches => do
      match afterBreaks (← get) with
      | ⟨.keyword .elseKw, _⟩ :: ⟨.keyword .ifKw, pos⟩ :: rest => do
          set rest
          let b ← call (.branch pos)
          let (bs, otherwise) ← call .branches
          return (b :: bs, otherwise)
      | ⟨.keyword .elseKw, _⟩ :: rest => do
          set rest
          return ([], some (← call (.block .ifKw)))
      | _ => return ([], none)
  | _, .statement => do
      match ← get with
      | [] => throw (.endOfInput .statement)
      | l :: rest =>
          match l.token with
          | .type type => do
              set rest
              let first ← call .declarator
              return .declare l.pos type (first :: (← call (.items .declarator)))
          | .identifier _ => call .assignment
          | .keyword .displayKw => do
              set rest
              let _ ← expect (.symbol .colon) (.colonAfter .displayKw)
              return .display l.pos (← call .disjunction)
          | .keyword .scanKw => do
              set rest
              let _ ← expect (.symbol .colon) (.colonAfter .scanKw)
              let first ← call .identifier
              return .scan l.pos ((first :: (← call (.items .identifier))).map Prod.fst)
          | .keyword .ifKw => do
              set rest
              let first ← call (.branch l.pos)
              let (others, otherwise) ← call .branches
              return .choose l.pos first others otherwise
          | .keyword .whileKw => do
              set rest
              let guard ← call .condition
              return .loop l.pos guard (← call (.block .whileKw))
          | .keyword .doKw => do
              set rest
              let statements ← call (.block .doKw)
              skipBreaks
              let _ ← expect (.keyword .whileKw) .loopCondition
              return .loopAfter l.pos statements (← call .condition)
          | _ => reject l .statement
  | _, .line => do
      let s ← call .statement
      lineEnd
      return s
  | _, .statements => do
      skipBreaks
      match front? (← get) with
      | none => return []
      | some (.keyword .endKw) => return []
      | some _ => do
          let s ← call .line
          return s :: (← call .statements)
  | _, .block frame => framed (call .statements) frame

end Bodies

/-- The rules with calls up to a depth. What lies deeper is left to `start`. -/
def unfolded (start : Reader) : Nat → Reader
  | 0 => start
  | n + 1 => fun _ r => r.body (unfolded start n)

/-- The rank of a rule. A call that is made before a lexeme has been taken goes to a rule of lower
    rank. -/
def rank : {α : Type} → Rule α → Nat
  | _, .disjunction => 9
  | _, .conjunction => 8
  | _, .negation => 7
  | _, .equality => 6
  | _, .order => 5
  | _, .joined => 4
  | _, .sum => 3
  | _, .product => 2
  | _, .signs => 1
  | _, .declarator => 1
  | _, .assignment => 1
  | _, .branch _ => 1
  | _, .statement => 2
  | _, .line => 3
  | _, .statements => 4
  | _, _ => 0

/-- On the given lexemes the rule comes to an end with the given result: the result is there when
    calls are followed to a depth beyond the measure, whatever lies deeper. -/
def Answers {α : Type} (r : Rule α) (ls : List Lexeme)
    (result : EStateM.Result SourceError (List Lexeme) α) : Prop :=
  ∀ (start : Reader) (n : Nat), 10 * ls.length + r.rank < n → (unfolded start n r).run ls = result

/-- On lists of fewer than `n` lexemes the rule comes to an end and the parser finds its answer. -/
def Follows {α : Type} (n : Nat) (r : Rule α) (p : Parser α) : Prop :=
  ∀ ls : List Lexeme, ls.length < n → r.Answers ls (p.run ls)

/-- What is known of the calls that a rule makes on the given lexemes: those on shorter lists, and
    on lists that are not longer those to rules of lower rank, find what the parsers find that
    follow the rules. -/
structure Known {α : Type} (call : Reader) (r : Rule α) (ls : List Lexeme) : Prop where
  shorter : ∀ {β : Type} {r' : Rule β} {p : Parser β}, Follows ls.length r' p →
    ∀ ls' : List Lexeme, ls'.length < ls.length → (call r').run ls' = p.run ls'
  lower : ∀ {β : Type} {r' : Rule β} {p : Parser β}, Follows (ls.length + 1) r' p →
    r'.rank < r.rank → ∀ ls' : List Lexeme, ls'.length ≤ ls.length →
      (call r').run ls' = p.run ls'

section Measure

variable {α : Type} {r : Rule α} {p q : Parser α} {m n : Nat}

theorem rank_le (r : Rule α) : r.rank ≤ 9 := by
  unfold rank
  split <;> omega

theorem Follows.mono (h : Follows n r p) (hmn : m ≤ n) : Follows m r p :=
  fun ls hls => h ls (Nat.lt_of_lt_of_le hls hmn)

theorem Follows.congr (h : Follows n r p) (hq : ∀ ls, ls.length < n → p.run ls = q.run ls) :
    Follows n r q :=
  fun ls hls => hq ls hls ▸ h ls hls

/-- A rule has one answer. -/
theorem Answers.unique {ls : List Lexeme} {x y : EStateM.Result SourceError (List Lexeme) α}
    (hx : r.Answers ls x) (hy : r.Answers ls y) : x = y := by
  have start : Reader := fun _ _ => throw (.endOfInput .statement)
  rw [← hx start _ (Nat.lt_succ_self _), hy start _ (Nat.lt_succ_self _)]

/-- To do what a rule does it is enough to do so over calls that are known. The measure goes down
    with each of them, so that they are answered one level deeper. -/
theorem follows_of_body (h : ∀ (call : Reader) (ls : List Lexeme), ls.length < n →
    Known call r ls → (r.body call).run ls = p.run ls) : Follows n r p := by
  intro ls hls start depth hdepth
  cases depth with
  | zero => omega
  | succ depth =>
      refine h (unfolded start depth) ls hls ⟨fun {β r' p'} hfollows ls' hls' => ?_,
        fun {β r' p'} hfollows hrank ls' hls' => ?_⟩
      · have hle := rank_le r'
        exact hfollows ls' hls' start depth (by omega)
      · exact hfollows ls' (Nat.lt_succ_of_le hls') start depth (by omega)

/-- On no lexemes it is enough to do so over any calls. -/
theorem follows_nil (h : ∀ call : Reader, (r.body call).run [] = p.run []) : Follows 1 r p := by
  refine follows_of_body fun call ls hls _ => ?_
  rcases List.eq_nil_of_length_eq_zero (Nat.lt_one_iff.mp hls) with rfl
  exact h call

theorem Known.here {β : Type} {r' : Rule β} {q : Parser β} {call : Reader} {ls : List Lexeme}
    (h : Known call r ls) (hfollows : Follows (ls.length + 1) r' q) (hrank : r'.rank < r.rank) :
    (call r').run ls = q.run ls :=
  h.lower hfollows hrank ls (Nat.le_refl _)

end Measure

end Rule

end Parser

end Primer
