import Primer.Proofs.Grammar.ReadExpression
import Primer.Proofs.Prompt.Rules

/-!
# Expressions That Fail at Once

Every level of the parser of expressions is prompt. What has been read of an expression
when a lexeme is refused can be completed to an expression of the level, and the refusal
does not depend on what comes behind.

The words of a level are the spellings of the layered expressions that bind at least as
tightly as the level. A chain of operands has a word of the next tighter level in
front, and an operator with another such word can be added to any word of the level. So
what a chain reads after its first operand belongs to the language `following k`, of what
may be added to every word of level `k`, and that language is closed under adding more.

As for reading, the induction is on the bound for what stands in parentheses. Here there
are two bounds, one for each of the two runs that are compared, and neither is tied to
the other.

## Main definitions

* `Parser.tighter`: The words of a level.
* `Parser.following`: What can be added to any word of a level.

## Theorems

* `Parser.prompt_chain`, `Parser.prompt_marked`, `Parser.prompt_primary`: The three ways a
  level is built.
* `Parser.prompt_expressionWithin`: Expressions of any level.
-/

namespace Primer

namespace Parser

open Primer.Expr

instance : Nonempty Position :=
  ⟨.start⟩

instance : Nonempty Expr :=
  ⟨.newline .start⟩

/-- The spellings of layered expressions that bind at least as tightly as the level. -/
def tighter (k : Nat) : Language Lexeme :=
  written fun (e : Expr) ls => e.Layered ∧ k ≤ e.level ∧ e.Spelled ls

/-- What can be added to any word of a level. -/
def following (k : Nat) : Language Lexeme :=
  {ls | ∀ w ∈ tighter k, w ++ ls ∈ tighter k}

section Words

variable {k : Nat} {o : Lexeme} {a b w : List Lexeme}

theorem mem_tighter {e : Expr} (hsp : e.Spelled w) (hlay : e.Layered) (hlev : k ≤ e.level) :
    w ∈ tighter k :=
  ⟨e, hlay, hlev, hsp⟩

theorem mem_tighter_succ (h : w ∈ tighter (k + 1)) : w ∈ tighter k := by
  rcases h with ⟨e, hlay, hlev, hsp⟩
  exact ⟨e, hlay, by omega, hsp⟩

theorem name_mem_tighter (hk : k ≤ 9) (name : String) (pos : Position) :
    [⟨.identifier name, pos⟩] ∈ tighter k :=
  mem_tighter (.var pos name) trivial hk

theorem viable_tighter (hk : k ≤ 9) : Viable (tighter k) [] :=
  ⟨_, name_mem_tighter hk "x" .start⟩

theorem mark_mem_tighter {mark : Expr → Expr} (hmark : markAt k o = some mark)
    (h : w ∈ tighter k) : o :: w ∈ tighter k := by
  rcases h with ⟨x, hlay, hlev, hsp⟩
  rcases marks_of_markAt hmark x with ⟨hnode, hk⟩
  exact ⟨mark x, hnode.layered_iff.mpr ⟨by omega, hlay⟩, by omega,
    hnode.spelled_iff.mpr ⟨w, hsp, rfl⟩⟩

theorem nil_mem_following : [] ∈ following k := by
  intro w hw
  rwa [List.append_nil]

theorem viable_following (k : Nat) : Viable (following k) [] :=
  viable_of_mem nil_mem_following

theorem append_mem_following (ha : a ∈ following k) (hb : b ∈ following k) :
    a ++ b ∈ following k := by
  intro w hw
  rw [← List.append_assoc]
  exact hb _ (ha w hw)

/-- An operator and its right operand can be added to any word of its level, which
    becomes the left operand. -/
theorem join_mem_following {join : Expr → Expr → Expr} (hjoin : joinAt k o = some join)
    (h : w ∈ tighter (k + 1)) : o :: w ∈ following k := by
  rcases h with ⟨r, hrlay, hrlev, hrsp⟩
  rintro fl ⟨l, hllay, hllev, hlsp⟩
  rcases joins_of_joinAt hjoin l r with ⟨hnode, hk⟩
  exact ⟨join l r, hnode.layered_iff.mpr ⟨by omega, by omega, hllay, hrlay⟩, by omega,
    hnode.spelled_iff.mpr ⟨fl, w, hlsp, hrsp, rfl⟩⟩

end Words

section Levels

variable {k n m : Nat} {operand operand' : Parser Expr}

/-- A chain ends in front of what is no operator of it, and in front of nothing else does
    it look. -/
theorem settled_chainFrom_stop {ls : List Lexeme} (hjoin : ∀ o ∈ ls.head?, joinAt k o = none)
    (left : Expr) (c c' : Nat) :
    Settled (following k) .next m (chainFrom operand' (joinAt k) c' left) ls
      ((chainFrom operand (joinAt k) c left).answer ls) := by
  rw [answer_of_run (run_chainFrom_stop hjoin c)]
  refine .took [] ls left rfl (.inl nil_mem_following) fun rest' _ hsame => ?_
  refine answer_of_run (run_chainFrom_stop (fun o ho => hjoin o ?_) c')
  rw [hsame.head?]
  exact ho

/-- The rest of a chain can be added to what has been read of it. The induction is on the
    operators that may still come in the first run, and the bounds of the second run go
    down with it. -/
theorem settled_chainFrom (hop : Prompt (tighter (k + 1)) .next n operand m operand') :
    ∀ (c c' m' : Nat) (left : Expr) (ls : List Lexeme), ls.length ≤ c → ls.length ≤ n → m' ≤ c' →
      m' ≤ m → Settled (following k) .next m' (chainFrom operand' (joinAt k) c' left) ls
        ((chainFrom operand (joinAt k) c left).answer ls) := by
  have hnil : ∀ o ∈ ([] : List Lexeme).head?, joinAt k o = none := nofun
  intro c
  induction c with
  | zero =>
      intro c' m' left ls hc _ _ _
      rw [List.eq_nil_of_length_eq_zero (Nat.le_zero.mp hc)]
      exact settled_chainFrom_stop hnil left 0 c'
  | succ c ih =>
      intro c' m' left ls hc hn hc' hm'
      rcases ls with _ | ⟨o, tail⟩
      · exact settled_chainFrom_stop hnil left (c + 1) c'
      cases hjoin : joinAt k o with
      | none =>
          refine settled_chainFrom_stop (fun o' ho' => ?_) left (c + 1) c'
          rw [← Option.some.inj ho']
          exact hjoin
      | some join =>
          rw [List.length_cons] at hc hn
          -- Behind the operator there is an operand, and then again a chain.
          have hoperand : Settled (tighter (k + 1)) .next (m' - 1) operand' tail
              (operand.answer tail) :=
            (hop tail (by omega)).congr (by omega) fun _ _ => rfl
          have hmore := hoperand.bind (viable_following k)
            (fun right front rest hrest => ih (c' - 1) (m' - 1) (join left right) rest
              (by rw [hrest, List.length_append] at hc; omega)
              (by rw [hrest, List.length_append] at hn; omega) (by omega) (by omega))
          refine hmore.cons (answer_congr (run_chainFrom_join hjoin)) (fun tail' htail' => ?_)
            (by omega) fun w hw => ?_
          · rw [List.length_cons] at htail'
            obtain ⟨c'', rfl⟩ : ∃ c'', c' = c'' + 1 := ⟨c' - 1, by omega⟩
            exact answer_congr (run_chainFrom_join hjoin)
          · rcases Language.mem_mul.mp hw with ⟨a, ha, b, hb, rfl⟩
            exact append_mem_following (join_mem_following hjoin ha) hb

/-- Operators between operands: the operands are of the next tighter level. -/
theorem prompt_chain (hop : Prompt (tighter (k + 1)) .next n operand m operand')
    {c c' : Nat} (hc : n ≤ c) (hc' : m ≤ c') :
    Prompt (tighter k) .next n (chain c operand (joinAt k)) m (chain c' operand' (joinAt k)) := by
  intro ls hls
  refine ((hop ls hls).bind (viable_following k) fun left front rest hrest => ?_).mono ?_
  · rw [hrest, List.length_append] at hls
    exact settled_chainFrom hop c c' m left rest (by omega) (by omega) hc' (Nat.le_refl m)
  · intro w hw
    rcases Language.mem_mul.mp hw with ⟨a, ha, b, hb, rfl⟩
    exact hb a (mem_tighter_succ ha)

/-- Operators in front of an operand: the operand is of the next tighter level. -/
theorem prompt_marked (hop : Prompt (tighter (k + 1)) .next n operand m operand') :
    Prompt (tighter k) .next n (marked operand (markAt k)) m (marked operand' (markAt k)) := by
  -- Without an operator in front, the level adds nothing to the tighter one.
  have hplain : ∀ ls : List Lexeme, ls.length ≤ n → (∀ o ∈ ls.head?, markAt k o = none) →
      Settled (tighter k) .next m (marked operand' (markAt k)) ls
        ((marked operand (markAt k)).answer ls) := by
    intro ls hls hmark
    refine ((hop ls hls).mono fun w => mem_tighter_succ).same
      (answer_congr (run_marked_operand hmark)) fun ls' _ hhead => ?_
    rw [hhead] at hmark
    exact answer_congr (run_marked_operand hmark)
  intro ls
  induction ls with
  | nil => exact fun hls => hplain [] hls nofun
  | cons o tail ih =>
      intro hls
      cases hmark : markAt k o with
      | none =>
          refine hplain _ hls fun o' ho' => ?_
          rw [← Option.some.inj ho']
          exact hmark
      | some mark =>
          rw [List.length_cons] at hls
          exact ((ih (by omega)).map mark).cons (answer_congr (run_marked_mark hmark))
            (fun tail' _ => answer_congr (run_marked_mark hmark)) (Nat.le_succ m)
            fun w => mark_mem_tighter hmark

/-- The first lexeme decides what a primary expression is, and the only one that goes on
    is the opening parenthesis. -/
theorem prompt_primary {inner inner' : Parser Expr}
    (hinner : Prompt (tighter 0) .next n inner m inner') :
    Prompt (tighter 9) .next (n + 1) (primary inner) (m + 1) (primary inner') := by
  have hviable : Viable (tighter 9) [] := viable_tighter (Nat.le_refl 9)
  rintro (_ | ⟨⟨t, pos⟩, tail⟩) hls
  · exact settled_nil rfl rfl hviable
  cases t with
  | literal v =>
      exact settled_take rfl (fun _ => rfl) (mem_tighter (.literal pos v) trivial (Nat.le_refl 9))
  | identifier name =>
      exact settled_take rfl (fun _ => rfl) (name_mem_tighter (Nat.le_refl 9) name pos)
  | escape c =>
      exact settled_take rfl (fun _ => rfl) (mem_tighter (.escape pos c) trivial (Nat.le_refl 9))
  | symbol s =>
      cases s with
      | dollar =>
          exact settled_take rfl (fun _ => rfl) (mem_tighter (.newline pos) trivial (Nat.le_refl 9))
      | leftParen =>
          have hclosed : Prompt (tighter 0 * token (.symbol .rightParen)) .next n
              (inner >>= fun e => expect (.symbol .rightParen) .closeParen >>= fun _ =>
                pure (Expr.paren pos e)) m
              (inner' >>= fun e => expect (.symbol .rightParen) .closeParen >>= fun _ =>
                pure (Expr.paren pos e)) :=
            hinner.bind fun e => prompt_expect.map fun _ => Expr.paren pos e
          refine (hclosed tail (Nat.le_of_succ_le_succ hls)).cons rfl (fun _ _ => rfl)
            (Nat.le_refl _) fun w hw => ?_
          rcases Language.mem_mul.mp hw with ⟨a, ⟨e, hlay, -, hsp⟩, b, ⟨close, rfl⟩, rfl⟩
          exact ⟨.paren pos e, hlay, Nat.le_refl 9, .paren pos close hsp⟩
      | _ => exact settled_reject rfl (fun _ => rfl) hviable
  | _ => exact settled_reject rfl (fun _ => rfl) hviable

/-- The levels one after the other, from the tightest to the loosest. -/
theorem prompt_disjunction {inner inner' : Parser Expr}
    (hinner : Prompt (tighter 0) .next n inner m inner') :
    Prompt (tighter 0) .next (n + 1) (disjunction (n + 1) inner) (m + 1)
      (disjunction (m + 1) inner') := by
  rcases operator_tables with ⟨h0, h1, h3, h4, h5, h6, h7, h2, h8⟩
  unfold disjunction conjunction negation equality order joined sum product signs
  rw [h0, h1, h2, h3, h4, h5, h6, h7, h8]
  have hsigns := prompt_marked (k := 8) (prompt_primary hinner)
  have hproduct := prompt_chain (k := 7) hsigns (Nat.le_refl _) (Nat.le_refl _)
  have hsum := prompt_chain (k := 6) hproduct (Nat.le_refl _) (Nat.le_refl _)
  have hjoined := prompt_chain (k := 5) hsum (Nat.le_refl _) (Nat.le_refl _)
  have horder := prompt_chain (k := 4) hjoined (Nat.le_refl _) (Nat.le_refl _)
  have hequality := prompt_chain (k := 3) horder (Nat.le_refl _) (Nat.le_refl _)
  have hnegation := prompt_marked (k := 2) hequality
  have hconjunction := prompt_chain (k := 1) hnegation (Nat.le_refl _) (Nat.le_refl _)
  exact prompt_chain (k := 0) hconjunction (Nat.le_refl _) (Nat.le_refl _)

/-- Expressions of any level. The two bounds go down together, and where one of them is
    zero there is nothing to read. -/
theorem prompt_expressionWithin : ∀ n m : Nat,
    Prompt (tighter 0) .next n (expressionWithin n) m (expressionWithin m) := by
  intro n
  induction n with
  | zero =>
      intro m ls hls
      rw [List.eq_nil_of_length_eq_zero (Nat.le_zero.mp hls)]
      have hnil : ∀ m, (expressionWithin m).answer [] = .error (.endOfInput .expression) := by
        intro m
        cases m <;> rfl
      exact settled_nil (hnil 0) (hnil m) (viable_tighter (Nat.zero_le 9))
  | succ n ih =>
      intro m ls hls
      cases m with
      | zero =>
          -- On no lexemes, the bounds zero and one make no difference.
          refine (prompt_disjunction (ih 0) ls hls).congr (Nat.zero_le 1) fun ls' hls' => ?_
          rw [List.eq_nil_of_length_eq_zero (Nat.le_zero.mp hls')]
          rfl
      | succ m => exact prompt_disjunction (ih m) ls hls

end Levels

end Parser

end Primer
