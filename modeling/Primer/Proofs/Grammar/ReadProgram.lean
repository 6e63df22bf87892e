import Primer.Parser.Program
import Primer.Proofs.Grammar.ReadStatement

/-!
# Reading Programs by Their Grammar

The parser of programs yields a program exactly if the grammar writes that program with
the lexemes it is given. Since a parser yields one result, a list of lexemes is written
for one program at most, so the grammar is unambiguous.

Statements are read one after the other up to an `END`, and the statements in their
frames are read by the same parser with a smaller bound. `upToEnd_reads` is the step: a
parser of single statements that is sound and complete makes one of statement lists.
The induction is on the bound, which every frame lowers.

The parser also lets a last statement end with the text, where the grammar has a line
break. That never leads to a program, because the closing words are missing then.

## Main definitions

* `Parser.AtEnd`: Statements end here.
* `Parser.afterStatement`: Reads what comes after a statement.

## Theorems

* `Parser.run_upToEnd_stop`, `Parser.run_upToEnd_one`: The two ways statements go on.
* `Parser.upToEnd_reads`: Statements up to an `END`, over a parser of single ones.
* `Parser.statementsWithin_reads`: Statements up to an `END`.
* `Parser.run_program_ok`, `Program.ofLexemes_eq_ok`: Programs.
* `Program.ofLexemes_eq_ok_iff_written`: Reading follows the grammar, and the grammar is
  unambiguous.
-/

namespace Primer

namespace Parser

open Statement

variable {ls rest : List Lexeme} {n : Nat}

theorem run_lineEnd_ok {u : Unit} :
    lineEnd.run ls = .ok u rest ↔
      (ls = [] ∧ rest = []) ∨ ∃ pos, ls = ⟨.lineBreak, pos⟩ :: rest := by
  unfold lineEnd
  rw [run_get_bind]
  cases ls with
  | nil =>
      constructor
      · intro h
        exact .inl ⟨rfl, (run_pure_ok.mp h).2⟩
      · rintro (⟨-, rfl⟩ | ⟨pos, h⟩)
        · rfl
        · exact absurd h nofun
  | cons l tail =>
      dsimp only
      rw [run_set_bind]
      constructor
      · intro h
        split at h
        · rename_i htoken
          rw [(run_pure_ok.mp h).2, ← htoken]
          exact .inr ⟨l.pos, rfl⟩
        · exact absurd h run_reject_ne_ok
      · rintro (⟨h, -⟩ | ⟨pos, h⟩)
        · exact absurd h nofun
        · cases h
          rw [if_pos rfl]
          rfl

theorem run_textEnd_ok {u : Unit} : textEnd.run ls = .ok u rest ↔ ls = [] ∧ rest = [] := by
  unfold textEnd
  rw [run_get_bind]
  cases ls with
  | nil => exact ⟨fun h => ⟨rfl, (run_pure_ok.mp h).2⟩, fun ⟨_, h⟩ => by rw [h]; rfl⟩
  | cons l tail =>
      exact ⟨fun h => absurd h run_reject_ne_ok, fun ⟨h, _⟩ => absurd h nofun⟩

section Statements

variable {one : Parser Statement} {nls : List Lexeme}

/-- An `END` comes next, or nothing does. -/
def AtEnd (rest : List Lexeme) : Prop :=
  ∀ token ∈ front? rest, token = .keyword .endKw

/-- Line breaks in front of an `END` or of the end of the text are taken, and nothing
    else. -/
theorem run_upToEnd_stop (hnls : Breaks nls) (hrest : AtEnd rest) (k : Nat) :
    (upToEnd one (k + 1)).run (nls ++ rest) = .ok [] rest := by
  cases rest with
  | nil =>
      refine run_bind_ok.mpr ⟨⟨⟩, [], run_skipBreaks_ok.mpr ?_, rfl⟩
      rw [afterBreaks_append hnls]
      rfl
  | cons l tail =>
      have hl : l.token = .keyword .endKw := hrest l.token rfl
      have hbreak : l.token ≠ .lineBreak := by
        rw [hl]
        exact nofun
      refine run_bind_ok.mpr ⟨⟨⟩, l :: tail, run_skipBreaks_ok.mpr ?_, ?_⟩
      · rw [afterBreaks_append hnls, afterBreaks_cons hbreak]
      · rw [run_get_bind, front?, List.head?_cons, Option.map_some, hl]
        rfl

/-- Reads what comes after a statement: the end of its line, and then again statements up
    to an `END`. -/
def afterStatement (one : Parser Statement) (k : Nat) (st : Statement) :
    Parser (List Statement) := do
  lineEnd
  return st :: (← upToEnd one k)

/-- In front of anything else there is a statement. -/
theorem run_upToEnd_one (hnls : Breaks nls) {l : Lexeme} (hbreak : l.token ≠ .lineBreak)
    (hend : l.token ≠ .keyword .endKw) (tail : List Lexeme) (k : Nat) :
    (upToEnd one (k + 1)).run (nls ++ l :: tail) =
      (one >>= afterStatement one k).run (l :: tail) := by
  have hskip : skipBreaks.run (nls ++ l :: tail) = .ok ⟨⟩ (l :: tail) := by
    rw [run_skipBreaks_ok, afterBreaks_append hnls, afterBreaks_cons hbreak]
  rw [upToEnd, EStateM.run_bind, hskip]
  dsimp only
  rw [run_get_bind, front?, List.head?_cons, Option.map_some]
  split
  · rename_i hnone
    cases hnone
  · rename_i hsome
    exact absurd (Option.some.inj hsome) hend
  · rfl

theorem upToEnd_sound (hone : Sound Statement.Written n one) :
    ∀ (k : Nat) (ls : List Lexeme) (sts : List Statement), ls.length ≤ n →
      front? rest = some (.keyword .endKw) → (upToEnd one k).run ls = .ok sts rest →
      ∃ front, Listed sts front ∧ ls = front ++ rest := by
  intro k
  induction k with
  | zero =>
      intro ls sts _ _ hrun
      rcases run_pure_ok.mp hrun with ⟨rfl, rfl⟩
      exact ⟨[], listed_nil nofun, rfl⟩
  | succ k ih =>
      intro ls sts hn hrest hrun
      rcases exists_breaks ls with ⟨nls, hnls, hls⟩
      have hlen := congrArg List.length hls
      rw [List.length_append] at hlen
      rw [upToEnd] at hrun
      rcases run_bind_ok.mp hrun with ⟨u, mid, hskip, hrun₁⟩
      rw [run_skipBreaks_ok.mp hskip, run_get_bind] at hrun₁
      split at hrun₁
      · rcases run_pure_ok.mp hrun₁ with ⟨rfl, rfl⟩
        exact ⟨nls, listed_nil hnls, hls⟩
      · rcases run_pure_ok.mp hrun₁ with ⟨rfl, rfl⟩
        exact ⟨nls, listed_nil hnls, hls⟩
      · rcases run_bind_ok.mp hrun₁ with ⟨st, mid₁, hst, hrun₂⟩
        rcases run_bind_ok.mp hrun₂ with ⟨u', mid₂, hline, hrun₃⟩
        rcases run_bind_ok.mp hrun₃ with ⟨sts', mid₃, hsts, hrun₄⟩
        rcases run_pure_ok.mp hrun₄ with ⟨rfl, rfl⟩
        -- The statement comes first, then the end of its line, then the others.
        rcases hone _ _ _ (by omega) hst with ⟨sls, hsls, hafter⟩
        rw [hafter] at hls hlen
        rw [List.length_append] at hlen
        rcases run_lineEnd_ok.mp hline with ⟨rfl, rfl⟩ | ⟨pos, rfl⟩
        · -- At the end of the text no statement is left, but then no `END` is either.
          rcases ih [] sts' (Nat.zero_le n) hrest hsts with ⟨front, -, hnil⟩
          rw [(List.append_eq_nil_iff.mp hnil.symm).2] at hrest
          exact absurd hrest nofun
        · rw [List.length_cons] at hlen
          rcases ih mid₂ sts' (by omega) hrest hsts with ⟨front, hfront, rfl⟩
          cases hfront with
          | @mk _ nls' ls' hnls' hlines =>
              -- The end of the line and the line breaks skipped after it are one run.
              have hbreaks : Breaks (⟨.lineBreak, pos⟩ :: nls') :=
                List.forall_mem_cons.mpr ⟨rfl, hnls'⟩
              refine ⟨_, .mk hnls (.cons hsls hbreaks nofun hlines), ?_⟩
              rw [hls]
              simp only [List.append_assoc, List.cons_append]

/-- What statements in front of an `END` begin with. -/
theorem exists_cons_of_lines {sts : List Statement} (h : Lines sts ls)
    (hrest : front? rest = some (.keyword .endKw)) :
    ∃ o tail, ls ++ rest = o :: tail ∧ o.token ≠ .lineBreak ∧ o.token ≠ .keyword .elseKw := by
  cases h with
  | nil =>
      rcases front?_eq_some.mp hrest with ⟨pos, tail, rfl⟩
      exact ⟨_, tail, rfl, nofun, nofun⟩
  | cons hst _ _ _ =>
      rcases hst.head with ⟨o, tail, rfl, hbreak, -, helse⟩
      exact ⟨o, _, rfl, hbreak, helse⟩

/-- The line breaks between statements end a statement. -/
theorem endsLine_of_lines {sts : List Statement} {nls : List Lexeme} (hnls : Breaks nls)
    (hne : nls ≠ []) (h : Lines sts ls) (hrest : front? rest = some (.keyword .endKw)) :
    EndsLine (nls ++ (ls ++ rest)) := by
  constructor
  · cases nls with
    | nil => exact absurd rfl hne
    | cons l nls => exact congrArg some (hnls l List.mem_cons_self)
  · rcases exists_cons_of_lines h hrest with ⟨o, tail, hlines, hbreak, helse⟩
    rw [afterBreaks_append hnls, hlines, afterBreaks_cons hbreak]
    exact fun hfront => helse (Option.some.inj hfront)

theorem upToEnd_complete (hone : Complete EndsLine Statement.Written n one)
    (hrest : front? rest = some (.keyword .endKw)) :
    ∀ (sts : List Statement) (nls ls : List Lexeme) (k : Nat), Breaks nls → Lines sts ls →
      (nls ++ (ls ++ rest)).length ≤ n → (nls ++ (ls ++ rest)).length ≤ k →
      (upToEnd one k).run (nls ++ (ls ++ rest)) = .ok sts rest := by
  intro sts
  induction sts with
  | nil =>
      intro nls ls k hnls hlines _ hk
      cases hlines
      rcases front?_eq_some.mp hrest with ⟨pos, tail, rfl⟩
      cases k with
      | zero => simp only [List.length_append, List.length_cons] at hk; omega
      | succ k =>
          refine run_upToEnd_stop hnls (fun token htoken => ?_) k
          exact (Option.some.inj htoken).symm
  | cons st sts ih =>
      intro nls ls k hnls hlines hn hk
      cases hlines with
      | @cons _ _ sls nls' ls' hst hnls' hne hsts =>
          have hends := endsLine_of_lines hnls' hne hsts hrest
          rcases nls' with _ | ⟨l, nls'⟩
          · exact absurd rfl hne
          rcases List.forall_mem_cons.mp hnls' with ⟨hl, hnls'⟩
          simp only [List.length_append, List.length_cons] at hn hk
          rcases k with _ | k
          · omega
          have hassoc : sls ++ (l :: nls' ++ ls') ++ rest =
              sls ++ (l :: nls' ++ (ls' ++ rest)) := by
            simp only [List.append_assoc]
          have hone' := hone sls st (l :: nls' ++ (ls' ++ rest)) (by
            simp only [List.length_append, List.length_cons]
            omega) hst hends
          -- The front is the first lexeme of the statement, which is no `END`.
          rcases hst.head with ⟨o, tail, rfl, hbreak, hend, -⟩
          rw [hassoc, List.cons_append, run_upToEnd_one hnls hbreak hend]
          refine run_bind_ok.mpr ⟨st, _, hone', ?_⟩
          -- The first line break ends the line, and the others are skipped.
          refine run_bind_ok.mpr ⟨⟨⟩, nls' ++ (ls' ++ rest), ?_, ?_⟩
          · exact run_lineEnd_ok.mpr (.inr ⟨l.pos, by rw [← hl]; rfl⟩)
          refine run_bind_ok.mpr ⟨sts, rest, ih nls' ls' k hnls' hsts ?_ ?_, rfl⟩
          · simp only [List.length_append]
            omega
          · simp only [List.length_append]
            omega

/-- A sound and complete parser of single statements makes one of the statements in
    front of an `END`. -/
theorem upToEnd_reads (hsound : Sound Statement.Written n one)
    (hcomplete : Complete EndsLine Statement.Written n one) : ReadsBody n (upToEnd one n) := by
  intro ls sts rest hn hrest
  constructor
  · intro hrun
    exact upToEnd_sound hsound n ls sts hn hrest hrun
  · rintro ⟨front, ⟨hnls, hlines⟩, rfl⟩
    rw [List.append_assoc] at hn ⊢
    exact upToEnd_complete hcomplete hrest sts _ _ n hnls hlines hn hn

theorem statementsWithin_reads : ∀ n, ReadsBody n (statementsWithin n)
  | 0 => by
      intro ls sts rest hn hrest
      rcases List.length_eq_zero_iff.mp (Nat.le_zero.mp hn) with rfl
      -- No lexemes, hence no `END`.
      constructor
      · intro hrun
        rw [(run_pure_ok.mp hrun).2] at hrest
        exact absurd hrest nofun
      · rintro ⟨front, -, hnil⟩
        rw [(List.append_eq_nil_iff.mp hnil.symm).2] at hrest
        exact absurd hrest nofun
  | n + 1 =>
      upToEnd_reads (single_sound (statementsWithin_reads n))
        (single_complete (statementsWithin_reads n))

end Statements

theorem run_program_ok {p : Program} :
    program.run ls = .ok p rest ↔ p.Written ls ∧ rest = [] := by
  unfold program
  constructor
  · intro hrun
    rcases run_bind_ok.mp hrun with ⟨u, mid₀, hskip, hrun₁⟩
    rcases run_bind_ok.mp hrun₁ with ⟨pos, mid₁, hopen, hrun₂⟩
    rcases run_bind_ok.mp hrun₂ with ⟨word, mid₂, hword, hrun₃⟩
    rcases run_bind_ok.mp hrun₃ with ⟨sts, mid₃, hsts, hrun₄⟩
    rcases run_bind_ok.mp hrun₄ with ⟨closing, mid₄, hclosing, hrun₅⟩
    rcases run_bind_ok.mp hrun₅ with ⟨word', mid₅, hword', hrun₆⟩
    rcases run_bind_ok.mp hrun₆ with ⟨u', mid₆, hskip', hrun₇⟩
    rcases run_bind_ok.mp hrun₇ with ⟨u'', mid₇, hend, hrun₈⟩
    rcases run_pure_ok.mp hrun₈ with ⟨rfl, rfl⟩
    rw [run_skipBreaks_ok] at hskip hskip'
    rw [run_expect_ok] at hopen hword hclosing hword'
    -- Nothing is left behind the closing words but line breaks.
    rcases run_textEnd_ok.mp hend with ⟨hmid₆, rfl⟩
    rcases exists_breaks ls with ⟨nls, hnls, hls⟩
    rcases exists_breaks mid₅ with ⟨nls', hnls', hmid₅⟩
    rw [← hskip, hopen, hword] at hls
    rw [← hskip', hmid₆, List.append_nil] at hmid₅
    subst hclosing hword' hmid₅
    unfold statements at hsts
    rw [run_get_bind] at hsts
    rcases (statementsWithin_reads _ _ _ _ (Nat.le_refl _) rfl).mp hsts with ⟨front, hfront, rfl⟩
    rw [hls]
    exact ⟨.mk pos word closing word' hnls hfront hnls', rfl⟩
  · rintro ⟨⟨pos, word, closing, word', hnls, hlist, hnls'⟩, rfl⟩
    refine run_bind_ok.mpr ⟨⟨⟩, _, run_skipBreaks_ok.mpr rfl, ?_⟩
    rw [afterBreaks_append hnls, afterBreaks_keyword]
    refine run_bind_ok.mpr ⟨pos, _, run_expect_ok.mpr rfl, ?_⟩
    refine run_bind_ok.mpr ⟨word, _, run_expect_ok.mpr rfl, ?_⟩
    refine run_bind_ok.mpr ⟨_, _, (statementsWithin_reads _ _ _ _ (Nat.le_refl _) rfl).mpr
      ⟨_, hlist, rfl⟩, ?_⟩
    refine run_bind_ok.mpr ⟨closing, _, run_expect_ok.mpr rfl, ?_⟩
    refine run_bind_ok.mpr ⟨word', _, run_expect_ok.mpr rfl, ?_⟩
    refine run_bind_ok.mpr ⟨⟨⟩, [], run_skipBreaks_ok.mpr ?_, rfl⟩
    have hafter := afterBreaks_append hnls' []
    rw [List.append_nil] at hafter
    exact hafter.symm

end Parser

namespace Program

theorem ofLexemes_eq_ok {p : Program} {ls : List Lexeme} :
    ofLexemes ls = .ok p ↔ p.Written ls := by
  unfold ofLexemes
  constructor
  · intro h
    cases hrun : Parser.program.run ls with
    | ok q rest =>
        rw [hrun] at h
        rcases Except.ok.inj h with rfl
        exact (Parser.run_program_ok.mp hrun).1
    | error e rest =>
        rw [hrun] at h
        cases h
  · intro h
    rw [Parser.run_program_ok.mpr ⟨h, rfl⟩]

/-- Some lexemes are read as a program exactly if the grammar writes the program with
    them, and it writes no other program with the same ones. -/
theorem ofLexemes_eq_ok_iff_written (ls : List Lexeme) :
    (∀ p, ofLexemes ls = .ok p ↔ p.Written ls) ∧
      ∀ p q : Program, p.Written ls → q.Written ls → p = q := by
  -- Two programs that are written alike are both the one result.
  refine ⟨fun p => ofLexemes_eq_ok, fun p q hp hq => ?_⟩
  have hread := ofLexemes_eq_ok.mpr hp
  rw [ofLexemes_eq_ok.mpr hq] at hread
  exact (Except.ok.inj hread).symm

/-- A chain of targets that ends with a name, and an `ELSE` behind an empty line. -/
theorem written_unique_else_after_breaks :
    let word (k : Keyword) (line column : Nat) : Lexeme := ⟨.keyword k, ⟨line, column⟩⟩
    let name (s : String) (column : Nat) : Lexeme := ⟨.identifier s, ⟨4, column⟩⟩
    let sign (column : Nat) : Lexeme := ⟨.symbol .assign, ⟨4, column⟩⟩
    let eol (line column : Nat) : Lexeme := ⟨.lineBreak, ⟨line, column⟩⟩
    let ls : List Lexeme := [
      word .beginKw 1 0, word .codeKw 1 6, eol 1 10,
      word .ifKw 2 0, ⟨.symbol .leftParen, ⟨2, 3⟩⟩, ⟨.identifier "p", ⟨2, 4⟩⟩,
      ⟨.symbol .rightParen, ⟨2, 5⟩⟩, eol 2 6,
      word .beginKw 3 0, word .ifKw 3 6, eol 3 8,
      name "a" 0, sign 2, name "b" 4, sign 6, name "a" 8, eol 4 9,
      word .endKw 5 0, word .ifKw 5 4, eol 5 6, eol 6 0,
      word .elseKw 7 0, eol 7 4,
      word .beginKw 8 0, word .ifKw 8 6, eol 8 8,
      word .endKw 9 0, word .ifKw 9 4, eol 9 6,
      word .endKw 10 0, word .codeKw 10 4]
    let p : Program := ⟨⟨1, 0⟩, [.choose ⟨2, 0⟩
      ⟨⟨2, 0⟩, .var ⟨2, 4⟩ "p", [.assign ⟨4, 0⟩ ["a", "b"] (.var ⟨4, 8⟩ "a")]⟩ [] (some [])]⟩
    ofLexemes ls = .ok p ∧ p.Written ls ∧ ∀ q : Program, q.Written ls → q = p := by
  intro word name sign eol ls p
  have hread : ofLexemes ls = .ok p := by rfl
  have hp : p.Written ls := ((ofLexemes_eq_ok_iff_written ls).1 p).mp hread
  exact ⟨hread, hp, fun q hq => (ofLexemes_eq_ok_iff_written ls).2 q p hq hp⟩

end Program

end Primer
