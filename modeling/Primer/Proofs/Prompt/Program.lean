import Mathlib.Data.Finset.Lattice.Fold
import Primer.Proofs.Prompt.Statement

/-!
# Syntax Errors at the Earliest Lexeme

A program with a mistake is refused at the first lexeme that makes it one. In front of
that lexeme stands the beginning of some program, and with that lexeme it is the
beginning of none, so that nothing which comes later changes the error. If the text
ends too early, all of it is the beginning of a program.

Statements up to an `END` are read one after the other. A statement looks past line breaks
for an `ELSE`, so a failure behind it must not come from within these line breaks. It
never does: line breaks end a line and are skipped after that, and if the text ends
with them, so do the statements.

The parser of programs has no bound of its own. It is compared with itself on longer and
longer lists, and each length might name a different place for the refusal. But there are
only finitely many places in the given list, so one of them serves for all lengths.

## Theorems

* `Parser.settled_upToEnd`, `Parser.prompt_statementsWithin`: Statements up to an `END`.
* `Parser.prompt_program`: Programs.
* `Parser.exists_refused`: A refusal that is due to one place, for lists of any length.
* `Program.ofLexemes_error_earliest`: Errors are found at the earliest lexeme.
-/

namespace Primer

namespace Parser

open Statement

variable {look : Outlook} {n m : Nat}

theorem answer_lineEnd_of_eq {l : Lexeme} (hl : l.token = .lineBreak) (tail : List Lexeme) :
    lineEnd.answer (l :: tail) = .ok ((), tail) := by
  refine answer_of_run (run_lineEnd_ok.mpr (.inr ⟨l.pos, ?_⟩))
  rw [← hl]

theorem answer_lineEnd_of_ne {l : Lexeme} (hl : l.token ≠ .lineBreak) (tail : List Lexeme) :
    lineEnd.answer (l :: tail) = .error (.unexpected l.token .endOfLine l.pos) := by
  have hrun : lineEnd.run (l :: tail) = (reject l .endOfLine).run tail := by
    change (if l.token = .lineBreak then pure () else reject l .endOfLine :
      Parser Unit).run tail = _
    rw [if_neg hl]
  rw [answer, hrun]
  rfl

theorem prompt_textEnd : Prompt 1 look n textEnd m textEnd := by
  rintro (_ | ⟨l, tail⟩) _
  · exact settled_end rfl rfl viable_one
  · exact settled_reject rfl (fun _ => rfl) viable_one

section Sight

variable {a b : List Lexeme}

/-- If no line break comes next, there is nothing to look past. -/
theorem same_pastBreaks (h : a.head? = b.head?) (ha : ∀ l ∈ a.head?, l.token ≠ .lineBreak) :
    Outlook.pastBreaks.Same a b := by
  refine ⟨h, ?_⟩
  rcases a with _ | ⟨l, a⟩
  · rw [List.head?_eq_none_iff.mp h.symm]
  rcases b with _ | ⟨l', b⟩
  · cases h
  cases h
  rw [afterBreaks_cons (ha l rfl), afterBreaks_cons (ha l rfl)]
  rfl

/-- What stands behind something else than line breaks is out of sight. -/
theorem same_pastBreaks_append {front : List Lexeme} (hfront : ¬Breaks front) (a b : List Lexeme) :
    Outlook.pastBreaks.Same (front ++ a) (front ++ b) := by
  induction front with
  | nil => exact absurd (fun _ hl => absurd hl List.not_mem_nil) hfront
  | cons l front ih =>
      refine ⟨rfl, ?_⟩
      by_cases hl : l.token = .lineBreak
      · have hrest : ¬Breaks front := fun h => hfront (List.forall_mem_cons.mpr ⟨hl, h⟩)
        have hskip : ∀ us : List Lexeme, afterBreaks (l :: us) = afterBreaks us := fun us =>
          List.dropWhile_cons_of_pos (decide_eq_true hl)
        rw [List.cons_append, List.cons_append, hskip, hskip]
        exact (ih hrest).2
      · rw [List.cons_append, List.cons_append, afterBreaks_cons hl, afterBreaks_cons hl]
        rfl

end Sight

section Statements

variable {L : Language Lexeme} {one one' : Parser Statement} {ls rest : List Lexeme}

theorem exists_statement (h : ¬AtEnd (afterBreaks ls)) :
    ∃ l tail, afterBreaks ls = l :: tail ∧ l.token ≠ .lineBreak ∧ l.token ≠ .keyword .endKw := by
  cases hafter : afterBreaks ls with
  | nil =>
      rw [hafter] at h
      exact absurd nofun h
  | cons l tail =>
      rw [hafter] at h
      refine ⟨l, tail, rfl, ne_lineBreak_of_afterBreaks l (by rw [hafter]; rfl), fun hl => h ?_⟩
      intro token htoken
      rw [← Option.some.inj htoken]
      exact hl

theorem answer_upToEnd_nil (c : Nat) : (upToEnd one c).answer [] = .ok ([], []) := by
  cases c <;> rfl

/-- What is left after a statement and its line is left by the statements that follow. -/
theorem afterStatement_atEnd {c : Nat} {st : Statement} {sts : List Statement}
    (hmore : ∀ tail sts, tail.length ≤ ls.length - 1 → (upToEnd one c).run tail = .ok sts rest →
      AtEnd rest)
    (hrun : (afterStatement one c st).run ls = .ok sts rest) : AtEnd rest := by
  rcases run_bind_ok.mp hrun with ⟨u, tail, hline, hrun₁⟩
  rcases run_bind_ok.mp hrun₁ with ⟨sts', mid, hsts, hrun₂⟩
  rcases run_pure_ok.mp hrun₂ with ⟨-, rfl⟩
  refine hmore tail sts' ?_ hsts
  rcases run_lineEnd_ok.mp hline with ⟨-, rfl⟩ | ⟨pos, rfl⟩
  · exact Nat.zero_le _
  · exact Nat.le_refl _

/-- Statements are read until an `END` or the end of the text comes next. The induction is
    on the bound, and each line takes at least one lexeme. -/
theorem upToEnd_atEnd (hone : Prompt L look n one m one') :
    ∀ (c : Nat) (ls : List Lexeme) (sts : List Statement), ls.length ≤ c → ls.length ≤ n →
      (upToEnd one c).run ls = .ok sts rest → AtEnd rest := by
  intro c
  induction c with
  | zero =>
      intro ls sts hc _ hrun
      rcases run_pure_ok.mp hrun with ⟨-, rfl⟩
      rw [List.eq_nil_of_length_eq_zero (Nat.le_zero.mp hc)]
      exact nofun
  | succ c ih =>
      intro ls sts hc hn hrun
      rcases exists_breaks ls with ⟨nls, hnls, hls⟩
      by_cases hend : AtEnd (afterBreaks ls)
      · rw [hls, run_upToEnd_stop hnls hend] at hrun
        cases hrun
        exact hend
      rcases exists_statement hend with ⟨l, tail, htail, hbreak, hl⟩
      rw [htail] at hls
      subst hls
      rw [run_upToEnd_one hnls hbreak hl] at hrun
      rcases run_bind_ok.mp hrun with ⟨st, mid, hst, hline⟩
      rw [List.length_append] at hc hn
      have hmid := hone.length_le (by omega) hst
      exact afterStatement_atEnd
        (fun tail' sts' htail' => ih tail' sts' (by omega) (by omega)) hline

theorem answer_afterStatement_nil (st : Statement) (c : Nat) :
    (afterStatement one c st).answer [] = .ok ([st], []) := by
  unfold afterStatement
  rw [answer_bind_ok rfl, answer_bind_ok (answer_upToEnd_nil c)]
  rfl

/-- Line breaks end a line and are skipped then, so reading on after a statement does not
    fail at them. -/
theorem answer_afterStatement_breaks (st : Statement) (c : Nat) (hls : Breaks ls) :
    ∃ x, (afterStatement one c st).answer ls = .ok x := by
  rcases ls with _ | ⟨l, tail⟩
  · exact ⟨_, answer_afterStatement_nil st c⟩
  rcases List.forall_mem_cons.mp hls with ⟨hl, htail⟩
  unfold afterStatement
  rw [answer_bind_ok (answer_lineEnd_of_eq hl tail)]
  cases c with
  | zero => exact ⟨_, rfl⟩
  | succ c =>
      have hnil : AtEnd [] := nofun
      have hrun : (upToEnd one (c + 1)).run (tail ++ []) = .ok [] [] :=
        run_upToEnd_stop htail hnil c
      rw [List.append_nil] at hrun
      exact ⟨_, answer_bind_ok (answer_of_run hrun)⟩

theorem viable_listed : Viable (written Listed) [] :=
  viable_of_mem ⟨[], listed_nil nofun⟩

theorem viable_line : Viable (token .lineBreak * written Listed) [] :=
  (viable_token _).mul viable_listed

/-- The end of the line takes a lexeme, so what follows may be read with a smaller bound. -/
theorem settled_afterStatement {c c' : Nat} (st : Statement)
    (hmore : ∀ tail : List Lexeme, tail.length < ls.length →
      Settled (written Listed) .next (m - 1) (upToEnd one' c') tail
        ((upToEnd one c).answer tail)) :
    Settled (token .lineBreak * written Listed) .next m (afterStatement one' c' st) ls
      ((afterStatement one c st).answer ls) := by
  rcases ls with _ | ⟨l, tail⟩
  · -- The end of the text will do, although a line break could still come.
    exact settled_end (answer_afterStatement_nil st c) (answer_afterStatement_nil st c')
      viable_line
  by_cases hl : l.token = .lineBreak
  · refine ((hmore tail (Nat.lt_succ_self _)).map (List.cons st)).cons
      (answer_bind_ok (answer_lineEnd_of_eq hl tail))
      (fun tail' _ => answer_bind_ok (answer_lineEnd_of_eq hl tail')) (by omega) fun w hw => ?_
    exact Language.mem_mul.mpr ⟨[l], ⟨l.pos, by rw [← hl]⟩, w, hw, rfl⟩
  · exact settled_reject (answer_bind_error (answer_lineEnd_of_ne hl tail))
      (fun tail' => answer_bind_error (answer_lineEnd_of_ne hl tail')) viable_line

/-- A statement and what comes after it. -/
theorem settled_statement {c c' : Nat}
    (hone : Prompt (written Statement.Written) .pastBreaks n one m one') (hn : ls.length ≤ n)
    (hc : ls.length ≤ c + 1)
    (hmore : ∀ tail : List Lexeme, tail.length < ls.length →
      Settled (written Listed) .next (m - 1) (upToEnd one' c') tail
        ((upToEnd one c).answer tail)) :
    Settled (written Statement.Written * (token .lineBreak * written Listed)) .next m
      (one' >>= afterStatement one' c') ls ((one >>= afterStatement one c).answer ls) := by
  refine (hone ls hn).bind_of viable_line ?_ ?_ ?_
  · intro st front rest hsplit
    refine settled_afterStatement st fun tail htail => hmore tail ?_
    rw [hsplit, List.length_append]
    omega
  · -- The statements stop in front of an `END`, which is no line break to look past.
    intro st front front' rest rest' sts hsplit hanswer hsame
    have hlen : (front' ++ rest).length ≤ ls.length := by
      simp only [hsplit, List.length_append]
      omega
    have hend : AtEnd rest := afterStatement_atEnd
      (fun tail sts htail => upToEnd_atEnd hone c tail sts (by omega) (by omega))
      (run_of_answer hanswer)
    refine (same_pastBreaks hsame.head? fun l hl => ?_).append front'
    have hl' : l.token = .keyword .endKw :=
      hend l.token (by rw [front?, Option.mem_def.mp hl, Option.map_some]; rfl)
    rw [hl']
    simp only [ne_eq, reduceCtorEq, not_false_eq_true]
  · -- What is refused after a statement is not one of the line breaks that come next, since
    -- with them alone nothing would be refused.
    intro st front l rest' hm hfail rest
    have hbreaks : ¬Breaks (front ++ [l]) := by
      intro h
      rcases answer_afterStatement_breaks st c' h with ⟨x, hx⟩
      rw [List.length_append, List.length_cons] at hm
      rcases hfail [] (by rw [List.length_append, List.length_singleton]; omega) with ⟨e, he⟩
      rw [he] at hx
      cases hx
    have hsame := same_pastBreaks_append hbreaks rest rest'
    rwa [← List.append_cons, ← List.append_cons] at hsame

theorem lines_mem_listed {nls w : List Lexeme} (hnls : Breaks nls)
    (hw : w ∈ written Statement.Written * (token .lineBreak * written Listed)) :
    nls ++ w ∈ written Listed := by
  simp only [Language.mem_mul] at hw
  rcases hw with ⟨sls, ⟨st, hsls⟩, _, ⟨_, ⟨pos, rfl⟩, _, ⟨sts, hsts⟩, rfl⟩, rfl⟩
  cases hsts with
  | @mk _ nls' ls' hnls' hlines =>
      -- The end of the line and the line breaks skipped after it are one run.
      have hbreaks : Breaks (⟨.lineBreak, pos⟩ :: nls') := List.forall_mem_cons.mpr ⟨rfl, hnls'⟩
      refine ⟨st :: sts, ?_⟩
      have hlist := Listed.mk hnls (.cons hsls hbreaks nofun hlines)
      simpa only [List.append_assoc, List.cons_append, List.nil_append] using hlist

/-- Statements up to an `END`, over a parser of single ones. The induction is on the bound. -/
theorem settled_upToEnd (hone : Prompt (written Statement.Written) .pastBreaks n one m one') :
    ∀ (c c' m' : Nat) (ls : List Lexeme), ls.length ≤ c → ls.length ≤ n → m' ≤ c' → m' ≤ m →
      Settled (written Listed) .next m' (upToEnd one' c') ls ((upToEnd one c).answer ls) := by
  intro c
  induction c with
  | zero =>
      intro c' m' ls hc _ _ _
      rw [List.eq_nil_of_length_eq_zero (Nat.le_zero.mp hc)]
      exact settled_end (answer_upToEnd_nil 0) (answer_upToEnd_nil c') viable_listed
  | succ c ih =>
      intro c' m' ls hc hn hc' hm'
      rcases exists_breaks ls with ⟨nls, hnls, hls⟩
      by_cases hend : AtEnd (afterBreaks ls)
      · -- Nothing is read but the line breaks in front.
        have hstop : ∀ (p : Parser Statement) (k : Nat) (rest : List Lexeme), AtEnd rest →
            (upToEnd p (k + 1)).answer (nls ++ rest) = .ok ([], rest) :=
          fun p k rest h => answer_of_run (run_upToEnd_stop hnls h k)
        have hhere := hstop one c _ hend
        rw [← hls] at hhere
        rw [hhere]
        refine .took nls (afterBreaks ls) [] hls (.inl ⟨[], listed_nil hnls⟩)
          fun rest' hm hsame => ?_
        cases c' with
        | zero =>
            have hnil : nls ++ rest' = [] := List.eq_nil_of_length_eq_zero (by omega)
            rw [hnil, (List.append_eq_nil_iff.mp hnil).2]
            rfl
        | succ c' =>
            refine hstop one' c' rest' ?_
            rw [AtEnd, front?, ← hsame.head?]
            exact hend
      · rcases exists_statement hend with ⟨l, tail, htail, hbreak, hl⟩
        rw [htail] at hls
        subst hls
        rw [List.length_append] at hc hn
        have hn' : (l :: tail).length ≤ n := by omega
        have hrest := settled_statement (hone.within (Nat.le_refl n) hm') hn' (by omega)
          fun tail' htail' => ih (c' - 1) (m' - 1) tail' (by omega) (by omega) (by omega) (by omega)
        refine hrest.append nls (answer_congr (run_upToEnd_one hnls hbreak hl tail c))
          (fun us hus hhead => ?_) (by omega) fun w => lines_mem_listed hnls
        rcases us with _ | ⟨l', us⟩
        · cases hhead
        cases hhead
        rw [List.length_append, List.length_cons] at hus
        obtain ⟨c'', rfl⟩ : ∃ c'', c' = c'' + 1 := ⟨c' - 1, by omega⟩
        exact answer_congr (run_upToEnd_one hnls hbreak hl us c'')

/-- Statements up to an `END`. The two bounds go down together with every frame. -/
theorem prompt_statementsWithin : ∀ n m : Nat,
    Prompt (written Listed) .next n (statementsWithin n) m (statementsWithin m) := by
  intro n
  induction n with
  | zero =>
      intro m ls hls
      rw [List.eq_nil_of_length_eq_zero (Nat.le_zero.mp hls)]
      refine settled_end rfl ?_ viable_listed
      cases m <;> rfl
  | succ n ih =>
      intro m ls hls
      cases m with
      | zero =>
          -- On no lexemes, the bounds zero and one make no difference.
          refine (settled_upToEnd (prompt_single (ih 0)) _ 1 1 ls hls hls (Nat.le_refl 1)
            (Nat.le_refl 1)).congr (Nat.zero_le 1) fun ls' hls' => ?_
          rw [List.eq_nil_of_length_eq_zero (Nat.le_zero.mp hls')]
          rfl
      | succ m =>
          exact settled_upToEnd (prompt_single (ih m)) _ _ _ ls hls hls (Nat.le_refl _)
            (Nat.le_refl _)

/-- The bound is the number of lexemes, and any larger one would give the same answer. -/
theorem prompt_statements : Prompt (written Listed) .next n statements m statements := by
  intro ls _
  have hsame : ∀ us : List Lexeme, us.length ≤ m →
      statements.answer us = (statementsWithin m).answer us := by
    intro us hus
    exact ((prompt_statementsWithin us.length m us (Nat.le_refl _)).answer_eq hus).symm
  exact (prompt_statementsWithin ls.length m ls (Nat.le_refl _)).congr (Nat.le_refl m) hsame

end Statements

theorem prompt_program : Prompt (written Program.Written) .next n program m program := by
  refine (prompt_skipBreaks.bind fun _ => prompt_expect.bind fun pos => prompt_expect.bind fun _ =>
    prompt_statements.bind fun sts => prompt_expect.bind fun _ => prompt_expect.bind fun _ =>
    prompt_skipBreaks.bind fun _ => prompt_textEnd.map fun _ => (⟨pos, sts⟩ : Program)).mono
    fun w hw => ?_
  simp only [Language.mem_mul, mul_one] at hw
  rcases hw with ⟨nls, hnls, _, ⟨_, ⟨pos, rfl⟩, _, ⟨_, ⟨word, rfl⟩, _, ⟨ls, ⟨sts, hsts⟩, _,
    ⟨_, ⟨closing, rfl⟩, _, ⟨_, ⟨word', rfl⟩, nls', hnls', rfl⟩, rfl⟩, rfl⟩, rfl⟩, rfl⟩, rfl⟩
  exact ⟨⟨pos, sts⟩, .mk pos word closing word' hnls hsts hnls'⟩

/-- One of finitely many numbers serves for all bounds, if each bound has one and a number
    for a bound also serves for all smaller bounds. -/
theorem exists_forall_of_bounded {N : Nat} {P : Nat → Nat → Prop}
    (hP : ∀ i m m', m' ≤ m → P i m → P i m') (h : ∀ m, ∃ i < N, P i m) : ∃ i < N, ∀ m, P i m := by
  by_contra hno
  push Not at hno
  choose! f hf using hno
  rcases h ((Finset.range N).sup f) with ⟨i, hi, hPi⟩
  exact hf i hi (hP i _ _ (Finset.le_sup (Finset.mem_range.mpr hi)) hPi)

section Places

variable {α : Type} {L : Language Lexeme} {q : Parser α} {ls : List Lexeme} {l : Lexeme}
  {expected : Expectation}

/-- Where an answer that is a refusal was found. -/
theorem Settled.exists_place
    (h : Settled L look m q ls (.error (.unexpected l.token expected l.pos))) :
    ∃ front rest, ls = front ++ l :: rest ∧ Viable L front ∧ ∀ rest',
      (front ++ l :: rest').length ≤ m →
        q.answer (front ++ l :: rest') = .error (.unexpected l.token expected l.pos) := by
  generalize hr : (.error (.unexpected l.token expected l.pos) :
    Except SourceError (α × List Lexeme)) = r at h
  cases h with
  | took front rest x hls hmem hq => cases hr
  | ended expected' hviable hq => cases hr
  | refused front l' rest expected' hls hviable hq =>
      rcases l with ⟨token, pos⟩
      rcases l' with ⟨token', pos'⟩
      cases hr
      exact ⟨front, rest, hls, hviable, hq⟩

/-- If an answer is settled with respect to lists of every length, what is refused is
    refused at one place for all of them. -/
theorem exists_refused
    (h : ∀ m, Settled L look m q ls (.error (.unexpected l.token expected l.pos))) :
    ∃ i, ls[i]? = some l ∧ Viable L (ls.take i) ∧ ∀ rest,
      q.answer (ls.take i ++ l :: rest) = .error (.unexpected l.token expected l.pos) := by
  have hplace : ∀ m, ∃ i < ls.length, ls[i]? = some l ∧ Viable L (ls.take i) ∧
      ∀ rest, (ls.take i ++ l :: rest).length ≤ m →
        q.answer (ls.take i ++ l :: rest) = .error (.unexpected l.token expected l.pos) := by
    intro m
    rcases (h m).exists_place with ⟨front, rest, rfl, hviable, hq⟩
    refine ⟨front.length, ?_, ?_, ?_⟩
    · rw [List.length_append, List.length_cons]
      omega
    · rw [List.getElem?_append_right (Nat.le_refl _), Nat.sub_self]
      rfl
    · rw [List.take_left]
      exact ⟨hviable, hq⟩
  rcases exists_forall_of_bounded (fun i m m' hm' hi =>
    ⟨hi.1, hi.2.1, fun rest hrest => hi.2.2 rest (Nat.le_trans hrest hm')⟩) hplace with ⟨i, -, hi⟩
  exact ⟨i, (hi 0).1, (hi 0).2.1, fun rest => (hi _).2.2 rest (Nat.le_refl _)⟩

end Places

end Parser

namespace Program

open Primer.Parser

variable {ls front : List Lexeme} {e : SourceError}

theorem ofLexemes_eq_error : ofLexemes ls = .error e ↔ program.answer ls = .error e := by
  unfold ofLexemes answer
  cases program.run ls with
  | ok p rest =>
      constructor
      · intro h
        cases h
      · intro h
        cases h
  | error e' rest =>
      constructor
      · intro h
        cases h
        rfl
      · intro h
        cases h
        rfl

theorem exists_program_of_viable (h : Viable (written Written) front) :
    ∃ more p, ofLexemes (front ++ more) = .ok p := by
  rcases h with ⟨more, p, hp⟩
  refine ⟨more, p, ?_⟩
  rw [ofLexemes, run_program_ok.mpr ⟨hp, rfl⟩]

/-- What can be continued to a program ends in front of a lexeme that cannot be mended. -/
theorem le_of_refused {ts : List Lexeme} {i j : Nat} (hi : i < ts.length)
    (hlast : ∀ us : List Lexeme, us.take (i + 1) = ts.take (i + 1) → ofLexemes us = .error e)
    (hj : ∃ more p, ofLexemes (ts.take j ++ more) = .ok p) : j ≤ i := by
  by_contra hlt
  rcases hj with ⟨more, p, hp⟩
  have hsame : (ts.take j ++ more).take (i + 1) = ts.take (i + 1) := by
    rw [List.take_append_of_le_length (by rw [List.length_take]; omega), List.take_take,
      Nat.min_eq_left (by omega)]
  rw [hlast _ hsame] at hp
  cases hp

/-- An error is found at the earliest lexeme. If a lexeme is refused, every list that
    agrees up to and including that lexeme is refused with the same error, while what stands
    in front of it can be continued to a program, and there is only one such place. If the
    lexemes come to an end, they can be continued to a program. Nothing else goes wrong. -/
theorem ofLexemes_error_earliest (ts : List Lexeme) :
    (∀ found expected pos, ofLexemes ts = .error (.unexpected found expected pos) →
      ∃! i, ts[i]? = some ⟨found, pos⟩ ∧
        (∀ us : List Lexeme, us.take (i + 1) = ts.take (i + 1) →
          ofLexemes us = .error (.unexpected found expected pos)) ∧
        ∃ more p, ofLexemes (ts.take i ++ more) = .ok p) ∧
      (∀ expected, ofLexemes ts = .error (.endOfInput expected) →
        ∃ more p, ofLexemes (ts ++ more) = .ok p) ∧
      ∀ e, ofLexemes ts = .error e →
        (∃ found expected pos, e = .unexpected found expected pos) ∨
          ∃ expected, e = .endOfInput expected := by
  have hsettled : ∀ m, Settled (written Written) .next m program ts (program.answer ts) :=
    fun m => prompt_program ts (Nat.le_refl _)
  refine ⟨fun found expected pos h => ?_, fun expected h => ?_, fun e h => ?_⟩
  · rw [ofLexemes_eq_error] at h
    rw [h] at hsettled
    rcases exists_refused (l := ⟨found, pos⟩) hsettled with ⟨i, hi, hviable, hq⟩
    have hlast : ∀ us : List Lexeme, us.take (i + 1) = ts.take (i + 1) →
        ofLexemes us = .error (.unexpected found expected pos) := by
      intro us hus
      rw [ofLexemes_eq_error, ← List.take_append_drop (i + 1) us, hus, List.take_add_one, hi,
        Option.toList_some, List.append_assoc]
      exact hq _
    have hfront := exists_program_of_viable hviable
    refine ⟨i, ⟨hi, hlast, hfront⟩, ?_⟩
    -- Of two such places neither is in front of the other.
    rintro j ⟨hj, hlast', hfront'⟩
    have hi' : i < ts.length := (List.getElem?_eq_some_iff.mp hi).1
    have hj' : j < ts.length := (List.getElem?_eq_some_iff.mp hj).1
    exact Nat.le_antisymm (le_of_refused hi' hlast hfront') (le_of_refused hj' hlast' hfront)
  · rw [ofLexemes_eq_error] at h
    have hend := hsettled 0
    rw [h] at hend
    cases hend with
    | ended expected hviable hq => exact exists_program_of_viable hviable
  · rw [ofLexemes_eq_error] at h
    have hany := hsettled 0
    rw [h] at hany
    cases hany with
    | refused front l rest expected hls hviable hq => exact .inl ⟨_, _, _, rfl⟩
    | ended expected hviable hq => exact .inr ⟨_, rfl⟩

/-- A second target, an empty line in front of an `ELSE`, and a parenthesis that begins no
    expression. Without the parenthesis the text ends too early. -/
theorem ofLexemes_error_earliest_in_else :
    let word (k : Keyword) (line column : Nat) : Lexeme := ⟨.keyword k, ⟨line, column⟩⟩
    let name (s : String) (line column : Nat) : Lexeme := ⟨.identifier s, ⟨line, column⟩⟩
    let sign (s : Symbol) (line column : Nat) : Lexeme := ⟨.symbol s, ⟨line, column⟩⟩
    let eol (line column : Nat) : Lexeme := ⟨.lineBreak, ⟨line, column⟩⟩
    let ts : List Lexeme := [
      word .beginKw 1 0, word .codeKw 1 6, eol 1 10,
      word .ifKw 2 0, sign .leftParen 2 3, name "p" 2 4, sign .rightParen 2 5, eol 2 6,
      word .beginKw 3 0, word .ifKw 3 6, eol 3 8, word .endKw 4 0, word .ifKw 4 4, eol 4 6,
      eol 5 0, word .elseKw 6 0, eol 6 4, word .beginKw 7 0, word .ifKw 7 6, eol 7 8,
      name "a" 8 0, sign .assign 8 2, name "b" 8 4, sign .assign 8 6, sign .minus 8 8,
      sign .rightParen 8 9, eol 8 10]
    let e : SourceError := .unexpected (.symbol .rightParen) .expression ⟨8, 9⟩
    ofLexemes ts = .error e ∧
      (∀ us : List Lexeme, us.take 26 = ts.take 26 → ofLexemes us = .error e) ∧
      (∃ more p, ofLexemes (ts.take 25 ++ more) = .ok p) ∧
      ofLexemes (ts.take 25) = .error (.endOfInput .expression) := by
  intro word name sign eol ts e
  have herror : ofLexemes ts = .error e := by rfl
  have hend : ofLexemes (ts.take 25) = .error (.endOfInput .expression) := by rfl
  rcases (ofLexemes_error_earliest ts).1 _ _ _ herror with ⟨i, ⟨hi, hlast, -⟩, -⟩
  have hplace : ∀ i < ts.length, ts[i]? = some ⟨.symbol .rightParen, ⟨8, 9⟩⟩ → i = 25 := by
    decide +kernel
  rw [hplace i (List.getElem?_eq_some_iff.mp hi).1 hi] at hlast
  exact ⟨herror, hlast, (ofLexemes_error_earliest (ts.take 25)).2.1 _ hend, hend⟩

end Program

end Primer
