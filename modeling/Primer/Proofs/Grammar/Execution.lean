import Primer.Proofs.Grammar.Program
import Primer.Proofs.Step

/-!
# Running What Is Written

A program that was read from a text does what its text says, and the words of the text are
all that there is to it. So a fact about its steps and its guards that follows from how they
are written is a fact about the program.

`Textual` lists what such a fact has to be shown of: the steps, the guards and the caps of
loops, each with the lexemes that it is written with. All of them are part of one list, the
lexemes of the whole text. The induction over the grammar is made here once.

## Main definitions

* `Step.WrittenIn`: A step that is written with some of the lexemes of a text.
* `Action.Textual`: A property that all parts of a text have, and that survives putting them
  together.

## Theorems

* `Statement.Written.exec_textual`: What the parts of a statement have the statement has.
* `Program.Written.exec_textual`: The same for a program.
-/

namespace Primer

/-- The name occurs among the lexemes. -/
def Named (ls : List Lexeme) (name : String) : Prop :=
  ∃ pos, ⟨.identifier name, pos⟩ ∈ ls

/-- A step is written with some of the lexemes. An assignment has the position of the first of
    its targets, and reading a line that of its keyword. -/
inductive Step.WrittenIn (ls : List Lexeme) : Step → Prop where
  | declare (type : DataType) {d : Declarator} {dls : List Lexeme} (h : d.Written dls)
      (hsub : dls ⊆ ls) : WrittenIn ls (.declare type d)
  | assign {pos : Position} {target : String} {names : List String} {e : Expr}
      {els : List Lexeme} (htarget : ⟨.identifier target, pos⟩ ∈ ls)
      (hnames : ∀ name ∈ names, Named ls name) (h : e.Spelled els) (hsub : els ⊆ ls) :
      WrittenIn ls (.assign pos names e)
  | display {e : Expr} {els : List Lexeme} (h : e.Spelled els) (hsub : els ⊆ ls) :
      WrittenIn ls (.display e)
  | scan {pos : Position} {names : List String} (hword : ⟨.keyword .scanKw, pos⟩ ∈ ls)
      (hnames : ∀ name ∈ names, Named ls name) : WrittenIn ls (.scan pos names)

namespace Action

open Session

/-- A property that actions put together have if their parts have it, and that all parts of a
    text have. A guard is reported at the word that its statement or branch begins with, and a
    loop that goes on for too long at its own. -/
structure Textual (ls : List Lexeme) (P : (α : Type) → Action α → Prop) : Prop
    extends Sequential P where
  step : ∀ {step : Step}, step.WrittenIn ls → P Unit step.exec
  guard : ∀ {word : Keyword} {pos : Position} {e : Expr} {els : List Lexeme},
    word = .ifKw ∨ word = .whileKw ∨ word = .doKw → ⟨.keyword word, pos⟩ ∈ ls →
    e.Spelled els → els ⊆ ls → P Bool (reading fun store => e.guard store pos)
  endless : ∀ {word : Keyword} {pos : Position}, word = .whileKw ∨ word = .doKw →
    ⟨.keyword word, pos⟩ ∈ ls → P Unit (throw (.program pos .endlessLoop))

variable {ls : List Lexeme} {P : (α : Type) → Action α → Prop}

/-- The parentheses around a condition are no part of it. -/
theorem Textual.enclosed (hP : Textual ls P) {word : Keyword} {pos : Position} {e : Expr}
    {els : List Lexeme} (hword : word = .ifKw ∨ word = .whileKw ∨ word = .doKw)
    (hmem : ⟨.keyword word, pos⟩ ∈ ls) (h : e.Enclosed els) (hsub : els ⊆ ls) :
    P Bool (reading fun store => e.guard store pos) := by
  rcases h with ⟨opening, close, h⟩
  simp only [List.cons_subset, List.append_subset] at hsub
  exact hP.guard hword hmem h.2 hsub.2.1

end Action

namespace Statement

open Primer.Action

variable {ls : List Lexeme} {P : (α : Type) → Action α → Prop}

theorem Targets.named {names : List String} {tls : List Lexeme} (h : Targets names tls)
    (hsub : tls ⊆ ls) : ∀ name ∈ names, Named ls name := by
  induction h with
  | nil => exact List.forall_mem_nil _
  | cons pos sign _ ih =>
      simp only [List.cons_subset] at hsub
      exact List.forall_mem_cons.mpr ⟨⟨pos, hsub.1⟩, ih hsub.2.2⟩

theorem named_of_separated {names : List String} {nls : List Lexeme}
    (h : Separated NameWritten names nls) (hsub : nls ⊆ ls) : ∀ name ∈ names, Named ls name := by
  have hone : ∀ {name : String} {ls' : List Lexeme}, NameWritten name ls' → ls' ⊆ ls →
      Named ls name := by
    rintro name ls' ⟨pos, rfl⟩ hsub
    exact ⟨pos, hsub List.mem_cons_self⟩
  induction h with
  | one h => exact List.forall_mem_singleton.mpr (hone h hsub)
  | more comma h _ ih =>
      simp only [List.append_subset, List.cons_subset] at hsub
      exact List.forall_mem_cons.mpr ⟨hone h hsub.1, ih hsub.2.2⟩

theorem forM_execDeclarator_textual (hP : Textual ls P) {ds : List Declarator}
    {dls : List Lexeme} (h : Separated Declarator.Written ds dls) (hsub : dls ⊆ ls)
    (type : DataType) : P Unit (ds.forM (execDeclarator type)) := by
  induction h with
  | one h => exact hP.bind (hP.step (.declare type h hsub)) fun _ => hP.pure ()
  | more comma h _ ih =>
      simp only [List.append_subset, List.cons_subset] at hsub
      exact hP.bind (hP.step (.declare type h hsub.1)) fun _ => ih hsub.2.2

-- The induction is on how the statement is written. The lexemes of the whole text are
-- fixed, and those of the statement are among them.
mutual

theorem Written.exec_textual (hP : Textual ls P) (cap : Nat) {sls : List Lexeme} :
    ∀ {st : Statement}, st.Written sls → sls ⊆ ls → P Unit (exec cap st)
  | _, .declare pos type h, hsub => by
      rw [exec]
      exact forM_execDeclarator_textual hP h (List.cons_subset.mp hsub).2 type
  | _, .assign pos sign ht he, hsub => by
      simp only [List.cons_subset, List.append_subset] at hsub
      rw [exec]
      refine hP.step (.assign hsub.1 ?_ he.2 hsub.2.2.2)
      exact List.forall_mem_cons.mpr ⟨⟨pos, hsub.1⟩, ht.named hsub.2.2.1⟩
  | _, .display pos colon h, hsub => by
      simp only [List.cons_subset] at hsub
      rw [exec]
      exact hP.step (.display h.2 hsub.2.2)
  | _, .scan pos colon h, hsub => by
      simp only [List.cons_subset] at hsub
      rw [exec]
      exact hP.step (.scan hsub.1 (named_of_separated h hsub.2.2))
  | _, .choose hfirst hothers helse, hsub => by
      simp only [List.append_subset] at hsub
      rw [exec]
      refine hP.bind (hfirst.exec_textual hP cap hsub.1) (of_ite (hP.pure _) ?_)
      exact hP.bind (hothers.exec_textual hP cap hsub.2.1)
        (of_ite (hP.pure _) (helse.exec_textual hP cap hsub.2.2))
  | _, .loop pos hguard hbody, hsub => by
      simp only [List.cons_subset, List.append_subset] at hsub
      rw [exec]
      exact loopGuardFirst_of_parts hP.toSequential
        (hP.enclosed (.inr (.inl rfl)) hsub.1 hguard hsub.2.1)
        (hbody.exec_textual hP cap hsub.2.2) (hP.endless (.inl rfl) hsub.1) cap
  | _, .loopAfter pos word hbody hn hguard, hsub => by
      simp only [List.cons_subset, List.append_subset] at hsub
      rw [exec]
      exact loopBodyFirst_of_parts hP.toSequential
        (hP.enclosed (.inr (.inr rfl)) hsub.1 hguard hsub.2.2.2.2)
        (hbody.exec_textual hP cap hsub.2.1) (hP.endless (.inr rfl) hsub.1) _

theorem BranchWritten.exec_textual (hP : Textual ls P) (cap : Nat) {bls : List Lexeme} :
    ∀ {b : Branch}, BranchWritten b bls → bls ⊆ ls → P Bool (execBranch cap b)
  | _, .mk pos hguard hbody, hsub => by
      simp only [List.cons_subset, List.append_subset] at hsub
      rw [execBranch]
      refine hP.bind (hP.enclosed (.inl rfl) hsub.1 hguard hsub.2.1) (of_ite ?_ (hP.pure _))
      exact hP.bind (hbody.exec_textual hP cap hsub.2.2) fun _ => hP.pure _

theorem OthersWritten.exec_textual (hP : Textual ls P) (cap : Nat) {ols : List Lexeme} :
    ∀ {bs : List Branch}, OthersWritten bs ols → ols ⊆ ls → P Bool (execBranches cap bs)
  | _, .nil, _ => hP.pure _
  | _, .cons word hn hb hbs, hsub => by
      simp only [List.cons_subset, List.append_subset] at hsub
      rw [execBranches]
      exact hP.bind (hb.exec_textual hP cap hsub.2.2.1)
        (of_ite (hP.pure _) (hbs.exec_textual hP cap hsub.2.2.2))

theorem OtherwiseWritten.exec_textual (hP : Textual ls P) (cap : Nat) {els : List Lexeme} :
    ∀ {body : Option (List Statement)}, OtherwiseWritten body els → els ⊆ ls →
      P Unit (execOtherwise cap body)
  | _, .none, _ => hP.pure _
  | _, .some word hn hbody, hsub => by
      simp only [List.cons_subset, List.append_subset] at hsub
      exact hbody.exec_textual hP cap hsub.2.2

theorem Framed.exec_textual (hP : Textual ls P) (cap : Nat) {frame : Keyword}
    {fls : List Lexeme} :
    ∀ {body : List Statement}, Framed frame body fls → fls ⊆ ls → P Unit (execAll cap body)
  | _, .mk _ opening word line closing word' hn h, hsub => by
      simp only [List.cons_subset, List.append_subset] at hsub
      exact h.exec_textual hP cap hsub.2.2.2.2.1

theorem Listed.exec_textual (hP : Textual ls P) (cap : Nat) {sls : List Lexeme} :
    ∀ {sts : List Statement}, Listed sts sls → sls ⊆ ls → P Unit (execAll cap sts)
  | _, .mk _ h, hsub => h.exec_textual hP cap (List.append_subset.mp hsub).2

theorem Lines.exec_textual (hP : Textual ls P) (cap : Nat) {sls : List Lexeme} :
    ∀ {sts : List Statement}, Lines sts sls → sls ⊆ ls → P Unit (execAll cap sts)
  | _, .nil, _ => hP.pure _
  | _, .cons hst hn hne hsts, hsub => by
      simp only [List.append_subset] at hsub
      exact hP.bind (hst.exec_textual hP cap hsub.1) fun _ => hsts.exec_textual hP cap hsub.2.2

end

end Statement

namespace Program

open Primer.Action

/-- What the parts of a text have the program has, if flushing the output has it too. -/
theorem Written.exec_textual {p : Program} {ls : List Lexeme}
    {P : (α : Type) → Action α → Prop} (hP : Textual ls P) (h : p.Written ls)
    (hflush : P Unit Session.flush) (cap : Nat) : P Unit (p.exec cap) := by
  rcases h with ⟨pos, word, closing, word', hn, h, hn'⟩
  refine hP.bind (h.exec_textual hP cap fun l hl => ?_) fun _ => hflush
  simp only [List.mem_append, List.mem_cons]
  exact .inr (.inr (.inr (.inl hl)))

end Program

end Primer
