import Primer.Proofs.Loops

/-!
# A Chain of Branches Is a Nest of Choices

A choice with any number of branches does what choices with one branch each do, if every
branch after the first is moved into the last body of the choice before it. So a chain needs no
meaning of its own: that of a choice between two bodies is enough.

The two are not run in the same way. A chain tries its branches in one pass and stops at the
first one that was taken, which it has to remember: the last body comes only if there was none.
In a nest there is nothing to remember, since all that comes after a branch stands in
the other half of its choice. `execChain` is a chain in this second form, by recursion along its
branches, and `exec_choose_eq` says that it makes no difference.

What a chain does can then be read along its branches. Those in front whose guards do not hold are
passed over and leave no trace; the first one whose guard is otherwise settles the matter,
whatever comes behind it.

## Main definitions

* `Statement.nested`: The nest of a chain.
* `Statement.execChain`: A chain, by recursion along its branches.
* `Branch.Passed`: The guard of a branch does not hold.

## Theorems

* `Statement.execAll_append`, `Statement.execAll_singleton`: Statements in order.
* `Statement.exec_choose_eq`: A choice is a chain.
* `Statement.exec_nested`: A choice does what its nest does.
* `Statement.run_execChain_append`: Branches whose guards do not hold leave no trace.
* `Branch.passed_or`, `forall_or_exists_first`: All branches are passed over, or there is a first
  one that is not.
* `Statement.exec_choose_nested`: What a choice does.
-/

namespace Primer

open Session

/-- The branch is passed over: its guard is a condition that does not hold. -/
def Branch.Passed (store : Store) (b : Branch) : Prop :=
  b.guard.eval store = .ok (.bool false)

/-- A branch is passed over, or its guard holds, or its guard gives no answer. -/
theorem Branch.passed_or (store : Store) (b : Branch) :
    b.Passed store ∨
      (b.guard.eval store = .ok (.bool true) ∨ ∃ e, b.guard.Refuses b.pos store e) := by
  cases hguard : b.guard.guard store b.pos with
  | error e => exact .inr (.inr ⟨e, Expr.refuses_of_guard_eq_error hguard⟩)
  | ok holds =>
      rw [Expr.guard_eq_ok] at hguard
      cases holds with
      | true => exact .inr (.inl hguard)
      | false => exact .inl hguard

/-- Everything in a list is of one kind, or there is a first thing that is of another. -/
theorem forall_or_exists_first {α : Type} {P Q : α → Prop} (h : ∀ x, P x ∨ Q x) (xs : List α) :
    (∀ x ∈ xs, P x) ∨
      ∃ front x rest, xs = front ++ x :: rest ∧ (∀ y ∈ front, P y) ∧ Q x := by
  induction xs with
  | nil => exact .inl (List.forall_mem_nil P)
  | cons x xs ih =>
      rcases h x with hP | hQ
      · rcases ih with hall | ⟨front, y, rest, rfl, hfront, hy⟩
        · exact .inl (List.forall_mem_cons.mpr ⟨hP, hall⟩)
        · exact .inr ⟨x :: front, y, rest, rfl, List.forall_mem_cons.mpr ⟨hP, hfront⟩, hy⟩
      · exact .inr ⟨[], x, xs, rfl, List.forall_mem_nil P, hQ⟩

namespace Statement

section Order

theorem execAll_append (cap : Nat) (sts sts' : List Statement) :
    execAll cap (sts ++ sts') = execAll cap sts >>= fun _ => execAll cap sts' := by
  induction sts with
  | nil => rfl
  | cons st rest ih => rw [List.cons_append, execAll, execAll, ih, bind_assoc]

theorem execAll_singleton (cap : Nat) (st : Statement) : execAll cap [st] = exec cap st := by
  rw [execAll, execAll]
  exact bind_pure_unit

end Order

section Chains

variable {cap : Nat} {otherwise : List Statement} {front rest : List Branch} {b : Branch}
  {s : Session}

/-- Runs the first branch whose guard holds, or else the last body. -/
def execChain (cap : Nat) (otherwise : List Statement) : List Branch → Action Unit
  | [] => execAll cap otherwise
  | b :: rest => do
      if ← asking b.guard b.pos then execAll cap b.body else execChain cap otherwise rest

/-- A body that is not there is one without statements. -/
theorem execOtherwise_eq (cap : Nat) (otherwise : Option (List Statement)) :
    execOtherwise cap otherwise = execAll cap (otherwise.getD []) := by
  cases otherwise <;> rfl

/-- Whether a branch was taken need not be remembered if what comes after the branches is made a
    part of them. -/
theorem execBranches_bind (cap : Nat) (otherwise : Option (List Statement)) (bs : List Branch) :
    (execBranches cap bs >>= fun taken =>
      if taken = true then pure () else execOtherwise cap otherwise)
      = execChain cap (otherwise.getD []) bs := by
  induction bs with
  | nil =>
      rw [execBranches, pure_bind]
      exact execOtherwise_eq cap otherwise
  | cons b rest ih =>
      rcases b with ⟨pos, guard, body⟩
      rw [execBranches, execBranch, bind_assoc, bind_assoc, execChain, ← ih]
      -- Both ask the same guard. If it holds, the pass ends with a mark that is read at once.
      refine bind_congr fun holds => ?_
      cases holds with
      | true => simp only [if_true, bind_assoc, pure_bind, bind_pure_unit]
      | false => simp only [if_false, pure_bind, Bool.false_eq_true]

theorem exec_choose_eq (cap : Nat) (pos : Position) (first : Branch) (others : List Branch)
    (otherwise : Option (List Statement)) :
    exec cap (.choose pos first others otherwise)
      = execChain cap (otherwise.getD []) (first :: others) := by
  rw [← execBranches_bind, execBranches, bind_assoc, exec]
  refine bind_congr fun taken => ?_
  cases taken <;> rfl

/-- A choice with one branch is one between two bodies. -/
theorem exec_choose_nil (cap : Nat) (pos : Position) (b : Branch)
    (otherwise : Option (List Statement)) :
    exec cap (.choose pos b [] otherwise) = asking b.guard b.pos >>= fun holds =>
      if holds then execAll cap b.body else execAll cap (otherwise.getD []) :=
  exec_choose_eq cap pos b [] otherwise

/-- The nest of a chain: each branch after the first one, with all that follows it, is the last
    body of the choice before it. -/
def nested (pos : Position) (first : Branch) :
    List Branch → Option (List Statement) → Statement
  | [], otherwise => .choose pos first [] otherwise
  | b :: rest, otherwise => .choose pos first [] (some [nested b.pos b rest otherwise])

/-- The branches after the first one may be moved into the last body. The position of the choice
    that they make up there does not matter. -/
theorem exec_choose_cons (cap : Nat) (pos pos' : Position) (first b : Branch) (rest : List Branch)
    (otherwise : Option (List Statement)) :
    exec cap (.choose pos first (b :: rest) otherwise)
      = exec cap (.choose pos first [] (some [.choose pos' b rest otherwise])) := by
  rw [exec_choose_nil, Option.getD_some, execAll_singleton, exec_choose_eq, exec_choose_eq]
  rfl

/-- A choice does what its nest does. -/
theorem exec_nested (cap : Nat) (pos : Position) (first : Branch) (others : List Branch)
    (otherwise : Option (List Statement)) :
    exec cap (nested pos first others otherwise)
      = exec cap (.choose pos first others otherwise) := by
  induction others generalizing pos first with
  | nil => rfl
  | cons b rest ih =>
      -- Both are now a choice between two bodies, and the second bodies are equal.
      rw [nested, exec_choose_cons cap pos b.pos, exec_choose_nil, exec_choose_nil,
        Option.getD_some, Option.getD_some, execAll_singleton, execAll_singleton, ih]

/-- Branches whose guards do not hold leave no trace. -/
theorem run_execChain_append (hfront : ∀ a ∈ front, a.Passed s.store) (rest : List Branch) :
    (execChain cap otherwise (front ++ rest)).run s = (execChain cap otherwise rest).run s := by
  induction front with
  | nil => rfl
  | cons a front ih =>
      rcases List.forall_mem_cons.mp hfront with ⟨ha, hfront⟩
      rw [List.cons_append, execChain, run_asking_answered (Expr.guard_eq_ok.mpr ha)]
      exact ih hfront

/-- A branch whose guard holds is run, and nothing behind it matters. -/
theorem run_execChain_taken (hb : b.guard.eval s.store = .ok (.bool true)) :
    (execChain cap otherwise (b :: rest)).run s = (execAll cap b.body).run s := by
  rw [execChain, run_asking_answered (Expr.guard_eq_ok.mpr hb)]
  rfl

/-- A guard that gives no answer ends the chain before anything is run. -/
theorem run_execChain_refused {e : Fault} (hb : b.guard.Refuses b.pos s.store e) :
    (execChain cap otherwise (b :: rest)).run s = .error e s := by
  rw [execChain, run_asking_refused hb.guard_eq]

end Chains

/-- A choice with any number of branches does the same as its nest, and the same as if only the
    first step of nesting is made. If all guards in front of a branch fail to hold, then
    that branch settles the matter: its body alone is run if its guard holds, and nothing is run
    if its guard gives no answer, which is then the fault; what stands behind it makes no
    difference. If no guard holds, the last body is run, if there is one. There is no other
    case. -/
theorem exec_choose_nested (cap : Nat) (pos : Position) (first : Branch) (others : List Branch)
    (otherwise : Option (List Statement)) (s : Session) :
    let result := (exec cap (.choose pos first others otherwise)).run s
    result = (exec cap (nested pos first others otherwise)).run s ∧
      (∀ pos' b rest, others = b :: rest →
        result = (exec cap (.choose pos first [] (some [.choose pos' b rest otherwise]))).run s) ∧
      (∀ front b rest, first :: others = front ++ b :: rest →
        (∀ a ∈ front, a.Passed s.store) →
        (b.guard.eval s.store = .ok (.bool true) → result = (execAll cap b.body).run s) ∧
          ∀ e, b.guard.Refuses b.pos s.store e → result = .error e s) ∧
      ((∀ a ∈ first :: others, a.Passed s.store) →
        result = (execAll cap (otherwise.getD [])).run s) ∧
      ((∀ a ∈ first :: others, a.Passed s.store) ∨
        ∃ front b rest, first :: others = front ++ b :: rest ∧ (∀ a ∈ front, a.Passed s.store) ∧
          (b.guard.eval s.store = .ok (.bool true) ∨
            ∃ e, b.guard.Refuses b.pos s.store e)) := by
  intro result
  have hchain : result = (execChain cap (otherwise.getD []) (first :: others)).run s := by
    unfold result
    rw [exec_choose_eq]
  refine ⟨?_, ?_, ?_, ?_, forall_or_exists_first (Branch.passed_or s.store) (first :: others)⟩
  · rw [exec_nested]
  · rintro pos' b rest rfl
    rw [← exec_choose_cons]
  · intro front b rest hbranches hfront
    rw [hchain, hbranches, run_execChain_append hfront]
    exact ⟨run_execChain_taken, fun _ => run_execChain_refused⟩
  · intro hall
    -- With all branches in front there is nothing left but the last body.
    rw [hchain, ← List.append_nil (first :: others), run_execChain_append hall]
    rfl

/-- Of four branches the second one is taken, since its guard holds. The third guard has no value
    and the fourth one is no condition. -/
example :
    let pos : Position := ⟨2, 0⟩
    let branch (guard : Expr) (n : Int32) : Branch :=
      ⟨pos, guard, [.assign pos ["x"] (.literal pos (.int n))]⟩
    let choice : Statement := .choose pos (branch (.literal pos (.bool false)) 1)
      [branch (.literal pos (.bool true)) 2, branch (.var pos "y") 3,
        branch (.literal pos (.int 0)) 4] none
    let s : Session := { store := ⟨[("x", ⟨.int, .empty⟩)]⟩ }
    (exec 1 choice).fault? s = none ∧
      ((exec 1 choice).after s).store = ⟨[("x", ⟨.int, .int 2⟩)]⟩ := by
  decide +kernel

end Statement

end Primer
