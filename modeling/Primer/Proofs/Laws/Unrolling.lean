import Primer.Proofs.Cap
import Primer.Proofs.Laws.Choice

/-!
# Unrolling a Loop

The first round of a loop can be written out in front of it. A loop that asks first is a choice:
if its guard holds, then its body is run and after it the same loop again. A loop that asks
afterwards is its body with a loop after it that asks first.

This is not quite true, because of the cap. The loop that is left after the first round counts
from the beginning again, so it has one round more than the loop it came from. If the first loop
is stopped at its cap, the other one goes on. In all other cases the additional
round is never reached, and the two runs are the same.

So it is a matter of comparing a loop with a loop that has more rounds, which is `Prolongs`. For
loops that ask first the comparison has been made already. A loop that asks afterwards has to be
compared with one that asks first, and the two number their rounds differently: with `n` further
rounds after the one at hand, the first is stopped in place of asking for the last time, and
the second asks once more. It is enough if the second has as many rounds left after the body as the
first has further ones.

## Theorems

* `Action.Prolongs.run_eq`: A run that is not stopped at a cap is the same when prolonged.
* `Statement.loopBodyFirst_prolongs_guardFirst`: A loop that asks afterwards, against one that asks
  first.
* `Statement.loop_prolongs`, `Statement.loopAfter_prolongs`: The two loops, unrolled.
* `Statement.exec_unrolled`: A loop and the unrolled one do the same.
-/

namespace Primer

open Session

theorem Action.Prolongs.run_eq {α : Type} {a b : Action α} {s : Session} (h : Prolongs a b)
    (hfree : ∀ pos, a.fault? s ≠ some (.program pos .endlessLoop)) : a.run s = b.run s := by
  rcases h s with hsame | ⟨pos, hstop, -⟩
  · exact hsame.symm
  · exact absurd hstop (hfree pos)

namespace Statement

open Primer.Action

section Loops

variable {pos : Position} {guard : Action Bool} {body : Action Unit}

/-- A loop that asks afterwards, with `n` further rounds, is prolonged by its body with a loop after
    it that asks first and has at least as many rounds. -/
theorem loopBodyFirst_prolongs_guardFirst (hguard : Grows guard) (hbody : Grows body) :
    ∀ {n m : Nat}, n ≤ m → Prolongs (loopBodyFirst pos guard body n)
      (body >>= fun _ => loopGuardFirst pos guard body m) := by
  intro n
  induction n with
  | zero =>
      intro m _
      -- The first loop is stopped after its body, where the second one asks its guard.
      exact (Prolongs.refl body).bind (fun _ => .throw (loopGuardFirst_grows hguard hbody m))
        fun _ => loopGuardFirst_grows hguard hbody m
  | succ n ih =>
      intro m hnm
      rcases m with _ | m
      · omega
      -- Both run the body and ask, and a round of the second loop is the body of the first.
      refine (Prolongs.refl body).bind (fun _ => ?_) fun _ => loopGuardFirst_grows hguard hbody _
      have hnext : Grows (body >>= fun _ => loopGuardFirst pos guard body m) :=
        hbody.bind fun _ => loopGuardFirst_grows hguard hbody m
      exact (Prolongs.refl guard).bind ((ih (by omega)).ite (.refl _)) (hnext.ite (grows_pure _))

end Loops

section Statements

variable (cap : Nat) (pos : Position) (guard : Expr) (body : List Statement)

/-- Statements with a loop after them. -/
theorem execAll_append_loop :
    execAll cap (body ++ [.loop pos guard body]) = execAll cap body >>= fun _ =>
      loopGuardFirst pos (asking guard pos) (execAll cap body) cap := by
  rw [execAll_append, execAll_singleton, exec]

/-- The unrolled loop is the loop with one round more. -/
theorem exec_choose_loop :
    exec cap (.choose pos ⟨pos, guard, body ++ [.loop pos guard body]⟩ [] none)
      = loopGuardFirst pos (asking guard pos) (execAll cap body) (cap + 1) := by
  rw [exec_choose_nil, execAll_append_loop]
  rfl

theorem loop_prolongs : Prolongs (exec cap (.loop pos guard body))
    (exec cap (.choose pos ⟨pos, guard, body ++ [.loop pos guard body]⟩ [] none)) := by
  rw [exec_choose_loop, exec]
  exact loopGuardFirst_prolongs (reading_grows _) (.refl _) (execAll_grows cap body)
    (Nat.le_succ cap)

theorem loopAfter_prolongs : Prolongs (exec cap (.loopAfter pos body guard))
    (execAll cap (body ++ [.loop pos guard body])) := by
  rw [execAll_append_loop, exec]
  exact loopBodyFirst_prolongs_guardFirst (reading_grows _) (execAll_grows cap body)
    (Nat.sub_le cap 1)

/-- A loop that asks first and is not stopped at a cap does the same as the choice whose body is
    that of the loop with the loop itself after it. A loop that asks afterwards and is not stopped
    at a cap does the same as its body with a loop after it that asks first. In both cases the
    result is the same and so is the session that is left. -/
theorem exec_unrolled (s : Session) :
    let repeated : Statement := .loop pos guard body
    let repeatedAfter : Statement := .loopAfter pos body guard
    ((∀ p, (exec cap repeated).fault? s ≠ some (.program p .endlessLoop)) →
      (exec cap repeated).run s =
        (exec cap (.choose pos ⟨pos, guard, body ++ [repeated]⟩ [] none)).run s) ∧
      ((∀ p, (exec cap repeatedAfter).fault? s ≠ some (.program p .endlessLoop)) →
        (exec cap repeatedAfter).run s = (execAll cap (body ++ [repeated])).run s) :=
  ⟨(loop_prolongs cap pos guard body).run_eq, (loopAfter_prolongs cap pos guard body).run_eq⟩

end Statements

/-- A loop inside a loop, both under a cap of three. The outer loop is run once with its guard in
    front, for as many rounds as the cap allows, and once with its guard behind, for as many as
    it can have then. -/
theorem exec_unrolled_nested :
    let pos : Position := ⟨2, 0⟩
    let raise (name : String) : Statement :=
      .assign pos [name] (.arith pos .add (.var pos name) (.literal pos (.int 1)))
    let body : List Statement := [raise "x",
      .loop pos (.compare pos .lt (.var pos "y") (.var pos "x")) [raise "y"],
      .display pos (.var pos "y")]
    let below (n : Int32) : Expr := .compare pos .lt (.var pos "x") (.literal pos (.int n))
    let s : Session := { store := ⟨[("y", ⟨.int, .int 0⟩), ("x", ⟨.int, .int 0⟩)]⟩ }
    let repeated : Statement := .loop pos (below 3) body
    let repeatedAfter : Statement := .loopAfter pos body (below 2)
    (exec 3 repeated).fault? s = none ∧
      ((exec 3 repeated).after s).sink.written = "123".toUTF8 ∧
      (exec 3 repeated).run s =
        (exec 3 (.choose pos ⟨pos, below 3, body ++ [repeated]⟩ [] none)).run s ∧
      (exec 3 repeatedAfter).fault? s = none ∧
      ((exec 3 repeatedAfter).after s).sink.written = "12".toUTF8 ∧
      (exec 3 repeatedAfter).run s = (execAll 3 (body ++ [.loop pos (below 2) body])).run s := by
  intro pos raise body below s repeated repeatedAfter
  have hfault : (exec 3 repeated).fault? s = none := by decide +kernel
  have hfaultAfter : (exec 3 repeatedAfter).fault? s = none := by decide +kernel
  have hsame := (exec_unrolled 3 pos (below 3) body s).1 fun p h => by
    rw [hfault] at h
    cases h
  have hsameAfter := (exec_unrolled 3 pos (below 2) body s).2 fun p h => by
    rw [hfaultAfter] at h
    cases h
  exact ⟨hfault, by decide +kernel, hsame, hfaultAfter, by decide +kernel, hsameAfter⟩

end Statement

end Primer
