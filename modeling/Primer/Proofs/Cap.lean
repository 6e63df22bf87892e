import Primer.Proofs.Execution

/-!
# Raising the Cap

What a run does under a larger cap on the rounds of its loops. A run that does not meet
its cap does not depend on it: under a larger one it is the same run. And a run that meets
it is the beginning of the run under a larger one, which goes on from where the other was
stopped, so it has written what the other wrote and read what the other read.

`Prolongs` relates two actions in this way, and it is respected by every way of putting
actions together. There is one difficulty: where the first of two actions is stopped at
the cap, the second one runs only under the larger cap, and nothing is known of it except
that it takes nothing back. That is the other ingredient: no action erases output or
returns input. It is a property that lasts, so it holds of all statements at once.

The two loops test the cap at different points. A loop that asks first may ask once more
after its last round; a loop that asks afterwards is stopped before it asks. In both cases
the induction is on the rounds that the smaller cap allows.

## Main definitions

* `Session.Continues`: A later session has written and read at least as much.
* `Action.Prolongs`: An action does the same as another one, or goes on where the other
  met its cap.
* `Action.Grows`: An action takes nothing back.

## Theorems

* `lasting_continues`: No change of a session takes anything back.
* `Action.Prolongs.bind`: Two actions in order.
* `loopGuardFirst_prolongs`, `loopBodyFirst_prolongs`: The two loops.
* `exec_prolongs`, `execAll_prolongs`: Statements.
* `Program.exec_of_le_cap`: Programs.
-/

namespace Primer

namespace Session

/-- The second session is a later one: it has written all that the first has, and what it
    has not read the first has not read either. -/
structure Continues (s t : Session) : Prop where
  output : ∃ more, t.sink.written = s.sink.written ++ more
  input : t.input <:+ s.input

namespace Continues

theorem refl (s : Session) : s.Continues s :=
  ⟨⟨.empty, ByteArray.append_empty.symm⟩, List.suffix_refl _⟩

theorem trans {s t r : Session} (h : s.Continues t) (h' : t.Continues r) : s.Continues r := by
  rcases h.output with ⟨more, hmore⟩
  rcases h'.output with ⟨more', hmore'⟩
  refine ⟨⟨more ++ more', ?_⟩, h'.input.trans h.input⟩
  rw [hmore', hmore, ByteArray.append_assoc]

end Continues

theorem splitLine_suffix (input : List UInt8) : (splitLine input).2 <:+ input := by
  induction input with
  | nil => exact List.suffix_refl _
  | cons b bs ih =>
      unfold splitLine
      by_cases hb : b = 10
      · rw [if_pos hb]
        exact List.suffix_cons b bs
      · rw [if_neg hb]
        exact ih.trans (List.suffix_cons b bs)

end Session

theorem Sink.written_write {sink sink' : Sink} {bytes : ByteArray} {taken : Bool}
    (h : sink.write bytes = (sink', taken)) : ∃ more, sink'.written = sink.written ++ more := by
  cases hroom : sink.room with
  | none =>
      rw [Sink.write_unlimited hroom] at h
      rcases Prod.mk.inj h with ⟨rfl, -⟩
      exact ⟨bytes, rfl⟩
  | some room =>
      rcases Nat.lt_or_ge room bytes.size with hlt | hle
      · rw [Sink.write_of_lt hroom hlt] at h
        rcases Prod.mk.inj h with ⟨rfl, -⟩
        exact ⟨bytes.extract 0 room, rfl⟩
      · rw [Sink.write_of_le hroom hle] at h
        rcases Prod.mk.inj h with ⟨rfl, -⟩
        exact ⟨bytes, rfl⟩

/-- No change of a session erases output or returns input. -/
theorem lasting_continues (s : Session) : Lasting s.Continues where
  write h hw := by
    rcases Sink.written_write hw with ⟨more, hmore⟩
    exact h.trans ⟨⟨more, hmore⟩, List.suffix_refl _⟩
  flush h := ⟨h.output, h.input⟩
  takeLine h := h.trans ⟨⟨.empty, ByteArray.append_empty.symm⟩, Session.splitLine_suffix _⟩
  warn h _ := ⟨h.output, h.input⟩
  declare h _ := ⟨h.output, h.input⟩
  assign h _ := ⟨h.output, h.input⟩

namespace Action

variable {α β : Type}

/-- The action takes nothing back. -/
def Grows (a : Action α) : Prop :=
  ∀ s : Session, Keeps s.Continues a

/-- The second action does what the first one does, unless the first one is stopped at its
    cap: then the second one goes on from there. -/
def Prolongs (a b : Action α) : Prop :=
  ∀ s, b.run s = a.run s ∨
    ∃ pos, a.fault? s = some (.program pos .endlessLoop) ∧ (a.after s).Continues (b.after s)

theorem Grows.after {a : Action α} (h : Grows a) (s : Session) : s.Continues (a.after s) :=
  (h s).after (.refl s)

theorem Grows.bind {a : Action α} {f : α → Action β} (ha : Grows a) (hf : ∀ x, Grows (f x)) :
    Grows (a >>= f) :=
  fun s => (ha s).bind fun x => hf x s

/-- Two actions in order do not fall behind the first one. -/
theorem after_bind_continues (a : Action α) {f : α → Action β} (hf : ∀ x, Grows (f x))
    (s : Session) : (a.after s).Continues ((a >>= f).after s) := by
  cases hrun : a.run s with
  | ok x s' =>
      have hafter : (a >>= f).after s = (f x).after s' := by
        unfold Action.after
        rw [EStateM.run_bind, hrun]
      rw [after_of_ok hrun, hafter]
      exact (hf x).after s'
  | error e s' =>
      have hafter : (a >>= f).after s = s' := after_of_error (by rw [EStateM.run_bind, hrun])
      rw [after_of_error hrun, hafter]
      exact .refl s'

theorem grows_pure (x : α) : Grows (pure x : Action α) :=
  fun _ => meets_pure fun _ h => h

theorem grows_throw (e : Fault) : Grows (throw e : Action α) :=
  fun _ => meets_throw fun _ h => h

theorem Grows.ite {a a' : Action α} (ha : Grows a) (ha' : Grows a') (holds : Bool) :
    Grows (if holds = true then a else a') := by
  cases holds with
  | true => exact ha
  | false => exact ha'

namespace Prolongs

theorem refl (a : Action α) : Prolongs a a :=
  fun _ => Or.inl rfl

/-- What is stopped at once is prolonged by any action that takes nothing back. -/
theorem throw {pos : Position} {b : Action α} (hb : Grows b) :
    Prolongs (throw (.program pos .endlessLoop)) b :=
  fun s => Or.inr ⟨pos, rfl, hb.after s⟩

theorem ite {a a' b b' : Action α} (h : Prolongs a b) (h' : Prolongs a' b') (holds : Bool) :
    Prolongs (if holds = true then a else a') (if holds = true then b else b') := by
  cases holds with
  | true => exact h
  | false => exact h'

theorem bind {a b : Action α} {f g : α → Action β} (hab : Prolongs a b)
    (hfg : ∀ x, Prolongs (f x) (g x)) (hg : ∀ x, Grows (g x)) :
    Prolongs (a >>= f) (b >>= g) := by
  intro s
  rcases hab s with hsame | ⟨pos, hstop, hlater⟩
  · -- Both are at the same point after the first action.
    cases hrun : a.run s with
    | ok x s' =>
        rw [hrun] at hsame
        have ha : (a >>= f).run s = (f x).run s' := by rw [EStateM.run_bind, hrun]
        have hb : (b >>= g).run s = (g x).run s' := by rw [EStateM.run_bind, hsame]
        have hnext := hfg x s'
        unfold fault? Action.after at hnext ⊢
        rw [ha, hb]
        exact hnext
    | error e s' =>
        rw [hrun] at hsame
        left
        rw [EStateM.run_bind, EStateM.run_bind, hrun, hsame]
  · -- The first run has ended; the other one may have more to do.
    have hend : (a >>= f).run s = .error (.program pos .endlessLoop) (a.after s) := by
      rw [EStateM.run_bind, fault?_eq_some.mp hstop]
    refine Or.inr ⟨pos, ?_, ?_⟩
    · unfold fault?
      rw [hend]
    · rw [after_of_error hend]
      exact hlater.trans (after_bind_continues b hg s)

end Prolongs

end Action

namespace Statement

open Primer.Action Session

section Loops

variable {pos : Position} {guard : Action Bool} {body body' : Action Unit}

theorem loopGuardFirst_grows (hguard : Grows guard) (hbody : Grows body) (rounds : Nat) :
    Grows (loopGuardFirst pos guard body rounds) :=
  fun s => loopGuardFirst_meets (hguard s) (hbody s) (fun _ h => h) rounds

theorem loopBodyFirst_grows (hguard : Grows guard) (hbody : Grows body) (more : Nat) :
    Grows (loopBodyFirst pos guard body more) :=
  fun s => loopBodyFirst_meets (hguard s) (hbody s) (fun _ h => h) more

/-- A loop that asks first, with more rounds and a body that goes further. -/
theorem loopGuardFirst_prolongs (hguard : Grows guard) (hbody : Prolongs body body')
    (hgrows : Grows body') : ∀ {n m : Nat}, n ≤ m →
      Prolongs (loopGuardFirst pos guard body n) (loopGuardFirst pos guard body' m) := by
  have hround : ∀ m, Grows (body' >>= fun _ => loopGuardFirst pos guard body' m) := fun m =>
    hgrows.bind fun _ => loopGuardFirst_grows hguard hgrows m
  intro n
  induction n with
  | zero =>
      intro m _
      cases m with
      | zero => exact .refl _
      | succ m =>
          -- The guard is asked by both; if it holds, only the second one goes on.
          exact (Prolongs.refl guard).bind (Prolongs.ite (.throw (hround m)) (.refl _))
            ((hround m).ite (grows_pure _))
  | succ n ih =>
      intro m hnm
      cases m with
      | zero => exact absurd hnm (Nat.not_succ_le_zero n)
      | succ m =>
          have hboth : Prolongs (body >>= fun _ => loopGuardFirst pos guard body n)
              (body' >>= fun _ => loopGuardFirst pos guard body' m) :=
            hbody.bind (fun _ => ih (Nat.le_of_succ_le_succ hnm)) fun _ =>
              loopGuardFirst_grows hguard hgrows m
          exact (Prolongs.refl guard).bind (hboth.ite (.refl _)) ((hround m).ite (grows_pure _))

/-- A loop that asks afterwards, with more rounds and a body that goes further. -/
theorem loopBodyFirst_prolongs (hguard : Grows guard) (hbody : Prolongs body body')
    (hgrows : Grows body') : ∀ {n m : Nat}, n ≤ m →
      Prolongs (loopBodyFirst pos guard body n) (loopBodyFirst pos guard body' m) := by
  have hrest : ∀ m, Grows (loopBodyFirst pos guard body' m) :=
    loopBodyFirst_grows hguard hgrows
  have hnext : ∀ m, Grows (guard >>= fun holds =>
      if holds then loopBodyFirst pos guard body' m else pure ()) := fun m =>
    hguard.bind ((hrest m).ite (grows_pure _))
  intro n
  induction n with
  | zero =>
      intro m _
      -- The body is run by both, and only the second one may ask the guard.
      cases m with
      | zero => exact hbody.bind (fun _ => .refl _) fun _ => grows_throw _
      | succ m => exact hbody.bind (fun _ => .throw (hnext m)) fun _ => hnext m
  | succ n ih =>
      intro m hnm
      cases m with
      | zero => exact absurd hnm (Nat.not_succ_le_zero n)
      | succ m =>
          refine hbody.bind (fun _ => ?_) fun _ => hnext m
          exact (Prolongs.refl guard).bind
            ((ih (Nat.le_of_succ_le_succ hnm)).ite (.refl _)) ((hrest m).ite (grows_pure _))

end Loops

section Statements

variable {n m : Nat}

theorem reading_grows {α : Type} (f : Store → Except Fault α) : Grows (reading f) :=
  fun _ => reading_keeps f

theorem execAll_grows (cap : Nat) (sts : List Statement) : Grows (execAll cap sts) :=
  fun s => execAll_keeps (lasting_continues s) cap sts

theorem execBranches_grows (cap : Nat) (bs : List Branch) : Grows (execBranches cap bs) :=
  fun s => execBranches_keeps (lasting_continues s) cap bs

theorem execOtherwise_grows (cap : Nat) (body : Option (List Statement)) :
    Grows (execOtherwise cap body) :=
  fun s => execOtherwise_keeps (lasting_continues s) cap body

-- The induction is on the statement; only the loops look at the cap.
mutual

theorem exec_prolongs (h : n ≤ m) : ∀ st : Statement, Prolongs (exec n st) (exec m st)
  | .declare _ type declarators => by
      rw [exec, exec]
      exact .refl _
  | .assign pos names e => by
      rw [exec, exec]
      exact .refl _
  | .choose _ first others otherwise => by
      have hlast : ∀ taken, Grows (if taken = true then pure () else execOtherwise m otherwise) :=
        (grows_pure _).ite (execOtherwise_grows m otherwise)
      have hothers : Prolongs
          (execBranches n others >>= fun taken =>
            if taken = true then pure () else execOtherwise n otherwise)
          (execBranches m others >>= fun taken =>
            if taken = true then pure () else execOtherwise m otherwise) :=
        (execBranches_prolongs h others).bind
          ((Prolongs.refl _).ite (execOtherwise_prolongs h otherwise)) hlast
      rw [exec, exec]
      exact (execBranch_prolongs h first).bind ((Prolongs.refl _).ite hothers)
        ((grows_pure _).ite ((execBranches_grows m others).bind hlast))
  | .loop pos guard body => by
      rw [exec, exec]
      exact loopGuardFirst_prolongs (reading_grows _) (execAll_prolongs h body)
        (execAll_grows m body) h
  | .loopAfter pos body guard => by
      rw [exec, exec]
      exact loopBodyFirst_prolongs (reading_grows _) (execAll_prolongs h body)
        (execAll_grows m body) (Nat.sub_le_sub_right h 1)
  | .display _ e => by
      rw [exec, exec]
      exact .refl _
  | .scan pos names => by
      rw [exec, exec]
      exact .refl _

theorem execAll_prolongs (h : n ≤ m) :
    ∀ sts : List Statement, Prolongs (execAll n sts) (execAll m sts)
  | [] => .refl _
  | st :: rest =>
      (exec_prolongs h st).bind (fun _ => execAll_prolongs h rest) fun _ => execAll_grows m rest

theorem execBranch_prolongs (h : n ≤ m) :
    ∀ b : Branch, Prolongs (execBranch n b) (execBranch m b)
  | ⟨pos, guard, body⟩ => by
      rw [execBranch, execBranch]
      have hbody : Prolongs (execAll n body >>= fun _ => pure true)
          (execAll m body >>= fun _ => pure true) :=
        (execAll_prolongs h body).bind (fun _ => .refl _) fun _ => grows_pure _
      exact (Prolongs.refl _).bind (hbody.ite (.refl _))
        (((execAll_grows m body).bind fun _ => grows_pure _).ite (grows_pure _))

theorem execBranches_prolongs (h : n ≤ m) :
    ∀ bs : List Branch, Prolongs (execBranches n bs) (execBranches m bs)
  | [] => .refl _
  | b :: rest => by
      rw [execBranches, execBranches]
      exact (execBranch_prolongs h b).bind ((Prolongs.refl _).ite (execBranches_prolongs h rest))
        ((grows_pure _).ite (execBranches_grows m rest))

theorem execOtherwise_prolongs (h : n ≤ m) :
    ∀ body : Option (List Statement), Prolongs (execOtherwise n body) (execOtherwise m body)
  | none => .refl _
  | some body => execAll_prolongs h body

end

end Statements

end Statement

namespace Program

open Primer.Action

theorem exec_prolongs {n m : Nat} (h : n ≤ m) (p : Program) :
    Prolongs (p.exec n) (p.exec m) := by
  refine (Statement.execAll_prolongs h p.statements).bind (fun _ => .refl _) fun _ s => ?_
  exact Statement.flush_keeps (lasting_continues s)

/-- A run that is not stopped at its cap is the same under any larger one: the result, and
    the session that it leaves. A run that is stopped has written the beginning of what
    the run under the larger cap writes, and left all input that the other one leaves. -/
theorem exec_of_le_cap (p : Program) (s : Session) {n m : Nat} (h : n ≤ m) :
    ((∀ pos, (p.exec n).fault? s ≠ some (.program pos .endlessLoop)) →
      (p.exec m).run s = (p.exec n).run s) ∧
    ∀ pos, (p.exec n).fault? s = some (.program pos .endlessLoop) →
      (∃ more, ((p.exec m).after s).sink.written =
        ((p.exec n).after s).sink.written ++ more) ∧
      ((p.exec m).after s).input <:+ ((p.exec n).after s).input := by
  rcases exec_prolongs h p s with hsame | ⟨pos, hstop, hlater⟩
  · refine ⟨fun _ => hsame, fun _ _ => ?_⟩
    -- Both are stopped at the same point.
    have hafter : (p.exec m).after s = (p.exec n).after s := by
      unfold Action.after
      rw [hsame]
    rw [hafter]
    exact ⟨(Session.Continues.refl _).output, (Session.Continues.refl _).input⟩
  · exact ⟨fun hfree => absurd hstop (hfree pos), fun _ _ => ⟨hlater.output, hlater.input⟩⟩

/-- A loop inside a loop, on three lines of input. A cap of one stops the inner loop in the
    first round of the outer one, a cap of two the outer loop after its second round, and
    a cap of four neither of them. -/
theorem exec_of_le_cap_nested :
    let pos : Position := ⟨2, 0⟩
    let x : Expr := .var pos "x"
    let three : Expr := .literal pos (.int 3)
    let count : Statement := .loop pos (.compare pos .lt x three)
      [.display pos x, .assign pos ["x"] (.arith pos .add x (.literal pos (.int 1)))]
    let p : Program := ⟨⟨1, 0⟩, [.declare pos .int [⟨pos, "x", none⟩],
      .loopAfter pos [.scan pos ["x"], count] (.compare pos .eq x three)]⟩
    let s : Session := { input := "1\n2\n9\n".toUTF8.toList }
    (p.exec 1).fault? s = some (.program pos .endlessLoop) ∧
      ((p.exec 1).after s).sink.written = "1".toUTF8 ∧
      ((p.exec 1).after s).input = "2\n9\n".toUTF8.toList ∧
      (∃ more, ((p.exec 2).after s).sink.written =
        ((p.exec 1).after s).sink.written ++ more) ∧
      ((p.exec 2).after s).input <:+ ((p.exec 1).after s).input ∧
      (p.exec 4).fault? s = none ∧
      (p.exec 1000).run s = (p.exec 4).run s := by
  intro pos x three count p s
  have hstop : (p.exec 1).fault? s = some (.program pos .endlessLoop) := by decide +kernel
  have hdone : (p.exec 4).fault? s = none := by decide +kernel
  have hmore := (exec_of_le_cap p s (show 1 ≤ 2 by decide)).2 pos hstop
  have hsame := (exec_of_le_cap p s (show 4 ≤ 1000 by decide)).1 fun _ hfault => by
    rw [hdone] at hfault
    cases hfault
  exact ⟨hstop, by decide +kernel, by decide +kernel, hmore.1, hmore.2, hdone, hsame⟩

end Program

end Primer
