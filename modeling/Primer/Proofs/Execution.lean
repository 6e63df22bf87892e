import Primer.Proofs.Action
import Primer.Statement.Exec

/-!
# What Execution Can Do to a Session

A running statement changes its session in six ways only: it writes, it flushes, it
takes a line of input, it records a warning, it declares a name, and it assigns to one.
Whatever survives these six survives every statement, however deeply it is nested,
however often its loops go round, and wherever it fails.

`Lasting` lists the six, and `exec_keeps` is the induction over statements, made
once. A property of all sessions that a program can bring about is then proved by
looking at six small changes. Declarations and assignments that are refused are not among
them, since they change nothing.

The loops are treated apart from the statements they repeat, as they are defined:
`loopGuardFirst_meets` and `loopBodyFirst_meets` ask only that the guard and the
body each return to the condition they started from, and the induction is on the
rounds that are left.

## Main definitions

* `Lasting`: A property that no change of a session breaks.
* `Session.Reachable`: The sessions that statements lead to from a fresh one.

## Theorems

* `loopGuardFirst_meets`, `loopBodyFirst_meets`: The two loops.
* `exec_keeps`, `execAll_keeps`: Statements keep what lasts.
* `Session.Reachable.of_lasting`: What lasts and holds at first holds of every
  reachable session.
-/

namespace Primer

/-- A property of sessions that none of the changes a statement makes can break. -/
structure Lasting (P : Session → Prop) : Prop where
  write : ∀ {s : Session} {bytes : ByteArray} {sink : Sink} {taken : Bool}, P s →
    s.sink.write bytes = (sink, taken) → P { s with sink }
  flush : ∀ {s : Session}, P s → P { s with sink := s.sink.flushed }
  takeLine : ∀ {s : Session}, P s → P { s with input := (Session.splitLine s.input).2 }
  warn : ∀ {s : Session} {name : String} {pos : Position}, P s → s.store.find? name ≠ none →
    P { s with warnings := s.warnings ++ [.program pos (.redeclared name)] }
  declare : ∀ {s : Session} {store : Store} {name : String} {type : DataType}
    {initial : Option Value} {pos : Position}, P s →
    (Store.declare name type initial pos).run s.store = .ok () store → P { s with store }
  assign : ∀ {s : Session} {store : Store} {name : String} {value : Value} {pos : Position},
    P s → (Store.assign name value pos).run s.store = .ok () store → P { s with store }

namespace Statement

open Primer.Action Session

section Loops

variable {P : Session → Prop} {E : Fault → Session → Prop} {pos : Position}
  {guard : Action Bool} {body : Action Unit}

/-- A loop that asks first returns to the condition that its guard and its body
    return to. -/
theorem loopGuardFirst_meets (hguard : Meets P guard (fun _ => P) E)
    (hbody : Meets P body (fun _ => P) E) (hcap : ∀ s, P s → E (.program pos .endlessLoop) s) :
    ∀ rounds, Meets P (loopGuardFirst pos guard body rounds) (fun _ => P) E := by
  intro rounds
  induction rounds with
  | zero =>
      refine hguard.bind fun holds => ?_
      cases holds with
      | true => exact meets_throw hcap
      | false => exact meets_pure fun _ hs => hs
  | succ n ih =>
      refine hguard.bind fun holds => ?_
      cases holds with
      | true => exact hbody.bind fun _ => ih
      | false => exact meets_pure fun _ hs => hs

/-- A loop that asks afterwards does so too. Its last round fails whatever the
    guard would say, so the guard is not used there. -/
theorem loopBodyFirst_meets (hguard : Meets P guard (fun _ => P) E)
    (hbody : Meets P body (fun _ => P) E) (hcap : ∀ s, P s → E (.program pos .endlessLoop) s) :
    ∀ more, Meets P (loopBodyFirst pos guard body more) (fun _ => P) E := by
  intro more
  induction more with
  | zero =>
      -- The body runs once more before the cap is met.
      exact hbody.bind fun _ => meets_throw hcap
  | succ n ih =>
      refine hbody.bind fun _ => hguard.bind fun holds => ?_
      cases holds with
      | true => exact ih
      | false => exact meets_pure fun _ hs => hs

end Loops

section Lasting

variable {P : Session → Prop}

theorem reading_keeps {α : Type} (f : Store → Except Fault α) : Keeps P (reading f) :=
  meets_reading (fun _ _ hs _ => hs) (fun _ _ hs _ => hs)

theorem write_keeps (hP : Lasting P) (text : String) : Keeps P (Session.write text) :=
  meets_write (fun _ _ hs hw => hP.write hs hw) (fun _ _ hs hw => hP.write hs hw)

theorem flush_keeps (hP : Lasting P) : Keeps P Session.flush :=
  meets_flush (fun _ hs _ => hP.flush hs) (fun _ hs _ => hP.flush hs)

theorem updating_assign_keeps (hP : Lasting P) (name : String) (value : Value) (pos : Position) :
    Keeps P (updating (Store.assign name value pos)) :=
  meets_atomic Store.assign_atomic (fun _ _ hs ha => hP.assign hs ha) (fun _ _ hs _ => hs)

theorem execDeclarator_keeps (hP : Lasting P) (type : DataType) (d : Declarator) :
    Keeps P (execDeclarator type d) := by
  unfold execDeclarator
  refine Meets.bind (Q := fun x s => x = s ∧ P s) (meets_get fun s hs => ⟨rfl, hs⟩) ?_
  intro x
  cases hfind : x.store.find? d.name with
  | some b =>
      -- The name is still bound once the warning has been written.
      refine Meets.bind (Q := fun _ s => s.store.find? d.name ≠ none ∧ P s) ?_ fun _ =>
        meets_modify fun s hs => hP.warn hs.2 hs.1
      refine meets_write ?_ ?_
      · rintro s sink ⟨rfl, hs⟩ hw
        exact ⟨by rw [hfind]; exact Option.some_ne_none b, hP.write hs hw⟩
      · rintro s sink ⟨-, hs⟩ hw
        exact hP.write hs hw
  | none =>
      have hstart : Keeps P (do
          let initial ← reading fun store => d.initializer.mapM (Expr.eval store)
          updating (Store.declare d.name type initial d.pos)) :=
        (reading_keeps _).bind fun _ => meets_atomic Store.declare_atomic
          (fun _ _ hs hd => hP.declare hs hd) (fun _ _ hs _ => hs)
      exact hstart.mono (fun s hs => hs.2) (fun _ _ hs => hs) (fun _ _ hs => hs)

theorem forM_keeps {α : Type} {f : α → Action Unit} (hf : ∀ x, Keeps P (f x)) (xs : List α) :
    Keeps P (xs.forM f) := by
  induction xs with
  | nil => exact meets_pure fun _ hs => hs
  | cons x xs ih => exact (hf x).bind fun _ => ih

theorem execAssign_keeps (hP : Lasting P) (pos : Position) (value : Value) (names : List String) :
    Keeps P (execAssign pos value names) := by
  induction names with
  | nil => exact meets_pure fun _ hs => hs
  | cons name names ih => exact (updating_assign_keeps hP name value pos).bind fun _ => ih

theorem execPieces_keeps (hP : Lasting P) (pos : Position) (pairs : List (String × String)) :
    Keeps P (execPieces pos pairs) := by
  induction pairs with
  | nil => exact meets_pure fun _ hs => hs
  | cons pair rest ih =>
      refine (reading_keeps _).bind fun type => (reading_keeps _).bind fun value => ?_
      exact (updating_assign_keeps hP pair.1 value pos).bind fun _ => ih

theorem execScan_keeps (hP : Lasting P) (pos : Position) (names : List String) :
    Keeps P (execScan pos names) := by
  unfold execScan
  refine (flush_keeps hP).bind fun _ => ?_
  refine Meets.bind (Q := fun _ => P)
    (meets_readLine (fun _ _ hs => hP.takeLine hs) (fun _ hs => hP.takeLine hs)) fun line => ?_
  -- The pieces are counted before the first one is stored.
  dsimp only
  split
  · exact Meets.bind (Q := fun _ => P) (meets_throw fun _ hs => hs) fun _ =>
      execPieces_keeps hP pos _
  · exact execPieces_keeps hP pos _

-- The induction is on the statement, through its branches and bodies; each loop is
-- left to its own rule.
mutual

theorem exec_keeps (hP : Lasting P) (cap : Nat) : ∀ st : Statement, Keeps P (exec cap st)
  | .declare _ type declarators => by
      rw [exec]
      exact forM_keeps (execDeclarator_keeps hP type) declarators
  | .assign pos names e => by
      rw [exec]
      exact (reading_keeps _).bind fun value => execAssign_keeps hP pos value names
  | .choose _ first others otherwise => by
      rw [exec]
      refine (execBranch_keeps hP cap first).bind fun taken => ?_
      cases taken with
      | true => exact meets_pure fun _ hs => hs
      | false =>
          refine (execBranches_keeps hP cap others).bind fun taken => ?_
          cases taken with
          | true => exact meets_pure fun _ hs => hs
          | false => exact execOtherwise_keeps hP cap otherwise
  | .loop pos guard body => by
      rw [exec]
      exact loopGuardFirst_meets (reading_keeps _) (execAll_keeps hP cap body) (fun _ hs => hs) _
  | .loopAfter pos body guard => by
      rw [exec]
      exact loopBodyFirst_meets (reading_keeps _) (execAll_keeps hP cap body) (fun _ hs => hs) _
  | .display _ e => by
      rw [exec]
      exact (reading_keeps _).bind fun value => write_keeps hP value.render
  | .scan pos names => by
      rw [exec]
      exact execScan_keeps hP pos names

theorem execAll_keeps (hP : Lasting P) (cap : Nat) :
    ∀ sts : List Statement, Keeps P (execAll cap sts)
  | [] => meets_pure fun _ hs => hs
  | st :: rest => (exec_keeps hP cap st).bind fun _ => execAll_keeps hP cap rest

theorem execBranch_keeps (hP : Lasting P) (cap : Nat) : ∀ b : Branch, Keeps P (execBranch cap b)
  | ⟨pos, guard, body⟩ => by
      rw [execBranch]
      refine (reading_keeps _).bind fun holds => ?_
      cases holds with
      | true => exact (execAll_keeps hP cap body).bind fun _ => meets_pure fun _ hs => hs
      | false => exact meets_pure fun _ hs => hs

theorem execBranches_keeps (hP : Lasting P) (cap : Nat) :
    ∀ bs : List Branch, Keeps P (execBranches cap bs)
  | [] => meets_pure fun _ hs => hs
  | b :: rest => by
      rw [execBranches]
      refine (execBranch_keeps hP cap b).bind fun taken => ?_
      cases taken with
      | true => exact meets_pure fun _ hs => hs
      | false => exact execBranches_keeps hP cap rest

theorem execOtherwise_keeps (hP : Lasting P) (cap : Nat) :
    ∀ body : Option (List Statement), Keeps P (execOtherwise cap body)
  | none => meets_pure fun _ hs => hs
  | some body => execAll_keeps hP cap body

end

end Lasting

end Statement

namespace Session

/-- The sessions that statements lead to from a fresh one, over any input and any
    output. The cap may differ from statement to statement, and a statement that
    fails leaves a session like any other. -/
inductive Reachable : Session → Prop where
  | fresh (input : List UInt8) (sink : Sink) : Reachable ⟨.empty, input, sink, []⟩
  | step {s : Session} (cap : Nat) (st : Statement) (h : Reachable s) :
      Reachable ((Statement.exec cap st).after s)

/-- What holds of every fresh session and lasts holds of every reachable one. -/
theorem Reachable.of_lasting {P : Session → Prop} (hP : Lasting P)
    (hfresh : ∀ input sink, P ⟨.empty, input, sink, []⟩) {s : Session} (h : Reachable s) :
    P s := by
  induction h with
  | fresh input sink => exact hfresh input sink
  | step cap st _ ih => exact (Statement.exec_keeps hP cap st).after ih

end Session

end Primer
