import Primer.Proofs.Frame

/-!
# The History of a Run

Which steps a run takes, in order, and the session that each of them finds. The history of
a statement is computed along the statement: what comes after an action is part of the
history only if the action succeeds, since a fault ends the run.

A history would be worth nothing if it could leave steps out or make them up. `Path` is what
ties it to the run: every step stands in the text of the program, the first one finds the
session that the run starts from, each further one the session that the one before it left,
and the last one leaves what the run leaves. A statement about a whole run is then proved
along the path, from what one step does. The induction over statements is made here, once,
and its rules are those for putting actions together.

## Main definitions

* `Moment`: A step of a run, with the session that it finds.
* `Statement.history`, `Statement.allHistory`, `Program.history`: The history of a run.
* `Path`: Moments that lead from one session to another.
* `Action.Records`: A history leads to where its action does.

## Theorems

* `Path.append`: Paths can be joined.
* `Statement.loopGuardFirst_records`, `Statement.loopBodyFirst_records`: The two loops.
* `Statement.exec_records`, `Statement.execAll_records`: The history of a statement, and of
  statements in order, leads from the session before them to the session after them.
* `Program.after_exec`: A program adds a flush to its statements, which is no step.
-/

namespace Primer

open Session

/-- A step of a run, with the session that it finds. -/
structure Moment where
  step : Step
  before : Session

namespace Action

/-- What comes after an action: nothing, if it fails. -/
def followed {α : Type} (a : Action α) (next : α → Session → List Moment) (s : Session) :
    List Moment :=
  match a.run s with
  | .ok x s' => next x s'
  | .error _ _ => []

end Action

namespace Statement

/-- The history of a declaration of some names. -/
def declareHistory (type : DataType) : List Declarator → Session → List Moment
  | [], _ => []
  | d :: ds, s =>
      ⟨.declare type d, s⟩ ::
        (execDeclarator type d).followed (fun _ => declareHistory type ds) s

/-- The history of a loop that asks first, from the history of its body. -/
def loopGuardFirstHistory (guard : Action Bool) (body : Action Unit)
    (log : Session → List Moment) : Nat → Session → List Moment
  | 0, _ => []
  | rounds + 1, s =>
      guard.followed (fun holds s =>
        if holds then
          log s ++ body.followed (fun _ => loopGuardFirstHistory guard body log rounds) s
        else []) s

/-- The history of a loop that asks afterwards, from the history of its body. -/
def loopBodyFirstHistory (guard : Action Bool) (body : Action Unit)
    (log : Session → List Moment) : Nat → Session → List Moment
  | 0, s => log s
  | more + 1, s =>
      log s ++ body.followed (fun _ => guard.followed fun holds s =>
        if holds then loopBodyFirstHistory guard body log more s else []) s

mutual

/-- The history of a statement. -/
def history (cap : Nat) : Statement → Session → List Moment
  | .declare _ type declarators, s => declareHistory type declarators s
  | .assign pos targets e, s => [⟨.assign pos targets e, s⟩]
  | .choose _ first others otherwise, s =>
      branchHistory cap first s ++ (execBranch cap first).followed (fun taken s =>
        if taken then []
        else branchesHistory cap others s ++ (execBranches cap others).followed (fun taken s =>
          if taken then [] else otherwiseHistory cap otherwise s) s) s
  | .loop pos guard body, s =>
      loopGuardFirstHistory (reading fun store => guard.guard store pos) (execAll cap body)
        (allHistory cap body) cap s
  | .loopAfter pos body guard, s =>
      loopBodyFirstHistory (reading fun store => guard.guard store pos) (execAll cap body)
        (allHistory cap body) (cap - 1) s
  | .display _ e, s => [⟨.display e, s⟩]
  | .scan pos names, s => [⟨.scan pos names, s⟩]

/-- The history of statements in order. -/
def allHistory (cap : Nat) : List Statement → Session → List Moment
  | [], _ => []
  | st :: rest, s =>
      history cap st s ++ (exec cap st).followed (fun _ => allHistory cap rest) s

/-- The history of a branch. -/
def branchHistory (cap : Nat) : Branch → Session → List Moment
  | ⟨pos, guard, body⟩, s =>
      (reading fun store => guard.guard store pos).followed (fun holds s =>
        if holds then allHistory cap body s else []) s

/-- The history of branches of which the first one that holds is taken. -/
def branchesHistory (cap : Nat) : List Branch → Session → List Moment
  | [], _ => []
  | b :: rest, s =>
      branchHistory cap b s ++ (execBranch cap b).followed (fun taken s =>
        if taken then [] else branchesHistory cap rest s) s

/-- The history of the last body of a choice. -/
def otherwiseHistory (cap : Nat) : Option (List Statement) → Session → List Moment
  | none, _ => []
  | some body, s => allHistory cap body s

end

end Statement

namespace Program

/-- The history of a program. -/
def history (cap : Nat) (p : Program) (s : Session) : List Moment :=
  Statement.allHistory cap p.statements s

end Program

/-- The moments lead from one session to another, by some of the given steps: each step
    finds the session that the one before it left. -/
inductive Path (steps : List Step) : Session → List Moment → Session → Prop where
  | nil (s : Session) : Path steps s [] s
  | cons {step : Step} {s t : Session} {ms : List Moment} (hstep : step ∈ steps)
      (h : Path steps (step.exec.after s) ms t) : Path steps s (⟨step, s⟩ :: ms) t

namespace Path

variable {steps steps' : List Step} {s t r : Session} {ms ms' : List Moment}

theorem append (h : Path steps s ms t) (h' : Path steps t ms' r) :
    Path steps s (ms ++ ms') r := by
  induction h with
  | nil s => exact h'
  | cons hstep _ ih => exact .cons hstep (ih h')

theorem mono (h : Path steps s ms t) (hsub : steps ⊆ steps') : Path steps' s ms t := by
  induction h with
  | nil s => exact .nil s
  | cons hstep _ ih => exact .cons (hsub hstep) ih

end Path

namespace Action

variable {α β : Type} {steps steps' : List Step}

/-- The history leads from every session to the one that the action leaves. -/
def Records (steps : List Step) (a : Action α) (log : Session → List Moment) : Prop :=
  ∀ s, Path steps s (log s) (a.after s)

namespace Records

theorem mono {a : Action α} {log : Session → List Moment} (h : Records steps a log)
    (hsub : steps ⊆ steps') : Records steps' a log :=
  fun s => (h s).mono hsub

theorem bind {a : Action α} {f : α → Action β} {log : Session → List Moment}
    {logs : α → Session → List Moment} (ha : Records steps a log)
    (hf : ∀ x, Records steps (f x) (logs x)) :
    Records steps (a >>= f) fun s => log s ++ a.followed logs s := by
  intro s
  have hstart := ha s
  dsimp only [followed]
  cases hrun : a.run s with
  | ok x s' =>
      rw [after_of_ok hrun] at hstart
      rw [after_bind_of_ok hrun]
      exact hstart.append (hf x s')
  | error e s' =>
      rw [after_of_error hrun] at hstart
      rw [after_bind_of_error hrun]
      exact hstart.append (.nil s')

/-- What takes no step afterwards adds nothing to the history. -/
theorem bind_quiet {a : Action α} {f : α → Action β} {log : Session → List Moment}
    (ha : Records steps a log) (hf : ∀ x, Records steps (f x) fun _ => []) :
    Records steps (a >>= f) log := by
  intro s
  have hpath : Path steps s (log s ++ a.followed (fun _ _ => []) s) _ := ha.bind hf s
  have hquiet : a.followed (fun _ _ => []) s = [] := by
    rw [followed]
    cases a.run s <;> rfl
  rwa [hquiet, List.append_nil] at hpath

theorem ite {a a' : Action α} {log log' : Session → List Moment} (h : Records steps a log)
    (h' : Records steps a' log') (holds : Bool) :
    Records steps (if holds = true then a else a')
      fun s => if holds = true then log s else log' s := by
  cases holds with
  | true => exact h
  | false => exact h'

end Records

theorem records_pure (x : α) : Records steps (pure x : Action α) fun _ => [] :=
  fun s => .nil s

theorem records_throw (e : Fault) : Records steps (throw e : Action α) fun _ => [] :=
  fun s => .nil s

theorem records_reading (f : Store → Except Fault α) :
    Records steps (reading f) fun _ => [] := by
  intro s
  have hkeeps : Keeps (fun t => t = s) (reading f) := Statement.reading_keeps f
  rw [hkeeps.after rfl]
  exact .nil s

theorem records_step (step : Step) (h : step ∈ steps) :
    Records steps step.exec fun s => [⟨step, s⟩] :=
  fun _ => .cons h (.nil _)

end Action

namespace Statement

open Primer.Action

section Loops

variable {steps : List Step} {guard : Action Bool} {body : Action Unit}
  {log : Session → List Moment}

theorem loopGuardFirst_records (hguard : Records steps guard fun _ => [])
    (hbody : Records steps body log) (pos : Position) : ∀ rounds,
    Records steps (loopGuardFirst pos guard body rounds)
      (loopGuardFirstHistory guard body log rounds) := by
  intro rounds
  induction rounds with
  | zero =>
      refine hguard.bind_quiet fun holds => ?_
      cases holds with
      | true => exact records_throw _
      | false => exact records_pure ()
  | succ n ih =>
      exact hguard.bind (Records.ite (hbody.bind fun _ => ih) (records_pure ()))

theorem loopBodyFirst_records (hguard : Records steps guard fun _ => [])
    (hbody : Records steps body log) (pos : Position) : ∀ more,
    Records steps (loopBodyFirst pos guard body more)
      (loopBodyFirstHistory guard body log more) := by
  intro more
  induction more with
  | zero => exact hbody.bind_quiet fun _ => records_throw _
  | succ n ih =>
      exact hbody.bind fun _ => hguard.bind (Records.ite ih (records_pure ()))

end Loops

theorem declare_records (type : DataType) (ds : List Declarator) :
    Records (ds.map (Step.declare type)) (ds.forM (execDeclarator type))
      (declareHistory type ds) := by
  induction ds with
  | nil => exact records_pure ()
  | cons d ds ih =>
      have hfirst : Records ((d :: ds).map (Step.declare type)) (execDeclarator type d)
          fun s => [⟨.declare type d, s⟩] := records_step _ List.mem_cons_self
      exact hfirst.bind fun _ => ih.mono (List.subset_cons_self _ _)

-- The induction is on the statement. Each case puts the paths of the parts together in the
-- order in which the parts are run.
mutual

/-- The history of a statement leads from the session before it to the one after it. -/
theorem exec_records (cap : Nat) : ∀ st : Statement,
    Records st.steps (exec cap st) (history cap st)
  | .declare _ type declarators => by
      intro s
      rw [steps, exec, history]
      exact declare_records type declarators s
  | .assign pos targets e => by
      intro s
      rw [steps, exec, history]
      exact records_step (.assign pos targets e) List.mem_cons_self s
  | .choose _ first others otherwise => by
      intro s
      rw [steps, exec, history]
      have hfirst := (execBranch_records cap first).mono
        (List.subset_append_left _ (branchesSteps others ++ otherwiseSteps otherwise))
      have hothers := (execBranches_records cap others).mono
        (List.Subset.trans (List.subset_append_left _ (otherwiseSteps otherwise))
          (List.subset_append_right (branchSteps first) _))
      have hlast := (execOtherwise_records cap otherwise).mono
        (List.Subset.trans (List.subset_append_right (branchesSteps others) _)
          (List.subset_append_right (branchSteps first) _))
      exact hfirst.bind (Records.ite (records_pure ())
        (hothers.bind (Records.ite (records_pure ()) hlast))) s
  | .loop pos guard body => by
      intro s
      rw [steps, exec, history]
      exact loopGuardFirst_records (records_reading _) (execAll_records cap body) pos cap s
  | .loopAfter pos body guard => by
      intro s
      rw [steps, exec, history]
      exact loopBodyFirst_records (records_reading _) (execAll_records cap body) pos _ s
  | .display _ e => by
      intro s
      rw [steps, exec, history]
      exact records_step (.display e) List.mem_cons_self s
  | .scan pos names => by
      intro s
      rw [steps, exec, history]
      exact records_step (.scan pos names) List.mem_cons_self s

theorem execAll_records (cap : Nat) : ∀ sts : List Statement,
    Records (allSteps sts) (execAll cap sts) (allHistory cap sts)
  | [] => fun s => by
      rw [allHistory]
      exact .nil s
  | st :: rest => by
      intro s
      rw [allSteps, execAll, allHistory]
      have hfirst := (exec_records cap st).mono (List.subset_append_left _ (allSteps rest))
      have hrest := (execAll_records cap rest).mono (List.subset_append_right st.steps _)
      exact hfirst.bind (fun _ => hrest) s

theorem execBranch_records (cap : Nat) : ∀ b : Branch,
    Records (branchSteps b) (execBranch cap b) (branchHistory cap b)
  | ⟨pos, guard, body⟩ => by
      intro s
      rw [branchSteps, execBranch, branchHistory]
      have hbody := execAll_records cap body
      exact (records_reading _).bind
        (Records.ite (hbody.bind_quiet fun _ => records_pure true) (records_pure false)) s

theorem execBranches_records (cap : Nat) : ∀ bs : List Branch,
    Records (branchesSteps bs) (execBranches cap bs) (branchesHistory cap bs)
  | [] => fun s => by
      rw [branchesHistory]
      exact .nil s
  | b :: rest => by
      intro s
      rw [branchesSteps, execBranches, branchesHistory]
      have hfirst := (execBranch_records cap b).mono
        (List.subset_append_left _ (branchesSteps rest))
      have hrest := (execBranches_records cap rest).mono
        (List.subset_append_right (branchSteps b) _)
      exact hfirst.bind (Records.ite (records_pure true) hrest) s

theorem execOtherwise_records (cap : Nat) : ∀ body : Option (List Statement),
    Records (otherwiseSteps body) (execOtherwise cap body) (otherwiseHistory cap body)
  | none => fun s => by
      rw [otherwiseHistory]
      exact .nil s
  | some body => by
      intro s
      rw [otherwiseSteps, execOtherwise, otherwiseHistory]
      exact execAll_records cap body s

end

end Statement

namespace Program

/-- A program is flushed at the end if its statements succeed, and of the session that they
    leave this changes no more than the answers of the output to come. -/
theorem after_exec (cap : Nat) (p : Program) (s : Session) :
    ∃ sink, (p.exec cap).after s = { (Statement.execAll cap p.statements).after s with sink } := by
  unfold exec
  cases hrun : (Statement.execAll cap p.statements).run s with
  | ok x s' =>
      rw [Action.after_bind_of_ok hrun, Action.after_of_ok hrun]
      refine ⟨s'.sink.flushed, ?_⟩
      rw [Action.after, run_flush]
      cases s'.sink.stuck <;> rfl
  | error e s' =>
      rw [Action.after_bind_of_error hrun, Action.after_of_error hrun]
      exact ⟨s'.sink, rfl⟩

end Program

end Primer
