import Primer.Proofs.Execution
import Primer.Proofs.Names

/-!
# Statements Are Made of Steps

Four kinds of things act on a session: declaring one name, assigning, displaying and
reading a line of input. All else in a statement decides which of them comes next. These
four are the steps, and a statement is a way of putting steps together.

What is known of the steps of a statement is then known of the statement, if it is the
kind of knowledge that survives being put together. It has to hold of doing nothing, and two
actions in order have to have it if each of them has; this is `Sequential`, and for the two
loops it is enough. They follow from their parts by induction on their rounds. `Composable`
asks for two things more, that it holds of every guard that is asked and of being stopped at
the cap. Then the statements follow by induction on their form, which is made here once. Only
the steps in the statement at hand matter, so a statement without a certain kind of step can
have properties that the others lack.

The same is true of the guards. Where something is known only of the guards over certain names,
as when two runs agree on these names and on no others, `ComposableOn` is enough for the
statements that name nothing else. The induction is made in this form.

## Main definitions

* `Step`: A step.
* `Step.exec`: What a step does.
* `Step.names`, `Step.writes`: The names in a step, and those that it gives values to.
* `Statement.steps`: The steps that a statement is made of.
* `Statement.writes`: The names that a statement gives values to.
* `Action.Sequential`: A property that survives putting actions together.
* `Action.Composable`: A property that every statement has if its steps have it.
* `Action.ComposableOn`: A property that a statement over some names has if its steps have it.

## Theorems

* `Statement.loopGuardFirst_of_parts`, `Statement.loopBodyFirst_of_parts`: The two loops.
* `Statement.exec_of_names`: What all steps over some names have the statements over them have.
* `Statement.exec_of_steps`, `Statement.execAll_of_steps`: What all steps have the
  statements have.
* `Step.exec_keeps`: A step keeps what lasts.
-/

namespace Primer

open Session

/-- What a statement does to its session, apart from deciding what comes next. -/
inductive Step where
  /-- Declares one name. -/
  | declare (type : DataType) (declarator : Declarator)
  /-- Assigns one value to some variables. -/
  | assign (pos : Position) (targets : List String) (value : Expr)
  /-- Writes the text of a value. -/
  | display (value : Expr)
  /-- Reads a line of input into variables. -/
  | scan (pos : Position) (names : List String)
deriving DecidableEq

namespace Step

/-- What a step does. -/
def exec : Step → Action Unit
  | .declare type d => Statement.execDeclarator type d
  | .assign pos targets e => do
      let value ← reading fun store => e.eval store
      Statement.execAssign pos value targets
  | .display e => do
      let value ← reading fun store => e.eval store
      write value.render
  | .scan pos names => Statement.execScan pos names

/-- The names in a step. -/
def names : Step → List String
  | .declare _ d => d.names
  | .assign _ targets e => targets ++ e.names
  | .display e => e.names
  | .scan _ names => names

/-- The names that a step declares, assigns to or reads input into. -/
def writes : Step → List String
  | .declare _ d => [d.name]
  | .assign _ targets _ => targets
  | .display _ => []
  | .scan _ names => names

theorem writes_subset (step : Step) : step.writes ⊆ step.names := by
  cases step with
  | declare type d => exact List.cons_subset.mpr ⟨List.mem_cons_self, List.nil_subset _⟩
  | assign pos targets e => exact List.subset_append_left targets e.names
  | display e => exact List.nil_subset _
  | scan pos names => exact List.Subset.refl names

/-- Whether a step is an assignment. -/
def isAssign : Step → Bool
  | .assign _ _ _ => true
  | _ => false

theorem exec_keeps {P : Session → Prop} (hP : Lasting P) (step : Step) :
    Action.Keeps P step.exec := by
  cases step with
  | declare type d => exact Statement.execDeclarator_keeps hP type d
  | assign pos targets e =>
      exact (Statement.reading_keeps _).bind fun value =>
        Statement.execAssign_keeps hP pos value targets
  | display e =>
      exact (Statement.reading_keeps _).bind fun value => Statement.write_keeps hP value.render
  | scan pos names => exact Statement.execScan_keeps hP pos names

end Step

namespace Statement

mutual

/-- The steps that a statement is made of, in the order of the text. -/
def steps : Statement → List Step
  | .declare _ type declarators => declarators.map (.declare type)
  | .assign pos targets e => [.assign pos targets e]
  | .choose _ first others otherwise =>
      branchSteps first ++ (branchesSteps others ++ otherwiseSteps otherwise)
  | .loop _ _ body => allSteps body
  | .loopAfter _ body _ => allSteps body
  | .display _ e => [.display e]
  | .scan pos names => [.scan pos names]

/-- The steps in some statements. -/
def allSteps : List Statement → List Step
  | [] => []
  | st :: rest => steps st ++ allSteps rest

/-- The steps in a branch. -/
def branchSteps : Branch → List Step
  | ⟨_, _, body⟩ => allSteps body

/-- The steps in some branches. -/
def branchesSteps : List Branch → List Step
  | [] => []
  | b :: rest => branchSteps b ++ branchesSteps rest

/-- The steps in the last body of a choice. -/
def otherwiseSteps : Option (List Statement) → List Step
  | none => []
  | some body => allSteps body

end

/-- The names that a statement declares, assigns to or reads input into, at any depth. -/
def writes (st : Statement) : List String :=
  st.steps.flatMap Step.writes

theorem writes_subset_of_mem {st : Statement} {step : Step} (h : step ∈ st.steps) :
    step.writes ⊆ st.writes :=
  fun _ hname => List.mem_flatMap.mpr ⟨step, h, hname⟩

end Statement

namespace Action

/-- A property that actions put together have if their parts have it. -/
structure Sequential (P : (α : Type) → Action α → Prop) : Prop where
  pure : ∀ {α : Type} (x : α), P α (pure x)
  bind : ∀ {α β : Type} {a : Action α} {f : α → Action β}, P α a → (∀ x, P β (f x)) →
    P β (a >>= f)

/-- A property that actions put together have if their parts have it, and that holds of
    what a statement does between its steps. -/
structure Composable (P : (α : Type) → Action α → Prop) : Prop extends Sequential P where
  guard : ∀ (e : Expr) (pos : Position), P Bool (reading fun store => e.guard store pos)
  endless : ∀ pos : Position, P Unit (throw (.program pos .endlessLoop))

/-- A property that actions put together have if their parts have it, and that holds of
    what a statement over the given names does between its steps. -/
structure ComposableOn (names : List String) (P : (α : Type) → Action α → Prop) : Prop
    extends Sequential P where
  guard : ∀ (e : Expr) (pos : Position), e.names ⊆ names →
    P Bool (reading fun store => e.guard store pos)
  endless : ∀ pos : Position, P Unit (throw (.program pos .endlessLoop))

variable {P : (α : Type) → Action α → Prop}

theorem Composable.on (hP : Composable P) (names : List String) : ComposableOn names P where
  toSequential := hP.toSequential
  guard e pos _ := hP.guard e pos
  endless := hP.endless

/-- Whichever of two actions is taken has what both of them have. -/
theorem of_ite {α : Type} {a a' : Action α} (h : P α a) (h' : P α a') (holds : Bool) :
    P α (if holds = true then a else a') := by
  cases holds with
  | true => exact h
  | false => exact h'

end Action

namespace Statement

open Primer.Action

variable {P : (α : Type) → Action α → Prop}

section Loops

variable {pos : Position} {guard : Action Bool} {body : Action Unit}

theorem loopGuardFirst_of_parts (hP : Sequential P) (hguard : P Bool guard)
    (hbody : P Unit body) (hcap : P Unit (throw (.program pos .endlessLoop))) :
    ∀ rounds, P Unit (loopGuardFirst pos guard body rounds) := by
  intro rounds
  induction rounds with
  | zero => exact hP.bind hguard (of_ite hcap (hP.pure _))
  | succ n ih => exact hP.bind hguard (of_ite (hP.bind hbody fun _ => ih) (hP.pure _))

theorem loopBodyFirst_of_parts (hP : Sequential P) (hguard : P Bool guard)
    (hbody : P Unit body) (hcap : P Unit (throw (.program pos .endlessLoop))) :
    ∀ more, P Unit (loopBodyFirst pos guard body more) := by
  intro more
  induction more with
  | zero =>
      -- The guard is not asked after the last round.
      exact hP.bind hbody fun _ => hcap
  | succ n ih => exact hP.bind hbody fun _ => hP.bind hguard (of_ite ih (hP.pure _))

end Loops

section Names

variable {N : List String}

theorem forM_declare_of_names (hP : Sequential P) (type : DataType) (ds : List Declarator)
    (hds : ds.flatMap Declarator.names ⊆ N)
    (h : ∀ step ∈ ds.map (Step.declare type), step.names ⊆ N → P Unit step.exec) :
    P Unit (ds.forM (execDeclarator type)) := by
  induction ds with
  | nil => exact hP.pure _
  | cons d ds ih =>
      rw [List.flatMap_cons, List.append_subset] at hds
      rcases List.forall_mem_cons.mp h with ⟨hd, hrest⟩
      exact hP.bind (hd hds.1) fun _ => ih hds.2 hrest

-- The induction is on the statement, with the names fixed: a smaller statement names fewer
-- variables. The loops have been settled above.
mutual

/-- A statement over some names has every property composable on them that its steps have. -/
theorem exec_of_names (hP : ComposableOn N P) (cap : Nat) : ∀ st : Statement, st.names ⊆ N →
    (∀ step ∈ st.steps, step.names ⊆ N → P Unit step.exec) → P Unit (exec cap st)
  | .declare _ type declarators, hN, h => by
      rw [names] at hN
      rw [steps] at h
      rw [exec]
      exact forM_declare_of_names hP.toSequential type declarators hN h
  | .assign pos targets e, hN, h => by
      rw [names] at hN
      rw [steps] at h
      rw [exec]
      exact h _ List.mem_cons_self hN
  | .choose _ first others otherwise, hN, h => by
      rw [names, List.append_subset, List.append_subset] at hN
      rw [steps, List.forall_mem_append, List.forall_mem_append] at h
      rw [exec]
      refine hP.bind (execBranch_of_names hP cap first hN.1 h.1) (of_ite (hP.pure _) ?_)
      exact hP.bind (execBranches_of_names hP cap others hN.2.1 h.2.1)
        (of_ite (hP.pure _) (execOtherwise_of_names hP cap otherwise hN.2.2 h.2.2))
  | .loop pos guard body, hN, h => by
      rw [names, List.append_subset] at hN
      rw [steps] at h
      rw [exec]
      exact loopGuardFirst_of_parts hP.toSequential (hP.guard _ _ hN.1)
        (execAll_of_names hP cap body hN.2 h) (hP.endless pos) cap
  | .loopAfter pos body guard, hN, h => by
      rw [names, List.append_subset] at hN
      rw [steps] at h
      rw [exec]
      exact loopBodyFirst_of_parts hP.toSequential (hP.guard _ _ hN.2)
        (execAll_of_names hP cap body hN.1 h) (hP.endless pos) _
  | .display _ e, hN, h => by
      rw [names] at hN
      rw [steps] at h
      rw [exec]
      exact h _ List.mem_cons_self hN
  | .scan pos targets, hN, h => by
      rw [names] at hN
      rw [steps] at h
      rw [exec]
      exact h _ List.mem_cons_self hN

theorem execAll_of_names (hP : ComposableOn N P) (cap : Nat) : ∀ sts : List Statement,
    allNames sts ⊆ N → (∀ step ∈ allSteps sts, step.names ⊆ N → P Unit step.exec) →
    P Unit (execAll cap sts)
  | [], _, _ => hP.pure _
  | st :: rest, hN, h => by
      rw [allNames, List.append_subset] at hN
      rw [allSteps, List.forall_mem_append] at h
      exact hP.bind (exec_of_names hP cap st hN.1 h.1) fun _ =>
        execAll_of_names hP cap rest hN.2 h.2

theorem execBranch_of_names (hP : ComposableOn N P) (cap : Nat) : ∀ b : Branch,
    branchNames b ⊆ N → (∀ step ∈ branchSteps b, step.names ⊆ N → P Unit step.exec) →
    P Bool (execBranch cap b)
  | ⟨pos, guard, body⟩, hN, h => by
      rw [branchNames, List.append_subset] at hN
      rw [branchSteps] at h
      rw [execBranch]
      refine hP.bind (hP.guard guard pos hN.1) (of_ite ?_ (hP.pure _))
      exact hP.bind (execAll_of_names hP cap body hN.2 h) fun _ => hP.pure _

theorem execBranches_of_names (hP : ComposableOn N P) (cap : Nat) : ∀ bs : List Branch,
    branchesNames bs ⊆ N → (∀ step ∈ branchesSteps bs, step.names ⊆ N → P Unit step.exec) →
    P Bool (execBranches cap bs)
  | [], _, _ => hP.pure _
  | b :: rest, hN, h => by
      rw [branchesNames, List.append_subset] at hN
      rw [branchesSteps, List.forall_mem_append] at h
      rw [execBranches]
      exact hP.bind (execBranch_of_names hP cap b hN.1 h.1)
        (of_ite (hP.pure _) (execBranches_of_names hP cap rest hN.2 h.2))

theorem execOtherwise_of_names (hP : ComposableOn N P) (cap : Nat) :
    ∀ body : Option (List Statement), otherwiseNames body ⊆ N →
      (∀ step ∈ otherwiseSteps body, step.names ⊆ N → P Unit step.exec) →
      P Unit (execOtherwise cap body)
  | none, _, _ => hP.pure _
  | some body, hN, h => by
      rw [otherwiseNames] at hN
      rw [otherwiseSteps] at h
      exact execAll_of_names hP cap body hN h

end

end Names

/-- A statement has every composable property that its steps have. -/
theorem exec_of_steps (hP : Composable P) (cap : Nat) (st : Statement)
    (h : ∀ step ∈ st.steps, P Unit step.exec) : P Unit (exec cap st) :=
  exec_of_names (hP.on st.names) cap st (List.Subset.refl _) fun step hstep _ => h step hstep

theorem execAll_of_steps (hP : Composable P) (cap : Nat) (sts : List Statement)
    (h : ∀ step ∈ allSteps sts, P Unit step.exec) : P Unit (execAll cap sts) :=
  execAll_of_names (hP.on (allNames sts)) cap sts (List.Subset.refl _) fun step hstep _ =>
    h step hstep

end Statement

end Primer
