import Primer.Proofs.Input.Commit
import Primer.Proofs.Laws.Choice
import Primer.Proofs.Locality

/-!
# Independent Statements Commute

Two statements that have nothing to do with each other may change places. The first one has to
be silent: it assigns, chooses and repeats, but declares, displays and reads nothing. Neither may
give a value to a variable that occurs in the other. Variables that both only read are allowed.

A silent statement puts values into variables, and that is all it does. So it can be summed up by
a list of changes, and the argument is about moving that list past the other statement. It has two
halves.

The other statement does not see the changes. `Overlays` relates a session to the one with
the changes made in it, and nothing that is done to variables of other names can tell the two
apart; so it ends alike with the changes made before it, and they are still there at its end.

The silent statement makes the same changes after the other one as before it. `Echoes` relates two
sessions that the same changes have led to, from two sessions that may differ in all but the
variables of the silent statement. The other statement has left these alone, which is what
`exec_frame` says. For this a session is related to itself, and the relation keeps the variable.

The variables are kept in the order of their declaration, and the same list of changes leads to the
same order on both sides. The two orders therefore end in one and the same session, and not
merely in sessions with the same variables.

## Main definitions

* `Session.Overlays`: A session, and the same one after some changes.
* `Session.Echoes`: Two sessions that the same changes have led to.

## Theorems

* `Store.set_setAll`, `Store.cons_setAll`: Changes of different variables may change places.
* `Session.unseen_overlays`: Statements do not see changes of variables that they do not name.
* `Session.agreeing_echoes`: Assignments to the same variables are the same changes.
* `Session.unseen_kept`: A variable that is not given a value is kept.
* `Statement.exec_frame`: A statement leaves alone what it does not give a value to.
* `Statement.exec_overlays`: A statement ends alike with and without changes that it does not see.
* `Statement.run_execAll_pair`: When two statements succeed in order.
* `Statement.exec_commute`: Independent statements commute.
-/

namespace Primer

open Session

namespace Store

variable {store : Store} {name : String} {changes : List (String × Value)}

theorem find?_setAll_of_notMem (h : name ∉ changes.map Prod.fst) :
    (store.setAll changes).find? name = store.find? name := by
  rw [find?_setAll, lastOf?_of_notMem h]
  exact Option.map_id'

theorem set_comm {other : String} (h : name ≠ other) (v w : Value) :
    (store.set name v).set other w = (store.set other w).set name v := by
  unfold set
  rw [List.map_map, List.map_map]
  congr 1
  refine List.map_congr_left ?_
  rintro ⟨n, b⟩ -
  by_cases hname : n = name
  · have hother : ¬ n = other := fun ho => h (hname.symm.trans ho)
    simp only [Function.comp_apply, if_pos hname, if_neg hother]
  · by_cases hother : n = other
    · simp only [Function.comp_apply, if_neg hname, if_pos hother]
    · simp only [Function.comp_apply, if_neg hname, if_neg hother]

/-- A variable may be set before or after changes of other variables. -/
theorem set_setAll (h : name ∉ changes.map Prod.fst) (v : Value) :
    (store.setAll changes).set name v = (store.set name v).setAll changes := by
  induction changes generalizing store with
  | nil => rfl
  | cons change changes ih =>
      rw [List.map_cons, List.mem_cons, not_or] at h
      rw [setAll_cons, setAll_cons, ih h.2, set_comm (Ne.symm h.1)]

/-- A variable may be declared before or after changes of other variables. -/
theorem cons_setAll (h : name ∉ changes.map Prod.fst) (b : Binding) :
    setAll ⟨(name, b) :: store.entries⟩ changes
      = ⟨(name, b) :: (store.setAll changes).entries⟩ := by
  induction changes generalizing store with
  | nil => rfl
  | cons change changes ih =>
      rw [List.map_cons, List.mem_cons, not_or] at h
      have hset : set ⟨(name, b) :: store.entries⟩ change.1 change.2
          = ⟨(name, b) :: (store.set change.1 change.2).entries⟩ := by
        simp only [set, List.map_cons, if_neg h.1]
      rw [setAll_cons, setAll_cons, hset, ih h.2]

theorem setAll_append (changes more : List (String × Value)) :
    store.setAll (changes ++ more) = (store.setAll changes).setAll more :=
  List.foldl_append

end Store

namespace Session

/-- The second session is the first one after some changes. -/
def Overlays (changes : List (String × Value)) (s t : Session) : Prop :=
  t = { s with store := s.store.setAll changes }

/-- Some changes of the given variables have led from `s₀` to `s`, and the same ones from `t₀`
    to `t`. -/
def Echoes (targets : List String) (s₀ t₀ s t : Session) : Prop :=
  ∃ changes : List (String × Value), changes.map Prod.fst ⊆ targets ∧
    Overlays changes s₀ s ∧ Overlays changes t₀ t

variable {names : List String} {changes : List (String × Value)}

/-- Changes of variables that do not occur in a statement are not seen by it. -/
theorem unseen_overlays (h : ∀ name ∈ names, name ∉ changes.map Prod.fst) :
    Unseen names names (Overlays changes) where
  inside := by
    rintro s _ rfl name hname
    exact (Store.find?_setAll_of_notMem (h name hname)).symm
  assign := by
    rintro s _ name value pos u v rfl hname hu hv
    rw [Store.eq_of_assign hu, Store.eq_of_assign hv, Store.set_setAll (h name hname)]
    rfl
  input := by rintro s _ rfl; rfl
  sink := by rintro s _ rfl; rfl
  write := by rintro s _ sink rfl; rfl
  take := by rintro s _ input rfl; rfl
  warn := by rintro s _ warning rfl; rfl
  declare := by
    rintro s _ name type initial pos u v rfl hname hu hv
    rw [Store.eq_of_declare hu, Store.eq_of_declare hv, Overlays, Store.cons_setAll (h name hname)]

/-- Assigning to one of the variables in both sessions is one more change. -/
theorem agreeing_echoes {targets : List String} {s₀ t₀ : Session}
    (h : ∀ name ∈ names, s₀.store.find? name = t₀.store.find? name) :
    Agreeing names targets (Echoes targets s₀ t₀) where
  inside := by
    rintro _ _ ⟨changes, -, rfl, rfl⟩ name hname
    rw [Store.find?_setAll, Store.find?_setAll, h name hname]
  assign := by
    rintro _ _ name value pos u v ⟨changes, htargets, rfl, rfl⟩ hname hu hv
    refine ⟨changes ++ [(name, value)], ?_, ?_, ?_⟩
    · rw [List.map_append, List.append_subset]
      exact ⟨htargets, List.cons_subset.mpr ⟨hname, List.nil_subset _⟩⟩
    · rw [Overlays, Store.eq_of_assign hu, Store.setAll_append]
      rfl
    · rw [Overlays, Store.eq_of_assign hv, Store.setAll_append]
      rfl

/-- A variable that is not given a value is kept, as is seen if a session is run beside itself. -/
theorem unseen_kept {targets : List String} {name : String} (h : name ∉ targets)
    (b : Option Binding) :
    Unseen names targets fun s t => s = t ∧ s.store.find? name = b where
  inside := by
    rintro s _ ⟨rfl, -⟩ other _
    rfl
  assign := by
    rintro s _ other value pos u v ⟨rfl, hb⟩ hother hu hv
    have hne : name ≠ other := fun heq => h (heq ▸ hother)
    cases hu.symm.trans hv
    refine ⟨rfl, ?_⟩
    show u.find? name = b
    rw [Store.find?_assign hu, ← hb]
    simp only [hne, if_false, Option.map_id']
  input := by rintro s _ ⟨rfl, -⟩; rfl
  sink := by rintro s _ ⟨rfl, -⟩; rfl
  write := by rintro s _ sink ⟨rfl, hb⟩; exact ⟨rfl, hb⟩
  take := by rintro s _ input ⟨rfl, hb⟩; exact ⟨rfl, hb⟩
  warn := by rintro s _ warning ⟨rfl, hb⟩; exact ⟨rfl, hb⟩
  declare := by
    rintro s _ other type initial pos u v ⟨rfl, hb⟩ hother hu hv
    have hne : name ≠ other := fun heq => h (heq ▸ hother)
    cases hu.symm.trans hv
    refine ⟨rfl, ?_⟩
    show u.find? name = b
    rw [Store.find?_declare hu, if_neg hne, hb]

end Session

namespace Statement

open Primer.Action

/-- A statement leaves alone what it does not give a value to. -/
theorem exec_frame (cap : Nat) (st : Statement) {name : String} (h : name ∉ st.writes)
    (s : Session) : ((exec cap st).after s).store.find? name = s.store.find? name := by
  have hkept : Coupled (fun s' t' => s' = t' ∧ s'.store.find? name = s.store.find? name)
      (exec cap st) (exec cap st) :=
    exec_coupled (unseen_kept h _) cap (List.Subset.refl st.names) fun _ hstep _ =>
      writes_subset_of_mem hstep
  exact (hkept.after ⟨rfl, rfl⟩).2

/-- A statement ends alike whether changes that it does not see are made before it or not. -/
theorem exec_overlays {changes : List (String × Value)} (cap : Nat) {st : Statement}
    (h : ∀ name ∈ st.names, name ∉ changes.map Prod.fst) :
    Coupled (Overlays changes) (exec cap st) (exec cap st) :=
  exec_coupled (unseen_overlays h) cap (List.Subset.refl st.names) fun step _ hstep =>
    List.Subset.trans step.writes_subset hstep

/-- Two statements succeed one after the other if the second one does where the first one ends. -/
theorem run_execAll_pair {cap : Nat} {first second : Statement} {s t : Session} :
    (execAll cap [first, second]).run s = .ok () t ↔
      (exec cap first).fault? s = none ∧
        (exec cap second).fault? ((exec cap first).after s) = none ∧
        (exec cap second).after ((exec cap first).after s) = t := by
  rw [execAll, execAll_singleton, EStateM.run_bind, ← run_eq_ok]
  unfold fault? Action.after
  cases (exec cap first).run s with
  | ok _ mid => exact (and_iff_right rfl).symm
  | error e mid => exact iff_of_false (fun h => by cases h) (fun h => by cases h.1)

/-- Independent statements commute. The first one only assigns, chooses and repeats, and neither
    gives a value to a variable that occurs in the other. Then the one order succeeds from
    where the other does, and both end in the same session: with the same variables, output,
    warnings and input. -/
theorem exec_commute (cap : Nat) (first second : Statement)
    (hassigns : ∀ step ∈ first.steps, step.isAssign)
    (hfirst : ∀ name ∈ first.writes, name ∉ second.names)
    (hsecond : ∀ name ∈ second.writes, name ∉ first.names) (s t : Session) :
    (execAll cap [first, second]).run s = .ok () t ↔
      (execAll cap [second, first]).run s = .ok () t := by
  let mid := (exec cap first).after s
  let mid' := (exec cap second).after s
  -- The first statement makes the same changes from `s` as from where the second one ends.
  have hframe : ∀ name ∈ first.names, s.store.find? name = mid'.store.find? name :=
    fun name hname => (exec_frame cap second (fun h => hsecond name h hname) s).symm
  have hechoes : Coupled (Echoes first.writes s mid') (exec cap first) (exec cap first) :=
    exec_coupled_of_assigns cap hassigns (agreeing_echoes hframe)
  have hstart : Echoes first.writes s mid' s mid' := ⟨[], List.nil_subset _, rfl, rfl⟩
  obtain ⟨changes, htargets, hbefore, hafter⟩ := hechoes.after hstart
  -- The second statement does not see them, so it ends with them if it starts with them.
  have hoverlays : Coupled (Overlays changes) (exec cap second) (exec cap second) :=
    exec_overlays cap fun name hname hmem => hfirst name (htargets hmem) hname
  have hsame : (exec cap second).after mid = (exec cap first).after mid' :=
    (hoverlays.after hbefore).trans hafter.symm
  have hfault : (exec cap first).fault? s = (exec cap first).fault? mid' :=
    hechoes.fault?_eq hstart
  have hfault' : (exec cap second).fault? s = (exec cap second).fault? mid :=
    hoverlays.fault?_eq hbefore
  rw [run_execAll_pair, run_execAll_pair, hfault, hfault', hsame]
  exact and_left_comm

/-- A loop adds up the numbers from 1 to `n`, all but the first one under a condition. The other
    statement reads `n` too: it shows it, declares `m` twice, of which it warns, and reads a line
    into `m`. -/
theorem exec_commute_loop_and_scan :
    let pos : Position := ⟨2, 0⟩
    let lit (n : Int32) : Expr := .literal pos (.int n)
    let add (name : String) (e : Expr) : Statement :=
      .assign pos [name] (.arith pos .add (.var pos name) e)
    let first : Statement := .loop pos (.compare pos .lt (.var pos "i") (.var pos "n"))
      [add "i" (lit 1), .choose pos ⟨pos, .compare pos .gt (.var pos "i") (lit 1),
        [add "sum" (.var pos "i")]⟩ [] (some [.assign pos ["sum"] (lit 1)])]
    let second : Statement := .choose pos ⟨pos, .compare pos .lt (lit 0) (.var pos "n"),
      [.display pos (.var pos "n"), .declare pos .int [⟨pos, "m", none⟩, ⟨pos, "m", none⟩],
        .scan pos ["m"]]⟩ [] none
    let s : Session :=
      { store := ⟨[("sum", ⟨.int, .empty⟩), ("i", ⟨.int, .int 0⟩), ("n", ⟨.int, .int 4⟩)]⟩
        input := "7\n8\n".toUTF8.toList }
    let t := (execAll 5 [second, first]).after s
    (execAll 5 [second, first]).run s = .ok () t ∧
      (execAll 5 [first, second]).run s = .ok () t ∧
      t.store.find? "sum" = some ⟨.int, .int 10⟩ ∧ t.store.find? "m" = some ⟨.int, .int 7⟩ ∧
      t.input = "8\n".toUTF8.toList ∧ t.warnings.length = 1 := by
  intro pos lit add first second s t
  have hrun : (execAll 5 [second, first]).run s = .ok () t :=
    run_eq_ok.mpr ⟨by decide +kernel, rfl⟩
  have hcommute := exec_commute 5 first second (by decide +kernel) (by decide +kernel)
    (by decide +kernel) s t
  exact ⟨hrun, hcommute.mpr hrun, by decide +kernel, by decide +kernel, by decide +kernel,
    by decide +kernel⟩

end Statement

end Primer
