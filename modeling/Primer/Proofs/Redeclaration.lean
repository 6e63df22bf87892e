import Primer.Proofs.Diagnostics
import Primer.Proofs.History
import Primer.Proofs.Limit

/-!
# A Second Declaration Is Only a Warning

What happens when a name is declared that is already taken: the program says so, on a line
of its own, and goes on. The variable keeps its value and its type, and the initial value of
the second declaration is not even computed. So a run never fails with this cause, and what
its warnings say can be read off its history: they are the declarations that found their
name taken, in order.

That no run fails with it is a matter of causes alone. Each fault is raised by the evaluation
of an expression, by storing a value, by a loop or by a channel, and wherever it is raised the
grammar knows a lexeme that it points at. A second declaration is the one cause that points
at none, so the lemmas about where faults point exclude it.

The rest is told along the path of the run. One step adds at most one warning, and if the
output takes everything and the step is no display, what it adds to the output is the text of
that warning. Both add up over the steps.

## Main definitions

* `Action.Fatal`: Every fault of the action ends the program.
* `Moment.warning?`: The warning that a step gives.
* `Moment.Redeclares`: What a step does that gives a warning.
* `Fault.notices`: The text of some warnings.

## Theorems

* `Statement.exec_fatal`: Every fault of a statement ends the program.
* `Moment.warnings_after`, `Moment.written_after`: The warning and the output of one step.
* `Path.warnings_eq`, `Path.written_eq`: The warnings and the output of a run.
* `Statement.exec_redeclares`: A second declaration is a warning and has no other effect.
-/

namespace Primer

open Session

/-- A fault that points at a lexeme ends the program. -/
theorem Fault.Points.isFatal {ls : List Lexeme} {e : Fault} (h : e.Points ls) :
    e.isFatal = true := by
  cases e with
  | channel fault => rfl
  | program pos cause =>
      rcases h with ⟨t, -, hblames⟩
      cases cause with
      | redeclared name => exact absurd hblames id
      | _ => rfl

namespace Input

theorem read_traced (type : DataType) (text : String) (pos : Position) :
    Traced [⟨.keyword .scanKw, pos⟩] (read type text pos) := by
  unfold read
  split
  · exact traced_ok _
  · exact traced_error ⟨_, List.mem_cons_self, rfl⟩

end Input

namespace Action

variable {α β : Type} {ls : List Lexeme}

/-- Every fault of the action ends the program. -/
def Fatal (a : Action α) : Prop :=
  Meets (fun _ => True) a (fun _ _ => True) (fun e _ => e.isFatal = true)

theorem fatal_pure (x : α) : Fatal (pure x : Action α) :=
  meets_pure fun _ _ => trivial

theorem Fatal.bind {a : Action α} {f : α → Action β} (ha : Fatal a) (hf : ∀ x, Fatal (f x)) :
    Fatal (a >>= f) :=
  Meets.bind ha hf

theorem fatal_throw {e : Fault} (h : e.isFatal = true) : Fatal (throw e : Action α) :=
  meets_throw fun _ _ => h

theorem fatal_reading {f : Store → Except Fault α} (h : ∀ store, ∃ ls, Traced ls (f store)) :
    Fatal (reading f) :=
  meets_reading (fun _ _ _ _ => trivial) fun s e _ he =>
    (h s.store).elim fun _ htraced => (htraced e he).isFatal

theorem fatal_eval (e : Expr) : Fatal (reading fun store => e.eval store) :=
  fatal_reading fun store => e.exists_lexemes.elim fun ls h => ⟨ls, h.eval_traced store⟩

theorem fatal_write (text : String) : Fatal (write text) :=
  meets_write (fun _ _ _ _ => trivial) (fun _ _ _ _ => rfl)

theorem composable_fatal : Composable fun _ a => Fatal a where
  pure := fatal_pure
  bind := Fatal.bind
  guard e pos := by
    refine fatal_reading fun store => ?_
    rcases e.exists_lexemes with ⟨ls, hspelled⟩
    refine ⟨⟨.keyword .ifKw, pos⟩ :: ls, Traced.bind ?_ fun v => ?_⟩
    · exact (hspelled.eval_traced store).mono (List.subset_cons_self _ _)
    · exact (v.condition_traced (.inl rfl)).of_mem List.mem_cons_self
  endless pos := fatal_throw rfl

end Action

namespace Statement

open Primer.Action

theorem execDeclarator_fatal (type : DataType) (d : Declarator) :
    Fatal (execDeclarator type d) := by
  refine Meets.bind (Q := fun x s => x = s) (meets_get fun s _ => rfl) fun x => ?_
  cases hfind : x.store.find? d.name with
  | some b =>
      have hwarn : Fatal (warn (.program d.pos (.redeclared d.name))) :=
        (fatal_write _).bind fun _ => meets_modify fun _ _ => trivial
      exact hwarn.mono (fun _ _ => trivial) (fun _ _ h => h) (fun _ _ h => h)
  | none =>
      -- The name is still free when it is declared.
      refine Meets.bind (Q := fun _ s => s = x) ?_ fun initial => ?_
      · refine meets_reading (fun _ _ hs _ => hs.symm) fun s e _ he => ?_
        cases hinit : d.initializer with
        | none => rw [hinit] at he; cases he
        | some e' =>
            rw [hinit] at he
            rcases e'.exists_lexemes with ⟨ls, hspelled⟩
            have htraced : Traced ls ((some e').mapM (Expr.eval s.store)) :=
              (hspelled.eval_traced s.store).bind fun _ => traced_ok _
            exact (htraced e he).isFatal
      · refine meets_updating (fun _ _ _ _ => trivial) ?_
        rintro s e store rfl he
        exact (Store.declare_points (List.mem_singleton_self _) hfind he).isFatal

theorem updating_assign_fatal (name : String) (value : Value) (pos : Position) :
    Fatal (updating (Store.assign name value pos)) :=
  meets_updating (fun _ _ _ _ => trivial) fun _ _ _ _ he =>
    (Store.assign_points (List.mem_singleton_self (⟨.identifier name, pos⟩ : Lexeme)) he).isFatal

theorem execAssign_fatal (pos : Position) (value : Value) (names : List String) :
    Fatal (execAssign pos value names) := by
  induction names with
  | nil => exact fatal_pure ()
  | cons name names ih => exact (updating_assign_fatal name value pos).bind fun _ => ih

theorem execPieces_fatal (pos : Position) (pairs : List (String × String)) :
    Fatal (execPieces pos pairs) := by
  induction pairs with
  | nil => exact fatal_pure ()
  | cons pair rest ih =>
      rcases pair with ⟨name, piece⟩
      have htype : Fatal (reading fun store => store.type name pos) :=
        fatal_reading fun store => ⟨_, store.type_traced name⟩
      have hread : ∀ type, Fatal (reading fun _ => Input.read type piece pos) := fun type =>
        fatal_reading fun _ => ⟨_, Input.read_traced type piece pos⟩
      exact htype.bind fun type => (hread type).bind fun value =>
        (updating_assign_fatal name value pos).bind fun _ => ih

theorem execScan_fatal (pos : Position) (names : List String) :
    Fatal (execScan pos names) := by
  unfold execScan
  refine Fatal.bind (meets_flush (fun _ _ _ => trivial) (fun _ _ _ => rfl)) fun _ => ?_
  refine Fatal.bind (meets_readLine (fun _ _ _ => trivial) (fun _ _ => rfl)) fun line => ?_
  dsimp only
  split
  · exact Fatal.bind (fatal_throw rfl) fun _ => execPieces_fatal pos _
  · exact execPieces_fatal pos _

theorem step_fatal (step : Step) : Fatal step.exec := by
  cases step with
  | declare type d => exact execDeclarator_fatal type d
  | assign pos targets e =>
      exact (fatal_eval e).bind fun value => execAssign_fatal pos value targets
  | display e => exact (fatal_eval e).bind fun value => fatal_write value.render
  | scan pos names => exact execScan_fatal pos names

/-- Every fault of a statement ends the program. -/
theorem exec_fatal (cap : Nat) (st : Statement) : Fatal (exec cap st) :=
  exec_of_steps composable_fatal cap st fun step _ => step_fatal step

end Statement

namespace Fault

/-- The text of some warnings, each on a line of its own. -/
def notices (ws : List Fault) : String :=
  String.join (ws.map fun w => w.message ++ "\n")

theorem notices_singleton (w : Fault) : notices [w] = w.message ++ "\n" := by
  rw [notices, List.map_singleton, String.join_cons, String.join_nil, String.append_empty]

theorem notices_append (ws ws' : List Fault) :
    notices (ws ++ ws') = notices ws ++ notices ws' := by
  rw [notices, List.map_append, String.join_append]
  rfl

end Fault

namespace Sink

/-- The sink with a text added to what has been written. -/
def appended (sink : Sink) (text : String) : Sink :=
  { sink with written := sink.written ++ text.toUTF8 }

theorem appended_empty (sink : Sink) : sink.appended "" = sink := by
  have hempty : "".toUTF8 = ByteArray.empty := rfl
  rw [appended, hempty, ByteArray.append_empty]

theorem appended_append (sink : Sink) (text text' : String) :
    sink.appended (text ++ text') = (sink.appended text).appended text' := by
  simp only [appended, String.toUTF8_eq_toByteArray, String.toByteArray_append,
    ByteArray.append_assoc]

end Sink

namespace Moment

open Primer.Action

/-- The warning that a step gives: it declares a name that is taken, and the output has room
    for the warning. -/
def warning? (m : Moment) : Option Fault :=
  match m.step with
  | .declare _ d =>
      let warning : Fault := .program d.pos (.redeclared d.name)
      if (m.before.store.find? d.name).isSome
          && (m.before.sink.write (warning.message ++ "\n").toUTF8).2 then
        some warning
      else none
  | _ => none

/-- The step declares a name that is taken and warns about it. The initial value of the
    declaration makes no difference, and the variables stay as they are. -/
def Redeclares (m : Moment) (warning : Fault) : Prop :=
  ∃ type d b, m.step = .declare type d ∧ warning = .program d.pos (.redeclared d.name) ∧
    m.before.store.find? d.name = some b ∧
    (∀ initializer, (Statement.execDeclarator type { d with initializer }).run m.before
      = (Statement.execDeclarator type d).run m.before) ∧
    (m.step.exec.after m.before).store = m.before.store

section Declaration

variable {s : Session} {type : DataType} {d : Declarator}

theorem warning?_free (hfree : s.store.find? d.name = none) :
    warning? ⟨.declare type d, s⟩ = none := by
  simp only [warning?, hfree, Option.isSome_none, Bool.false_and, Bool.false_eq_true, if_false]

theorem warning?_bound {b : Binding} {sink : Sink} {taken : Bool}
    (hbound : s.store.find? d.name = some b)
    (hwrite : s.sink.write
      ((Fault.program d.pos (.redeclared d.name)).message ++ "\n").toUTF8 = (sink, taken)) :
    warning? ⟨.declare type d, s⟩
      = if taken then some (.program d.pos (.redeclared d.name)) else none := by
  simp only [warning?, hbound, hwrite, Option.isSome_some, Bool.true_and]

end Declaration

theorem redeclares_of_warning? {m : Moment} {w : Fault} (h : m.warning? = some w) :
    m.Redeclares w := by
  rcases m with ⟨step, s⟩
  have heffect := step.exec_effect s
  dsimp only [Redeclares]
  generalize step.exec.after s = t at heffect ⊢
  cases heffect with
  | declared hfree store =>
      rw [warning?_free hfree] at h
      cases h
  | @warned type d b sink hbound hwrite =>
      rw [warning?_bound hbound hwrite] at h
      refine ⟨type, d, b, rfl, (Option.some.inj h).symm, hbound, fun initializer => ?_, rfl⟩
      have hsame : ({ d with initializer } : Declarator).name = d.name := rfl
      exact (Step.run_declare_bound (hsame ▸ hbound) type).trans
        (Step.run_declare_bound hbound type).symm
  | unwarned hbound hwrite =>
      rw [warning?_bound hbound hwrite] at h
      cases h
  | _ => cases h

/-- A step adds its warning, if it gives one. -/
theorem warnings_after (m : Moment) :
    (m.step.exec.after m.before).warnings = m.before.warnings ++ m.warning?.toList := by
  rcases m with ⟨step, s⟩
  have heffect := step.exec_effect s
  generalize step.exec.after s = t at heffect ⊢
  cases heffect with
  | declared hfree store =>
      rw [warning?_free hfree]
      exact (List.append_nil _).symm
  | warned hbound hwrite =>
      rw [warning?_bound hbound hwrite]
      rfl
  | unwarned hbound hwrite =>
      rw [warning?_bound hbound hwrite]
      exact (List.append_nil _).symm
  | _ => exact (List.append_nil _).symm

/-- If the output takes everything, a step that is no display writes its warning. -/
theorem written_after {m : Moment} (hroom : m.before.sink.room = none)
    (hdisplay : ∀ e, m.step ≠ .display e) :
    (m.step.exec.after m.before).sink.room = none ∧
      (m.step.exec.after m.before).sink.written
        = (m.before.sink.appended (Fault.notices m.warning?.toList)).written := by
  rcases m with ⟨step, s⟩
  have heffect := step.exec_effect s
  have hnone : s.sink.written = (s.sink.appended "").written := by rw [Sink.appended_empty]
  generalize step.exec.after s = t at heffect ⊢
  cases heffect with
  | declared hfree store =>
      rw [warning?_free hfree]
      exact ⟨hroom, hnone⟩
  | warned hbound hwrite =>
      rw [warning?_bound hbound hwrite, if_pos rfl, Option.toList_some, Fault.notices_singleton]
      rw [Sink.write_unlimited hroom, Prod.mk.injEq] at hwrite
      rcases hwrite with ⟨rfl, -⟩
      exact ⟨hroom, rfl⟩
  | unwarned hbound hwrite =>
      rw [Sink.write_unlimited hroom] at hwrite
      cases hwrite
  | displayed sink => exact absurd rfl (hdisplay _)
  | _ => exact ⟨hroom, hnone⟩

end Moment

namespace Path

variable {steps : List Step} {s t : Session} {ms : List Moment}

/-- The warnings of a run are those of its steps. -/
theorem warnings_eq (h : Path steps s ms t) :
    t.warnings = s.warnings ++ ms.filterMap Moment.warning? := by
  induction h with
  | nil s => exact (List.append_nil _).symm
  | @cons step s t ms _ _ ih =>
      rw [ih, Moment.warnings_after ⟨step, s⟩, List.append_assoc, List.filterMap_cons]
      cases Moment.warning? ⟨step, s⟩ <;> rfl

/-- If the output takes everything and nothing is displayed, a run writes its warnings. -/
theorem written_eq (h : Path steps s ms t) (hroom : s.sink.room = none)
    (hdisplay : ∀ e, Step.display e ∉ steps) :
    t.sink.written = (s.sink.appended (Fault.notices (ms.filterMap Moment.warning?))).written := by
  induction h with
  | nil s => exact (congrArg Sink.written s.sink.appended_empty).symm
  | @cons step s t ms hstep _ ih =>
      have hne : ∀ e, step ≠ .display e := fun e he => hdisplay e (he ▸ hstep)
      rcases Moment.written_after (m := ⟨step, s⟩) hroom hne with ⟨hroom', hwritten⟩
      calc t.sink.written
          = ((step.exec.after s).sink.appended
              (Fault.notices (ms.filterMap Moment.warning?))).written := ih hroom'
        _ = ((s.sink.appended (Fault.notices (Moment.warning? ⟨step, s⟩).toList)).appended
              (Fault.notices (ms.filterMap Moment.warning?))).written :=
            congrArg (· ++ (Fault.notices (ms.filterMap Moment.warning?)).toUTF8) hwritten
        _ = (s.sink.appended (Fault.notices
              ((⟨step, s⟩ :: ms).filterMap Moment.warning?))).written := by
            rw [← Sink.appended_append, ← Fault.notices_append, List.filterMap_cons]
            cases Moment.warning? ⟨step, s⟩ <;> rfl

end Path

namespace Statement

/-- A second declaration is a warning and has no other effect. No statement fails with it. The
    warnings that a statement adds are those of the declarations that find their name taken,
    which leave the variables as they are and do not compute their initial value. And where
    the output takes everything, a statement that displays nothing writes these warnings, each
    on a line of its own, whatever else it fails with. -/
theorem exec_redeclares (cap : Nat) (st : Statement) (s : Session) :
    let added := (history cap st s).filterMap Moment.warning?
    (∀ e, (exec cap st).fault? s = some e →
      e.isFatal = true ∧ ∀ pos name, e ≠ .program pos (.redeclared name)) ∧
    ((exec cap st).after s).warnings = s.warnings ++ added ∧
    (∀ m ∈ history cap st s, ∀ w, m.warning? = some w → m.Redeclares w) ∧
    (s.sink.room = none → (∀ e, Step.display e ∉ st.steps) →
      ((exec cap st).after s).sink.written =
        s.sink.written ++ (Fault.notices added).toUTF8) := by
  intro added
  have hpath := exec_records cap st s
  refine ⟨fun e he => ?_, hpath.warnings_eq, fun m _ w hw => ?_, fun hroom hdisplay => ?_⟩
  · have hend := exec_fatal cap st s trivial
    rw [Action.fault?_eq_some.mp he] at hend
    refine ⟨hend, ?_⟩
    rintro pos name rfl
    cases hend
  · exact Moment.redeclares_of_warning? hw
  · exact hpath.written_eq hroom hdisplay

/-- The second of three declarations repeats the name of the first, with an initial value that
    would divide by zero, and the third one fails for a missing variable. -/
theorem exec_redeclares_before_fault :
    let pos : Position := ⟨2, 0⟩
    let quotient : Expr := .arith pos .div (.literal pos (.int 1)) (.literal pos (.int 0))
    let first : Declarator := ⟨⟨2, 4⟩, "x", none⟩
    let second : Declarator := ⟨⟨2, 7⟩, "x", some quotient⟩
    let third : Declarator := ⟨⟨2, 16⟩, "y", some (.var ⟨2, 20⟩ "z")⟩
    let st : Statement := .declare pos .int [first, second, third]
    let m : Moment := ⟨.declare .int second, (execDeclarator .int first).after {}⟩
    let warning : Fault := .program ⟨2, 7⟩ (.redeclared "x")
    let fault : Fault := .program ⟨2, 20⟩ (.undefined "z")
    (exec 9 st).fault? {} = some fault ∧ fault.isFatal = true ∧
      ((exec 9 st).after {}).warnings = [warning] ∧
      m ∈ history 9 st {} ∧ m.warning? = some warning ∧ m.Redeclares warning ∧
      (∀ e, Step.display e ∉ st.steps) ∧
      ((exec 9 st).after {}).sink.written = (warning.message ++ "\n").toUTF8 := by
  intro pos quotient first second third st m warning fault
  have hfault : (exec 9 st).fault? {} = some fault := by decide +kernel
  have hhistory : history 9 st {} = [⟨.declare .int first, {}⟩, m,
      ⟨.declare .int third, (execDeclarator .int second).after m.before⟩] := rfl
  have hmem : m ∈ history 9 st {} := by
    rw [hhistory]
    exact List.mem_cons_of_mem _ List.mem_cons_self
  have hwarning : m.warning? = some warning := by decide +kernel
  have hdisplay : ∀ e, Step.display e ∉ st.steps := by
    intro e he
    simp [st, steps] at he
  have hall := exec_redeclares 9 st {}
  refine ⟨hfault, (hall.1 fault hfault).1, ?_, hmem, hwarning, ?_, hdisplay, ?_⟩
  · exact hall.2.1.trans (by decide +kernel)
  · exact hall.2.2.1 m hmem warning hwarning
  · exact (hall.2.2.2 rfl hdisplay).trans (by decide +kernel)

end Statement

end Primer
