import Primer.Proofs.Step

/-!
# What a Step Leaves Alone

A session has four parts, and each step touches few of them. An assignment changes
variables and nothing else, a display the output, and a declaration either the variables or,
if its name is taken, the output and the warnings. Reading a line flushes the output first,
and it touches the input and the variables only if that could be done.

`Step.Effect` lists what a step can leave, whether it succeeds or fails, with what is known of
the session before in each case. The part that changes is left open where it takes a store
or a sink to describe it; all else stays as it was. What a step does to some part of the
session is then a look at seven cases, and nothing has to be run for it again.

## Main definitions

* `Action.StoreOnly`: The action changes variables and nothing else.
* `Step.Effect`: The sessions that a step can leave.

## Theorems

* `Step.run_declare_bound`: The declaration of a name that is taken is a warning.
* `Step.exec_effect`: A step leaves a session as its effect says.
-/

namespace Primer

open Session

namespace Action

variable {α β : Type}

theorem after_bind_of_ok {a : Action α} {f : α → Action β} {s s' : Session} {x : α}
    (h : a.run s = .ok x s') : (a >>= f).after s = (f x).after s' := by
  rw [Action.after, EStateM.run_bind, h]
  rfl

theorem after_bind_of_error {a : Action α} {f : α → Action β} {s s' : Session} {e : Fault}
    (h : a.run s = .error e s') : (a >>= f).after s = s' := by
  rw [Action.after, EStateM.run_bind, h]

/-- The action changes variables and nothing else. -/
def StoreOnly (a : Action α) : Prop :=
  ∀ s : Session, Keeps (fun t => ∃ store, t = { s with store }) a

namespace StoreOnly

theorem after {a : Action α} (h : StoreOnly a) (s : Session) :
    ∃ store, a.after s = { s with store } :=
  (h s).after ⟨s.store, rfl⟩

theorem bind {a : Action α} {f : α → Action β} (ha : StoreOnly a) (hf : ∀ x, StoreOnly (f x)) :
    StoreOnly (a >>= f) :=
  fun s => (ha s).bind fun x => hf x s

end StoreOnly

theorem storeOnly_pure (x : α) : StoreOnly (pure x : Action α) :=
  fun _ => meets_pure fun _ ht => ht

theorem storeOnly_throw (e : Fault) : StoreOnly (throw e : Action α) :=
  fun _ => meets_throw fun _ ht => ht

theorem storeOnly_reading (f : Store → Except Fault α) : StoreOnly (reading f) :=
  fun _ => Statement.reading_keeps f

theorem storeOnly_updating (u : Store.Update) : StoreOnly (updating u) := by
  intro s
  refine meets_updating ?_ ?_
  · rintro _ store ⟨_, rfl⟩ _
    exact ⟨store, rfl⟩
  · rintro _ e store ⟨_, rfl⟩ _
    exact ⟨store, rfl⟩

end Action

namespace Statement

open Primer.Action

theorem execAssign_storeOnly (pos : Position) (value : Value) (names : List String) :
    StoreOnly (execAssign pos value names) := by
  induction names with
  | nil => exact storeOnly_pure ()
  | cons name names ih => exact (storeOnly_updating _).bind fun _ => ih

theorem execPieces_storeOnly (pos : Position) (pairs : List (String × String)) :
    StoreOnly (execPieces pos pairs) := by
  induction pairs with
  | nil => exact storeOnly_pure ()
  | cons pair rest ih =>
      exact (storeOnly_reading _).bind fun _ => (storeOnly_reading _).bind fun _ =>
        (storeOnly_updating _).bind fun _ => ih

end Statement

namespace Step

open Primer.Action

/-- The sessions that a step can leave, if it finds the session `s`. -/
inductive Effect (s : Session) : Step → Session → Prop where
  /-- A free name is declared, or the attempt fails. -/
  | declared {type : DataType} {d : Declarator} (hfree : s.store.find? d.name = none)
      (store : Store) : Effect s (.declare type d) { s with store }
  /-- A name that is taken is left as it is, with a warning. -/
  | warned {type : DataType} {d : Declarator} {b : Binding} {sink : Sink}
      (hbound : s.store.find? d.name = some b)
      (hwrite : s.sink.write
        ((Fault.program d.pos (.redeclared d.name)).message ++ "\n").toUTF8 = (sink, true)) :
      Effect s (.declare type d)
        { s with sink, warnings := s.warnings ++ [.program d.pos (.redeclared d.name)] }
  /-- A warning that cannot be written is not recorded. -/
  | unwarned {type : DataType} {d : Declarator} {b : Binding} {sink : Sink}
      (hbound : s.store.find? d.name = some b)
      (hwrite : s.sink.write
        ((Fault.program d.pos (.redeclared d.name)).message ++ "\n").toUTF8 = (sink, false)) :
      Effect s (.declare type d) { s with sink }
  | assigned {pos : Position} {targets : List String} {e : Expr} (store : Store) :
      Effect s (.assign pos targets e) { s with store }
  | displayed {e : Expr} (sink : Sink) : Effect s (.display e) { s with sink }
  /-- A line is taken. What is wrong with it comes to light later. -/
  | scanned {pos : Position} {names : List String} (hflush : s.sink.stuck = false)
      (store : Store) :
      Effect s (.scan pos names)
        { s with store, sink := s.sink.flushed, input := (splitLine s.input).2 }
  /-- Nothing is read before the output has been flushed. -/
  | unread {pos : Position} {names : List String} (hflush : s.sink.stuck = true) :
      Effect s (.scan pos names) { s with sink := s.sink.flushed }

variable {s : Session}

theorem run_declare_free {d : Declarator} (hfree : s.store.find? d.name = none)
    (type : DataType) :
    (Step.declare type d).exec.run s = (do
      let initial ← reading fun store => d.initializer.mapM (Expr.eval store)
      updating (Store.declare d.name type initial d.pos) : Action Unit).run s := by
  simp only [Step.exec, Statement.execDeclarator, EStateM.run_bind, EStateM.run_get, hfree]

/-- The declaration of a name that is taken is the warning about it. Its type and its
    initial value do not matter. -/
theorem run_declare_bound {d : Declarator} {b : Binding}
    (hbound : s.store.find? d.name = some b) (type : DataType) :
    (Step.declare type d).exec.run s = (warn (.program d.pos (.redeclared d.name))).run s := by
  simp only [Step.exec, Statement.execDeclarator, EStateM.run_bind, EStateM.run_get, hbound]

theorem declare_effect (type : DataType) (d : Declarator) (s : Session) :
    Effect s (.declare type d) ((Step.declare type d).exec.after s) := by
  cases hfind : s.store.find? d.name with
  | none =>
      have hinit : StoreOnly (do
          let initial ← reading fun store => d.initializer.mapM (Expr.eval store)
          updating (Store.declare d.name type initial d.pos)) :=
        (storeOnly_reading _).bind fun _ => storeOnly_updating _
      rcases hinit.after s with ⟨store, hstore⟩
      rw [Action.after, run_declare_free hfind type, ← Action.after, hstore]
      exact .declared hfind store
  | some b =>
      rw [Action.after, run_declare_bound hfind type, ← Action.after]
      have hrun := run_write ((Fault.program d.pos (.redeclared d.name)).message ++ "\n") s
      rcases hw : s.sink.write ((Fault.program d.pos (.redeclared d.name)).message
        ++ "\n").toUTF8 with ⟨sink, taken⟩
      rw [hw] at hrun
      cases taken with
      | true =>
          rw [warn, after_bind_of_ok hrun]
          exact .warned hfind hw
      | false =>
          rw [warn, after_bind_of_error hrun]
          exact .unwarned hfind hw

theorem display_effect (e : Expr) (s : Session) :
    Effect s (.display e) ((Step.display e).exec.after s) := by
  have hwrite : ∀ text, Keeps (fun t => ∃ sink, t = { s with sink }) (write text) := by
    intro text
    refine meets_write ?_ ?_
    · rintro _ sink ⟨_, rfl⟩ _
      exact ⟨sink, rfl⟩
    · rintro _ sink ⟨_, rfl⟩ _
      exact ⟨sink, rfl⟩
  have hkeeps : Keeps (fun t => ∃ sink, t = { s with sink }) (Step.display e).exec :=
    (Statement.reading_keeps _).bind fun value => hwrite value.render
  rcases hkeeps.after ⟨s.sink, rfl⟩ with ⟨sink, hafter⟩
  rw [hafter]
  exact .displayed sink

theorem scan_effect (pos : Position) (names : List String) (s : Session) :
    Effect s (.scan pos names) ((Step.scan pos names).exec.after s) := by
  -- From the line on, only variables change.
  have hrest : ∀ line, StoreOnly (do
      let pieces := Input.pieces line
      if pieces.isEmpty || names.length < pieces.length then
        throw (.program pos (.inputCount names.length pieces.length))
      Statement.execPieces pos (names.zip pieces)) := by
    intro line
    dsimp only
    split
    · exact (storeOnly_throw _).bind fun _ => Statement.execPieces_storeOnly pos _
    · exact Statement.execPieces_storeOnly pos _
  have hflush := run_flush s
  have hline := run_readLine { s with sink := s.sink.flushed }
  cases hstuck : s.sink.stuck with
  | true =>
      rw [hstuck] at hflush
      rw [Step.exec, Statement.execScan, after_bind_of_error hflush]
      exact .unread hstuck
  | false =>
      rw [hstuck] at hflush
      rw [Step.exec, Statement.execScan, after_bind_of_ok hflush]
      cases htext : String.fromUTF8? (splitLine s.input).1.toByteArray with
      | none =>
          rw [htext] at hline
          rw [after_bind_of_error hline]
          exact .scanned hstuck s.store
      | some line =>
          rw [htext] at hline
          rw [after_bind_of_ok hline]
          rcases (hrest line).after
            { s with sink := s.sink.flushed, input := (splitLine s.input).2 } with ⟨store, hstore⟩
          rw [hstore]
          exact .scanned hstuck store

/-- A step leaves a session as its effect says. -/
theorem exec_effect (step : Step) (s : Session) : Effect s step (step.exec.after s) := by
  cases step with
  | declare type d => exact declare_effect type d s
  | assign pos targets e =>
      have honly : StoreOnly (Step.assign pos targets e).exec :=
        (storeOnly_reading _).bind fun value => Statement.execAssign_storeOnly pos value targets
      rcases honly.after s with ⟨store, hstore⟩
      rw [hstore]
      exact .assigned store
  | display e => exact display_effect e s
  | scan pos names => exact scan_effect pos names s

end Step

end Primer
