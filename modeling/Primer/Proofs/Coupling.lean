import Primer.Proofs.Action

/-!
# Two Runs Side by Side

What two runs have in common is stated by a relation between their sessions. Two actions
are coupled by a relation if they lead from related sessions to related ones and end in
the same way: both succeed with the same result, or both fail with the same fault.

As with the conditions on a single run, there is one rule for each way actions are put
together. The relation is the same at the start and at both ends, so the rules need no
condition in the middle, and the rule for two actions in order has nothing to say about
the session between them. Of a basic action it has to be known that it cannot tell two
related sessions apart, and that what it does to both keeps them related.

## Main definitions

* `Action.Alike`: Two runs have ended in the same way, in related sessions.
* `Action.Coupled`: Two actions that cannot be told apart from related sessions.

## Theorems

* `Action.Coupled.bind`: Actions put together.
* `Action.coupled_pure`, `Action.coupled_throw`, `Action.coupled_get_bind`,
  `Action.coupled_modify`, `Action.coupled_reading`, `Action.coupled_updating`,
  `Action.coupled_write`, `Action.coupled_flush`, `Action.coupled_readLine`: The basic
  actions.
* `Action.Coupled.fault?_eq`, `Action.Coupled.after`: What coupled actions say of whole
  runs.
-/

namespace Primer

namespace Action

variable {α β : Type}

/-- Both runs have succeeded with the same result or failed with the same fault, and the
    sessions they leave are related. -/
inductive Alike (R : Session → Session → Prop) :
    EStateM.Result Fault Session α → EStateM.Result Fault Session α → Prop where
  | ok (x : α) {s t : Session} (h : R s t) : Alike R (.ok x s) (.ok x t)
  | error (e : Fault) {s t : Session} (h : R s t) : Alike R (.error e s) (.error e t)

/-- From related sessions the two actions end alike. -/
def Coupled (R : Session → Session → Prop) (a b : Action α) : Prop :=
  ∀ s t, R s t → Alike R (a.run s) (b.run t)

variable {R : Session → Session → Prop}

theorem Coupled.fault?_eq {a b : Action α} (h : Coupled R a b) {s t : Session} (hst : R s t) :
    a.fault? s = b.fault? t := by
  have hend := h s t hst
  unfold fault?
  generalize a.run s = r, b.run t = r' at hend ⊢
  cases hend with
  | ok x _ => rfl
  | error e _ => rfl

theorem Coupled.after {a b : Action α} (h : Coupled R a b) {s t : Session} (hst : R s t) :
    R (a.after s) (b.after t) := by
  have hend := h s t hst
  unfold Action.after
  generalize a.run s = r, b.run t = r' at hend ⊢
  cases hend with
  | ok x h => exact h
  | error e h => exact h

/-- Two runs that have ended alike go on alike, or have failed for good. -/
theorem Coupled.bind {a b : Action α} {f g : α → Action β} (hab : Coupled R a b)
    (hfg : ∀ x, Coupled R (f x) (g x)) : Coupled R (a >>= f) (b >>= g) := by
  intro s t hst
  have hmid := hab s t hst
  rw [EStateM.run_bind, EStateM.run_bind]
  generalize a.run s = r, b.run t = r' at hmid ⊢
  cases hmid with
  | @ok x s' t' h => exact hfg x s' t' h
  | error e h => exact .error e h

theorem coupled_pure (x : α) : Coupled R (pure x : Action α) (pure x) :=
  fun _ _ h => .ok x h

theorem coupled_throw (e : Fault) : Coupled R (throw e : Action α) (throw e) :=
  fun _ _ h => .error e h

/-- What an action does after it has looked at its session may be compared there. -/
theorem coupled_get_bind {f g : Session → Action α}
    (h : ∀ s t, R s t → Alike R ((f s).run s) ((g t).run t)) :
    Coupled R (get >>= f) (get >>= g) :=
  fun s t hst => h s t hst

theorem coupled_modify {f g : Session → Session} (h : ∀ s t, R s t → R (f s) (g t)) :
    Coupled R (modify f : Action Unit) (modify g) :=
  fun s t hst => .ok () (h s t hst)

theorem coupled_reading {f g : Store → Except Fault α}
    (h : ∀ s t, R s t → f s.store = g t.store) :
    Coupled R (Session.reading f) (Session.reading g) := by
  intro s t hst
  rw [Session.run_reading, Session.run_reading, h s t hst]
  cases g t.store with
  | ok x => exact .ok x hst
  | error e => exact .error e hst

/-- Both changes are refused for the same reason, or both are made and keep the sessions
    related. -/
theorem coupled_updating {f g : Store.Update}
    (h : ∀ s t, R s t →
      (∃ e, f.run s.store = .error e s.store ∧ g.run t.store = .error e t.store) ∨
        ∃ u v, f.run s.store = .ok () u ∧ g.run t.store = .ok () v ∧
          R { s with store := u } { t with store := v }) :
    Coupled R (Session.updating f) (Session.updating g) := by
  intro s t hst
  rw [Session.run_updating, Session.run_updating]
  rcases h s t hst with ⟨e, hf, hg⟩ | ⟨u, v, hf, hg, hnext⟩
  · rw [hf, hg]
    exact .error e hst
  · rw [hf, hg]
    exact .ok () hnext

theorem coupled_write (hsink : ∀ s t, R s t → s.sink = t.sink)
    (hR : ∀ s t sink, R s t → R { s with sink } { t with sink }) (text : String) :
    Coupled R (Session.write text) (Session.write text) := by
  intro s t hst
  rw [Session.run_write, Session.run_write, hsink s t hst]
  rcases t.sink.write text.toUTF8 with ⟨sink, taken⟩
  cases taken with
  | true => exact .ok () (hR s t sink hst)
  | false => exact .error _ (hR s t sink hst)

theorem coupled_flush (hsink : ∀ s t, R s t → s.sink = t.sink)
    (hR : ∀ s t sink, R s t → R { s with sink } { t with sink }) :
    Coupled R Session.flush Session.flush := by
  intro s t hst
  rw [Session.run_flush, Session.run_flush, hsink s t hst]
  cases t.sink.stuck with
  | true => exact .error _ (hR s t _ hst)
  | false => exact .ok () (hR s t _ hst)

theorem coupled_readLine (hinput : ∀ s t, R s t → s.input = t.input)
    (hR : ∀ s t input, R s t → R { s with input } { t with input }) :
    Coupled R Session.readLine Session.readLine := by
  intro s t hst
  rw [Session.run_readLine, Session.run_readLine, hinput s t hst]
  -- A line that is no text is taken all the same, on both sides.
  cases String.fromUTF8? (Session.splitLine t.input).1.toByteArray with
  | some text => exact .ok text (hR s t _ hst)
  | none => exact .error _ (hR s t _ hst)

end Action

end Primer
