import Primer.Session

/-!
# Reasoning About Actions

What an action does, stated by conditions on the session before and after it.

An action that fails keeps what it did before the failure, so a statement about
it has to speak of two ends: the session an action leaves when it succeeds, and
the one it leaves when it fails. `Meets` therefore has one condition for the start
and two for the end. A property that holds throughout is the case in which all
three agree, and `Keeps` is the name of that case.

The rules below are one for each way actions are put together and one for each
basic action. A proof about statements then follows the statement, and never looks
at how a session is passed along.

## Main definitions

* `Action.Meets`: An action leads from one condition to others.
* `Action.Keeps`: An action preserves a property, whether it succeeds or fails.
* `Action.after`: The session an action leaves.
* `Action.fault?`: The fault an action fails with.

## Theorems

* `Action.Meets.bind`, `Action.Meets.mono`, `Action.meets_of_fact`: The rules for
  putting actions and conditions together.
* `Action.meets_pure`, `Action.meets_throw`, `Action.meets_get`, `Action.meets_modify`,
  `Action.meets_reading`, `Action.meets_updating`, `Action.meets_atomic`,
  `Action.meets_write`, `Action.meets_flush`, `Action.meets_readLine_text`: The rules for the
  basic actions.
* `Action.run_eq_ok`, `Action.fault?_eq_some`: A run, by the fault and the session left.
* `Action.Meets.after`, `Action.Meets.fault`: What the ends say of the session left and of the
  fault.
-/

namespace Primer

namespace Action

variable {α β : Type}

/-- Started where `P` holds, the action succeeds where `Q` holds of its result or
    fails where `E` holds of its fault. -/
def Meets (P : Session → Prop) (a : Action α) (Q : α → Session → Prop)
    (E : Fault → Session → Prop) : Prop :=
  ∀ s, P s →
    match a.run s with
    | .ok x s' => Q x s'
    | .error e s' => E e s'

/-- The action preserves `P`, whether it succeeds or fails. -/
def Keeps (P : Session → Prop) (a : Action α) : Prop :=
  Meets P a (fun _ => P) (fun _ => P)

/-- The session that an action leaves, whether it succeeds or fails. -/
def after (a : Action α) (s : Session) : Session :=
  match a.run s with
  | .ok _ s' => s'
  | .error _ s' => s'

/-- The fault that an action fails with, if it fails. -/
def fault? (a : Action α) (s : Session) : Option Fault :=
  match a.run s with
  | .ok _ _ => none
  | .error e _ => some e

variable {P P' : Session → Prop} {Q Q' : α → Session → Prop} {R : β → Session → Prop}
  {E E' : Fault → Session → Prop}

theorem after_of_ok {a : Action α} {s s' : Session} {x : α} (h : a.run s = .ok x s') :
    a.after s = s' := by
  rw [Action.after, h]

theorem after_of_error {a : Action α} {s s' : Session} {e : Fault} (h : a.run s = .error e s') :
    a.after s = s' := by
  rw [Action.after, h]

theorem fault?_eq_some {a : Action α} {s : Session} {e : Fault} :
    a.fault? s = some e ↔ a.run s = .error e (a.after s) := by
  unfold fault? Action.after
  cases a.run s <;> simp

theorem run_eq_ok {a : Action Unit} {s t : Session} :
    a.run s = .ok () t ↔ a.fault? s = none ∧ a.after s = t := by
  unfold fault? Action.after
  cases a.run s <;> simp

/-- What both ends have in common is known of the session left. -/
theorem Meets.after {a : Action α} (h : Meets P a Q E) {s : Session} (hs : P s)
    (hQ : ∀ x s', Q x s' → P' s') (hE : ∀ e s', E e s' → P' s') : P' (a.after s) := by
  have hend := h s hs
  cases hrun : a.run s with
  | ok x s' => rw [hrun] at hend; rw [after_of_ok hrun]; exact hQ x s' hend
  | error e s' => rw [hrun] at hend; rw [after_of_error hrun]; exact hE e s' hend

theorem Meets.fault {a : Action α} (h : Meets P a Q E) {s : Session} (hs : P s) {e : Fault}
    (he : a.fault? s = some e) : E e (a.after s) := by
  have hend := h s hs
  rw [fault?_eq_some.mp he] at hend
  exact hend

theorem Keeps.after {a : Action α} (h : Keeps P a) {s : Session} (hs : P s) :
    P (a.after s) :=
  Meets.after h hs (fun _ _ hs' => hs') (fun _ _ hs' => hs')

/-- The start may be narrowed and the ends widened. -/
theorem Meets.mono {a : Action α} (h : Meets P a Q E) (hP : ∀ s, P' s → P s)
    (hQ : ∀ x s, Q x s → Q' x s) (hE : ∀ e s, E e s → E' e s) : Meets P' a Q' E' := by
  intro s hs
  have hend := h s (hP s hs)
  cases hrun : a.run s with
  | ok x s' => rw [hrun] at hend; exact hQ x s' hend
  | error e s' => rw [hrun] at hend; exact hE e s' hend

/-- Two actions in order meet in the middle. A fault of the first one is already
    the fault of both. -/
theorem Meets.bind {a : Action α} {f : α → Action β} (ha : Meets P a Q E)
    (hf : ∀ x, Meets (Q x) (f x) R E) : Meets P (a >>= f) R E := by
  intro s hs
  have hmid := ha s hs
  rw [EStateM.run_bind]
  cases hrun : a.run s with
  | ok x s' => rw [hrun] at hmid; exact hf x s' hmid
  | error e s' => rw [hrun] at hmid; exact hmid

/-- What the start says beside the session may be used in the proof. -/
theorem meets_of_fact {fact : Prop} {a : Action α} (h : fact → Meets P a Q E) :
    Meets (fun s => fact ∧ P s) a Q E :=
  fun s hs => h hs.1 s hs.2

theorem meets_pure {x : α} (h : ∀ s, P s → Q x s) : Meets P (pure x) Q E :=
  fun s hs => h s hs

theorem meets_throw {e : Fault} (h : ∀ s, P s → E e s) : Meets P (throw e : Action α) Q E :=
  fun s hs => h s hs

theorem meets_get {Q : Session → Session → Prop} (h : ∀ s, P s → Q s s) : Meets P get Q E :=
  fun s hs => h s hs

theorem meets_modify {f : Session → Session} {Q : Unit → Session → Prop}
    (h : ∀ s, P s → Q () (f s)) : Meets P (modify f) Q E :=
  fun s hs => h s hs

theorem meets_reading {f : Store → Except Fault α}
    (hok : ∀ s x, P s → f s.store = .ok x → Q x s)
    (herr : ∀ s e, P s → f s.store = .error e → E e s) : Meets P (Session.reading f) Q E := by
  intro s hs
  rw [Session.run_reading]
  cases hf : f s.store with
  | ok x => exact hok s x hs hf
  | error e => exact herr s e hs hf

theorem meets_updating {u : Store.Update} {Q : Unit → Session → Prop}
    (hok : ∀ s store, P s → u.run s.store = .ok () store → Q () { s with store })
    (herr : ∀ s e store, P s → u.run s.store = .error e store → E e { s with store }) :
    Meets P (Session.updating u) Q E := by
  intro s hs
  rw [Session.run_updating]
  cases hu : u.run s.store with
  | ok _ store => exact hok s store hs hu
  | error e store => exact herr s e store hs hu

/-- If a change is refused as a whole, the session is what it was. -/
theorem meets_atomic {u : Store.Update} {Q : Unit → Session → Prop} (hu : u.Atomic)
    (hok : ∀ s store, P s → u.run s.store = .ok () store → Q () { s with store })
    (herr : ∀ s e, P s → u.run s.store = .error e s.store → E e s) :
    Meets P (Session.updating u) Q E := by
  refine meets_updating hok fun s e store hs he => ?_
  rcases hu he with rfl
  exact herr s e hs he

theorem meets_write {text : String} {Q : Unit → Session → Prop}
    (hok : ∀ s sink, P s → s.sink.write text.toUTF8 = (sink, true) → Q () { s with sink })
    (herr : ∀ s sink, P s → s.sink.write text.toUTF8 = (sink, false) →
      E (.channel .full) { s with sink }) :
    Meets P (Session.write text) Q E := by
  intro s hs
  rw [Session.run_write]
  rcases hw : s.sink.write text.toUTF8 with ⟨sink, taken⟩
  cases taken with
  | true => exact hok s sink hs hw
  | false => exact herr s sink hs hw

theorem meets_flush {Q : Unit → Session → Prop}
    (hok : ∀ s, P s → s.sink.stuck = false → Q () { s with sink := s.sink.flushed })
    (herr : ∀ s, P s → s.sink.stuck = true →
      E (.channel .flush) { s with sink := s.sink.flushed }) :
    Meets P Session.flush Q E := by
  intro s hs
  rw [Session.run_flush]
  cases hstuck : s.sink.stuck with
  | true => exact herr s hs hstuck
  | false => exact hok s hs hstuck

/-- A line is taken from the input even if it is no text. -/
theorem meets_readLine_text {Q : String → Session → Prop}
    (hok : ∀ s text, P s →
      String.fromUTF8? (Session.splitLine s.input).1.toByteArray = some text →
      Q text { s with input := (Session.splitLine s.input).2 })
    (herr : ∀ s, P s → E (.channel .notText) { s with input := (Session.splitLine s.input).2 }) :
    Meets P Session.readLine Q E := by
  intro s hs
  rw [Session.run_readLine]
  cases htext : String.fromUTF8? (Session.splitLine s.input).1.toByteArray with
  | some text => exact hok s text hs htext
  | none => exact herr s hs

theorem meets_readLine {Q : String → Session → Prop}
    (hok : ∀ s text, P s → Q text { s with input := (Session.splitLine s.input).2 })
    (herr : ∀ s, P s → E (.channel .notText) { s with input := (Session.splitLine s.input).2 }) :
    Meets P Session.readLine Q E :=
  meets_readLine_text (fun s text hs _ => hok s text hs) herr

end Action

end Primer
