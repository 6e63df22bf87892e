import Primer.Proofs.WellTyped

/-!
# Variables Are Kept

What a statement can do to a variable that exists already. It can give the variable
another value, and that is all: the variable stays, its type stays, and once it holds
something it goes on holding something.

Each part has its own reason. A name is bound only if it was free, so a second
declaration has no effect on the first one, whatever type it names. And the empty value
is of no type, so the check in front of an assignment turns it away: the value of a
variable that holds nothing yet cannot be passed on to another one.

The relation is one between two stores, and it is reflexive and transitive. That it holds
between the stores before and after a statement is then a property that lasts, with the
store at the start fixed, and needs no look at the statement itself.

## Main definitions

* `Store.Retains`: A later store has kept the variables of an earlier one.

## Theorems

* `Store.retains_declare`, `Store.retains_assign`: The changes of a store keep what was
  there.
* `lasting_retains`: So do all changes of a session.
* `Statement.exec_retains`: Statements, whether they succeed or fail.
-/

namespace Primer

namespace Store

/-- The later store has every variable of the earlier one, with the same type, and one
    that held something still holds something. -/
def Retains (earlier later : Store) : Prop :=
  ∀ name b, earlier.find? name = some b →
    ∃ b', later.find? name = some b' ∧ b'.type = b.type ∧
      (b.value ≠ .empty → b'.value ≠ .empty)

theorem Retains.refl (store : Store) : store.Retains store :=
  fun _ b hb => ⟨b, hb, rfl, id⟩

theorem Retains.trans {store store' store'' : Store} (h : store.Retains store')
    (h' : store'.Retains store'') : store.Retains store'' := by
  intro name b hb
  rcases h name b hb with ⟨b', hb', htype, hvalue⟩
  rcases h' name b' hb' with ⟨b'', hb'', htype', hvalue'⟩
  exact ⟨b'', hb'', htype'.trans htype, fun hne => hvalue' (hvalue hne)⟩

theorem retains_declare {store store' : Store} {name : String} {type : DataType}
    {initial : Option Value} {pos : Position}
    (h : (Store.declare name type initial pos).run store = .ok () store') :
    store.Retains store' := by
  intro other b hb
  have hne : other ≠ name := by
    -- The declared name was free.
    rintro rfl
    rw [(declare_eq_ok h).1] at hb
    cases hb
  refine ⟨b, ?_, rfl, id⟩
  rw [find?_declare h other, if_neg hne]
  exact hb

theorem retains_assign {store store' : Store} {name : String} {v : Value} {pos : Position}
    (h : (Store.assign name v pos).run store = .ok () store') : store.Retains store' := by
  intro other b hb
  have hfind := find?_assign h other
  rw [hb, Option.map_some] at hfind
  by_cases ho : other = name
  · rw [if_pos ho] at hfind
    refine ⟨_, hfind, rfl, fun _ hempty => ?_⟩
    -- What is assigned has a type, and the empty value has none.
    rcases assign_eq_ok h with ⟨b', -, htype⟩
    rw [show v = .empty from hempty] at htype
    cases htype
  · rw [if_neg ho] at hfind
    exact ⟨b, hfind, rfl, id⟩

end Store

/-- No change of a session takes a variable away, changes its type or empties it. -/
theorem lasting_retains (store : Store) : Lasting fun s => store.Retains s.store where
  write hs _ := hs
  flush hs := hs
  takeLine hs := hs
  warn hs _ := hs
  declare hs h := hs.trans (Store.retains_declare h)
  assign hs h := hs.trans (Store.retains_assign h)

namespace Statement

/-- A statement that succeeds or fails, over any input, output and cap, leaves every
    variable bound with its type, and leaves no variable empty that was not. -/
theorem exec_retains (cap : Nat) (st : Statement) (s : Session) :
    s.store.Retains ((exec cap st).after s).store :=
  (exec_keeps (lasting_retains s.store) cap st).after (Store.Retains.refl s.store)

end Statement

end Primer
