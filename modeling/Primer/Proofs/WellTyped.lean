import Primer.Proofs.Execution

/-!
# Variables Hold Values of Their Type

A variable's type is fixed when it is declared, and whatever it holds later is of
that type. Nothing enforces this in the form of a store: a binding is any pair of a
type and a value. It is the two operations that change a store which check, and the
check is made before anything is changed, so a store with the property never loses
it, not even by a statement that fails halfway.

The one exception is the value of a variable that has not been given one. It has no
type, and a store may hold it under any.

## Main definitions

* `Store.WellTyped`: Every variable is empty or holds a value of its type.

## Theorems

* `Store.declare_eq_ok`, `Store.declare_of_type`, `Store.assign_eq_ok`, `Store.assign_of_type`:
  When the changes of a store are made.
* `Store.declare_eq_error`, `Store.assign_eq_error`: Why they are refused.
* `Store.WellTyped.declare`, `Store.WellTyped.assign`: The changes of a store keep it
  well typed.
* `Session.reachable_wellTyped`: Every reachable session has a well-typed store.
-/

namespace Primer

namespace Value

theorem conform_eq_ok {v : Value} {type : DataType} {pos : Position} {u : Unit} :
    v.conform type pos = .ok u ↔ v.type? = some type := by
  unfold conform
  by_cases h : v.type? = some type
  · simp only [h, if_true]
  · simp only [h, if_false, reduceCtorEq]

end Value

namespace Store

/-- Every variable is empty or holds a value of its type. -/
def WellTyped (store : Store) : Prop :=
  ∀ name b, store.find? name = some b → b.value = .empty ∨ b.value.type? = some b.type

theorem wellTyped_empty : WellTyped empty := by
  intro name b h
  simp only [find?, empty, List.lookup_nil, reduceCtorEq] at h

section Changes

variable {store store' : Store} {name : String} {type : DataType} {initial : Option Value}
  {v : Value} {pos : Position} {e : Fault}

/-- A declaration succeeds only for a new name, and only if an initial value is of
    the declared type. -/
theorem declare_eq_ok (h : (declare name type initial pos).run store = .ok () store') :
    store.find? name = none ∧ ∀ v, initial = some v → v.type? = some type := by
  rw [run_declare] at h
  split at h
  · cases h
  · rename_i hfind
    exact ⟨hfind, nofun⟩
  · rename_i value hfind
    split at h
    · rename_i u hconf
      refine ⟨hfind, ?_⟩
      rintro v ⟨⟩
      exact Value.conform_eq_ok.mp hconf
    · cases h

/-- An assignment succeeds only for a variable of the value's type. -/
theorem assign_eq_ok (h : (assign name v pos).run store = .ok () store') :
    ∃ b, store.find? name = some b ∧ v.type? = some b.type := by
  rw [run_assign] at h
  split at h
  · cases h
  · rename_i b hfind
    split at h
    · rename_i u hconf
      exact ⟨b, hfind, Value.conform_eq_ok.mp hconf⟩
    · cases h

/-- A declaration is refused because its name is taken, or because its initial value is not of the
    declared type. -/
theorem declare_eq_error (h : (declare name type initial pos).run store = .error e store') :
    store.find? name ≠ none ∧ e = .program pos (.redeclared name) ∨
      ∃ v ∈ initial, v.conform type pos = .error e := by
  rw [run_declare] at h
  split at h
  · rename_i b hfind
    cases h
    exact .inl ⟨by rw [hfind]; exact Option.some_ne_none b, rfl⟩
  · cases h
  · rename_i value hfind
    split at h
    · cases h
    · rename_i e' hconf
      cases h
      exact .inr ⟨value, rfl, hconf⟩

/-- An assignment is refused because there is no such variable, or because the value is not of its
    type. -/
theorem assign_eq_error (h : (assign name v pos).run store = .error e store') :
    store.find? name = none ∧ e = .program pos (.undefined name) ∨
      ∃ b, store.find? name = some b ∧ v.conform b.type pos = .error e := by
  rw [run_assign] at h
  split at h
  · rename_i hfind
    cases h
    exact .inl ⟨hfind, rfl⟩
  · rename_i b hfind
    split at h
    · cases h
    · rename_i e' hconf
      cases h
      exact .inr ⟨b, hfind, hconf⟩

/-- A new name is declared, if an initial value is of the declared type. -/
theorem declare_of_type (hfree : store.find? name = none)
    (hinitial : ∀ v, initial = some v → v.type? = some type) (pos : Position) :
    (declare name type initial pos).run store
      = .ok () ⟨(name, ⟨type, initial.getD .empty⟩) :: store.entries⟩ := by
  rw [run_declare, hfree]
  cases initial with
  | none => rfl
  | some v =>
      dsimp only
      rw [(Value.conform_eq_ok (u := ())).mpr (hinitial v rfl)]
      rfl

/-- A value is put into a variable of its type. -/
theorem assign_of_type {b : Binding} (hfind : store.find? name = some b)
    (hv : v.type? = some b.type) (pos : Position) :
    (assign name v pos).run store = .ok () (store.set name v) := by
  rw [run_assign, hfind]
  dsimp only
  rw [(Value.conform_eq_ok (u := ())).mpr hv]

theorem eq_of_declare (h : (declare name type initial pos).run store = .ok () store') :
    store' = ⟨(name, ⟨type, initial.getD .empty⟩) :: store.entries⟩ := by
  rcases declare_eq_ok h with ⟨hfree, hinitial⟩
  rw [declare_of_type hfree hinitial] at h
  cases h
  rfl

theorem eq_of_assign (h : (assign name v pos).run store = .ok () store') :
    store' = store.set name v := by
  rcases assign_eq_ok h with ⟨b, hfind, hv⟩
  rw [assign_of_type hfind hv] at h
  cases h
  rfl

end Changes

theorem WellTyped.declare {store store' : Store} {name : String} {type : DataType}
    {initial : Option Value} {pos : Position} (hstore : store.WellTyped)
    (h : (Store.declare name type initial pos).run store = .ok () store') : store'.WellTyped := by
  intro other b hb
  rw [find?_declare h other] at hb
  by_cases ho : other = name
  · rw [if_pos ho] at hb
    rcases Option.some.inj hb with rfl
    -- Without an initial value the variable is empty, with one the type was checked.
    cases initial with
    | none => exact Or.inl rfl
    | some v => exact Or.inr ((declare_eq_ok h).2 v rfl)
  · rw [if_neg ho] at hb
    exact hstore other b hb

theorem WellTyped.assign {store store' : Store} {name : String} {v : Value} {pos : Position}
    (hstore : store.WellTyped) (h : (Store.assign name v pos).run store = .ok () store') :
    store'.WellTyped := by
  intro other b' hb
  rcases assign_eq_ok h with ⟨b, hfind, hv⟩
  rw [find?_assign h other] at hb
  by_cases ho : other = name
  · subst ho
    simp only [hfind, Option.map_some, if_true, Option.some.injEq] at hb
    subst hb
    exact Or.inr hv
  · simp only [ho, if_false, Option.map_id'] at hb
    exact hstore other b' hb

end Store

/-- Being well typed lasts: only declarations and assignments touch the store. -/
theorem lasting_wellTyped : Lasting fun s => s.store.WellTyped where
  write hs _ := hs
  flush hs := hs
  takeLine hs := hs
  warn hs _ := hs
  declare hs h := hs.declare h
  assign hs h := hs.assign h

namespace Session

/-- Whatever statements have been run, and wherever any of them failed, every
    variable is empty or holds a value of its type. -/
theorem reachable_wellTyped {s : Session} (h : s.Reachable) : s.store.WellTyped :=
  h.of_lasting lasting_wellTyped fun _ _ => Store.wellTyped_empty

/-- Two statements that both fail midway: a declaration at its third name, and a line
    of input at its second piece. -/
theorem wellTyped_after_two_faults :
    let pos : Position := ⟨2, 0⟩
    let opening : Statement := .declare pos .int
      [⟨pos, "a", some (.literal pos (.int 1))⟩, ⟨pos, "b", none⟩,
        ⟨pos, "c", some (.literal pos (.bool true))⟩]
    let s₀ : Session := ⟨.empty, "7,x\n".toUTF8.toList, { room := some 3 }, []⟩
    let s := (Statement.exec 5 (.scan pos ["a", "b"])).after ((Statement.exec 0 opening).after s₀)
    s.Reachable ∧ s.store = ⟨[("b", ⟨.int, .empty⟩), ("a", ⟨.int, .int 7⟩)]⟩
      ∧ s.store.WellTyped := by
  intro pos opening s₀ s
  have hs : s.Reachable := .step 5 _ (.step 0 opening (.fresh _ _))
  exact ⟨hs, by decide +kernel, reachable_wellTyped hs⟩

end Session

end Primer
