import Primer.Value.Operation

/-!
# Variables

The variables of a running program. A variable is bound to a type once, by its
declaration, and from then on to one value after another, each of that type; a
variable declared without a value holds the empty one until it is first assigned.

Variables are kept in the order of their declaration, the latest first. Assigning
keeps the order, so a store shows which variables there are independently of what
they hold.

A store is changed in place. A change that is refused half way leaves the store as it
is at that moment, whatever has been done to it by then, and that nothing has been done
is a fact about each change: all that it checks it checks before it touches the store.

## Main definitions

* `Binding`: A variable's type and value.
* `Store`: The variables of a program.
* `Store.find?`: The binding of a name.
* `Store.Update`: Something that changes a store.
* `Store.declare`, `Store.assign`: The two ways a store changes.
* `Store.Update.Atomic`: A change that is made or refused as a whole.
* `Store.value`, `Store.type`: Reading a variable that has to exist.

## Theorems

* `Store.run_declare`, `Store.run_assign`: What the two changes make of a store.
* `Store.declare_atomic`, `Store.assign_atomic`: A refused change leaves the store as it was.
* `Store.find?_set`: Setting a variable changes its value and nothing else.
* `Store.find?_declare`: A declaration binds its name and keeps the others.
* `Store.find?_assign`: An assignment gives its name the value.
-/

namespace Primer

/-- A variable's type and value. -/
structure Binding where
  type : DataType
  value : Value
deriving DecidableEq

/-- The variables of a program, the one declared last in front. -/
structure Store where
  entries : List (String × Binding)
deriving DecidableEq

namespace Store

/-- The store without variables. -/
def empty : Store := ⟨[]⟩

/-- The number of variables. -/
def size (store : Store) : Nat :=
  store.entries.length

/-- The binding of a name. -/
def find? (store : Store) (name : String) : Option Binding :=
  store.entries.lookup name

/-- Puts a value into the variable of the given name, keeping its type. -/
def set (store : Store) (name : String) (value : Value) : Store :=
  ⟨store.entries.map fun (n, b) => if n = name then (n, { b with value }) else (n, b)⟩

/-- Something that changes a store in place. If it fails, the store stays as the failure
    finds it. -/
abbrev Update : Type := EStateM Fault Store Unit

/-- Declares a variable. A name can be declared once, and an initial value has to
    be of the declared type. -/
def declare (name : String) (type : DataType) (initial : Option Value) (pos : Position) :
    Update := do
  if ((← get).find? name).isSome then throw (.program pos (.redeclared name))
  let value ← match initial with
    | none => pure .empty
    | some value => do
        MonadExcept.ofExcept (value.conform type pos)
        pure value
  modify fun store => ⟨(name, ⟨type, value⟩) :: store.entries⟩

/-- Assigns to a variable, which has to exist and to be of the value's type. -/
def assign (name : String) (value : Value) (pos : Position) : Update := do
  match (← get).find? name with
  | none => throw (.program pos (.undefined name))
  | some binding => do
      MonadExcept.ofExcept (value.conform binding.type pos)
      modify fun store => store.set name value

/-- A change is made or refused as a whole: if it is refused, the store is what it was. -/
def Update.Atomic (u : Update) : Prop :=
  ∀ {store store' : Store} {e : Fault}, u.run store = .error e store' → store' = store

/-- The value of a variable that has to exist. -/
def value (store : Store) (name : String) (pos : Position) : Except Fault Value :=
  match store.find? name with
  | some binding => .ok binding.value
  | none => .error (.program pos (.undefined name))

/-- The type of a variable that has to have been declared. -/
def type (store : Store) (name : String) (pos : Position) : Except Fault DataType :=
  match store.find? name with
  | some binding => .ok binding.type
  | none => .error (.program pos (.undeclared name))

theorem find?_cons (name other : String) (b : Binding) (rest : List (String × Binding)) :
    find? ⟨(name, b) :: rest⟩ other = if other = name then some b else find? ⟨rest⟩ other := by
  by_cases h : other = name
  · simp only [find?, h, List.lookup_cons, beq_self_eq_true, if_pos]
  · have hne : (other == name) = false := by simpa using h
    simp only [find?, List.lookup_cons, hne, if_neg h]

/-- Setting a variable changes its value and nothing else. There is nothing to set
    if the variable does not exist. -/
theorem find?_set (store : Store) (name other : String) (v : Value) :
    (store.set name v).find? other
      = (store.find? other).map fun b => if other = name then { b with value := v } else b := by
  obtain ⟨entries⟩ := store
  induction entries with
  | nil => rfl
  | cons entry rest ih =>
      obtain ⟨n, b⟩ := entry
      have hset : set ⟨(n, b) :: rest⟩ name v = ⟨(if n = name then (n, { b with value := v })
          else (n, b)) :: (set ⟨rest⟩ name v).entries⟩ := rfl
      rw [hset, find?_cons]
      by_cases hn : n = name
      · rw [if_pos hn, find?_cons]
        by_cases ho : other = n
        · simp only [ho, hn, if_pos, Option.map_some]
        · rw [if_neg ho, if_neg ho, ← ih]
      · rw [if_neg hn, find?_cons]
        by_cases ho : other = n
        · simp only [ho, hn, if_pos, if_false, Option.map_some]
        · rw [if_neg ho, if_neg ho, ← ih]

/-- A declaration looks for its name, then at its initial value, and only then adds the
    variable. -/
theorem run_declare (name : String) (type : DataType) (initial : Option Value) (pos : Position)
    (store : Store) :
    (declare name type initial pos).run store =
      match store.find? name, initial with
      | some _, _ => .error (.program pos (.redeclared name)) store
      | none, none => .ok () ⟨(name, ⟨type, .empty⟩) :: store.entries⟩
      | none, some value =>
          match value.conform type pos with
          | .ok _ => .ok () ⟨(name, ⟨type, value⟩) :: store.entries⟩
          | .error e => .error e store := by
  unfold declare
  cases hfind : store.find? name with
  | some b => simp only [EStateM.run_bind, EStateM.run_get, hfind]; rfl
  | none =>
      cases initial with
      | none => simp only [EStateM.run_bind, EStateM.run_get, hfind]; rfl
      | some value =>
          simp only [EStateM.run_bind, EStateM.run_get, hfind]
          cases value.conform type pos <;> rfl

/-- An assignment looks for its variable, then at the value, and only then sets the
    variable. -/
theorem run_assign (name : String) (value : Value) (pos : Position) (store : Store) :
    (assign name value pos).run store =
      match store.find? name with
      | none => .error (.program pos (.undefined name)) store
      | some binding =>
          match value.conform binding.type pos with
          | .ok _ => .ok () (store.set name value)
          | .error e => .error e store := by
  unfold assign
  cases hfind : store.find? name with
  | none => simp only [EStateM.run_bind, EStateM.run_get, hfind]; rfl
  | some binding =>
      simp only [EStateM.run_bind, EStateM.run_get, hfind]
      cases value.conform binding.type pos <;> rfl

section Changes

variable {store store' : Store} {name : String} {type : DataType} {initial : Option Value}
  {value : Value} {pos : Position}

theorem declare_atomic : (declare name type initial pos).Atomic := by
  intro store store' e h
  rw [run_declare] at h
  split at h
  · cases h
    rfl
  · cases h
  · split at h
    · cases h
    · cases h
      rfl

theorem assign_atomic : (assign name value pos).Atomic := by
  intro store store' e h
  rw [run_assign] at h
  split at h
  · cases h
    rfl
  · split at h
    · cases h
    · cases h
      rfl

/-- A declaration binds its name and keeps the others. -/
theorem find?_declare (h : (declare name type initial pos).run store = .ok () store')
    (other : String) :
    store'.find? other
      = if other = name then some ⟨type, initial.getD .empty⟩ else store.find? other := by
  rw [run_declare] at h
  split at h
  · cases h
  · cases h
    exact find?_cons name other _ _
  · split at h
    · cases h
      exact find?_cons name other _ _
    · cases h

/-- An assignment gives its name the value and keeps the others. -/
theorem find?_assign (h : (assign name value pos).run store = .ok () store') (other : String) :
    store'.find? other
      = (store.find? other).map fun b => if other = name then { b with value } else b := by
  rw [run_assign] at h
  split at h
  · cases h
  · split at h
    · cases h
      exact find?_set store name other value
    · cases h

end Changes

end Store

end Primer
