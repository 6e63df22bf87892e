import Primer.Proofs.Input.Commit
import Primer.Proofs.Laws.Choice
import Primer.Proofs.Redeclaration

/-!
# Assignments and Declarations Take Effect up to Their First Fault

An assignment can have several targets and a declaration several names. Both are worked off
from the left, and the first one that cannot be served ends the statement. What was done for the
ones before it is kept, and the ones after it are not looked at.

For an assignment it is known beforehand where it will end. Its value is computed once, before
anything is stored, and storing it changes no type; so whether a target accepts the value is
the same in the end as it was in the beginning, even if the target occurs twice or is a part of
the expression.

For a declaration it is not. Each initial value is computed over the variables that are there at
that moment, the ones declared just before included, and a name that is taken gives a warning and
changes nothing. So what the names of a declaration do is told step by step: `Declares` is what
one name does that can be served, `Declared` a run of them, and `Fails` says why a name
cannot be served. The same is true of declarations of one name each, and there is no difference.

## Main definitions

* `Store.Accepts`, `Store.Declines`: Whether a value can be put into a variable, and why not.
* `Declarator.Starts`: The value that a new variable begins with.
* `Declarator.Declares`, `Declarator.Fails`: What a name of a declaration does, and why it fails.
* `Declarator.Declared`: What several names do in order.

## Theorems

* `Statement.run_execAssign_append`: Targets that accept the value.
* `Declarator.Declares.run_eq`, `Declarator.Fails.run_eq`: One name of a declaration.
* `Declarator.Declared.run_append`: Several names.
* `Declarator.Declared.find?_eq_none`, `Declarator.Declared.find?_of_bound`: The variables that
  there are after several names.
* `Statement.execAll_map_declare`: A declaration of several names is one for each of them.
* `Statement.run_execAssign`, `Statement.run_declare`: What is done, up to the first fault.
* `Statement.exec_up_to_fault`: Assignments and declarations.
-/

namespace Primer

open Session

namespace Store

variable {store : Store} {name : String} {v : Value} {cause : Cause}

/-- The value can be put into the variable of the given name. -/
def Accepts (store : Store) (v : Value) (name : String) : Prop :=
  ∃ b, store.find? name = some b ∧ v.type? = some b.type

/-- Why the value cannot be put into the variable of the given name. -/
inductive Declines (store : Store) (v : Value) (name : String) : Cause → Prop where
  | undefined (h : store.find? name = none) : Declines store v name (.undefined name)
  | mismatch {b : Binding} (h : store.find? name = some b) (hv : v.type? ≠ some b.type) :
      Declines store v name (.mismatch v.type? b.type)

theorem accepts_or_declines (store : Store) (v : Value) (name : String) :
    store.Accepts v name ∨ ∃ cause, store.Declines v name cause := by
  cases hfind : store.find? name with
  | none => exact .inr ⟨_, .undefined hfind⟩
  | some b =>
      by_cases hv : v.type? = some b.type
      · exact .inl ⟨b, hfind, hv⟩
      · exact .inr ⟨_, .mismatch hfind hv⟩

theorem Accepts.assign_eq (h : store.Accepts v name) (pos : Position) :
    (Store.assign name v pos).run store = .ok () (store.set name v) := by
  rcases h with ⟨b, hfind, hv⟩
  exact assign_of_type hfind hv pos

theorem Declines.assign_eq (h : store.Declines v name cause) (pos : Position) :
    (Store.assign name v pos).run store = .error (.program pos cause) store := by
  cases h with
  | undefined h => rw [run_assign, h]
  | mismatch h hv => simp only [run_assign, h, Value.conform, hv, if_false]

/-- Storing values keeps the types of all variables, and so what they accept. -/
theorem Accepts.setAll (h : store.Accepts v name) (changes : List (String × Value)) :
    (store.setAll changes).Accepts v name := by
  rcases h with ⟨b, hfind, hv⟩
  refine ⟨{ b with value := (lastOf? name changes).getD b.value }, ?_, hv⟩
  rw [find?_setAll, hfind]
  rfl

theorem Declines.setAll (h : store.Declines v name cause) (changes : List (String × Value)) :
    (store.setAll changes).Declines v name cause := by
  have hfind := store.find?_setAll changes name
  cases h with
  | undefined h =>
      rw [h] at hfind
      exact .undefined hfind
  | mismatch h hv =>
      rw [h, Option.map_some] at hfind
      exact (Declines.mismatch hfind hv :)

/-- The value put last into a variable, if one value is put into several variables. -/
theorem lastOf?_map (name : String) (v : Value) (names : List String) :
    lastOf? name (names.map (·, v)) = if name ∈ names then some v else none := by
  induction names with
  | nil => rfl
  | cons other names ih =>
      rw [List.map_cons, lastOf?_cons, ih]
      -- A name that comes again is put in again, so the names behind are looked at first.
      by_cases hmem : name ∈ names
      · simp only [hmem, List.mem_cons, or_true, if_true, Option.some_or]
      · by_cases hname : other = name
        · simp only [hname, List.mem_cons, true_or, if_true, hmem, if_false, Option.none_or]
        · simp only [hname, Ne.symm hname, List.mem_cons, hmem, or_self, if_false, Option.or_none]

/-- One value in several variables: these hold it, and no other variable is changed. -/
theorem find?_setAll_map (store : Store) (v : Value) (names : List String) (name : String) :
    (store.setAll (names.map (·, v))).find? name = (store.find? name).map fun b =>
      if name ∈ names then { b with value := v } else b := by
  rw [find?_setAll, lastOf?_map]
  by_cases hmem : name ∈ names <;>
    simp only [hmem, if_true, if_false, Option.getD_some, Option.getD_none]

end Store

namespace Statement

variable {pos : Position} {v : Value} {s : Session} {front : List String}

/-- Targets that accept the value hold it afterwards, and the rest follows. That they accept it is
    asked of the store before the first of them. -/
theorem run_execAssign_append (h : ∀ name ∈ front, s.store.Accepts v name) (rest : List String) :
    (execAssign pos v (front ++ rest)).run s =
      (execAssign pos v rest).run { s with store := s.store.setAll (front.map (·, v)) } := by
  -- The session varies: the targets behind the first are asked when it holds the value already.
  induction front generalizing s with
  | nil => rfl
  | cons name front ih =>
      rcases List.forall_mem_cons.mp h with ⟨hname, hfront⟩
      simp only [List.cons_append, execAssign, EStateM.run_bind, run_updating, hname.assign_eq pos]
      exact ih fun other hother => (hfront other hother).setAll [(name, v)]

/-- A target that does not accept the value ends the assignment. -/
theorem run_execAssign_declined {name : String} {cause : Cause}
    (h : s.store.Declines v name cause) (rest : List String) :
    (execAssign pos v (name :: rest)).run s = .error (.program pos cause) s := by
  simp only [execAssign, EStateM.run_bind, run_updating, h.assign_eq pos]

end Statement

namespace Declarator

variable {type : DataType} {d : Declarator} {ds front : List Declarator} {s t : Session}
  {store : Store} {fault : Fault}

/-- The value that a new variable begins with: none at all, or an initial value of its type. -/
inductive Starts (d : Declarator) (type : DataType) (store : Store) : Value → Prop where
  | empty (h : d.initializer = none) : Starts d type store .empty
  | value {e : Expr} {v : Value} (h : d.initializer = some e) (he : e.eval store = .ok v)
      (hv : v.type? = some type) : Starts d type store v

/-- Why a name that is free cannot be declared: its initial value is a fault, or has the wrong
    type. -/
inductive Fails (d : Declarator) (type : DataType) (store : Store) : Fault → Prop where
  | noValue {e : Expr} {fault : Fault} (hfree : store.find? d.name = none)
      (h : d.initializer = some e) (he : e.eval store = .error fault) : Fails d type store fault
  | mismatch {e : Expr} {v : Value} (hfree : store.find? d.name = none)
      (h : d.initializer = some e) (he : e.eval store = .ok v) (hv : v.type? ≠ some type) :
      Fails d type store (.program d.pos (.mismatch v.type? type))

/-- What a name of a declaration does to a session whose output takes everything. A name that is
    taken is warned about, and a name that is free is bound. -/
inductive Declares (d : Declarator) (type : DataType) (s : Session) : Session → Prop where
  | warned {b : Binding} (hbound : s.store.find? d.name = some b) :
      Declares d type s
        { s with
          sink := s.sink.appended ((Fault.program d.pos (.redeclared d.name)).message ++ "\n")
          warnings := s.warnings ++ [.program d.pos (.redeclared d.name)] }
  | bound {v : Value} (hfree : s.store.find? d.name = none) (hv : d.Starts type s.store v) :
      Declares d type s { s with store := ⟨(d.name, ⟨type, v⟩) :: s.store.entries⟩ }

/-- What several names do, each in the session that the one before it left. -/
inductive Declared (type : DataType) : List Declarator → Session → Session → Prop where
  | nil (s : Session) : Declared type [] s s
  | cons {d : Declarator} {ds : List Declarator} {s t u : Session} (hd : d.Declares type s u)
      (h : Declared type ds u t) : Declared type (d :: ds) s t

theorem Fails.free (h : d.Fails type store fault) : store.find? d.name = none := by
  cases h <;> assumption

/-- The variable is new, and there is a value for it or it needs none. -/
theorem Starts.declare_eq {v : Value} (h : d.Starts type store v)
    (hfree : store.find? d.name = none) :
    ∃ initial, d.initializer.mapM (Expr.eval store) = .ok initial ∧
      (Store.declare d.name type initial d.pos).run store
        = .ok () ⟨(d.name, ⟨type, v⟩) :: store.entries⟩ := by
  cases h with
  | empty h =>
      refine ⟨none, by rw [h]; rfl, ?_⟩
      exact Store.declare_of_type hfree (fun _ hv => by cases hv) d.pos
  | value h he hv =>
      refine ⟨some v, by rw [h, Option.mapM_some, he]; rfl, ?_⟩
      exact Store.declare_of_type hfree (fun w hw => Option.some.inj hw ▸ hv) d.pos

/-- A name that can be served does not fail. -/
theorem Declares.run_eq (h : d.Declares type s t) (hroom : s.sink.room = none) :
    (Statement.execDeclarator type d).run s = .ok () t := by
  cases h with
  | warned hbound =>
      refine (Step.run_declare_bound hbound type).trans ?_
      simp only [warn, EStateM.run_bind, run_write, Sink.write_unlimited hroom]
      rfl
  | bound hfree hv =>
      rcases hv.declare_eq hfree with ⟨initial, hinitial, hdeclare⟩
      refine (Step.run_declare_free hfree type).trans ?_
      simp only [EStateM.run_bind, run_reading, run_updating, hinitial, hdeclare]

/-- A name that cannot be served is a fault, and nothing is changed for it. -/
theorem Fails.run_eq (h : d.Fails type s.store fault) :
    (Statement.execDeclarator type d).run s = .error fault s := by
  refine (Step.run_declare_free h.free type).trans ?_
  cases h with
  | noValue hfree h he =>
      have hinitial : d.initializer.mapM (Expr.eval s.store) = .error fault := by
        rw [h, Option.mapM_some, he]
        rfl
      simp only [EStateM.run_bind, run_reading, hinitial]
  | @mismatch e v hfree h he hv =>
      have hinitial : d.initializer.mapM (Expr.eval s.store) = .ok (some v) := by
        rw [h, Option.mapM_some, he]
        rfl
      have hdeclare : (Store.declare d.name type (some v) d.pos).run s.store
          = .error (.program d.pos (.mismatch v.type? type)) s.store := by
        simp only [Store.run_declare, hfree, Value.conform, hv, if_false]
      simp only [EStateM.run_bind, run_reading, run_updating, hinitial, hdeclare]

/-- A name can be served or not, and there is a reason if not. -/
theorem exists_declares_or_fails (d : Declarator) (type : DataType) (s : Session) :
    (∃ t, d.Declares type s t) ∨ ∃ fault, d.Fails type s.store fault := by
  cases hfind : s.store.find? d.name with
  | some b =>
      -- The initial value is not looked at, so it does not matter if there is one.
      exact .inl ⟨_, .warned hfind⟩
  | none =>
      cases hinit : d.initializer with
      | none => exact .inl ⟨_, .bound hfind (.empty hinit)⟩
      | some e =>
          cases he : e.eval s.store with
          | error fault => exact .inr ⟨fault, .noValue hfind hinit he⟩
          | ok v =>
              by_cases hv : v.type? = some type
              · exact .inl ⟨_, .bound hfind (.value hinit he hv)⟩
              · exact .inr ⟨_, .mismatch hfind hinit he hv⟩

theorem Declares.room_eq (h : d.Declares type s t) : t.sink.room = s.sink.room := by
  cases h <;> rfl

/-- Names that can be served have been declared when the rest follows. -/
theorem Declared.run_append (h : Declared type front s t) (hroom : s.sink.room = none)
    (rest : List Declarator) :
    ((front ++ rest).forM (Statement.execDeclarator type)).run s
      = (rest.forM (Statement.execDeclarator type)).run t := by
  induction h with
  | nil s => rfl
  | @cons d ds s t u hd _ ih =>
      have hrest : ((d :: ds ++ rest).forM (Statement.execDeclarator type)).run s
          = ((ds ++ rest).forM (Statement.execDeclarator type)).run u := by
        rw [List.cons_append, List.forM_eq_forM, List.forM_cons, EStateM.run_bind, hd.run_eq hroom]
      rw [hrest]
      exact ih (hd.room_eq.trans hroom)

/-- The names in front of the first one that cannot be served. -/
theorem exists_declared (type : DataType) (ds : List Declarator) (s : Session) :
    ∃ front rest t, ds = front ++ rest ∧ Declared type front s t ∧
      (rest = [] ∨ ∃ d more fault, rest = d :: more ∧ d.Fails type t.store fault) := by
  -- Where the names end depends on what the ones before them have bound.
  induction ds generalizing s with
  | nil => exact ⟨[], [], s, rfl, .nil s, .inl rfl⟩
  | cons d ds ih =>
      rcases d.exists_declares_or_fails type s with ⟨u, hd⟩ | ⟨fault, hd⟩
      · rcases ih u with ⟨front, rest, t, rfl, hfront, hrest⟩
        exact ⟨d :: front, rest, t, rfl, .cons hd hfront, hrest⟩
      · exact ⟨[], d :: ds, s, rfl, .nil s, .inr ⟨d, ds, fault, rfl, hd⟩⟩

/-- A name that is declared changes no binding. -/
theorem Declares.find?_of_bound (h : d.Declares type s t) {name : String} {b : Binding}
    (hb : s.store.find? name = some b) : t.store.find? name = some b := by
  cases h with
  | warned hbound => exact hb
  | bound hfree hv =>
      -- The new name is another one, since it was free.
      have hne : name ≠ d.name := by
        rintro rfl
        rw [hfree] at hb
        cases hb
      rw [Store.find?_cons, if_neg hne]
      exact hb

/-- After a name has been declared it is bound, and no other name is new. -/
theorem Declares.find?_eq_none (h : d.Declares type s t) {name : String} :
    t.store.find? name = none ↔ s.store.find? name = none ∧ d.name ≠ name := by
  by_cases hname : d.name = name
  · subst hname
    refine ⟨fun hnone => ?_, fun h => absurd rfl h.2⟩
    cases h with
    | warned hbound => cases hbound.symm.trans hnone
    | bound hfree hv =>
        rw [Store.find?_cons, if_pos rfl] at hnone
        cases hnone
  · have hsame : t.store.find? name = s.store.find? name := by
      cases h with
      | warned hbound => rfl
      | bound hfree hv => rw [Store.find?_cons, if_neg (Ne.symm hname)]
    rw [hsame]
    exact (and_iff_left hname).symm

theorem Declared.find?_of_bound (h : Declared type ds s t) {name : String} {b : Binding}
    (hb : s.store.find? name = some b) : t.store.find? name = some b := by
  induction h with
  | nil s => exact hb
  | cons hd _ ih => exact ih (hd.find?_of_bound hb)

theorem Declared.find?_eq_none (h : Declared type ds s t) {name : String} :
    t.store.find? name = none ↔ s.store.find? name = none ∧ ∀ d ∈ ds, d.name ≠ name := by
  induction h with
  | nil s => simp only [List.not_mem_nil, false_imp_iff, implies_true, and_true]
  | cons hd _ ih => rw [ih, hd.find?_eq_none, List.forall_mem_cons, and_assoc]

end Declarator

namespace Statement

/-- A declaration of several names does what declarations of one name each do, one after the
    other. Their positions do not matter. -/
theorem execAll_map_declare (cap : Nat) (place : Declarator → Position) (type : DataType)
    (ds : List Declarator) :
    execAll cap (ds.map fun d => .declare (place d) type [d])
      = ds.forM (execDeclarator type) := by
  induction ds with
  | nil => rfl
  | cons d ds ih =>
      have hsingle : exec cap (.declare (place d) type [d]) = execDeclarator type d := by
        rw [exec]
        exact bind_pure_unit
      rw [List.map_cons, execAll, ih, hsingle]
      rfl

/-- What an assignment with a value does. -/
theorem run_execAssign (pos : Position) (v : Value) (targets : List String) (s : Session) :
    ∃ front rest, targets = front ++ rest ∧ (∀ name ∈ front, s.store.Accepts v name) ∧
      let kept : Session := { s with store := s.store.setAll (front.map (·, v)) }
      ((rest = [] ∧ (execAssign pos v targets).run s = .ok () kept) ∨
        ∃ name more cause, rest = name :: more ∧ s.store.Declines v name cause ∧
          (execAssign pos v targets).run s = .error (.program pos cause) kept) := by
  rcases forall_or_exists_first (s.store.accepts_or_declines v) targets with
    hall | ⟨front, name, more, rfl, hfront, cause, hdeclines⟩
  · have hrun : (execAssign pos v (targets ++ [])).run s = _ := run_execAssign_append hall []
    rw [List.append_nil] at hrun
    exact ⟨targets, [], (List.append_nil _).symm, hall, .inl ⟨rfl, hrun⟩⟩
  · have hrun : (execAssign pos v (front ++ name :: more)).run s = _ :=
      run_execAssign_append hfront (name :: more)
    refine ⟨front, name :: more, rfl, hfront, .inr ⟨name, more, cause, rfl, hdeclines, ?_⟩⟩
    -- What is stored by then has not changed the type of the target.
    exact hrun.trans (run_execAssign_declined (hdeclines.setAll _) more)

/-- What a declaration does if the output takes everything. -/
theorem run_declare (type : DataType) (ds : List Declarator) {s : Session}
    (hroom : s.sink.room = none) :
    ∃ front rest t, ds = front ++ rest ∧ Declarator.Declared type front s t ∧
      ((rest = [] ∧ (ds.forM (execDeclarator type)).run s = .ok () t) ∨
        ∃ d more fault, rest = d :: more ∧ d.Fails type t.store fault ∧
          (ds.forM (execDeclarator type)).run s = .error fault t) := by
  rcases Declarator.exists_declared type ds s with ⟨front, rest, t, rfl, hfront, hrest⟩
  have hrun := hfront.run_append hroom rest
  refine ⟨front, rest, t, rfl, hfront, ?_⟩
  rcases hrest with rfl | ⟨d, more, fault, rfl, hfails⟩
  · exact .inl ⟨rfl, hrun⟩
  · refine .inr ⟨d, more, fault, rfl, hfails, hrun.trans ?_⟩
    rw [List.forM_eq_forM, List.forM_cons, EStateM.run_bind, hfails.run_eq]

/-- What assignments and declarations do, over any variables and with an output that takes
    everything.

    An assignment computes its value once, over the variables as they are. If there is none,
    nothing changes. Otherwise the targets in front of the first one that is not bound, or is not
    of the value's type, hold the value, and no other variable is changed. That target is the fault
    of the assignment, at its position; if there is no such target, the assignment succeeds.

    A declaration does what declarations of one name each do. The names in front of the first one
    whose initial value is a fault or of the wrong type are declared in order, and each
    initial value is computed over the variables that the names before it have left. No
    variable is changed, and those in front are the only new ones; the name that fails stays
    free. -/
theorem exec_up_to_fault (cap : Nat) (pos : Position) {s : Session} (hroom : s.sink.room = none) :
    (∀ targets e,
      let result := (exec cap (.assign pos targets e)).run s
      (∀ fault, e.eval s.store = .error fault → result = .error fault s) ∧
      ∀ v, e.eval s.store = .ok v → ∃ front rest store, targets = front ++ rest ∧
        (∀ name ∈ front, ∃ b, s.store.find? name = some b ∧ v.type? = some b.type ∧
          store.find? name = some { b with value := v }) ∧
        (∀ name, name ∉ front → store.find? name = s.store.find? name) ∧
        ((rest = [] ∧ result = .ok () { s with store }) ∨
          ∃ name more cause, rest = name :: more ∧ s.store.Declines v name cause ∧
            result = .error (.program pos cause) { s with store })) ∧
    ∀ type ds,
      let result := (exec cap (.declare pos type ds)).run s
      (∀ place : Declarator → Position,
        result = (execAll cap (ds.map fun d => .declare (place d) type [d])).run s) ∧
      ∃ front rest t, ds = front ++ rest ∧ Declarator.Declared type front s t ∧
        (∀ name b, s.store.find? name = some b → t.store.find? name = some b) ∧
        (∀ name, t.store.find? name = none ↔
          s.store.find? name = none ∧ ∀ d ∈ front, d.name ≠ name) ∧
        ((rest = [] ∧ result = .ok () t) ∨
          ∃ d more fault, rest = d :: more ∧ d.Fails type t.store fault ∧
            t.store.find? d.name = none ∧ result = .error fault t) := by
  constructor
  · intro targets e result
    have hresult : result = (reading (fun store => e.eval store) >>= fun v =>
        execAssign pos v targets).run s := by
      unfold result
      rw [exec]
    refine ⟨fun fault he => ?_, fun v he => ?_⟩
    · simp only [hresult, EStateM.run_bind, run_reading, he]
    · have hassign : result = (execAssign pos v targets).run s := by
        simp only [hresult, EStateM.run_bind, run_reading, he]
      rcases run_execAssign pos v targets s with ⟨front, rest, htargets, hfront, hend⟩
      rw [← hassign] at hend
      refine ⟨front, rest, s.store.setAll (front.map (·, v)), htargets, ?_, ?_, hend⟩
      · intro name hname
        rcases hfront name hname with ⟨b, hfind, hv⟩
        refine ⟨b, hfind, hv, ?_⟩
        rw [Store.find?_setAll_map, hfind, Option.map_some, if_pos hname]
      · intro name hname
        rw [Store.find?_setAll_map]
        simp only [hname, if_false, Option.map_id']
  · intro type ds result
    have hresult : result = (ds.forM (execDeclarator type)).run s := by
      unfold result
      rw [exec]
    refine ⟨fun place => by rw [hresult, execAll_map_declare], ?_⟩
    rcases run_declare type ds hroom with ⟨front, rest, t, hds, hfront, hend⟩
    rw [← hresult] at hend
    refine ⟨front, rest, t, hds, hfront, fun _ _ => hfront.find?_of_bound,
      fun _ => hfront.find?_eq_none, ?_⟩
    rcases hend with hdone | ⟨d, more, fault, hrest, hfails, hrun⟩
    · exact .inl hdone
    · exact .inr ⟨d, more, fault, hrest, hfails, hfails.free, hrun⟩

/-- An assignment whose third target is of another type, and a declaration whose fourth name has
    an initial value of the wrong type. The first target of the assignment occurs in its
    expression and once more behind the bad one. The second name of the declaration is taken,
    and the third one needs the first. -/
theorem exec_up_to_fault_mismatches :
    let pos : Position := ⟨3, 0⟩
    let at4 : Position := ⟨3, 9⟩
    let one : Expr := .literal pos (.int 1)
    let s : Session := { store := ⟨[("b", ⟨.bool, .empty⟩), ("y", ⟨.int, .empty⟩),
      ("x", ⟨.int, .int 5⟩)]⟩ }
    let targets := ["x", "y", "b", "x"]
    let assignment : Statement := .assign pos targets (.arith pos .add (.var pos "x") one)
    let ds : List Declarator := [⟨pos, "p", some (.var pos "x")⟩, ⟨pos, "x", some one⟩,
      ⟨pos, "q", some (.arith pos .add (.var pos "p") one)⟩,
      ⟨at4, "r", some (.literal pos (.bool true))⟩, ⟨pos, "u", none⟩]
    let declaration : Statement := .declare pos .int ds
    s.sink.room = none ∧
      (exec 1 assignment).fault? s = some (.program pos (.mismatch (some .int) .bool)) ∧
      ((exec 1 assignment).after s).store = ⟨[("b", ⟨.bool, .empty⟩), ("y", ⟨.int, .int 6⟩),
        ("x", ⟨.int, .int 6⟩)]⟩ ∧
      (exec 1 declaration).fault? s = some (.program at4 (.mismatch (some .bool) .int)) ∧
      ((exec 1 declaration).after s).store = ⟨[("q", ⟨.int, .int 6⟩), ("p", ⟨.int, .int 5⟩),
        ("b", ⟨.bool, .empty⟩), ("y", ⟨.int, .empty⟩), ("x", ⟨.int, .int 5⟩)]⟩ ∧
      ((exec 1 declaration).after s).warnings = [.program pos (.redeclared "x")] ∧
      (∃ front name more cause, targets = front ++ name :: more ∧
        s.store.Declines (.int 6) name cause ∧
        (exec 1 assignment).fault? s = some (.program pos cause)) ∧
      ∃ front d more, ds = front ++ d :: more ∧
        Declarator.Declared .int front s ((exec 1 declaration).after s) := by
  intro pos at4 one s targets assignment ds declaration
  have hroom : s.sink.room = none := rfl
  have hvalue : (Expr.arith pos .add (.var pos "x") one).eval s.store = .ok (.int 6) := rfl
  have hfault : (exec 1 assignment).fault? s
      = some (.program pos (.mismatch (some .int) .bool)) := by decide +kernel
  have hfailed : (exec 1 declaration).fault? s
      = some (.program at4 (.mismatch (some .bool) .int)) := by decide +kernel
  refine ⟨hroom, hfault, by decide +kernel, hfailed, by decide +kernel, by decide +kernel, ?_, ?_⟩
  · rcases ((exec_up_to_fault 1 pos hroom).1 targets _).2 (.int 6) hvalue with
      ⟨front, rest, store, htargets, -, -, ⟨-, hok⟩ | ⟨name, more, cause, rfl, hdeclines, hrun⟩⟩
    · cases (Action.fault?_eq_some.mp hfault).symm.trans hok
    · refine ⟨front, name, more, cause, htargets, hdeclines, ?_⟩
      rw [Action.fault?_eq_some, Action.after_of_error hrun]
      exact hrun
  · rcases ((exec_up_to_fault 1 pos hroom).2 .int ds).2 with
      ⟨front, rest, t, hds, hfront, -, -, ⟨-, hok⟩ | ⟨d, more, fault, rfl, -, -, hrun⟩⟩
    · cases (Action.fault?_eq_some.mp hfailed).symm.trans hok
    · refine ⟨front, d, more, hds, ?_⟩
      rw [Action.after_of_error hrun]
      exact hfront

end Statement

end Primer
