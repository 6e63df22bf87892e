import Primer.Proofs.Coupling
import Primer.Proofs.Step
import Primer.Proofs.WellTyped

/-!
# Statements Act on the Names in Them

A statement sees the variables that it names and no others, and it changes no others.

Both halves are statements about what is not there, and they are proved together by
running a statement twice. The two sessions may differ in any variable that the statement
does not name; in everything else they are the same at the start, and in everything
else they are the same at the end. Whatever the one run reads, the other one reads
as well, so the two take the same turns in every loop and fail at the same point. The
variables outside are then compared with those that each run started from, and are the
ones it started from.

`Twins` is this relation, with the names and the two starting sessions as parameters. The
names are a parameter and not the names of the statement at hand, since a statement
inside another one is run in the middle of it, when the names of the whole may have been
touched already.

What the argument asks of the relation is little, and other relations have it too. `Unseen`
says that what may differ is not seen by a statement over the given names, and that the two
sessions stay related when the same is done to both. For a statement that does nothing but
assign, the variables have to agree and the rest of the two sessions does not matter; this
part is `Agreeing`.

## Main definitions

* `Session.Agreeing`: A relation of sessions that agree on some names.
* `Session.Unseen`: A relation that statements over some names cannot see.
* `Session.Twins`: Two sessions that differ at most outside some names.

## Theorems

* `Statement.exec_coupled_of_assigns`: Statements that assign keep an agreement.
* `Statement.exec_coupled`: Statements keep what they cannot see.
* `Session.Twins.change`: A variable that is changed on both sides.
* `Session.unseen_twins`, `Statement.exec_twins`: Statements keep sessions twins.
* `Statement.exec_local`: A statement sees and changes only the names in it.
-/

namespace Primer

namespace Store

variable {store store' : Store} {name : String}

/-- Whether a declaration succeeds, and how it fails, depends on its own name. -/
theorem declare_alike (h : store.find? name = store'.find? name) (type : DataType)
    (initial : Option Value) (pos : Position) :
    (∃ e, (declare name type initial pos).run store = .error e store ∧
        (declare name type initial pos).run store' = .error e store') ∨
      ∃ u v, (declare name type initial pos).run store = .ok () u ∧
        (declare name type initial pos).run store' = .ok () v := by
  rw [run_declare, run_declare, h]
  cases store'.find? name with
  | some b => exact .inl ⟨_, rfl, rfl⟩
  | none =>
      cases initial with
      | none => exact .inr ⟨_, _, rfl, rfl⟩
      | some value =>
          dsimp only
          cases value.conform type pos with
          | error e => exact .inl ⟨e, rfl, rfl⟩
          | ok _ => exact .inr ⟨_, _, rfl, rfl⟩

/-- Whether an assignment succeeds, and how it fails, depends on its own name. -/
theorem assign_alike (h : store.find? name = store'.find? name) (value : Value)
    (pos : Position) :
    (∃ e, (assign name value pos).run store = .error e store ∧
        (assign name value pos).run store' = .error e store') ∨
      ∃ u v, (assign name value pos).run store = .ok () u ∧
        (assign name value pos).run store' = .ok () v := by
  rw [run_assign, run_assign, h]
  cases store'.find? name with
  | none => exact .inl ⟨_, rfl, rfl⟩
  | some b =>
      dsimp only
      cases value.conform b.type pos with
      | error e => exact .inl ⟨e, rfl, rfl⟩
      | ok _ => exact .inr ⟨_, _, rfl, rfl⟩

end Store

namespace Session

/-- Sessions in the relation agree on `names`, and assigning to one of `targets` in both of them
    keeps them related. -/
structure Agreeing (names targets : List String) (R : Session → Session → Prop) : Prop where
  inside : ∀ {s t : Session}, R s t →
    ∀ name ∈ names, s.store.find? name = t.store.find? name
  assign : ∀ {s t : Session} {name : String} {value : Value} {pos : Position} {u v : Store},
    R s t → name ∈ targets → (Store.assign name value pos).run s.store = .ok () u →
    (Store.assign name value pos).run t.store = .ok () v →
    R { s with store := u } { t with store := v }

/-- Sessions in the relation cannot be told apart by a statement over `names` that gives values to
    `targets`, and they stay related if it does the same to both. -/
structure Unseen (names targets : List String) (R : Session → Session → Prop) : Prop
    extends Agreeing names targets R where
  input : ∀ {s t : Session}, R s t → s.input = t.input
  sink : ∀ {s t : Session}, R s t → s.sink = t.sink
  write : ∀ {s t : Session} (sink : Sink), R s t → R { s with sink } { t with sink }
  take : ∀ {s t : Session} (input : List UInt8), R s t → R { s with input } { t with input }
  warn : ∀ {s t : Session} (warning : Fault), R s t →
    R { s with warnings := s.warnings ++ [warning] }
      { t with warnings := t.warnings ++ [warning] }
  declare : ∀ {s t : Session} {name : String} {type : DataType} {initial : Option Value}
    {pos : Position} {u v : Store}, R s t → name ∈ targets →
    (Store.declare name type initial pos).run s.store = .ok () u →
    (Store.declare name type initial pos).run t.store = .ok () v →
    R { s with store := u } { t with store := v }

/-- Two sessions that came from `s₀` and `t₀`. They have the same input before them and the
    same output behind them, they have given the same new warnings, they agree on the
    given names, and on all other names each agrees with the session that it came from. -/
structure Twins (names : List String) (s₀ t₀ s t : Session) : Prop where
  input : s.input = t.input
  sink : s.sink = t.sink
  warnings : ∃ new, s.warnings = s₀.warnings ++ new ∧ t.warnings = t₀.warnings ++ new
  inside : ∀ name ∈ names, s.store.find? name = t.store.find? name
  outside : ∀ name ∉ names, s.store.find? name = s₀.store.find? name ∧
    t.store.find? name = t₀.store.find? name

variable {names : List String} {s₀ t₀ s t : Session}

/-- One of the names is changed on both sides. What becomes of a variable is a function
    `g` of what it was, and `g` leaves every other variable alone. -/
theorem Twins.change (h : Twins names s₀ t₀ s t) {name : String} (hname : name ∈ names)
    {u v : Store} {g : String → Option Binding → Option Binding}
    (hg : ∀ other b, other ≠ name → g other b = b)
    (hu : ∀ other, u.find? other = g other (s.store.find? other))
    (hv : ∀ other, v.find? other = g other (t.store.find? other)) :
    Twins names s₀ t₀ { s with store := u } { t with store := v } where
  input := h.input
  sink := h.sink
  warnings := h.warnings
  inside other ho := by
    show u.find? other = v.find? other
    rw [hu, hv, h.inside other ho]
  outside other ho := by
    have hne : other ≠ name := fun heq => ho (heq ▸ hname)
    show u.find? other = _ ∧ v.find? other = _
    rw [hu, hv, hg _ _ hne, hg _ _ hne]
    exact h.outside other ho

theorem Twins.declare (h : Twins names s₀ t₀ s t) {name : String} (hname : name ∈ names)
    {type : DataType} {initial : Option Value} {pos : Position} {u v : Store}
    (hu : (Store.declare name type initial pos).run s.store = .ok () u)
    (hv : (Store.declare name type initial pos).run t.store = .ok () v) :
    Twins names s₀ t₀ { s with store := u } { t with store := v } := by
  refine h.change hname (g := fun other b => if other = name then
    some ⟨type, initial.getD .empty⟩ else b) ?_ (Store.find?_declare hu) (Store.find?_declare hv)
  intro other b ho
  exact if_neg ho

theorem Twins.assign (h : Twins names s₀ t₀ s t) {name : String} (hname : name ∈ names)
    {value : Value} {pos : Position} {u v : Store}
    (hu : (Store.assign name value pos).run s.store = .ok () u)
    (hv : (Store.assign name value pos).run t.store = .ok () v) :
    Twins names s₀ t₀ { s with store := u } { t with store := v } := by
  refine h.change hname (g := fun other b => b.map fun b => if other = name then
    { b with value } else b) ?_ (Store.find?_assign hu) (Store.find?_assign hv)
  intro other b ho
  simp only [ho, if_false, Option.map_id']

theorem Twins.write (h : Twins names s₀ t₀ s t) (sink : Sink) :
    Twins names s₀ t₀ { s with sink } { t with sink } :=
  ⟨h.input, rfl, h.warnings, h.inside, h.outside⟩

theorem Twins.take (h : Twins names s₀ t₀ s t) (input : List UInt8) :
    Twins names s₀ t₀ { s with input } { t with input } :=
  ⟨rfl, h.sink, h.warnings, h.inside, h.outside⟩

theorem Twins.warn (h : Twins names s₀ t₀ s t) (warning : Fault) :
    Twins names s₀ t₀ { s with warnings := s.warnings ++ [warning] }
      { t with warnings := t.warnings ++ [warning] } := by
  rcases h.warnings with ⟨new, hs, ht⟩
  refine ⟨h.input, h.sink, ⟨new ++ [warning], ?_, ?_⟩, h.inside, h.outside⟩
  · show s.warnings ++ [warning] = _
    rw [hs, List.append_assoc]
  · show t.warnings ++ [warning] = _
    rw [ht, List.append_assoc]

theorem unseen_twins (names : List String) (s₀ t₀ : Session) :
    Unseen names names (Twins names s₀ t₀) where
  inside h := h.inside
  assign h hname hu hv := h.assign hname hu hv
  input h := h.input
  sink h := h.sink
  write sink h := h.write sink
  take input h := h.take input
  warn warning h := h.warn warning
  declare h hname hu hv := h.declare hname hu hv

end Session

namespace Statement

open Primer.Action Session

section Coupled

variable {N W : List String} {R : Session → Session → Prop}

theorem reading_eval_coupled (hR : Agreeing N W R) {e : Expr} (he : e.names ⊆ N) :
    Coupled R (reading fun store => e.eval store) (reading fun store => e.eval store) :=
  coupled_reading fun _ _ h => e.eval_congr fun name hname => hR.inside h name (he hname)

theorem updating_assign_coupled (hR : Agreeing N W R) {name : String} (hname : name ∈ N)
    (htarget : name ∈ W) (value : Value) (pos : Position) :
    Coupled R (updating (Store.assign name value pos))
      (updating (Store.assign name value pos)) := by
  refine coupled_updating fun s t h => ?_
  rcases Store.assign_alike (hR.inside h name hname) value pos with herr | ⟨u, v, hu, hv⟩
  · exact .inl herr
  · exact .inr ⟨u, v, hu, hv, hR.assign h htarget hu hv⟩

theorem execAssign_coupled (hR : Agreeing N W R) {names : List String} (hnames : names ⊆ N)
    (htargets : names ⊆ W) (value : Value) (pos : Position) :
    Coupled R (execAssign pos value names) (execAssign pos value names) := by
  induction names with
  | nil => exact coupled_pure ()
  | cons name names ih =>
      rcases List.cons_subset.mp hnames with ⟨hname, hrest⟩
      rcases List.cons_subset.mp htargets with ⟨htarget, hmore⟩
      exact (updating_assign_coupled hR hname htarget value pos).bind fun _ => ih hrest hmore

theorem assign_coupled (hR : Agreeing N W R) {targets : List String} {e : Expr}
    (hnames : targets ++ e.names ⊆ N) (htargets : targets ⊆ W) (pos : Position) :
    Coupled R (Step.assign pos targets e).exec (Step.assign pos targets e).exec := by
  rw [List.append_subset] at hnames
  exact (reading_eval_coupled hR hnames.2).bind fun value =>
    execAssign_coupled hR hnames.1 htargets value pos

/-- Between its steps a statement asks its guards, and these have the same answer on both sides. -/
theorem composableOn_coupled (hR : Agreeing N W R) :
    ComposableOn N fun _ a => Coupled R a a where
  pure x := coupled_pure x
  bind ha hf := ha.bind hf
  guard e pos he := coupled_reading fun s t h => by
    unfold Expr.guard
    rw [e.eval_congr fun name hname => hR.inside h name (he hname)]
  endless _ := coupled_throw _

theorem write_coupled (hR : Unseen N W R) (text : String) :
    Coupled R (Session.write text) (Session.write text) :=
  coupled_write (fun _ _ h => hR.sink h) (fun _ _ sink h => hR.write sink h) text

theorem warn_coupled (hR : Unseen N W R) (warning : Fault) :
    Coupled R (warn warning) (warn warning) :=
  (write_coupled hR _).bind fun _ => coupled_modify fun _ _ h => hR.warn warning h

theorem reading_initial_coupled (hR : Unseen N W R) {d : Declarator} (hd : d.names ⊆ N) :
    Coupled R (reading fun store => d.initializer.mapM (Expr.eval store))
      (reading fun store => d.initializer.mapM (Expr.eval store)) := by
  refine coupled_reading fun s t h => ?_
  rcases d with ⟨pos, name, _ | e⟩
  · rfl
  · have he : e.eval s.store = e.eval t.store :=
      e.eval_congr fun name hname => hR.inside h name (hd (List.mem_cons_of_mem _ hname))
    simp only [Option.mapM_some, he]

theorem execDeclarator_coupled (hR : Unseen N W R) {d : Declarator} (hd : d.names ⊆ N)
    (htarget : d.name ∈ W) (type : DataType) :
    Coupled R (execDeclarator type d) (execDeclarator type d) := by
  have hname : d.name ∈ N := hd List.mem_cons_self
  have hnew : Coupled R
      (do
        let initial ← reading fun store => d.initializer.mapM (Expr.eval store)
        updating (Store.declare d.name type initial d.pos))
      (do
        let initial ← reading fun store => d.initializer.mapM (Expr.eval store)
        updating (Store.declare d.name type initial d.pos)) := by
    refine (reading_initial_coupled hR hd).bind fun initial => coupled_updating fun s t h => ?_
    rcases Store.declare_alike (hR.inside h d.name hname) type initial d.pos with
      herr | ⟨u, v, hu, hv⟩
    · exact .inl herr
    · exact .inr ⟨u, v, hu, hv, hR.declare h htarget hu hv⟩
  -- Both sides know whether the name is taken, and take the same way from there.
  refine coupled_get_bind fun s t h => ?_
  rw [hR.inside h d.name hname]
  cases t.store.find? d.name with
  | some b => exact warn_coupled hR _ s t h
  | none => exact hnew s t h

theorem execPieces_coupled (hR : Unseen N W R) {pairs : List (String × String)}
    (hpairs : ∀ x ∈ pairs, x.1 ∈ N ∧ x.1 ∈ W) (pos : Position) :
    Coupled R (execPieces pos pairs) (execPieces pos pairs) := by
  induction pairs with
  | nil => exact coupled_pure ()
  | cons pair rest ih =>
      rcases List.forall_mem_cons.mp hpairs with ⟨⟨hname, htarget⟩, hrest⟩
      have htype : Coupled R (reading fun store => store.type pair.1 pos)
          (reading fun store => store.type pair.1 pos) := by
        refine coupled_reading fun s t h => ?_
        unfold Store.type
        rw [hR.inside h pair.1 hname]
      refine htype.bind fun type => (coupled_reading fun _ _ _ => rfl).bind fun value => ?_
      exact (updating_assign_coupled hR.toAgreeing hname htarget value pos).bind fun _ => ih hrest

theorem execScan_coupled (hR : Unseen N W R) {names : List String} (hnames : names ⊆ N)
    (htargets : names ⊆ W) (pos : Position) :
    Coupled R (execScan pos names) (execScan pos names) := by
  have hpieces : ∀ pieces : List String, Coupled R
      (execPieces pos (names.zip pieces)) (execPieces pos (names.zip pieces)) := fun pieces =>
    execPieces_coupled hR (fun x hx => ⟨hnames (List.of_mem_zip hx).1,
      htargets (List.of_mem_zip hx).1⟩) pos
  unfold execScan
  refine (coupled_flush (fun _ _ h => hR.sink h) fun _ _ sink h => hR.write sink h).bind
    fun _ => ?_
  refine (coupled_readLine (fun _ _ h => hR.input h) fun _ _ input h => hR.take input h).bind
    fun line => ?_
  -- Both sides have read the same line, and count the same pieces.
  dsimp only
  split
  · exact (coupled_throw _).bind fun _ => hpieces _
  · exact hpieces _

theorem step_coupled (hR : Unseen N W R) {step : Step} (hnames : step.names ⊆ N)
    (hwrites : step.writes ⊆ W) : Coupled R step.exec step.exec := by
  cases step with
  | declare type d => exact execDeclarator_coupled hR hnames (hwrites List.mem_cons_self) type
  | assign pos targets e => exact assign_coupled hR.toAgreeing hnames hwrites pos
  | display e =>
      exact (reading_eval_coupled hR.toAgreeing hnames).bind fun value =>
        write_coupled hR value.render
  | scan pos names => exact execScan_coupled hR hnames hwrites pos

/-- A statement keeps sessions related that it cannot tell apart. -/
theorem exec_coupled (hR : Unseen N W R) (cap : Nat) {st : Statement} (hnames : st.names ⊆ N)
    (hwrites : ∀ step ∈ st.steps, step.names ⊆ N → step.writes ⊆ W) :
    Coupled R (exec cap st) (exec cap st) :=
  exec_of_names (composableOn_coupled hR.toAgreeing) cap st hnames fun step hmem hstep =>
    step_coupled hR hstep (hwrites step hmem hstep)

/-- For a statement that does nothing but assign it is enough if the variables agree. -/
theorem exec_coupled_of_assigns (cap : Nat) {st : Statement}
    (hassigns : ∀ step ∈ st.steps, step.isAssign) (hR : Agreeing st.names st.writes R) :
    Coupled R (exec cap st) (exec cap st) := by
  refine exec_of_names (composableOn_coupled hR) cap st (List.Subset.refl _) ?_
  intro step hstep hnames
  cases step with
  | assign pos targets e => exact assign_coupled hR hnames (writes_subset_of_mem hstep) pos
  | _ => cases hassigns _ hstep

theorem exec_twins {s₀ t₀ : Session} (cap : Nat) (st : Statement) (h : st.names ⊆ N) :
    Coupled (Twins N s₀ t₀) (exec cap st) (exec cap st) :=
  exec_coupled (unseen_twins N s₀ t₀) cap h fun step _ hstep =>
    List.Subset.trans step.writes_subset hstep

end Coupled

/-- Two sessions with the same input and the same output that agree on the names in a
    statement cannot be told apart by it: it succeeds or fails alike, writes the same,
    gives the same warnings, takes the same input, and leaves the two in agreement on
    its names. In both of them every other name is left as it was. -/
theorem exec_local (cap : Nat) (st : Statement) {s t : Session} (hinput : s.input = t.input)
    (hsink : s.sink = t.sink)
    (hstore : ∀ name ∈ st.names, s.store.find? name = t.store.find? name) :
    (exec cap st).fault? s = (exec cap st).fault? t ∧
      ((exec cap st).after s).input = ((exec cap st).after t).input ∧
      ((exec cap st).after s).sink = ((exec cap st).after t).sink ∧
      (∃ new, ((exec cap st).after s).warnings = s.warnings ++ new ∧
        ((exec cap st).after t).warnings = t.warnings ++ new) ∧
      (∀ name ∈ st.names, ((exec cap st).after s).store.find? name =
        ((exec cap st).after t).store.find? name) ∧
      ∀ name ∉ st.names, ((exec cap st).after s).store.find? name = s.store.find? name ∧
        ((exec cap st).after t).store.find? name = t.store.find? name := by
  have hstart : Twins st.names s t s t :=
    ⟨hinput, hsink, ⟨[], (List.append_nil _).symm, (List.append_nil _).symm⟩, hstore,
      fun _ _ => ⟨rfl, rfl⟩⟩
  have hcoupled : Coupled (Twins st.names s t) (exec cap st) (exec cap st) :=
    exec_twins cap st fun _ hname => hname
  have hend := hcoupled.after hstart
  exact ⟨hcoupled.fault?_eq hstart, hend.input, hend.sink, hend.warnings, hend.inside,
    hend.outside⟩

/-- Two sessions that differ in `z`: the one has it, and the other has not. The loop declares
    `y`, of which the second round warns, and fails in its third round at a piece of
    input that is no number. -/
theorem exec_local_failing_loop :
    let pos : Position := ⟨2, 0⟩
    let body : List Statement :=
      [.declare pos .int [⟨pos, "y", some (.var pos "x")⟩], .scan pos ["x"]]
    let st : Statement := .loop pos (.compare pos .lt (.var pos "x") (.literal pos (.int 9))) body
    let input := "3\n4\nfive\n6\n".toUTF8.toList
    let s : Session := { store := ⟨[("z", ⟨.bool, .empty⟩), ("x", ⟨.int, .int 2⟩)]⟩, input }
    let t : Session :=
      { store := ⟨[("x", ⟨.int, .int 2⟩)]⟩, input, warnings := [.channel .full] }
    let s' := (exec 5 st).after s
    let t' := (exec 5 st).after t
    (exec 5 st).fault? s = some (.program pos (.inputFormat "five" .int)) ∧
      (exec 5 st).fault? t = some (.program pos (.inputFormat "five" .int)) ∧
      s'.input = t'.input ∧ s'.input = "6\n".toUTF8.toList ∧ s'.sink = t'.sink ∧
      s'.store.find? "y" = t'.store.find? "y" ∧ s'.store.find? "y" = some ⟨.int, .int 2⟩ ∧
      s'.store.find? "z" = some ⟨.bool, .empty⟩ ∧ t'.store.find? "z" = none := by
  intro pos body st input s t s' t'
  have hstore : ∀ name ∈ st.names, s.store.find? name = t.store.find? name := by
    decide +kernel
  have hlocal := exec_local 5 st (s := s) (t := t) rfl rfl hstore
  have hfault : (exec 5 st).fault? s = some (.program pos (.inputFormat "five" .int)) := by
    decide +kernel
  have hz := hlocal.2.2.2.2.2 "z" (by decide +kernel)
  refine ⟨hfault, ?_, hlocal.2.1, by decide +kernel, hlocal.2.2.1,
    hlocal.2.2.2.2.1 "y" (by decide +kernel), by decide +kernel, ?_, ?_⟩
  · rw [← hlocal.1]
    exact hfault
  · rw [hz.1]
    decide +kernel
  · rw [hz.2]
    decide +kernel

end Statement

end Primer
