import Primer.Proofs.Typing.Checker
import Primer.Proofs.WellTyped

/-!
# Accepted Statements Do Not Go Wrong

What the checker accepts can only fail for reasons that types do not show: a
division by zero, a loop that meets its cap, a line of input that does not fit, or a
channel. It never meets an operator that does not fit its operands, a condition that
is no boolean, a name that is not there, or a name that is there already.

The argument has the usual two halves in one. Evaluating an expression of some type
either yields a value of that type or divides by zero; there is no third way, and in
particular no way to yield the empty value. Running an accepted statement returns to
a session that fits the same types, so the next statement finds what it was promised,
and a fault on the way leaves such a session as well. Declarations are the one place
where the types change, and a list that fails among its declarations leaves a session
that fits the types known up to there.

## Main definitions

* `Fault.IsCircumstantial`: The faults that types do not exclude.
* `Store.Fits`: A store has exactly the variables of a typing, all filled.
* `Yields`: Evaluation gives a value of a type or divides by zero.

## Theorems

* `Expr.eval_yields`: An expression evaluates to a value of its type.
* `Statement.reading_meets`, `Statement.updating_meets`: Reading and updating a session
  whose variables are known.
* `Statement.exec_meets`: An accepted statement keeps the types it was accepted under.
* `Typing.execAll_meets_check`: An accepted list leads to the types after it.
* `Typing.execAll_of_accepted`: Accepted statements do not go wrong.
-/

namespace Primer

namespace Fault

/-- The faults that depend on values, on input or on the channels, and not on the
    types of what is written. -/
def IsCircumstantial : Fault → Prop
  | .program _ .divisionByZero => True
  | .program _ .endlessLoop => True
  | .program _ (.inputCount _ _) => True
  | .program _ (.inputFormat _ _) => True
  | .channel _ => True
  | _ => False

end Fault

theorem Value.ne_empty_of_type? {v : Value} {type : DataType} (h : v.type? = some type) :
    v ≠ .empty := by
  rintro rfl
  exact absurd h nofun

namespace Store

/-- The store has exactly the variables of the typing, each of its type and each
    holding something. -/
structure Fits (store : Store) (G : Typing) : Prop where
  types : ∀ name, (store.find? name).map Binding.type = G name
  filled : ∀ name b, store.find? name = some b → b.value ≠ .empty

variable {store store' : Store} {G : Typing} {name : String} {type : DataType}

theorem Fits.find? (h : store.Fits G) (hG : G name = some type) :
    ∃ v, store.find? name = some ⟨type, v⟩ ∧ v ≠ .empty := by
  have htype := h.types name
  rw [hG] at htype
  rcases Option.map_eq_some_iff.mp htype with ⟨⟨t, v⟩, hb, rfl⟩
  exact ⟨v, hb, h.filled name ⟨t, v⟩ hb⟩

theorem Fits.find?_none (h : store.Fits G) (hG : G name = none) : store.find? name = none := by
  have htype := h.types name
  rw [hG] at htype
  exact Option.map_eq_none_iff.mp htype

/-- In a well-typed store that fits a typing, a variable holds a value of its type. -/
theorem Fits.value (h : store.Fits G) (hw : store.WellTyped) (hG : G name = some type)
    (pos : Position) : ∃ v, store.value name pos = .ok v ∧ v.type? = some type := by
  rcases h.find? hG with ⟨v, hfind, hv⟩
  refine ⟨v, by simp only [Store.value, hfind], ?_⟩
  rcases hw name _ hfind with hempty | htype
  · exact absurd hempty hv
  · exact htype

/-- Declaring a new name with a value of the declared type succeeds, and the store
    then fits the typing with that name. -/
theorem Fits.declare (h : store.Fits G) (hnew : G name = none) {v : Value}
    (hv : v.type? = some type) (pos : Position) :
    ∃ store', (Store.declare name type (some v) pos).run store = .ok () store'
      ∧ store'.Fits (G.insert name type) := by
  have hfind := h.find?_none hnew
  have hdecl : (Store.declare name type (some v) pos).run store
      = .ok () ⟨(name, ⟨type, v⟩) :: store.entries⟩ :=
    declare_of_type hfind (fun w hw => Option.some.inj hw ▸ hv) pos
  refine ⟨_, hdecl, fun other => ?_, fun other b hb => ?_⟩
  · rw [find?_declare hdecl other, Typing.insert]
    by_cases ho : other = name
    · rw [if_pos ho, if_pos ho, Option.map_some]
    · rw [if_neg ho, if_neg ho, h.types other]
  · rw [find?_declare hdecl other] at hb
    by_cases ho : other = name
    · rw [if_pos ho] at hb
      rw [← Option.some.inj hb]
      exact Value.ne_empty_of_type? hv
    · rw [if_neg ho] at hb
      exact h.filled other b hb

/-- Assigning a value of its type to a variable succeeds, and the store then fits the
    same typing. -/
theorem Fits.assign (h : store.Fits G) (hG : G name = some type) {v : Value}
    (hv : v.type? = some type) (pos : Position) :
    ∃ store', (Store.assign name v pos).run store = .ok () store' ∧ store'.Fits G := by
  rcases h.find? hG with ⟨v₀, hfind, -⟩
  have hassign : (Store.assign name v pos).run store = .ok () (store.set name v) :=
    assign_of_type hfind hv pos
  refine ⟨_, hassign, fun other => ?_, fun other b hb => ?_⟩
  · rw [find?_assign hassign other, ← h.types other]
    cases store.find? other with
    | none => rfl
    | some b => by_cases ho : other = name <;> simp only [ho, if_true, if_false, Option.map_some]
  · rw [find?_assign hassign other] at hb
    rcases Option.map_eq_some_iff.mp hb with ⟨b₀, hb₀, rfl⟩
    by_cases ho : other = name
    · rw [if_pos ho]
      exact Value.ne_empty_of_type? hv
    · rw [if_neg ho]
      exact h.filled other b₀ hb₀

end Store

/-- Evaluation gives a value of the type, or else it divided by zero. -/
def Yields (type : DataType) (result : Except Fault Value) : Prop :=
  (∃ v, result = .ok v ∧ v.type? = some type) ∨
    ∃ pos, result = .error (.program pos .divisionByZero)

theorem yields_ok {v : Value} {type : DataType} (h : v.type? = some type) :
    Yields type (.ok v) :=
  Or.inl ⟨v, rfl, h⟩

theorem Yields.bind {type type' : DataType} {result : Except Fault Value}
    {f : Value → Except Fault Value} (h : Yields type result)
    (hf : ∀ v, v.type? = some type → Yields type' (f v)) : Yields type' (result >>= f) := by
  rcases h with ⟨v, rfl, hv⟩ | ⟨pos, rfl⟩
  · exact hf v hv
  · exact Or.inr ⟨pos, rfl⟩

namespace Value

variable {left right v : Value} {tl tr type : DataType} {pos : Position}

/-- Between whole numbers there is a result unless the operator divides by zero. -/
theorem arith_ints_yields (op : ArithOp) (a b : Int32) :
    Yields .int ((int a).arith op pos (int b)) := by
  cases hop : op.onInts? a b with
  | some n =>
      have hval : (int a).arith op pos (int b) = .ok (int n) := by simp only [arith, hop]
      exact hval ▸ yields_ok rfl
  | none => exact Or.inr ⟨pos, by simp only [arith, hop]⟩

theorem arith_yields {op : ArithOp} (hl : left.type? = some tl) (hr : right.type? = some tr)
    (h : op.type? tl tr = some type) : Yields type (left.arith op pos right) := by
  cases left <;> cases right <;> cases hl <;> cases hr <;>
    simp only [ArithOp.type?, Option.some.injEq, reduceCtorEq, or_false, or_true, or_self,
      and_false, and_true, if_false, Option.ite_none_right_eq_some] at h
  -- The pairs that are left are two numbers, or a sum with a text in it.
  case int.int => exact h ▸ arith_ints_yields op _ _
  case int.float => exact h ▸ yields_ok rfl
  case float.int => exact h ▸ yields_ok rfl
  case float.float => exact h ▸ yields_ok rfl
  all_goals
    rcases h with ⟨rfl, rfl⟩
    exact yields_ok rfl

/-- Two numbers of one type are two whole numbers or two single-precision ones. -/
theorem ints_or_floats (hl : left.type? = some type) (hr : right.type? = some type)
    (hnum : type.isNumeric) :
    (∃ a b, left = .int a ∧ right = .int b) ∨ ∃ x y, left = .float x ∧ right = .float y := by
  cases left <;> cases right <;> cases hl <;> cases hr
  case int.int a b => exact Or.inl ⟨a, b, rfl, rfl⟩
  case float.float x y => exact Or.inr ⟨x, y, rfl, rfl⟩
  all_goals exact absurd hnum nofun

theorem compare_yields {op : Comparison} (hl : left.type? = some tl) (hr : right.type? = some tr)
    (h : op.type? tl tr = some type) : Yields type (left.compare op pos right) := by
  cases op with
  | eq => exact Option.some.inj h ▸ yields_ok rfl
  | ne => exact Option.some.inj h ▸ yields_ok rfl
  | _ =>
      simp only [Comparison.type?, Option.ite_none_right_eq_some, Option.some.injEq] at h
      rcases h with ⟨⟨rfl, hnum⟩, rfl⟩
      -- Order is asked of two numbers of one type only.
      rcases ints_or_floats hl hr hnum with ⟨a, b, rfl, rfl⟩ | ⟨x, y, rfl, rfl⟩
      · exact yields_ok rfl
      · exact yields_ok rfl

theorem exists_bool (h : v.type? = some .bool) : ∃ b, v = .bool b := by
  cases v with
  | bool b => exact ⟨b, rfl⟩
  | _ => exact absurd h nofun

theorem connect_yields {op : Connective} (hl : left.type? = some .bool)
    (hr : right.type? = some .bool) : Yields .bool (left.connect op pos right) := by
  rcases exists_bool hl with ⟨a, rfl⟩
  rcases exists_bool hr with ⟨b, rfl⟩
  cases op with
  | and => exact yields_ok rfl
  | or => exact yields_ok rfl

theorem minus_yields (hv : v.type? = some type) (hnum : type.isNumeric) :
    Yields type (v.signed .minus pos) := by
  cases v <;> cases hv
  case int n => exact yields_ok rfl
  case float x => exact yields_ok rfl
  all_goals exact absurd hnum nofun

end Value

namespace Expr

variable {store : Store} {G : Typing}

/-- An expression evaluates to a value of its type, or divides by zero on the way. -/
theorem eval_yields (hw : store.WellTyped) (hG : store.Fits G) :
    ∀ {e : Expr} {type : DataType}, e.type? G = some type → Yields type (e.eval store) := by
  intro e
  induction e with
  | literal pos l =>
      intro type h
      exact yields_ok h
  | var pos name =>
      intro type h
      rcases hG.value hw h pos with ⟨v, hv, htype⟩
      exact Or.inl ⟨v, hv, htype⟩
  | signed pos sign e ih =>
      intro type h
      cases sign with
      | plus => exact (ih h).bind fun v hv => yields_ok hv
      | minus =>
          rcases Option.filter_eq_some_iff.mp h with ⟨he, hnum⟩
          exact (ih he).bind fun v hv => Value.minus_yields hv hnum
  | arith pos op l r ihl ihr =>
      intro type h
      rcases Option.bind_eq_some_iff.mp h with ⟨tl, hl, h⟩
      rcases Option.bind_eq_some_iff.mp h with ⟨tr, hr, h⟩
      exact (ihl hl).bind fun _ hvl => (ihr hr).bind fun _ hvr => Value.arith_yields hvl hvr h
  | compare pos op l r ihl ihr =>
      intro type h
      rcases Option.bind_eq_some_iff.mp h with ⟨tl, hl, h⟩
      rcases Option.bind_eq_some_iff.mp h with ⟨tr, hr, h⟩
      exact (ihl hl).bind fun _ hvl => (ihr hr).bind fun _ hvr => Value.compare_yields hvl hvr h
  | connect pos op l r ihl ihr =>
      intro type h
      rcases Option.ite_none_right_eq_some.mp h with ⟨⟨hl, hr⟩, h⟩
      rcases Option.some.inj h with rfl
      exact (ihl hl).bind fun _ hvl => (ihr hr).bind fun _ hvr => Value.connect_yields hvl hvr
  | concat pos l r ihl ihr =>
      intro type h
      rcases Option.bind_eq_some_iff.mp h with ⟨tl, hl, h⟩
      rcases Option.bind_eq_some_iff.mp h with ⟨tr, hr, h⟩
      rcases Option.some.inj h with rfl
      exact (ihl hl).bind fun _ _ => (ihr hr).bind fun _ _ => yields_ok rfl
  | paren pos e ih =>
      intro type h
      exact ih h
  | not pos e ih =>
      intro type h
      rcases Option.ite_none_right_eq_some.mp h with ⟨he, h⟩
      rcases Option.some.inj h with rfl
      refine (ih he).bind fun v hv => ?_
      rcases Value.exists_bool hv with ⟨b, rfl⟩
      exact yields_ok rfl
  | escape pos c =>
      intro type h
      rcases Option.ite_none_right_eq_some.mp h with ⟨hc, h⟩
      rcases Option.some.inj h with rfl
      rw [eval, Value.escaped, if_pos hc]
      exact yields_ok rfl
  | newline pos =>
      intro type h
      rcases Option.some.inj h with rfl
      exact yields_ok rfl

/-- A condition of boolean type is asked without a fault other than a division by
    zero. -/
theorem guard_of_type? (hw : store.WellTyped) (hG : store.Fits G) {e : Expr}
    (h : e.type? G = some .bool) (pos : Position) :
    (∃ b, e.guard store pos = .ok b) ∨
      ∃ p, e.guard store pos = .error (.program p .divisionByZero) := by
  unfold guard
  rcases eval_yields hw hG h with ⟨v, hv, htype⟩ | ⟨p, hp⟩
  · rcases Value.exists_bool htype with ⟨b, rfl⟩
    exact Or.inl ⟨b, by rw [hv]; rfl⟩
  · exact Or.inr ⟨p, by rw [hp]; rfl⟩

end Expr

namespace Input

/-- A piece of input is read as a value of the type that is asked for, or its format
    is wrong. -/
theorem read_yields (type : DataType) (text : String) (pos : Position) :
    (∃ v, read type text pos = .ok v ∧ v.type? = some type) ∨
      read type text pos = .error (.program pos (.inputFormat text type)) := by
  unfold read
  cases hv : value? type text with
  | none => exact Or.inr rfl
  | some v =>
      refine Or.inl ⟨v, rfl, ?_⟩
      cases type with
      | string => cases hv; rfl
      | _ =>
          rcases Option.map_eq_some_iff.mp hv with ⟨x, -, rfl⟩
          rfl

end Input

/-- The session of a program whose variables are known: they fit the typing, and the
    warnings are the given ones. -/
structure Session.Prepared (G : Typing) (warnings : List Fault) (s : Session) : Prop where
  typed : s.store.WellTyped
  fits : s.store.Fits G
  warnings_eq : s.warnings = warnings

/-- How an accepted statement fails: for a reason that types do not show, and with its
    variables still in order. -/
def Session.Halted (G : Typing) (warnings : List Fault) (e : Fault) (s : Session) : Prop :=
  e.IsCircumstantial ∧ s.Prepared G warnings

namespace Statement

open Primer.Action Session

variable {G : Typing} {w : List Fault}

/-- Reading a prepared session: what is read has the property, or the fault is one that
    types do not show. -/
theorem reading_meets {α : Type} {f : Store → Except Fault α} {T : α → Prop}
    (h : ∀ s : Session, s.Prepared G w → (∃ x, f s.store = .ok x ∧ T x) ∨
      ∃ e, f s.store = .error e ∧ e.IsCircumstantial) :
    Meets (Prepared G w) (reading f) (fun x s => T x ∧ s.Prepared G w) (Halted G w) := by
  refine meets_reading (fun s x hs hx => ?_) (fun s e hs he => ?_)
  · rcases h s hs with ⟨x', hx', hT⟩ | ⟨e, he, -⟩
    · rw [Except.ok.inj (hx.symm.trans hx')]
      exact ⟨hT, hs⟩
    · exact absurd (hx.symm.trans he) nofun
  · rcases h s hs with ⟨x, hx, -⟩ | ⟨e', he', hcirc⟩
    · exact absurd (he.symm.trans hx) nofun
    · rw [Except.error.inj (he.symm.trans he')]
      exact ⟨hcirc, hs⟩

/-- Updating a prepared session: the new store exists, and it fits a typing. -/
theorem updating_meets {G' : Typing} {u : Store.Update}
    (h : ∀ s : Session, s.Prepared G w →
      ∃ store, u.run s.store = .ok () store ∧ store.WellTyped ∧ store.Fits G') :
    Meets (Prepared G w) (updating u) (fun _ => Prepared G' w) (Halted G w) := by
  refine meets_updating (fun s store hs hu => ?_) (fun s e store hs he => ?_)
  · rcases h s hs with ⟨store', hu', htyped, hfits⟩
    cases hu.symm.trans hu'
    exact ⟨htyped, hfits, hs.warnings_eq⟩
  · rcases h s hs with ⟨store', hu', -, -⟩
    cases he.symm.trans hu'

theorem reading_eval_meets {e : Expr} {type : DataType} (h : e.type? G = some type) :
    Meets (Prepared G w) (reading fun store => e.eval store)
      (fun v s => v.type? = some type ∧ s.Prepared G w) (Halted G w) := by
  refine reading_meets fun s hs => ?_
  rcases Expr.eval_yields hs.typed hs.fits h with hv | ⟨p, hp⟩
  · exact Or.inl hv
  · exact Or.inr ⟨_, hp, trivial⟩

theorem reading_guard_meets {e : Expr} (h : e.type? G = some .bool) (pos : Position) :
    Meets (Prepared G w) (reading fun store => e.guard store pos)
      (fun _ => Prepared G w) (Halted G w) := by
  have hguard : Meets (Prepared G w) (reading fun store => e.guard store pos)
      (fun _ s => True ∧ s.Prepared G w) (Halted G w) := by
    refine reading_meets fun s hs => ?_
    rcases Expr.guard_of_type? hs.typed hs.fits h pos with ⟨b, hb⟩ | ⟨p, hp⟩
    · exact Or.inl ⟨b, hb, trivial⟩
    · exact Or.inr ⟨_, hp, trivial⟩
  exact hguard.mono (fun _ hs => hs) (fun _ _ hs => hs.2) (fun _ _ hs => hs)

theorem updating_assign_meets {name : String} {type : DataType} {v : Value} {pos : Position}
    (hG : G name = some type) (hv : v.type? = some type) :
    Meets (Prepared G w) (updating (Store.assign name v pos))
      (fun _ => Prepared G w) (Halted G w) := by
  refine updating_meets fun s hs => ?_
  rcases hs.fits.assign hG hv pos with ⟨store, ha, hfits⟩
  exact ⟨store, ha, hs.typed.assign ha, hfits⟩

theorem execAssign_meets {type : DataType} {v : Value} {pos : Position}
    (hv : v.type? = some type) {names : List String} (hG : ∀ name ∈ names, G name = some type) :
    Meets (Prepared G w) (execAssign pos v names) (fun _ => Prepared G w) (Halted G w) := by
  induction names with
  | nil => exact meets_pure fun _ hs => hs
  | cons name names ih =>
      refine (updating_assign_meets (hG name List.mem_cons_self) hv).bind fun _ => ih ?_
      exact fun other hmem => hG other (List.mem_cons_of_mem name hmem)

theorem reading_read_meets (type : DataType) (text : String) (pos : Position) :
    Meets (Prepared G w) (reading fun _ => Input.read type text pos)
      (fun v s => v.type? = some type ∧ s.Prepared G w) (Halted G w) := by
  refine reading_meets fun s _ => ?_
  rcases Input.read_yields type text pos with hv | hbad
  · exact Or.inl hv
  · exact Or.inr ⟨_, hbad, trivial⟩

/-- Each piece of input is read as a value of its variable's type, so that storing it
    cannot fail. -/
theorem execPieces_meets {pos : Position} {pairs : List (String × String)}
    (hG : ∀ pair ∈ pairs, (G pair.1).isSome) :
    Meets (Prepared G w) (execPieces pos pairs) (fun _ => Prepared G w) (Halted G w) := by
  induction pairs with
  | nil => exact meets_pure fun _ hs => hs
  | cons pair rest ih =>
      rcases pair with ⟨name, piece⟩
      rcases Option.isSome_iff_exists.mp (hG _ List.mem_cons_self) with ⟨type, htype⟩
      refine (reading_meets (T := fun t => t = type) fun s hs => ?_).bind fun t =>
        meets_of_fact ?_
      · rcases hs.fits.find? htype with ⟨v, hfind, -⟩
        exact Or.inl ⟨type, by simp only [Store.type, hfind], rfl⟩
      · rintro rfl
        refine (reading_read_meets t piece pos).bind fun v => meets_of_fact fun hv => ?_
        refine (updating_assign_meets htype hv).bind fun _ => ih ?_
        exact fun other hmem => hG other (List.mem_cons_of_mem _ hmem)

theorem execScan_meets {pos : Position} {names : List String}
    (hG : ∀ name ∈ names, (G name).isSome) :
    Meets (Prepared G w) (execScan pos names) (fun _ => Prepared G w) (Halted G w) := by
  unfold execScan
  refine Meets.bind (Q := fun _ => Prepared G w)
    (meets_flush (fun _ hs _ => ⟨hs.typed, hs.fits, hs.warnings_eq⟩)
      (fun _ hs _ => ⟨trivial, hs.typed, hs.fits, hs.warnings_eq⟩)) fun _ => ?_
  refine Meets.bind (Q := fun _ => Prepared G w) (meets_readLine
    (fun _ _ hs => ⟨hs.typed, hs.fits, hs.warnings_eq⟩)
    (fun _ hs => ⟨trivial, hs.typed, hs.fits, hs.warnings_eq⟩)) fun line => ?_
  have hpairs : ∀ pair ∈ names.zip (Input.pieces line), (G pair.1).isSome :=
    fun pair hmem => hG pair.1 (List.of_mem_zip hmem).1
  dsimp only
  split
  · exact Meets.bind (Q := fun _ => Prepared G w) (meets_throw fun _ hs => ⟨trivial, hs⟩)
      fun _ => execPieces_meets hpairs
  · exact execPieces_meets hpairs

theorem write_meets (text : String) :
    Meets (Prepared G w) (Session.write text) (fun _ => Prepared G w) (Halted G w) :=
  meets_write (fun _ _ hs _ => ⟨hs.typed, hs.fits, hs.warnings_eq⟩)
    (fun _ _ hs _ => ⟨trivial, hs.typed, hs.fits, hs.warnings_eq⟩)

-- The induction is on the statement. No case for a declaration is needed, since the
-- checker does not accept one here.
mutual

theorem exec_meets (cap : Nat) : ∀ {st : Statement}, st.checks G = true →
    Meets (Prepared G w) (exec cap st) (fun _ => Prepared G w) (Halted G w)
  | .declare _ _ _, h => absurd h nofun
  | .assign pos names e, h => by
      rw [exec]
      rcases (Option.any_eq_true _ _).mp h with ⟨type, htype, hnames⟩
      simp only [List.all_eq_true, decide_eq_true_eq] at hnames
      exact (reading_eval_meets htype).bind fun v => meets_of_fact fun hv =>
        execAssign_meets hv hnames
  | .choose _ first others otherwise, h => by
      rw [checks, Bool.and_eq_true, Bool.and_eq_true] at h
      rw [exec]
      refine (execBranch_meets cap h.1.1).bind fun taken => ?_
      cases taken with
      | true => exact meets_pure fun _ hs => hs
      | false =>
          refine (execBranches_meets cap h.1.2).bind fun taken => ?_
          cases taken with
          | true => exact meets_pure fun _ hs => hs
          | false => exact execOtherwise_meets cap h.2
  | .loop pos guard body, h => by
      rw [checks, Bool.and_eq_true, decide_eq_true_eq] at h
      rw [exec]
      exact loopGuardFirst_meets (reading_guard_meets h.1 pos) (execAll_meets cap h.2)
        (fun _ hs => ⟨trivial, hs⟩) _
  | .loopAfter pos body guard, h => by
      rw [checks, Bool.and_eq_true, decide_eq_true_eq] at h
      rw [exec]
      exact loopBodyFirst_meets (reading_guard_meets h.1 pos) (execAll_meets cap h.2)
        (fun _ hs => ⟨trivial, hs⟩) _
  | .display _ e, h => by
      rw [checks] at h
      rcases Option.isSome_iff_exists.mp h with ⟨type, htype⟩
      rw [exec]
      exact (reading_eval_meets htype).bind fun v => meets_of_fact fun _ => write_meets v.render
  | .scan pos names, h => by
      rw [checks, List.all_eq_true] at h
      rw [exec]
      exact execScan_meets h

theorem execAll_meets (cap : Nat) : ∀ {sts : List Statement}, checksAll G sts = true →
    Meets (Prepared G w) (execAll cap sts) (fun _ => Prepared G w) (Halted G w)
  | [], _ => meets_pure fun _ hs => hs
  | st :: rest, h => by
      rw [checksAll, Bool.and_eq_true] at h
      exact (exec_meets cap h.1).bind fun _ => execAll_meets cap h.2

theorem execBranch_meets (cap : Nat) : ∀ {b : Branch}, checksBranch G b = true →
    Meets (Prepared G w) (execBranch cap b) (fun _ => Prepared G w) (Halted G w)
  | ⟨pos, guard, body⟩, h => by
      rw [checksBranch, Bool.and_eq_true, decide_eq_true_eq] at h
      rw [execBranch]
      refine (reading_guard_meets h.1 pos).bind fun holds => ?_
      cases holds with
      | true => exact (execAll_meets cap h.2).bind fun _ => meets_pure fun _ hs => hs
      | false => exact meets_pure fun _ hs => hs

theorem execBranches_meets (cap : Nat) : ∀ {bs : List Branch}, checksBranches G bs = true →
    Meets (Prepared G w) (execBranches cap bs) (fun _ => Prepared G w) (Halted G w)
  | [], _ => meets_pure fun _ hs => hs
  | b :: rest, h => by
      rw [checksBranches, Bool.and_eq_true] at h
      rw [execBranches]
      refine (execBranch_meets cap h.1).bind fun taken => ?_
      cases taken with
      | true => exact meets_pure fun _ hs => hs
      | false => exact execBranches_meets cap h.2

theorem execOtherwise_meets (cap : Nat) : ∀ {body : Option (List Statement)},
    checksOtherwise G body = true →
    Meets (Prepared G w) (execOtherwise cap body) (fun _ => Prepared G w) (Halted G w)
  | none, _ => meets_pure fun _ hs => hs
  | some body, h => by
      rw [checksOtherwise] at h
      exact execAll_meets cap h

end

theorem reading_initial_meets {initializer : Option Expr} {e : Expr} {type : DataType}
    (he : initializer = some e) (h : e.type? G = some type) :
    Meets (Prepared G w) (reading fun store => initializer.mapM (Expr.eval store))
      (fun initial s => (∃ v, initial = some v ∧ v.type? = some type) ∧ s.Prepared G w)
      (Halted G w) := by
  subst he
  refine reading_meets fun s hs => ?_
  rcases Expr.eval_yields hs.typed hs.fits h with ⟨v, hv, htype⟩ | ⟨p, hp⟩
  · exact Or.inl ⟨some v, by simp only [Option.mapM_some, hv]; rfl, v, rfl, htype⟩
  · exact Or.inr ⟨.program p .divisionByZero, by simp only [Option.mapM_some, hp]; rfl, trivial⟩

/-- Declaring a new name with a value of its type widens the typing by that name, and
    gives no warning. -/
theorem execDeclarator_meets {type : DataType} {d : Declarator} (hnew : G d.name = none)
    (hinit : d.initializer.bind (Expr.type? G) = some type) :
    Meets (Prepared G w) (execDeclarator type d)
      (fun _ => Prepared (G.insert d.name type) w) (Halted G w) := by
  rcases Option.bind_eq_some_iff.mp hinit with ⟨e, he, htype⟩
  unfold execDeclarator
  refine Meets.bind (Q := fun x s => x.store.find? d.name = none ∧ s.Prepared G w)
    (meets_get fun s hs => ⟨hs.fits.find?_none hnew, hs⟩) fun x => meets_of_fact fun hfind => ?_
  -- The name is new, so there is no warning to give.
  rw [hfind]
  refine (reading_initial_meets he htype).bind fun initial => meets_of_fact ?_
  rintro ⟨v, rfl, hv⟩
  refine updating_meets fun s hs => ?_
  rcases hs.fits.declare hnew hv d.pos with ⟨store, hd, hfits⟩
  exact ⟨store, hd, hs.typed.declare hd, hfits⟩

end Statement

namespace Typing

open Primer.Action Session Statement

variable {w : List Fault}

/-- How an accepted list fails: as its statements do, with the variables that had been
    declared by then. -/
def HaltedBetween (G G' : Typing) (w : List Fault) (e : Fault) (s : Session) : Prop :=
  ∃ D, D.Extends G ∧ Extends G' D ∧ Halted D w e s

/-- An action that keeps its typing up to a new name fails between the two. -/
theorem meets_between {G G' : Typing} {a : Action Unit} (hG' : Extends G' G)
    (ha : Meets (Prepared G w) a (fun _ => Prepared G' w) (Halted G w)) :
    Meets (Prepared G w) a (fun _ => Prepared G' w) (HaltedBetween G G' w) :=
  ha.mono (fun _ hs => hs) (fun _ _ hs => hs) (fun _ _ hs => ⟨G, .refl G, hG', hs⟩)

/-- Of two actions in order, the first fails below the middle and the second above
    it. -/
theorem meets_between_seq {G G₁ G' : Typing} {a b : Action Unit} (hlow : Extends G₁ G)
    (hhigh : Extends G' G₁)
    (ha : Meets (Prepared G w) a (fun _ => Prepared G₁ w) (HaltedBetween G G₁ w))
    (hb : Meets (Prepared G₁ w) b (fun _ => Prepared G' w) (HaltedBetween G₁ G' w)) :
    Meets (Prepared G w) (a >>= fun _ => b) (fun _ => Prepared G' w)
      (HaltedBetween G G' w) := by
  refine Meets.bind (ha.mono (fun _ hs => hs) (fun _ _ hs => hs) ?_) fun _ =>
    hb.mono (fun _ hs => hs) (fun _ _ hs => hs) ?_
  · rintro e s ⟨D, hD, hD', hhalt⟩
    exact ⟨D, hD, hD'.trans hhigh, hhalt⟩
  · rintro e s ⟨D, hD, hD', hhalt⟩
    exact ⟨D, hlow.trans hD, hD', hhalt⟩

/-- The names of a declaration are declared one after the other, each over the names
    before it. -/
theorem forM_execDeclarator_meets {type : DataType} {ds : List Declarator} :
    ∀ {G G' : Typing}, G.extend? type ds = some G' →
      Meets (Prepared G w) (ds.forM (execDeclarator type)) (fun _ => Prepared G' w)
        (HaltedBetween G G' w) := by
  induction ds with
  | nil =>
      intro G G' h
      rw [← Option.some.inj h]
      exact meets_pure fun _ hs => hs
  | cons d ds ih =>
      intro G G' h
      rw [extend?] at h
      split at h
      · rename_i hd
        -- A fault at this name leaves the types before it, one later leaves more.
        have hlow : Extends (G.insert d.name type) G := extends_insert hd.1
        exact meets_between_seq hlow (extends_of_extend? h)
          (meets_between hlow (execDeclarator_meets hd.1 hd.2)) (ih h)
      · cases h

/-- An accepted list of statements leads to the types after it. -/
theorem execAll_meets_check (cap : Nat) {sts : List Statement} :
    ∀ {G G' : Typing}, G.check? sts = some G' →
      Meets (Prepared G w) (execAll cap sts) (fun _ => Prepared G' w)
        (HaltedBetween G G' w) := by
  induction sts with
  | nil =>
      intro G G' h
      rw [← Option.some.inj h]
      exact meets_pure fun _ hs => hs
  | cons st rest ih =>
      intro G G' h
      rw [execAll]
      rcases check?_cons h with ⟨pos, type, ds, G₁, rfl, h₁, h₂⟩ | ⟨hst, h₂⟩
      · rw [exec]
        exact meets_between_seq (extends_of_extend? h₁) (extends_of_check? h₂)
          (forM_execDeclarator_meets h₁) (ih h₂)
      · exact meets_between_seq (.refl G) (extends_of_check? h₂)
          (meets_between (.refl G) (exec_meets cap hst)) (ih h₂)

/-- Accepted statements do not go wrong. Run where exactly the variables of a typing
    exist, each holding a value of its type, they succeed or fail for a reason that
    types do not show. Either way the variables there were keep their types and stay
    filled, and what there is beside them has been declared by the statements, and is
    filled as well: all of it if they succeed. No name is declared twice, so no warning
    is given. -/
theorem execAll_of_accepted {G G' : Typing} {sts : List Statement} (h : G.check? sts = some G')
    (cap : Nat) {s : Session} (htyped : s.store.WellTyped) (hfits : s.store.Fits G) :
    (∀ e s', (execAll cap sts).run s = .error e s' → e.IsCircumstantial) ∧
    (∀ name type, G name = some type →
      ∃ v, ((execAll cap sts).after s).store.find? name = some ⟨type, v⟩ ∧ v ≠ .empty) ∧
    (∃ D, Extends D G ∧ Extends G' D ∧ ((execAll cap sts).after s).store.Fits D ∧
      ∀ s', (execAll cap sts).run s = .ok () s' → D = G') ∧
    ((execAll cap sts).after s).warnings = s.warnings := by
  have hend := execAll_meets_check (w := s.warnings) cap h s ⟨htyped, hfits, rfl⟩
  have hG' : Extends G' G := extends_of_check? h
  cases hrun : (execAll cap sts).run s with
  | ok u s' =>
      rw [hrun] at hend
      have hs' : s'.Prepared G' s.warnings := hend
      rw [after_of_ok hrun]
      refine ⟨fun e t ht => absurd ht nofun, ?_, ?_, hs'.warnings_eq⟩
      · intro name type hG
        exact hs'.fits.find? (hG' name type hG)
      · exact ⟨G', hG', .refl G', hs'.fits, fun _ _ => rfl⟩
  | error e s' =>
      rw [hrun] at hend
      rcases hend with ⟨D, hD, hD', hcirc, hs'⟩
      rw [after_of_error hrun]
      refine ⟨fun f t ht => ?_, ?_, ?_, hs'.warnings_eq⟩
      · cases ht
        exact hcirc
      · intro name type hG
        exact hs'.fits.find? (hD name type hG)
      · exact ⟨D, hD, hD', hs'.fits, fun t ht => absurd ht nofun⟩

/-- A loop that is accepted and divides by zero in its second round, after a variable
    has been declared. -/
theorem execAll_of_accepted_division :
    let pos : Position := ⟨2, 0⟩
    let var (name : String) : Expr := .var pos name
    let G : Typing := fun name => if name = "x" then some .int else none
    let s : Session := { store := ⟨[("x", ⟨.int, .int 1⟩)]⟩ }
    let sts : List Statement := [
      .declare pos .int [⟨pos, "y", some (.arith pos .add (var "x") (var "x"))⟩],
      .loop pos (.compare pos .ge (var "y") (.signed pos .minus (var "x"))) [
        .assign pos ["y"] (.arith pos .sub (var "y") (var "x")),
        .assign pos ["x"] (.arith pos .div (var "x") (var "y"))]]
    s.store.WellTyped ∧ s.store.Fits G ∧ G.check? sts = some (G.insert "y" .int) ∧
      (∃ s', (execAll 9 sts).run s = .error (.program pos .divisionByZero) s' ∧
        s'.store = ⟨[("y", ⟨.int, .int 0⟩), ("x", ⟨.int, .int 1⟩)]⟩) ∧
      (∀ e s', (execAll 9 sts).run s = .error e s' → e.IsCircumstantial) := by
  intro pos var G s sts
  have htyped : s.store.WellTyped := by
    intro name b hb
    rw [Store.find?_cons] at hb
    split at hb
    · exact Or.inr (by rw [← Option.some.inj hb]; rfl)
    · exact absurd hb nofun
  have hfits : s.store.Fits G := by
    refine ⟨fun name => ?_, fun name b hb => ?_⟩
    · rw [Store.find?_cons]
      by_cases hname : name = "x"
      · simp only [hname, if_true, Option.map_some, G]
      · simp only [hname, if_false, G]
        rfl
    · rw [Store.find?_cons] at hb
      split at hb
      · rw [← Option.some.inj hb]
        exact nofun
      · exact absurd hb nofun
  have hcheck : G.check? sts = some (G.insert "y" .int) := rfl
  exact ⟨htyped, hfits, hcheck, ⟨_, rfl, rfl⟩, (execAll_of_accepted hcheck 9 htyped hfits).1⟩

end Typing

end Primer
