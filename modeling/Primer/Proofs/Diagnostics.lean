import Primer.Proofs.Grammar.Execution
import Primer.Proofs.RoundTrip.Expressible
import Primer.Proofs.Typing.Soundness

/-!
# Faults Point Into the Source

Where a diagnostic of a running program points. A fault carries the position of the node
of the program that it is reported at, and the node got its position from the parser. The
lexeme at that position is one of the source text, and it is of the kind that the fault is
about: a division by zero stands at a `/` or a `%`, an endless loop at the word that
begins it.

The nodes of a program and the lexemes of its text are related by the grammar. So the proof
follows the grammar: it says for each rule which lexeme the node's position is taken from, and
what a fault at that node can be. `Traced` states it for what is computed from the variables
alone, and `Traceable` for actions. Both are about any list of lexemes that contains those of
the node, since a node is part of a larger text. The expressions are gone through here, and
`traceable_textual` is what has to be known of the steps; the statements are made of these.

Two faults have to be excluded. An assignment reports at a position that need not be that of
the variable, and a line of input is stored by assignments that report at the `SCAN`, where
neither a missing variable nor a wrong type would be in place. Neither happens: the type
of the variable is looked up first, and the value is read as one of that type. And a
second declaration is a warning and never the fault that ends a program.

## Main definitions

* `Cause.Blames`: The tokens that a cause can be reported at.
* `Fault.Points`: A fault is reported at one of some lexemes, of the right kind.
* `Traced`, `Action.Traceable`: Every fault of a computation, and of an action, points at
  one of some lexemes.

## Theorems

* `Expr.Spelled.eval_traced`: The faults of expressions.
* `Action.traceable_textual`: The faults and warnings of the parts of a program.
* `Program.exec_points`: The faults and warnings of programs.
-/

namespace Primer

namespace Cause

/-- The tokens that a cause can be reported at. A second declaration is not reported as a
    fault. -/
def Blames : Cause → Token → Prop
  | .undefined _, t => ∃ name, t = .identifier name
  | .mismatch _ _, t => ∃ name, t = .identifier name
  | .divisionByZero, t => t = .symbol .slash ∨ t = .symbol .percent
  | .badArith op _ _, t => t = op.token
  | .badComparison op _ _, t => t = op.token ∧
      t ∈ [.symbol .less, .symbol .greater, .symbol .lessEqual, .symbol .greaterEqual]
  | .badConnective op _ _, t => t = op.token
  | .badSign _, t => t = .symbol .minus
  | .badNegation, t => t = .keyword .notKw
  | .badEscape c, t => t = .escape c
  | .undeclared _, t => t = .keyword .scanKw
  | .inputCount _ _, t => t = .keyword .scanKw
  | .inputFormat _ _, t => t = .keyword .scanKw
  | .endlessLoop, t => t = .keyword .whileKw ∨ t = .keyword .doKw
  | .notCondition _, t => t = .keyword .ifKw ∨ t = .keyword .whileKw ∨ t = .keyword .doKw
  | .redeclared _, _ => False

end Cause

namespace Fault

/-- The fault is reported at one of the lexemes, and at one of the right kind. A failed
    channel is reported nowhere. -/
def Points (ls : List Lexeme) : Fault → Prop
  | .program pos cause => ∃ t, ⟨t, pos⟩ ∈ ls ∧ cause.Blames t
  | .channel _ => True

theorem Points.mono {ls ls' : List Lexeme} {e : Fault} (h : e.Points ls) (hsub : ls ⊆ ls') :
    e.Points ls' := by
  cases e with
  | program pos cause =>
      rcases h with ⟨t, ht, hblames⟩
      exact ⟨t, hsub ht, hblames⟩
  | channel fault => exact trivial

end Fault

section Computations

variable {α β : Type} {ls : List Lexeme}

/-- If the computation fails, then with a fault that points at one of the lexemes. -/
def Traced (ls : List Lexeme) (x : Except Fault α) : Prop :=
  ∀ e, x = .error e → e.Points ls

theorem traced_ok (x : α) : Traced ls (.ok x) :=
  fun _ h => by cases h

theorem traced_error {e : Fault} (h : e.Points ls) : Traced ls (.error e : Except Fault α) :=
  fun _ he => Except.error.inj he ▸ h

theorem Traced.mono {ls' : List Lexeme} {x : Except Fault α} (h : Traced ls x)
    (hsub : ls ⊆ ls') : Traced ls' x :=
  fun e he => (h e he).mono hsub

theorem Traced.of_mem {l : Lexeme} {x : Except Fault α} (h : Traced [l] x) (hl : l ∈ ls) :
    Traced ls x :=
  h.mono (List.cons_subset.mpr ⟨hl, List.nil_subset ls⟩)

theorem Traced.bind {x : Except Fault α} {f : α → Except Fault β} (hx : Traced ls x)
    (hf : ∀ a, Traced ls (f a)) : Traced ls (x >>= f) := by
  cases x with
  | error e => exact fun e' he => hx e' (by cases he; rfl)
  | ok a => exact hf a

end Computations

section Operations

variable {pos : Position}

/-- Only a quotient or a remainder can be missing. -/
theorem ArithOp.token_of_onInts?_eq_none {op : ArithOp} {a b : Int32}
    (h : op.onInts? a b = none) : op.token = .symbol .slash ∨ op.token = .symbol .percent := by
  cases op with
  | div => exact .inl rfl
  | mod => exact .inr rfl
  | _ => cases h

namespace Value

theorem arith_traced (op : ArithOp) (left right : Value) :
    Traced [⟨op.token, pos⟩] (left.arith op pos right) := by
  unfold arith
  split
  · -- Two whole numbers: the operator may be a division.
    split
    · exact traced_ok _
    · rename_i hnone
      exact traced_error ⟨_, List.mem_cons_self, ArithOp.token_of_onInts?_eq_none hnone⟩
  · exact traced_ok _
  · exact traced_ok _
  · exact traced_ok _
  · split
    · exact traced_ok _
    · exact traced_error ⟨_, List.mem_cons_self, rfl⟩

theorem compare_traced (op : Comparison) (left right : Value) :
    Traced [⟨op.token, pos⟩] (left.compare op pos right) := by
  have hbad : (op ≠ .eq ∧ op ≠ .ne) → Traced [⟨op.token, pos⟩]
      (.error (.program pos (.badComparison op left.type? right.type?)) : Except Fault Value) := by
    rintro ⟨heq, hne⟩
    refine traced_error ⟨_, List.mem_cons_self, rfl, ?_⟩
    cases op with
    | eq => exact absurd rfl heq
    | ne => exact absurd rfl hne
    | _ => simp only [Comparison.token, List.mem_cons, true_or, or_true]
  unfold compare
  split
  case h_11 hne heq _ _ _ _ _ _ _ _ =>
    -- No other rule applies, so the comparison is one by order.
    exact hbad ⟨hne, heq⟩
  all_goals exact traced_ok _

theorem connect_traced (op : Connective) (left right : Value) :
    Traced [⟨op.token, pos⟩] (left.connect op pos right) := by
  unfold connect
  split
  · cases op with
    | and => exact traced_ok _
    | or => exact traced_ok _
  · exact traced_error ⟨_, List.mem_cons_self, rfl⟩

theorem signed_traced (sign : Sign) (v : Value) :
    Traced [⟨sign.token, pos⟩] (v.signed sign pos) := by
  unfold signed
  split
  · exact traced_ok _
  · exact traced_ok _
  · exact traced_ok _
  · exact traced_error ⟨_, List.mem_cons_self, rfl⟩

theorem negate_traced (v : Value) : Traced [⟨.keyword .notKw, pos⟩] (v.negate pos) := by
  unfold negate
  split
  · exact traced_ok _
  · exact traced_error ⟨_, List.mem_cons_self, rfl⟩

theorem escaped_traced (c : Char) : Traced [⟨.escape c, pos⟩] (escaped c pos) := by
  unfold escaped
  split
  · exact traced_ok _
  · exact traced_error ⟨_, List.mem_cons_self, rfl⟩

theorem condition_traced {t : Token} (v : Value)
    (ht : t = .keyword .ifKw ∨ t = .keyword .whileKw ∨ t = .keyword .doKw) :
    Traced [⟨t, pos⟩] (v.condition pos) := by
  unfold condition
  split
  · exact traced_ok _
  · exact traced_error ⟨t, List.mem_cons_self, ht⟩

theorem conform_traced {name : String} (type : DataType) (v : Value) :
    Traced [⟨.identifier name, pos⟩] (v.conform type pos) := by
  unfold conform
  split
  · exact traced_ok _
  · exact traced_error ⟨_, List.mem_cons_self, name, rfl⟩

end Value

namespace Store

variable {ls : List Lexeme} {store store' : Store} {name target : String} {e : Fault}

theorem value_traced (store : Store) (name : String) :
    Traced [⟨.identifier name, pos⟩] (store.value name pos) := by
  unfold value
  split
  · exact traced_ok _
  · exact traced_error ⟨_, List.mem_cons_self, name, rfl⟩

/-- The declaration of a free name fails only for the type of its initial value. -/
theorem declare_points (hmem : (⟨.identifier name, pos⟩ : Lexeme) ∈ ls)
    (hfree : store.find? name = none) {type : DataType} {initial : Option Value}
    (h : (declare name type initial pos).run store = .error e store') : e.Points ls := by
  rcases declare_eq_error h with ⟨hbound, -⟩ | ⟨v, -, hconf⟩
  · exact absurd hfree hbound
  · exact (v.conform_traced type).of_mem hmem e hconf

/-- An assignment may be reported at another variable than its own. -/
theorem assign_points (hmem : (⟨.identifier target, pos⟩ : Lexeme) ∈ ls) {v : Value}
    (h : (assign name v pos).run store = .error e store') : e.Points ls := by
  rcases assign_eq_error h with ⟨-, rfl⟩ | ⟨b, -, hconf⟩
  · exact ⟨_, hmem, target, rfl⟩
  · exact (v.conform_traced b.type).of_mem hmem e hconf

theorem type_traced (store : Store) (name : String) :
    Traced [⟨.keyword .scanKw, pos⟩] (store.type name pos) := by
  unfold type
  split
  · exact traced_ok _
  · exact traced_error ⟨_, List.mem_cons_self, rfl⟩

theorem find?_of_type_eq_ok {type : DataType} (h : store.type name pos = .ok type) :
    ∃ v, store.find? name = some ⟨type, v⟩ := by
  unfold Store.type at h
  split at h
  · rename_i b hb
    rcases Except.ok.inj h with rfl
    exact ⟨b.value, hb⟩
  · cases h

/-- A value of the variable's own type can always be assigned to it. -/
theorem assign_ne_error {type : DataType} {v v' : Value}
    (hfind : store.find? name = some ⟨type, v'⟩) (hv : v.type? = some type) :
    (assign name v pos).run store ≠ .error e store' := by
  rw [assign_of_type hfind hv pos]
  simp only [ne_eq, reduceCtorEq, not_false_eq_true]

end Store

end Operations

namespace Expr

variable {ls : List Lexeme}

/-- The faults of an expression point at its lexemes. -/
theorem Spelled.eval_traced {e : Expr} (h : e.Spelled ls) (store : Store) :
    Traced ls (e.eval store) := by
  -- The operands come first, and the operator stands between them.
  have hjoin : ∀ {o : Lexeme} {ls rs : List Lexeme} {x y : Except Fault Value}
      {f : Value → Value → Except Fault Value}, Traced ls x → Traced rs y →
      (∀ a b, Traced [o] (f a b)) →
      Traced (ls ++ o :: rs) (do let a ← x; let b ← y; f a b) := by
    intro o ls rs x y f hx hy hf
    have hop : o ∈ ls ++ o :: rs := List.mem_append_right ls List.mem_cons_self
    have hright : rs ⊆ ls ++ o :: rs := fun l hl =>
      List.mem_append_right ls (List.mem_cons_of_mem o hl)
    exact (hx.mono (List.subset_append_left ls _)).bind fun a =>
      (hy.mono hright).bind fun b => (hf a b).of_mem hop
  have hmark : ∀ {o : Lexeme} {ls : List Lexeme} {x : Except Fault Value}
      {f : Value → Except Fault Value}, Traced ls x → (∀ a, Traced [o] (f a)) →
      Traced (o :: ls) (x >>= f) := by
    intro o ls x f hx hf
    exact (hx.mono (List.subset_cons_self o ls)).bind fun a =>
      (hf a).of_mem List.mem_cons_self
  induction h with
  | literal pos v => exact traced_ok _
  | var pos name => exact store.value_traced name
  | newline pos => exact traced_ok _
  | escape pos c => exact Value.escaped_traced c
  | paren pos close h ih =>
      refine ih.mono fun l hl => ?_
      exact List.mem_cons_of_mem _ (List.mem_append_left _ hl)
  | signed pos sign h ih => exact hmark ih fun v => v.signed_traced sign
  | not pos h ih => exact hmark ih Value.negate_traced
  | arith pos op hl hr ihl ihr => exact hjoin ihl ihr (Value.arith_traced op)
  | compare pos op hl hr ihl ihr => exact hjoin ihl ihr (Value.compare_traced op)
  | connect pos op hl hr ihl ihr => exact hjoin ihl ihr (Value.connect_traced op)
  | concat pos hl hr ihl ihr => exact hjoin ihl ihr fun _ _ => traced_ok _

end Expr

/-- Every warning is about a second declaration, and stands at the name declared there. -/
def Session.Noted (ls : List Lexeme) (s : Session) : Prop :=
  ∀ w ∈ s.warnings, ∃ name pos, w = .program pos (.redeclared name) ∧
    (⟨.identifier name, pos⟩ : Lexeme) ∈ ls

namespace Action

open Session

variable {α : Type} {ls : List Lexeme}

/-- If the action fails, then with a fault that points at one of the lexemes; and every
    warning it gives stands at one of them. -/
def Traceable (ls : List Lexeme) (a : Action α) : Prop :=
  Meets (Noted ls) a (fun _ => Noted ls) (fun e s => e.Points ls ∧ s.Noted ls)

theorem traceable_reading {f : Store → Except Fault α} (h : ∀ store, Traced ls (f store)) :
    Traceable ls (reading f) :=
  meets_reading (fun _ _ hs _ => hs) (fun s e hs he => ⟨h s.store e he, hs⟩)

theorem traceable_updating {u : Store.Update}
    (h : ∀ {store store' e}, u.run store = .error e store' → e.Points ls) :
    Traceable ls (updating u) :=
  meets_updating (fun _ _ hs _ => hs) (fun _ _ _ hs he => ⟨h he, hs⟩)

theorem traceable_write (text : String) : Traceable ls (Session.write text) :=
  meets_write (fun _ _ hs _ => hs) (fun _ _ hs _ => ⟨trivial, hs⟩)

theorem traceable_flush : Traceable ls Session.flush :=
  meets_flush (fun _ hs _ => hs) (fun _ hs _ => ⟨trivial, hs⟩)

theorem traceable_pure (x : α) : Traceable ls (pure x : Action α) :=
  meets_pure fun _ hs => hs

theorem traceable_throw {e : Fault} (he : e.Points ls) : Traceable ls (throw e : Action α) :=
  meets_throw fun _ hs => ⟨he, hs⟩

end Action

namespace Statement

open Primer.Action Session

variable {ls : List Lexeme}

theorem execDeclarator_traceable {d : Declarator} {dls : List Lexeme} (h : d.Written dls)
    (hsub : dls ⊆ ls) (type : DataType) : Traceable ls (execDeclarator type d) := by
  have hname : (⟨.identifier d.name, d.pos⟩ : Lexeme) ∈ ls := by
    cases h with
    | bare pos name => exact hsub List.mem_cons_self
    | initialized pos name sign h => exact hsub List.mem_cons_self
  have hinitial : ∀ store : Store, Traced ls (d.initializer.mapM (Expr.eval store)) := by
    intro store
    cases h with
    | bare pos name => exact traced_ok _
    | @initialized pos name sign e els he =>
        refine Traced.bind ((he.2.eval_traced store).mono fun l hl => hsub ?_) fun v => ?_
        · exact List.mem_cons_of_mem _ (List.mem_cons_of_mem _ hl)
        · exact traced_ok _
  refine Meets.bind (Q := fun x s => x = s ∧ s.Noted ls) (meets_get fun s hs => ⟨rfl, hs⟩) ?_
  intro x
  cases hfind : x.store.find? d.name with
  | some b =>
      have hwarn : Traceable ls (warn (.program d.pos (.redeclared d.name))) := by
        refine (traceable_write _).bind fun _ => meets_modify fun s hs => ?_
        refine List.forall_mem_append.mpr ⟨hs, List.forall_mem_singleton.mpr ?_⟩
        exact ⟨d.name, d.pos, rfl, hname⟩
      exact hwarn.mono (fun s hs => hs.2) (fun _ _ hs => hs) (fun _ _ hs => hs)
  | none =>
      -- The name is still free after its initial value has been computed.
      refine Meets.bind (Q := fun _ s => s.store.find? d.name = none ∧ s.Noted ls) ?_ ?_
      · refine meets_reading ?_ ?_
        · rintro s v ⟨rfl, hs⟩ -
          exact ⟨hfind, hs⟩
        · rintro s e ⟨rfl, hs⟩ he
          exact ⟨hinitial _ e he, hs⟩
      · intro initial
        exact meets_updating (fun _ _ hs _ => hs.2)
          fun _ _ _ hs he => ⟨Store.declare_points hname hs.1 he, hs.2⟩

theorem execAssign_traceable {name : String} {pos : Position}
    (hmem : (⟨.identifier name, pos⟩ : Lexeme) ∈ ls) (value : Value) (names : List String) :
    Traceable ls (execAssign pos value names) := by
  induction names with
  | nil => exact traceable_pure ()
  | cons target names ih =>
      exact (traceable_updating fun he => Store.assign_points hmem he).bind fun _ => ih

/-- Storing a piece of input does not fail, once it has been read as a value of the
    variable's type. -/
theorem execPieces_traceable {pos : Position} (hmem : (⟨.keyword .scanKw, pos⟩ : Lexeme) ∈ ls)
    (pairs : List (String × String)) : Traceable ls (execPieces pos pairs) := by
  induction pairs with
  | nil => exact traceable_pure ()
  | cons pair rest ih =>
      rcases pair with ⟨name, piece⟩
      -- What is known of the variable and of the value goes along in the condition.
      refine Meets.bind (Q := fun type s => (∃ v, s.store.find? name = some ⟨type, v⟩) ∧
        s.Noted ls) ?_ fun type => ?_
      · exact meets_reading (fun s type hs htype => ⟨Store.find?_of_type_eq_ok htype, hs⟩)
          fun s e hs he => ⟨(s.store.type_traced name).of_mem hmem e he, hs⟩
      refine Meets.bind (Q := fun v s => v.type? = some type ∧
        (∃ v, s.store.find? name = some ⟨type, v⟩) ∧ s.Noted ls) ?_ fun v => ?_
      · rcases Input.read_yields type piece pos with ⟨v, hread, hv⟩ | hbad
        · refine meets_reading (fun s v' hs hv' => ?_) fun s e _ he => ?_
          · rcases Except.ok.inj (hread.symm.trans hv') with rfl
            exact ⟨hv, hs⟩
          · cases hread.symm.trans he
        · refine meets_reading (fun s v' _ hv' => ?_) fun s e hs he => ⟨?_, hs.2⟩
          · cases hbad.symm.trans hv'
          · rcases Except.error.inj (hbad.symm.trans he) with rfl
            exact ⟨_, hmem, rfl⟩
      · refine Meets.bind (Q := fun _ => Noted ls) ?_ fun _ => ih
        refine meets_updating (fun _ _ hs _ => hs.2.2) ?_
        rintro s e store ⟨hv, ⟨v', hfind⟩, -⟩ he
        exact absurd he (Store.assign_ne_error hfind hv)

theorem execScan_traceable {pos : Position} (hmem : (⟨.keyword .scanKw, pos⟩ : Lexeme) ∈ ls)
    (names : List String) : Traceable ls (execScan pos names) := by
  unfold execScan
  refine traceable_flush.bind fun _ => ?_
  refine Meets.bind (Q := fun _ => Noted ls)
    (meets_readLine (fun _ _ hs => hs) (fun _ hs => ⟨trivial, hs⟩)) fun line => ?_
  dsimp only
  split
  · refine (traceable_throw ?_).bind fun _ => execPieces_traceable hmem _
    exact ⟨_, hmem, rfl⟩
  · exact execPieces_traceable hmem _

end Statement

namespace Action

variable {ls : List Lexeme}

theorem traceable_step {step : Step} (h : step.WrittenIn ls) : Traceable ls step.exec := by
  cases h with
  | declare type h hsub => exact Statement.execDeclarator_traceable h hsub type
  | assign htarget _ h hsub =>
      exact (traceable_reading fun store => (h.eval_traced store).mono hsub).bind
        fun value => Statement.execAssign_traceable htarget value _
  | display h hsub =>
      exact (traceable_reading fun store => (h.eval_traced store).mono hsub).bind
        fun value => traceable_write value.render
  | scan hword _ => exact Statement.execScan_traceable hword _

/-- The faults and warnings of the parts of a text point at its lexemes. -/
theorem traceable_textual (ls : List Lexeme) : Textual ls fun _ => Traceable ls where
  pure := traceable_pure
  bind := Meets.bind
  step := traceable_step
  guard := by
    intro word pos e els hword hmem h hsub
    refine traceable_reading fun store => ((h.eval_traced store).mono hsub).bind fun v => ?_
    have hcondition : Traced [⟨.keyword word, pos⟩] (v.condition pos) :=
      v.condition_traced (by rcases hword with rfl | rfl | rfl <;> simp)
    exact hcondition.of_mem hmem
  endless := by
    intro word pos hword hmem
    refine traceable_throw ⟨_, hmem, ?_⟩
    rcases hword with rfl | rfl
    · exact .inl rfl
    · exact .inr rfl

end Action

namespace Program

open Primer.Action

theorem Written.exec_traceable {p : Program} {ls : List Lexeme} (h : p.Written ls)
    (cap : Nat) : Traceable ls (p.exec cap) :=
  h.exec_textual (traceable_textual ls) traceable_flush cap

/-- A fault of a program that was read from a source text is reported at the position of
    a lexeme of that text, of the kind that the fault is about. Every warning stands at
    the name that was declared a second time. -/
theorem exec_points {source : String} {p : Program} (h : ofSource source = .ok p) (cap : Nat)
    (input : List UInt8) (sink : Sink) :
    ∃ ls, Lexeme.ofSource source = .ok ls ∧
      (∀ pos cause, (p.exec cap).fault? ⟨.empty, input, sink, []⟩ = some (.program pos cause) →
        ∃ t, ⟨t, pos⟩ ∈ ls ∧ cause.Blames t) ∧
      ∀ w ∈ ((p.exec cap).after ⟨.empty, input, sink, []⟩).warnings,
        ∃ name pos, w = .program pos (.redeclared name) ∧ ⟨.identifier name, pos⟩ ∈ ls := by
  unfold ofSource at h
  cases hcut : Lexeme.ofSource source with
  | error e =>
      rw [hcut] at h
      cases h
  | ok ls =>
      rw [hcut] at h
      have hend := (ofLexemes_eq_ok.mp h).exec_traceable cap ⟨.empty, input, sink, []⟩
        (fun _ hw => absurd hw List.not_mem_nil)
      refine ⟨ls, rfl, ?_⟩
      unfold fault? Action.after
      cases hrun : (p.exec cap).run ⟨.empty, input, sink, []⟩ with
      | ok u s =>
          rw [hrun] at hend
          exact ⟨fun _ _ hfault => (by cases hfault), hend⟩
      | error e s =>
          rw [hrun] at hend
          refine ⟨fun pos cause hfault => ?_, hend.2⟩
          rcases Option.some.inj hfault with rfl
          exact hend.1

/-- A name that is declared twice in a list, and a remainder by zero inside parentheses,
    in the condition of a second branch. -/
theorem exec_points_second_branch :
    let source := "BEGIN CODE\nINT x, y = 4, x\nSCAN: x\nIF (x > 0)\nBEGIN IF\nEND IF\n" ++
      "ELSE IF ((y % x) == 1)\nBEGIN IF\nEND IF\nEND CODE\n"
    let s : Session := ⟨.empty, "0\n".toUTF8.toList, {}, []⟩
    ∃ p ls, ofSource source = .ok p ∧ Lexeme.ofSource source = .ok ls ∧
      (p.exec 9).fault? s = some (.program ⟨7, 12⟩ .divisionByZero) ∧
      (∃ t, ⟨t, ⟨7, 12⟩⟩ ∈ ls ∧ (t = .symbol .slash ∨ t = .symbol .percent)) ∧
      ((p.exec 9).after s).warnings = [.program ⟨2, 14⟩ (.redeclared "x")] ∧
      ⟨.identifier "x", ⟨2, 14⟩⟩ ∈ ls := by
  intro source s
  have hrun : (ofSource source).map (fun p => ((p.exec 9).fault? s, ((p.exec 9).after s).warnings))
      = .ok (some (.program ⟨7, 12⟩ .divisionByZero), [.program ⟨2, 14⟩ (.redeclared "x")]) := by
    decide +kernel
  cases hread : ofSource source with
  | error e =>
      rw [hread] at hrun
      cases hrun
  | ok p =>
      rw [hread] at hrun
      rcases Prod.mk.inj (Except.ok.inj hrun) with ⟨hfault, hwarnings⟩
      rcases exec_points hread 9 "0\n".toUTF8.toList {} with ⟨ls, hcut, hpoints, hnoted⟩
      rcases hnoted _ (by rw [hwarnings]; exact List.mem_cons_self) with ⟨name, pos, hw, hmem⟩
      cases hw
      exact ⟨p, ls, rfl, hcut, hfault, hpoints _ _ hfault, hwarnings, hmem⟩

end Program

end Primer
