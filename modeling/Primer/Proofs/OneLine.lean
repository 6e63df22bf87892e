import Primer.Proofs.Diagnostics
import Primer.Proofs.LineFeeds

/-!
# Diagnostics of One Line

A diagnostic is meant to be one line. What can be said is where it is not. Of all that a
diagnostic quotes only a value can have a line feed: a name and an escaped character are
lexemes, which have none, and a piece of input has been freed of its own. A value is quoted
where it is used as a condition and is no boolean. If it is a text, it is quoted as it is,
and with its line feeds.

A text gets a line feed from `$` and from nothing else: there is none in a text that is
written out, and none in what is read. This is an invariant of the variables, `Store.Confined`,
and it depends on the source text only in so far as there is a `$` in it. So the proof follows
the grammar once more, as in `Primer.Proofs.Diagnostics`, with a property of the values that
goes along.

## Main definitions

* `Value.Confined`, `Fault.Confined`, `Store.Confined`: Line feeds occur in texts only, and
  only under a condition.
* `Confines`: The same of a computation.
* `Feeds`: There is a `$` among the lexemes.

## Theorems

* `Expr.Spelled.eval_confines`: Expressions.
* `Action.confined_textual`: The parts of a program.
* `Program.exec_diagnostics_oneLine`: When a diagnostic of a program has more than one line.
-/

namespace Primer

/-- The value is displayed without a line feed, or it is a text and `p` holds. -/
def Value.Confined (p : Prop) (v : Value) : Prop :=
  OneLine v.render ∨ p ∧ ∃ text, v = .string text

/-- The wording has no line feed, or it quotes a text in place of a condition and `p` holds. -/
def Fault.Confined (p : Prop) (e : Fault) : Prop :=
  OneLine e.message ∨ p ∧ ∃ pos text, e = .program pos (.notCondition (.string text))

/-- The values of all variables are confined. -/
def Store.Confined (p : Prop) (store : Store) : Prop :=
  ∀ name b, store.find? name = some b → b.value.Confined p

section Computations

variable {α β : Type} {p : Prop} {Q : α → Prop} {R : β → Prop}

/-- The computation yields something of which `Q` holds, or fails with a confined fault. -/
def Confines (p : Prop) (Q : α → Prop) (x : Except Fault α) : Prop :=
  match x with
  | .ok a => Q a
  | .error e => e.Confined p

theorem Confines.bind {x : Except Fault α} {f : α → Except Fault β} (hx : Confines p Q x)
    (hf : ∀ a, Q a → Confines p R (f a)) : Confines p R (x >>= f) := by
  cases x with
  | ok a => exact hf a hx
  | error e => exact hx

theorem Fault.confined_of_quoted {pos : Position} {cause : Cause} (h : OneLine cause.quoted) :
    (Fault.program pos cause).Confined p :=
  .inl ((oneLine_message pos cause).mpr h)

/-- Most faults quote nothing. -/
theorem Fault.confined_of_plain {pos : Position} {cause : Cause} (h : cause.quoted = "") :
    (Fault.program pos cause).Confined p := by
  refine confined_of_quoted ?_
  rw [h]
  exact oneLine_empty

/-- The one diagnostic that may have line feeds has those of the text that it quotes. -/
theorem Fault.Confined.not_oneLine_iff {e : Fault} (h : e.Confined p) :
    ¬ OneLine e.message ↔
      ∃ pos text, e = .program pos (.notCondition (.string text)) ∧ ¬ OneLine text := by
  constructor
  · intro hmessage
    rcases h with h | ⟨-, pos, text, rfl⟩
    · exact absurd h hmessage
    · exact ⟨pos, text, rfl, fun htext => hmessage ((oneLine_message pos _).mpr htext)⟩
  · rintro ⟨pos, text, rfl, htext⟩ hmessage
    exact htext ((oneLine_message pos _).mp hmessage)

theorem Fault.Confined.of_not_oneLine {e : Fault} (h : e.Confined p)
    (hmessage : ¬ OneLine e.message) : p := by
  rcases h with h | ⟨hp, -⟩
  · exact absurd h hmessage
  · exact hp

theorem Fault.confined_channel (fault : ChannelFault) : (Fault.channel fault).Confined p :=
  .inl (oneLine_message_channel fault)

end Computations

namespace Value

variable {p : Prop} {pos : Position} {left right v : Value}

/-- Of the values that are no texts only one is displayed with a line feed. -/
theorem confined_of_type? {type : DataType} (h : v.type? = some type) (hchar : type ≠ .char)
    (hstring : type ≠ .string) : v.Confined p := by
  refine .inl (oneLine_render ?_ ?_)
  · rintro rfl
    exact hchar (Option.some.inj h).symm
  · rintro text rfl
    exact hstring (Option.some.inj h).symm

theorem Confined.concat (hl : left.Confined p) (hr : right.Confined p) :
    (left.concat right).Confined p := by
  rcases hl with hl | ⟨hp, -⟩
  · rcases hr with hr | ⟨hp, -⟩
    · exact .inl (oneLine_append.mpr ⟨hl, hr⟩)
    · exact .inr ⟨hp, _, rfl⟩
  · exact .inr ⟨hp, _, rfl⟩

theorem arith_confines (op : ArithOp) (hl : left.Confined p) (hr : right.Confined p) :
    Confines p (Confined p) (left.arith op pos right) := by
  have hint : ∀ n, (int n).Confined p := fun n => confined_of_type? rfl nofun nofun
  have hfloat : ∀ x, (float x).Confined p := fun x => confined_of_type? rfl nofun nofun
  unfold arith
  split
  · split
    · exact hint _
    · exact Fault.confined_of_plain rfl
  · exact hfloat _
  · exact hfloat _
  · exact hfloat _
  · split
    · exact hl.concat hr
    · exact Fault.confined_of_plain rfl

theorem compare_confines (op : Comparison) (left right : Value) :
    Confines p (Confined p) (left.compare op pos right) := by
  unfold compare
  split
  case h_11 => exact Fault.confined_of_plain rfl
  all_goals exact confined_of_type? rfl nofun nofun

theorem connect_confines (op : Connective) (left right : Value) :
    Confines p (Confined p) (left.connect op pos right) := by
  unfold connect
  split
  · cases op <;> exact confined_of_type? rfl nofun nofun
  · exact Fault.confined_of_plain rfl

theorem signed_confines (sign : Sign) (hv : v.Confined p) :
    Confines p (Confined p) (v.signed sign pos) := by
  unfold signed
  split
  · exact hv
  · exact confined_of_type? rfl nofun nofun
  · exact confined_of_type? rfl nofun nofun
  · exact Fault.confined_of_plain rfl

theorem negate_confines (v : Value) : Confines p (Confined p) (v.negate pos) := by
  unfold negate
  split
  · exact confined_of_type? rfl nofun nofun
  · exact Fault.confined_of_plain rfl

theorem escaped_confines {c : Char} (hc : c ≠ '\n') :
    Confines p (Confined p) (escaped c pos) := by
  have hsingle : OneLine (String.singleton c) := by
    simp only [OneLine, String.toList_singleton, List.mem_singleton]
    exact hc.symm
  unfold escaped
  split
  · exact .inl hsingle
  · exact Fault.confined_of_quoted hsingle

/-- A value that is no condition is quoted as it is displayed. -/
theorem condition_confines (hv : v.Confined p) :
    Confines p (fun _ => True) (v.condition pos) := by
  unfold condition
  split
  · exact trivial
  · rcases hv with hv | ⟨hp, text, rfl⟩
    · exact Fault.confined_of_quoted hv
    · exact .inr ⟨hp, pos, text, rfl⟩

theorem confined_of_conform {type : DataType} {v : Value} {e : Fault}
    (h : v.conform type pos = .error e) : e.Confined p := by
  unfold conform at h
  split at h
  · cases h
  · cases h
    exact Fault.confined_of_plain rfl

end Value

namespace Store

variable {p : Prop} {store store' : Store} {name : String} {pos : Position} {e : Fault}

theorem Confined.value (h : store.Confined p) (hname : OneLine name) :
    Confines p (Value.Confined p) (store.value name pos) := by
  unfold Store.value
  split
  · rename_i b hb
    exact h name b hb
  · exact Fault.confined_of_quoted hname

theorem Confined.declare (h : store.Confined p) {type : DataType} {initial : Option Value}
    (hinitial : ∀ v ∈ initial, v.Confined p)
    (hd : (Store.declare name type initial pos).run store = .ok () store') :
    store'.Confined p := by
  intro other b hb
  rw [find?_declare hd] at hb
  split at hb
  · rcases Option.some.inj hb with rfl
    cases initial with
    | none => exact .inl oneLine_empty
    | some v => exact hinitial v rfl
  · exact h other b hb

theorem Confined.assign (h : store.Confined p) {v : Value} (hv : v.Confined p)
    (ha : (Store.assign name v pos).run store = .ok () store') : store'.Confined p := by
  intro other b hb
  rw [find?_assign ha] at hb
  rcases Option.map_eq_some_iff.mp hb with ⟨b', hb', rfl⟩
  split
  · exact hv
  · exact h other b' hb'

theorem confined_of_declare (hname : OneLine name) {type : DataType} {initial : Option Value}
    (h : (Store.declare name type initial pos).run store = .error e store') :
    e.Confined p := by
  rcases declare_eq_error h with ⟨-, rfl⟩ | ⟨v, -, hconf⟩
  · exact Fault.confined_of_quoted hname
  · exact Value.confined_of_conform hconf

theorem confined_of_assign (hname : OneLine name) {v : Value}
    (h : (Store.assign name v pos).run store = .error e store') : e.Confined p := by
  rcases assign_eq_error h with ⟨-, rfl⟩ | ⟨b, -, hconf⟩
  · exact Fault.confined_of_quoted hname
  · exact Value.confined_of_conform hconf

theorem type_confines (store : Store) (hname : OneLine name) :
    Confines p (fun _ => True) (store.type name pos) := by
  unfold type
  split
  · exact trivial
  · exact Fault.confined_of_quoted hname

end Store

/-- A piece of input that cannot be read is quoted, and one that can be read is a value. -/
theorem Input.read_confines {p : Prop} {piece : String} (hpiece : OneLine piece)
    (type : DataType) (pos : Position) :
    Confines p (Value.Confined p) (read type piece pos) := by
  unfold read
  split
  · rename_i v hv
    exact .inl (oneLine_of_value? hv hpiece)
  · exact Fault.confined_of_quoted hpiece

section Lexemes

/-- There is a `$` among the lexemes. -/
def Feeds (ls : List Lexeme) : Prop :=
  ∃ pos, ⟨.symbol .dollar, pos⟩ ∈ ls

variable {ls : List Lexeme}

theorem IsName.oneLine {name : String} (h : IsName name) : OneLine name :=
  Lexing.Rule.feed_notMem h.shape nofun

theorem Named.oneLine {name : String} (h : Named ls name) (hls : ∀ l ∈ ls, l.token.Writable) :
    OneLine name := by
  rcases h with ⟨pos, hmem⟩
  exact IsName.oneLine (hls _ hmem)

theorem Literal.Expressible.oneLine {l : Literal} (h : l.Expressible) :
    OneLine l.value.render := by
  cases l with
  | string text =>
      intro hmem
      exact (h.1 _ hmem).2 rfl
  | char c =>
      refine Value.oneLine_render (fun heq => ?_) nofun
      exact h.2 (Value.char.inj heq)
  | _ => exact Value.oneLine_render nofun nofun

/-- The value of an expression has a line feed only if it is a text and there is a `$`. -/
theorem Expr.Spelled.eval_confines {e : Expr} {els : List Lexeme} (h : e.Spelled els)
    (hsub : els ⊆ ls) (hls : ∀ l ∈ ls, l.token.Writable) {store : Store}
    (hstore : store.Confined (Feeds ls)) :
    Confines (Feeds ls) (Value.Confined (Feeds ls)) (e.eval store) := by
  induction h with
  | literal pos v => exact .inl (Literal.Expressible.oneLine (hls _ (hsub List.mem_cons_self)))
  | var pos name =>
      exact hstore.value (IsName.oneLine (hls _ (hsub List.mem_cons_self)))
  -- This is the one place where a line feed comes in.
  | newline pos => exact .inr ⟨⟨pos, hsub List.mem_cons_self⟩, _, rfl⟩
  | escape pos c => exact Value.escaped_confines (hls _ (hsub List.mem_cons_self))
  | paren pos close h ih =>
      simp only [List.cons_subset, List.append_subset] at hsub
      exact ih hsub.2.1
  | signed pos sign h ih =>
      exact (ih (List.cons_subset.mp hsub).2).bind fun _ hv => Value.signed_confines sign hv
  | not pos h ih =>
      exact (ih (List.cons_subset.mp hsub).2).bind fun v _ => v.negate_confines
  | arith pos op hl hr ihl ihr =>
      simp only [List.append_subset, List.cons_subset] at hsub
      exact (ihl hsub.1).bind fun _ ha => (ihr hsub.2.2).bind fun _ hb =>
        Value.arith_confines op ha hb
  | compare pos op hl hr ihl ihr =>
      simp only [List.append_subset, List.cons_subset] at hsub
      exact (ihl hsub.1).bind fun a _ => (ihr hsub.2.2).bind fun b _ =>
        Value.compare_confines op a b
  | connect pos op hl hr ihl ihr =>
      simp only [List.append_subset, List.cons_subset] at hsub
      exact (ihl hsub.1).bind fun a _ => (ihr hsub.2.2).bind fun b _ =>
        Value.connect_confines op a b
  | concat pos hl hr ihl ihr =>
      simp only [List.append_subset, List.cons_subset] at hsub
      exact (ihl hsub.1).bind fun _ ha => (ihr hsub.2.2).bind fun _ hb => ha.concat hb

end Lexemes

namespace Action

open Session

variable {α : Type} {p : Prop}

/-- The action keeps the variables confined, and if it fails then with a confined fault. -/
def Confined (p : Prop) (a : Action α) : Prop :=
  Meets (fun s => s.store.Confined p) a (fun _ s => s.store.Confined p)
    (fun e _ => e.Confined p)

theorem confined_pure (x : α) : Confined p (pure x : Action α) :=
  meets_pure fun _ hs => hs

theorem confined_throw {e : Fault} (he : e.Confined p) : Confined p (throw e : Action α) :=
  meets_throw fun _ _ => he

/-- What is computed goes along in the condition. -/
theorem meets_confines {f : Store → Except Fault α} {Q : α → Prop}
    (h : ∀ store, store.Confined p → Confines p Q (f store)) :
    Meets (fun s => s.store.Confined p) (reading f) (fun x s => Q x ∧ s.store.Confined p)
      (fun e _ => e.Confined p) := by
  refine meets_reading (fun s x hs hx => ?_) fun s e hs he => ?_
  · have hf := h s.store hs
    rw [hx] at hf
    exact ⟨hf, hs⟩
  · have hf := h s.store hs
    rw [he] at hf
    exact hf

theorem updating_assign_confined {name : String} (hname : OneLine name) {v : Value}
    (hv : v.Confined p) (pos : Position) : Confined p (updating (Store.assign name v pos)) :=
  meets_updating (fun _ _ hs ha => hs.assign hv ha)
    fun _ _ _ _ he => Store.confined_of_assign hname he

theorem confined_write (text : String) : Confined p (write text) :=
  meets_write (fun _ _ hs _ => hs) (fun _ _ _ _ => Fault.confined_channel .full)

theorem confined_flush : Confined p flush :=
  meets_flush (fun _ hs _ => hs) (fun _ _ _ => Fault.confined_channel .flush)

end Action

namespace Statement

open Primer.Action Session

variable {ls : List Lexeme}

theorem execDeclarator_confined (hls : ∀ l ∈ ls, l.token.Writable) {d : Declarator}
    {dls : List Lexeme} (h : d.Written dls) (hsub : dls ⊆ ls) (type : DataType) :
    Confined (Feeds ls) (execDeclarator type d) := by
  have hname : OneLine d.name := by
    cases h <;> exact IsName.oneLine (hls _ (hsub List.mem_cons_self))
  have hinitial : ∀ store : Store, store.Confined (Feeds ls) →
      Confines (Feeds ls) (fun initial => ∀ v ∈ initial, v.Confined (Feeds ls))
        (d.initializer.mapM (Expr.eval store)) := by
    intro store hstore
    cases h with
    | bare pos name => exact nofun
    | initialized pos name sign he =>
        simp only [List.cons_subset] at hsub
        refine (he.2.eval_confines hsub.2.2 hls hstore).bind fun v hv w hw => ?_
        rcases Option.some.inj hw with rfl
        exact hv
  refine Meets.bind (Q := fun _ s => s.store.Confined (Feeds ls)) (meets_get fun _ hs => hs) ?_
  intro x
  split
  · exact (confined_write _).bind fun _ => meets_modify fun _ hs => hs
  · refine (meets_confines hinitial).bind fun initial => meets_of_fact fun hv => ?_
    exact meets_updating (fun _ _ hs hd => hs.declare hv hd)
      fun _ _ _ _ he => Store.confined_of_declare hname he

theorem execAssign_confined {p : Prop} {value : Value} (hvalue : value.Confined p)
    (pos : Position) {names : List String} (hnames : ∀ name ∈ names, OneLine name) :
    Confined p (execAssign pos value names) := by
  induction names with
  | nil => exact confined_pure ()
  | cons name names ih =>
      rcases List.forall_mem_cons.mp hnames with ⟨hname, hrest⟩
      exact (updating_assign_confined hname hvalue pos).bind fun _ => ih hrest

theorem execPieces_confined {p : Prop} (pos : Position) {pairs : List (String × String)}
    (hpairs : ∀ pair ∈ pairs, OneLine pair.1 ∧ OneLine pair.2) :
    Confined p (execPieces pos pairs) := by
  induction pairs with
  | nil => exact confined_pure ()
  | cons pair rest ih =>
      rcases pair with ⟨name, piece⟩
      rcases List.forall_mem_cons.mp hpairs with ⟨⟨hname, hpiece⟩, hrest⟩
      refine (meets_confines fun store _ => store.type_confines hname).bind
        fun type => meets_of_fact fun _ => ?_
      refine (meets_confines fun _ _ => Input.read_confines hpiece type pos).bind
        fun v => meets_of_fact fun hv => ?_
      exact (updating_assign_confined hname hv pos).bind fun _ => ih hrest

theorem execScan_confined {p : Prop} (pos : Position) {names : List String}
    (hnames : ∀ name ∈ names, OneLine name) : Confined p (execScan pos names) := by
  unfold execScan
  refine confined_flush.bind fun _ => ?_
  -- What is known of the line goes along until it has been cut into pieces.
  refine Meets.bind (Q := fun line s => Closes '\n' line.toList ∧ s.store.Confined p) ?_
    fun line => meets_of_fact fun hline => ?_
  · refine meets_readLine_text (fun s text hs htext => ⟨?_, hs⟩) fun s _ => ?_
    · exact closes_of_fromUTF8? (closes_splitLine s.input) htext
    · exact Fault.confined_channel .notText
  have hpieces : Confined p (execPieces pos (names.zip (Input.pieces line))) := by
    refine execPieces_confined pos fun pair hpair => ?_
    rcases List.of_mem_zip hpair with ⟨hname, hpiece⟩
    exact ⟨hnames _ hname, Input.oneLine_of_mem_pieces hline hpiece⟩
  dsimp only
  split
  · exact (confined_throw (Fault.confined_of_plain rfl)).bind fun _ => hpieces
  · exact hpieces

end Statement

namespace Action

variable {ls : List Lexeme}

theorem confined_step (hls : ∀ l ∈ ls, l.token.Writable) {step : Step} (h : step.WrittenIn ls) :
    Confined (Feeds ls) step.exec := by
  cases h with
  | declare type h hsub => exact Statement.execDeclarator_confined hls h hsub type
  | assign htarget hnames h hsub =>
      refine (meets_confines fun store hstore => h.eval_confines hsub hls hstore).bind
        fun value => meets_of_fact fun hvalue => ?_
      exact Statement.execAssign_confined hvalue _ fun name hname => (hnames name hname).oneLine hls
  | display h hsub =>
      exact (meets_confines fun store hstore => h.eval_confines hsub hls hstore).bind
        fun value => meets_of_fact fun _ => confined_write value.render
  | scan hword hnames =>
      exact Statement.execScan_confined _ fun name hname => (hnames name hname).oneLine hls

/-- The parts of a text whose tokens can be cut from one keep the line feeds confined. -/
theorem confined_textual (hls : ∀ l ∈ ls, l.token.Writable) :
    Textual ls fun _ => Confined (Feeds ls) where
  pure := confined_pure
  bind := Meets.bind
  step := confined_step hls
  guard := by
    intro word pos e els _ _ h hsub
    refine (meets_confines (Q := fun _ => True) fun store hstore => ?_).mono (fun _ hs => hs)
      (fun _ _ hs => hs.2) (fun _ _ he => he)
    exact (h.eval_confines hsub hls hstore).bind fun v hv => Value.condition_confines hv
  endless := fun _ _ => confined_throw (Fault.confined_of_plain rfl)

end Action

namespace Program

open Primer.Action

/-- A diagnostic has a line feed exactly if it quotes a text with a line feed that was used as
    a condition. There is a `$` in the source text then. A warning never has one. -/
theorem exec_diagnostics_oneLine {source : String} {p : Program} (h : ofSource source = .ok p)
    (cap : Nat) (input : List UInt8) (sink : Sink) :
    ∃ ls, Lexeme.ofSource source = .ok ls ∧
      (∀ e, (p.exec cap).fault? ⟨.empty, input, sink, []⟩ = some e →
        (¬ OneLine e.message ↔
          ∃ pos text, e = .program pos (.notCondition (.string text)) ∧ ¬ OneLine text) ∧
        (¬ OneLine e.message → Feeds ls)) ∧
      ∀ w ∈ ((p.exec cap).after ⟨.empty, input, sink, []⟩).warnings, OneLine w.message := by
  unfold ofSource at h
  cases hcut : Lexeme.ofSource source with
  | error e =>
      rw [hcut] at h
      cases h
  | ok ls =>
      rw [hcut] at h
      have hls := Lexeme.writable_of_ofSource hcut
      have hwritten := ofLexemes_eq_ok.mp h
      refine ⟨ls, rfl, fun e he => ?_, fun w hw => ?_⟩
      -- A fresh store has nothing in it that could have a line feed.
      · have hconfined : e.Confined (Feeds ls) :=
          Meets.fault (hwritten.exec_textual (confined_textual hls) confined_flush cap)
            (fun _ _ hb => by cases hb) he
        exact ⟨hconfined.not_oneLine_iff, hconfined.of_not_oneLine⟩
      · have hnoted : Session.Noted ls ((p.exec cap).after ⟨.empty, input, sink, []⟩) :=
          Meets.after (hwritten.exec_traceable cap) (fun _ hw => absurd hw List.not_mem_nil)
            (fun _ _ hs => hs) (fun _ _ hs => hs.2)
        rcases hnoted w hw with ⟨name, pos, rfl, hmem⟩
        exact (Fault.oneLine_message pos _).mpr (IsName.oneLine (hls _ hmem))

/-- A text that was scanned is displayed with a line feed behind it, and then used as a
    condition. The diagnostic quotes it, and the line feed that ended the line of input is not
    in it. -/
theorem exec_diagnostics_oneLine_of_scan :
    let source := "BEGIN CODE\nSTRING t, t\nSCAN: t\nDISPLAY: t & $\nIF (t)\nBEGIN IF\n" ++
      "END IF\nEND CODE\n"
    let s : Session := ⟨.empty, "yes\nno\n".toUTF8.toList, {}, []⟩
    ∃ p e, ofSource source = .ok p ∧ (p.exec 9).fault? s = some e ∧
      e = .program ⟨5, 0⟩ (.notCondition (.string "yes")) ∧ OneLine e.message ∧
      ∃ w ∈ ((p.exec 9).after s).warnings, OneLine w.message := by
  intro source s
  have hrun : (ofSource source).map (fun p => ((p.exec 9).fault? s, ((p.exec 9).after s).warnings))
      = .ok (some (.program ⟨5, 0⟩ (.notCondition (.string "yes"))),
        [.program ⟨2, 10⟩ (.redeclared "t")]) := by
    decide +kernel
  cases hread : ofSource source with
  | error e =>
      rw [hread] at hrun
      cases hrun
  | ok p =>
      rw [hread] at hrun
      rcases Prod.mk.inj (Except.ok.inj hrun) with ⟨hfault, hwarnings⟩
      rcases exec_diagnostics_oneLine hread 9 "yes\nno\n".toUTF8.toList {} with
        ⟨ls, -, hmessage, hwarning⟩
      refine ⟨p, _, rfl, hfault, rfl, ?_, ?_⟩
      · by_contra hlong
        rcases (hmessage _ hfault).1.mp hlong with ⟨pos, text, heq, htext⟩
        cases heq
        exact htext (oneLine_literal (by decide))
      · have hmem : Fault.program ⟨2, 10⟩ (.redeclared "t") ∈ ((p.exec 9).after s).warnings := by
          rw [hwarnings]
          exact List.mem_cons_self
        exact ⟨_, hmem, hwarning _ hmem⟩

/-- A line feed that is used as a condition makes a diagnostic of two lines. -/
theorem exists_diagnostic_of_two_lines :
    let source := "BEGIN CODE\nIF ($)\nBEGIN IF\nEND IF\nEND CODE"
    ∃ p e, ofSource source = .ok p ∧
      (p.exec defaultCap).fault? ⟨.empty, [], {}, []⟩ = some e ∧
      e.message = "Error: 2:0 -> cannot convert \n to boolean." ∧ ¬ OneLine e.message := by
  intro source
  have hrun : (ofSource source).map (fun p => (p.exec defaultCap).fault? ⟨.empty, [], {}, []⟩)
      = .ok (some (.program ⟨2, 0⟩ (.notCondition (.string "\n")))) := by
    decide +kernel
  cases hread : ofSource source with
  | error e =>
      rw [hread] at hrun
      cases hrun
  | ok p =>
      rw [hread] at hrun
      refine ⟨p, _, rfl, Except.ok.inj hrun, by decide +kernel, fun hmessage => ?_⟩
      have hquoted := (Fault.oneLine_message ⟨2, 0⟩ (.notCondition (.string "\n"))).mp hmessage
      exact hquoted (by decide +kernel)

end Program

end Primer
