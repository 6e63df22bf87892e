import Primer.Proofs.Laws.Choice
import Primer.Proofs.Limit

/-!
# Joining Texts Is Flat

What a tree of joins amounts to. Its shape does not matter, only its leaves from left to right:
if all of them have values, then the tree is the text that is made of theirs, and otherwise it
fails as the leftmost one that fails. For a join never fails by itself, and all it takes from
its operands is their texts.

The equation that carries the induction is `JoinTree.render_eval`: the text of a tree is the text of
its leaves, evaluated in order. It speaks of texts and not of values because a single leaf is a
tree as well, and its value need not be a text.

Displaying a tree is then one write of a text that could as well be written in parts. This is so
on any output: one that runs full takes the same bytes either way, and fails in both cases.

Sums that begin with a text are joins too. The first sum finds a text on its left, which makes it a
join, and so leaves a text for the next one. A sum that begins with something else can differ,
because two numbers in front of a text are added and not joined.

## Main definitions

* `Value.texts`: The texts of some values, one after the other.
* `Expr.JoinTree`: A tree of joins with its leaves.
* `Expr.chain`: An expression that is built up from the left.

## Theorems

* `Sink.write_append_of_taken`, `Sink.write_append_of_cut`, `Session.write_append`: Writing in
  parts.
* `Expr.JoinTree.render_eval`: The text of a tree is that of its leaves.
* `Statement.run_displays`: Displaying expressions one after the other.
* `Expr.eval_chain`: Sums that begin with a text are joins.
* `Expr.joins_flatten`: A tree of joins is flat.
-/

namespace Primer

open Session

namespace Sink

variable {sink sink' : Sink} {x : ByteArray}

theorem write_empty (sink : Sink) : sink.write .empty = (sink, true) := by
  rcases sink with ⟨written, _ | room, roomLater, stuck, stuckLater⟩
  · rw [write_unlimited rfl, ByteArray.append_empty]
  · rw [write_of_le rfl (Nat.zero_le room), ByteArray.append_empty]
    rfl

/-- Bytes that are taken may be written together with the ones after them. -/
theorem write_append_of_taken (h : sink.write x = (sink', true)) (y : ByteArray) :
    sink.write (x ++ y) = sink'.write y := by
  cases hroom : sink.room with
  | none =>
      rw [write_unlimited hroom, Prod.mk.injEq] at h
      have hroom' : sink'.room = none := by rw [← h.1, hroom]
      rw [write_unlimited hroom, write_unlimited hroom', ← h.1, ByteArray.append_assoc]
  | some room =>
      rcases Nat.lt_or_ge room x.size with hlt | hle
      · rw [write_of_lt hroom hlt] at h
        cases h
      · rw [write_of_le hroom hle] at h
        cases h
        have hsize : (x ++ y).size = x.size + y.size := ByteArray.size_append
        -- The second part finds the room that the first one has left.
        rcases Nat.lt_or_ge (room - x.size) y.size with hcut | hfits
        · have hall : x.extract 0 room = x := by
            rw [← Nat.max_eq_left hle]
            exact ByteArray.extract_zero_max_size
          rw [write_of_lt hroom (by omega), write_of_lt rfl hcut, ByteArray.extract_append, hall,
            Nat.zero_sub, ByteArray.append_assoc]
        · rw [write_of_le hroom (by omega), write_of_le rfl hfits, hsize, Nat.sub_sub,
            ByteArray.append_assoc]

/-- Bytes that are cut are cut at the same place if there are more after them. -/
theorem write_append_of_cut (h : sink.write x = (sink', false)) (y : ByteArray) :
    sink.write (x ++ y) = (sink', false) := by
  cases hroom : sink.room with
  | none =>
      rw [write_unlimited hroom] at h
      cases h
  | some room =>
      rcases Nat.lt_or_ge room x.size with hlt | hle
      · have hlonger : room < (x ++ y).size := by
          rw [ByteArray.size_append]
          omega
        have hnone : y.extract (0 - x.size) (room - x.size) = .empty := by
          rw [show room - x.size = 0 by omega, Nat.zero_sub, ByteArray.extract_same]
        rw [← h, write_of_lt hroom hlt, write_of_lt hroom hlonger, ByteArray.extract_append, hnone,
          ByteArray.append_empty]
      · rw [write_of_le hroom hle] at h
        cases h

end Sink

namespace Session

theorem write_empty : write "" = pure () := by
  funext s
  show (write "").run s = .ok () s
  rw [run_write, show "".toUTF8 = ByteArray.empty from rfl, Sink.write_empty]

/-- A text may be written in two parts, whatever room there is. -/
theorem write_append (text text' : String) :
    write (text ++ text') = write text >>= fun _ => write text' := by
  funext s
  have hbytes : (text ++ text').toUTF8 = text.toUTF8 ++ text'.toUTF8 := by
    simp only [String.toUTF8_eq_toByteArray, String.toByteArray_append]
  show (write (text ++ text')).run s = (write text >>= fun _ => write text').run s
  rw [EStateM.run_bind, run_write, run_write, hbytes]
  rcases hwrite : s.sink.write text.toUTF8 with ⟨sink, taken⟩
  cases taken with
  | true => rw [Sink.write_append_of_taken hwrite]; rfl
  | false => rw [Sink.write_append_of_cut hwrite]

end Session

namespace Value

/-- The texts of some values, one after the other. -/
def texts (vs : List Value) : String :=
  String.join (vs.map render)

theorem texts_cons (v : Value) (vs : List Value) : texts (v :: vs) = v.render ++ texts vs :=
  String.join_cons

theorem texts_append (vs ws : List Value) : texts (vs ++ ws) = texts vs ++ texts ws := by
  rw [texts, List.map_append, String.join_append]
  rfl

/-- Anything that is added to a text is joined to it. -/
theorem arith_add_string (pos : Position) (text : String) (v : Value) :
    arith .add pos (.string text) v = .ok ((Value.string text).concat v) := by
  cases v <;> rfl

end Value

namespace Expr

/-- The expression is a tree of joins with the given leaves, from left to right. A part of it may
    stand in parentheses. Any expression may be a leaf. -/
inductive JoinTree : Expr → List Expr → Prop where
  | leaf (e : Expr) : JoinTree e [e]
  | join (pos : Position) {l r : Expr} {ls rs : List Expr} (hl : JoinTree l ls)
      (hr : JoinTree r rs) : JoinTree (.concat pos l r) (ls ++ rs)
  | paren (pos : Position) {e : Expr} {es : List Expr} (he : JoinTree e es) :
      JoinTree (.paren pos e) es

/-- An expression that is built up from the left: each expression of the list becomes the right
    operand of a node over all that comes before it. -/
def chain (node : Position → Expr → Expr → Expr) (first : Expr) (rest : List (Position × Expr)) :
    Expr :=
  rest.foldl (fun left next => node next.1 left next.2) first

variable {store : Store} {e : Expr} {leaves : List Expr} {vs : List Value}

section Trees

/-- The text of a tree is that of its leaves, evaluated in order. -/
theorem JoinTree.render_eval (h : e.JoinTree leaves) (store : Store) :
    Value.render <$> e.eval store = Value.texts <$> leaves.mapM (eval store) := by
  induction h with
  | leaf e =>
      rw [List.mapM_cons, List.mapM_nil]
      cases e.eval store with
      | error f => rfl
      | ok v =>
          exact congrArg Except.ok (String.append_empty.symm.trans (Value.texts_cons v []).symm)
  | @join pos l r ls rs hl hr ihl ihr =>
      calc Value.render <$> (concat pos l r).eval store
          = (Value.render <$> l.eval store) >>= fun left =>
              (left ++ ·) <$> Value.render <$> r.eval store := by
            simp only [eval, map_eq_pure_bind, bind_assoc, pure_bind]
            rfl
        _ = (Value.texts <$> ls.mapM (eval store)) >>= fun left =>
              (left ++ ·) <$> Value.texts <$> rs.mapM (eval store) := by rw [ihl, ihr]
        _ = Value.texts <$> (ls ++ rs).mapM (eval store) := by
            simp only [List.mapM_append, map_eq_pure_bind, bind_assoc, pure_bind,
              Value.texts_append]
  | paren pos he ih => exact ih

theorem isString_of_eval_concat {pos : Position} {l r : Expr} {v : Value}
    (h : (concat pos l r).eval store = .ok v) : v.isString := by
  rw [eval] at h
  cases hl : l.eval store with
  | error f => rw [hl] at h; cases h
  | ok a =>
      cases hr : r.eval store with
      | error f => rw [hl, hr] at h; cases h
      | ok b => rw [hl, hr] at h; cases h; rfl

/-- A tree with at least one join in it is a text. -/
theorem JoinTree.isString_of_eval (h : e.JoinTree leaves) (hjoin : 2 ≤ leaves.length) {v : Value}
    (hv : e.eval store = .ok v) : v.isString := by
  induction h with
  | leaf e => simp at hjoin
  | join pos hl hr => exact isString_of_eval_concat hv
  | paren pos he ih => exact ih hjoin hv

theorem mapM_eval_of_ok (h : leaves.map (eval store) = vs.map .ok) :
    leaves.mapM (eval store) = .ok vs := by
  induction leaves generalizing vs with
  | nil =>
      rcases List.map_eq_nil_iff.mp h.symm with rfl
      rfl
  | cons leaf leaves ih =>
      rcases List.map_eq_cons_iff.mp h.symm with ⟨v, rest, rfl, hleaf, hrest⟩
      rw [List.mapM_cons, ← hleaf, ih hrest.symm]
      rfl

theorem mapM_eval_of_error {before after : List Expr} {leaf : Expr} {f : Fault}
    (hbefore : ∀ other ∈ before, ∃ v, other.eval store = .ok v)
    (hleaf : leaf.eval store = .error f) :
    (before ++ leaf :: after).mapM (eval store) = .error f := by
  induction before with
  | nil =>
      rw [List.nil_append, List.mapM_cons, hleaf]
      rfl
  | cons other before ih =>
      rcases List.forall_mem_cons.mp hbefore with ⟨⟨v, hv⟩, hbefore⟩
      rw [List.cons_append, List.mapM_cons, hv, ih hbefore]
      rfl

/-- A tree of joins over leaves that have values. -/
theorem JoinTree.eval_of_ok (h : e.JoinTree leaves) (hjoin : 2 ≤ leaves.length)
    (hvs : leaves.map (eval store) = vs.map .ok) :
    e.eval store = .ok (.string (Value.texts vs)) := by
  have htext := h.render_eval store
  rw [mapM_eval_of_ok hvs] at htext
  cases heval : e.eval store with
  | error f => rw [heval] at htext; cases htext
  | ok v =>
      rw [heval] at htext
      have hstring := h.isString_of_eval hjoin heval
      cases v with
      | string s => exact congrArg (fun t => Except.ok (Value.string t)) (Except.ok.inj htext)
      | _ => cases hstring

/-- A tree of joins over leaves of which one fails. -/
theorem JoinTree.eval_of_error {before after : List Expr} {leaf : Expr} {f : Fault}
    (h : e.JoinTree (before ++ leaf :: after))
    (hbefore : ∀ other ∈ before, ∃ v, other.eval store = .ok v)
    (hleaf : leaf.eval store = .error f) : e.eval store = .error f := by
  have htext := h.render_eval store
  rw [mapM_eval_of_error hbefore hleaf] at htext
  cases heval : e.eval store with
  | error g => rw [heval] at htext; exact congrArg Except.error (Except.error.inj htext)
  | ok v => rw [heval] at htext; cases htext

end Trees

section Chains

/-- A sum behind a text is a join. -/
theorem eval_add_eq_concat {first first' : Expr} (hsame : first.eval store = first'.eval store)
    (htext : ∀ v, first.eval store = .ok v → v.isString) (pos : Position) (e : Expr) :
    (arith pos .add first e).eval store = (concat pos first' e).eval store := by
  rw [eval, eval, ← hsame]
  cases hfirst : first.eval store with
  | error f => rfl
  | ok a =>
      have hstring := htext a hfirst
      cases a with
      | string text =>
          cases e.eval store with
          | error f => rfl
          | ok b => exact Value.arith_add_string pos text b
      | _ => cases hstring

/-- Sums that begin with a text are joins, since each of them leaves a text to the next one. -/
theorem eval_chain {first first' : Expr} (hsame : first.eval store = first'.eval store)
    (htext : ∀ v, first.eval store = .ok v → v.isString) (rest : List (Position × Expr)) :
    (chain (fun pos => arith pos .add) first rest).eval store
      = (chain concat first' rest).eval store := by
  induction rest generalizing first first' with
  | nil => exact hsame
  | cons next rest ih =>
      have hnext := eval_add_eq_concat hsame htext next.1 next.2
      refine ih hnext fun v hv => ?_
      rw [hnext] at hv
      exact isString_of_eval_concat hv

end Chains

end Expr

namespace Statement

variable {s : Session} {leaves : List Expr} {vs : List Value} {cap : Nat}

theorem run_display {e : Expr} {v : Value} (h : e.eval s.store = .ok v) (cap : Nat)
    (pos : Position) : (exec cap (.display pos e)).run s = (write v.render).run s := by
  rw [exec, EStateM.run_bind, run_reading, h]

/-- Displaying expressions one after the other writes their texts, as one write would. -/
theorem run_displays (h : leaves.map (Expr.eval s.store) = vs.map .ok) (cap : Nat)
    (place : Expr → Position) :
    (execAll cap (leaves.map fun leaf => .display (place leaf) leaf)).run s
      = (write (Value.texts vs)).run s := by
  induction leaves generalizing s vs with
  | nil =>
      rcases List.map_eq_nil_iff.mp h.symm with rfl
      show _ = (write "").run s
      rw [write_empty]
      rfl
  | cons leaf leaves ih =>
      rcases List.map_eq_cons_iff.mp h.symm with ⟨v, rest, rfl, hleaf, hrest⟩
      rw [List.map_cons, execAll, Value.texts_cons, write_append, EStateM.run_bind,
        EStateM.run_bind, run_display hleaf.symm, run_write]
      -- Writing does not touch the variables, so the other leaves have the values they had.
      rcases s.sink.write v.render.toUTF8 with ⟨sink, taken⟩
      cases taken with
      | true => exact ih (s := { s with sink }) hrest.symm
      | false => rfl

end Statement

namespace Expr

open Statement

/-- A tree with at least one join in it is flat. If all its leaves have values, it is the text made
    of theirs, and displaying it does what displaying the leaves one after the other does, on
    any output. If a leaf fails, the tree fails as the leftmost one that does. And sums that are
    built up from the left, beginning with a text, may be replaced by joins. -/
theorem joins_flatten {e : Expr} {leaves : List Expr} (h : e.JoinTree leaves)
    (hjoin : 2 ≤ leaves.length) (s : Session) :
    (∀ vs : List Value, leaves.map (eval s.store) = vs.map .ok →
      e.eval s.store = .ok (.string (String.join (vs.map Value.render))) ∧
        ∀ cap pos (place : Expr → Position), (exec cap (.display pos e)).run s =
          (execAll cap (leaves.map fun leaf => .display (place leaf) leaf)).run s) ∧
      ((∃ leaf ∈ leaves, ∃ f, leaf.eval s.store = .error f) →
        ∃ before leaf after f, leaves = before ++ leaf :: after ∧
          (∀ other ∈ before, ∃ v, other.eval s.store = .ok v) ∧
          leaf.eval s.store = .error f ∧ e.eval s.store = .error f) ∧
      ∀ first rest text, first.eval s.store = .ok (.string text) →
        (chain (fun pos => arith pos .add) first rest).eval s.store
          = (chain concat first rest).eval s.store := by
  refine ⟨?_, ?_, ?_⟩
  · intro vs hvs
    have heval := h.eval_of_ok hjoin hvs
    refine ⟨heval, fun cap pos place => ?_⟩
    rw [run_display heval, run_displays hvs]
    rfl
  · rintro ⟨leaf, hmem, f, hleaf⟩
    have hcases : ∀ x : Expr,
        (∃ v, x.eval s.store = .ok v) ∨ ∃ f, x.eval s.store = .error f := by
      intro x
      cases hx : x.eval s.store with
      | ok v => exact .inl ⟨v, rfl⟩
      | error f => exact .inr ⟨f, rfl⟩
    rcases forall_or_exists_first hcases leaves with hall | ⟨before, x, after, rfl, hbefore, g, hx⟩
    · rcases hall leaf hmem with ⟨v, hv⟩
      rw [hleaf] at hv
      cases hv
    · exact ⟨before, x, after, g, rfl, hbefore, hx, h.eval_of_error hbefore hx⟩
  · intro first rest text hfirst
    refine eval_chain rfl (fun v hv => ?_) rest
    rw [hfirst] at hv
    cases hv
    rfl

/-- In `x & (1 & (y & TRUE))`, where `y` holds nothing yet, the joins are nested to the right. The
    output has room for four of the six bytes. -/
theorem joins_flatten_nested_right :
    let pos : Position := ⟨2, 0⟩
    let one : Expr := .literal pos (.int 1)
    let yes : Expr := .literal pos (.bool true)
    let e : Expr := .concat pos (.var pos "x")
      (.paren pos (.concat pos one (.paren pos (.concat pos (.var pos "y") yes))))
    let leaves : List Expr := [.var pos "x", one, .var pos "y", yes]
    let s : Session :=
      { store := ⟨[("y", ⟨.int, .empty⟩), ("x", ⟨.string, .string "n"⟩)]⟩
        sink := { room := some 4 } }
    e.JoinTree leaves ∧ e.eval s.store = .ok (.string "n1TRUE") ∧
      (exec 1 (.display pos e)).run s = (execAll 1 (leaves.map (.display pos))).run s ∧
      ((exec 1 (.display pos e)).after s).sink.written = "n1TR".toUTF8 ∧
      (arith pos .add (.arith pos .add (.var pos "x") one) yes).eval s.store
        = (concat pos (.concat pos (.var pos "x") one) yes).eval s.store := by
  intro pos one yes e leaves s
  have htree : e.JoinTree leaves :=
    .join pos (.leaf _) (.paren pos (.join pos (.leaf _) (.paren pos (.join pos (.leaf _)
      (.leaf _)))))
  rcases joins_flatten htree (by decide) s with ⟨hvalue, -, hchain⟩
  rcases hvalue [.string "n", .int 1, .empty, .bool true] rfl with ⟨heval, hdisplay⟩
  exact ⟨htree, heval, hdisplay 1 pos fun _ => pos, by decide +kernel,
    hchain (.var pos "x") [(pos, one), (pos, yes)] "n" rfl⟩

end Expr

end Primer
