import Primer.Proofs.Cap
import Primer.Proofs.Coupling
import Primer.Proofs.Step

/-!
# A Full Output Ends the Run

What becomes of a run if its output takes a limited number of bytes. As long as everything
fits, nothing is different. The first write that does not fit is cut at the limit, in the
middle of a value, of a warning or of a character if need be, and it is the last thing
that happens: nothing is written or read after it.

The limited run is compared with the same run on an output without a limit. The two stay
side by side up to the write that does not fit, and `Limits` is what relates their sessions
so far. From there on only the run without a limit goes on, and `Overruns` relates its
session to the one that the limited run has left for good. The unlimited run may write and
read more, but it takes nothing back, and so its output still begins with what the other
one has written.

Both relations have the limit as a parameter, and the limit is counted from the beginning
of the output. How much room is left is then no matter of its own, and the relations do not
change from one action to the next.

## Main definitions

* `Session.Limits`: Two sessions that differ in the limit of their outputs.
* `Session.Overruns`: A session that has written more than another one could.
* `Action.Truncates`: An action that a full output cuts at the limit.

## Theorems

* `Action.truncates_write`: A write that fits, and one that does not.
* `Action.Truncates.bind`: Two actions in order.
* `Statement.execAll_truncates`: Statements.
* `Program.exec_cut_at_limit`: Programs.
-/

namespace Primer

namespace Session

/-- The second session is the first one but for its output, which takes `n` bytes in
    total. -/
structure Limits (n : Nat) (s t : Session) : Prop where
  unlimited : s.sink.room = none
  fits : s.sink.written.size ≤ n
  limited : t = { s with sink := { s.sink with room := some (n - s.sink.written.size) } }

/-- The second session has written the first `n` bytes of what the first one has, which are
    not all of them, and the first one has read on. -/
structure Overruns (n : Nat) (s t : Session) : Prop where
  more : n < s.sink.written.size
  written : t.sink.written = s.sink.written.extract 0 n
  input : s.input <:+ t.input

variable {n : Nat} {s s' t : Session}

theorem Limits.store_eq (h : Limits n s t) : t.store = s.store := by
  rw [h.limited]

/-- A session that takes nothing back stays ahead. -/
theorem Overruns.continues (h : Overruns n s t) (hs : s.Continues s') : Overruns n s' t := by
  rcases hs.output with ⟨more, hmore⟩
  refine ⟨?_, ?_, hs.input.trans h.input⟩
  · have hlt := h.more
    rw [hmore, ByteArray.size_append]
    omega
  · -- The limit lies within what had been written before.
    have hzero : n - s.sink.written.size = 0 := by
      have hlt := h.more
      omega
    rw [h.written, hmore, ByteArray.extract_append, hzero, Nat.zero_sub, ByteArray.extract_same,
      ByteArray.append_empty]

end Session

namespace Action

open Session

variable {α β : Type} {n : Nat}

/-- Side by side on an output without a limit and on one with a limit, the action ends
    alike, or the limit is met: then it fails on the limited output, and goes beyond the
    limit on the other one. -/
structure Truncates (n : Nat) (a : Action α) : Prop where
  grows : Grows a
  ends : ∀ s t, Limits n s t → Alike (Limits n) (a.run s) (a.run t) ∨
    ∃ t', a.run t = .error (.channel .full) t' ∧ Overruns n (a.after s) t'

/-- An action that does not write cannot tell the two outputs apart. -/
theorem Truncates.of_coupled {a : Action α} (hgrows : Grows a) (h : Coupled (Limits n) a a) :
    Truncates n a :=
  ⟨hgrows, fun s t hst => Or.inl (h s t hst)⟩

theorem Truncates.bind {a : Action α} {f : α → Action β} (ha : Truncates n a)
    (hf : ∀ x, Truncates n (f x)) : Truncates n (a >>= f) := by
  refine ⟨ha.grows.bind fun x => (hf x).grows, fun s t hst => ?_⟩
  rcases ha.ends s t hst with hmid | ⟨t', hfull, hover⟩
  · cases hs : a.run s with
    | ok x s' =>
        rw [hs] at hmid
        generalize ht : a.run t = r at hmid
        cases hmid with
        | @ok _ _ t' hst' =>
            have hrun : (a >>= f).run s = (f x).run s' := by rw [EStateM.run_bind, hs]
            have hrun' : (a >>= f).run t = (f x).run t' := by rw [EStateM.run_bind, ht]
            have hend := (hf x).ends s' t' hst'
            unfold Action.after at hend ⊢
            rw [hrun, hrun']
            exact hend
    | error e s' =>
        rw [hs] at hmid
        generalize ht : a.run t = r at hmid
        cases hmid with
        | error _ hst' =>
            left
            rw [EStateM.run_bind, EStateM.run_bind, hs, ht]
            exact .error e hst'
  · -- The limited run is over. The other one goes on and stays ahead.
    right
    refine ⟨t', by rw [EStateM.run_bind, hfull], ?_⟩
    exact hover.continues (after_bind_continues a (fun x => (hf x).grows) s)

/-- An action that looks at its variables first. -/
theorem Truncates.get_bind {f : Session → Action α} (hgrows : Grows (get >>= f))
    (hstore : ∀ s t, s.store = t.store → f s = f t) (hf : ∀ s, Truncates n (f s)) :
    Truncates n (get >>= f) := by
  refine ⟨hgrows, fun s t hst => ?_⟩
  have hend := (hf s).ends s t hst
  have hsame : (get >>= f).run t = (f s).run t := by
    rw [hstore s t hst.store_eq.symm]
    rfl
  rw [hsame]
  exact hend

theorem truncates_pure (x : α) : Truncates n (pure x : Action α) :=
  .of_coupled (grows_pure x) (coupled_pure x)

theorem truncates_throw (e : Fault) : Truncates n (throw e : Action α) :=
  .of_coupled (grows_throw e) (coupled_throw e)

theorem truncates_reading (f : Store → Except Fault α) : Truncates n (reading f) := by
  refine .of_coupled (Statement.reading_grows f) (coupled_reading fun s t hst => ?_)
  rw [hst.store_eq]

theorem truncates_updating (u : Store.Update) : Truncates n (updating u) := by
  have hgrows : Grows (updating u) := fun _ =>
    meets_updating (fun _ _ h _ => ⟨h.output, h.input⟩) (fun _ _ _ h _ => ⟨h.output, h.input⟩)
  refine .of_coupled hgrows fun s t hst => ?_
  have hstore : ∀ store, Limits n { s with store } { t with store } := fun store =>
    ⟨hst.unlimited, hst.fits, by rw [hst.limited]⟩
  rw [run_updating, run_updating, hst.store_eq]
  cases u.run s.store with
  | error e store => exact .error e (hstore store)
  | ok _ store => exact .ok () (hstore store)

/-- Both outputs give the same answer. -/
theorem truncates_flush : Truncates n flush := by
  refine .of_coupled (fun s => Statement.flush_keeps (lasting_continues s)) fun s t hst => ?_
  have hflushed : Limits n { s with sink := s.sink.flushed } { t with sink := t.sink.flushed } :=
    ⟨hst.unlimited, hst.fits, by rw [hst.limited]; rfl⟩
  have hstuck : t.sink.stuck = s.sink.stuck := by rw [hst.limited]
  rw [run_flush, run_flush, hstuck]
  cases s.sink.stuck with
  | true => exact .error _ hflushed
  | false => exact .ok () hflushed

theorem truncates_readLine : Truncates n readLine := by
  have hgrows : Grows readLine := fun s =>
    meets_readLine (fun _ _ h => (lasting_continues s).takeLine h)
      (fun _ h => (lasting_continues s).takeLine h)
  refine .of_coupled hgrows (coupled_readLine ?_ ?_)
  · intro s t hst
    rw [hst.limited]
  · intro s t input hst
    refine ⟨hst.unlimited, hst.fits, ?_⟩
    rw [hst.limited]

/-- A write that fits leaves less room, and one that does not is cut at the limit. -/
theorem truncates_write (text : String) : Truncates n (write text) := by
  refine ⟨fun s => Statement.write_keeps (lasting_continues s) text, fun s t hst => ?_⟩
  have hs : (write text).run s =
      .ok () { s with sink := { s.sink with written := s.sink.written ++ text.toUTF8 } } := by
    rw [run_write, Sink.write_unlimited hst.unlimited]
  have hafter := after_of_ok hs
  have hfits := hst.fits
  -- The room in the limited output is what the limit leaves.
  have hroom : t.sink.room = some (n - s.sink.written.size) := by rw [hst.limited]
  rcases Nat.lt_or_ge (n - s.sink.written.size) text.toUTF8.size with hlt | hle
  · right
    rw [run_write, Sink.write_of_lt hroom hlt, hafter]
    refine ⟨_, rfl, ?_, ?_, ?_⟩
    · show n < (s.sink.written ++ text.toUTF8).size
      rw [ByteArray.size_append]
      omega
    · have hwritten : t.sink.written = s.sink.written := by rw [hst.limited]
      show t.sink.written ++ text.toUTF8.extract 0 (n - s.sink.written.size)
        = (s.sink.written ++ text.toUTF8).extract 0 n
      -- All that had been written before lies within the limit.
      have hold : s.sink.written.extract 0 n = s.sink.written := by
        rw [← Nat.max_eq_left hfits]
        exact ByteArray.extract_zero_max_size
      rw [hwritten, ByteArray.extract_append, hold, Nat.zero_sub]
    · have hinput : t.input = s.input := by rw [hst.limited]
      exact hinput ▸ List.suffix_refl s.input
  · left
    rw [hs, run_write, Sink.write_of_le hroom hle]
    refine .ok () ⟨hst.unlimited, ?_, ?_⟩
    · show (s.sink.written ++ text.toUTF8).size ≤ n
      rw [ByteArray.size_append]
      omega
    · show _ = { s with sink := { s.sink with
          written := s.sink.written ++ text.toUTF8
          room := some (n - (s.sink.written ++ text.toUTF8).size) } }
      rw [hst.limited, ByteArray.size_append, Nat.sub_sub]

theorem truncates_warn (warning : Fault) : Truncates n (warn warning) := by
  refine (truncates_write _).bind fun _ => .of_coupled ?_ (coupled_modify fun s t hst => ?_)
  · exact fun _ => meets_modify fun _ h => ⟨h.output, h.input⟩
  · refine ⟨hst.unlimited, hst.fits, ?_⟩
    rw [hst.limited]

theorem composable_truncates (n : Nat) : Composable fun _ a => Truncates n a where
  pure := truncates_pure
  bind ha hf := ha.bind hf
  guard _ _ := truncates_reading _
  endless _ := truncates_throw _

end Action

namespace Statement

open Primer.Action Session

variable {n : Nat}

theorem execDeclarator_truncates (type : DataType) (d : Declarator) :
    Truncates n (execDeclarator type d) := by
  refine Truncates.get_bind (fun s => execDeclarator_keeps (lasting_continues s) type d) ?_ ?_
  · intro s t hstore
    rw [hstore]
  · intro s
    cases s.store.find? d.name with
    | some b => exact truncates_warn _
    | none => exact (truncates_reading _).bind fun initial => truncates_updating _

theorem execAssign_truncates (pos : Position) (value : Value) (names : List String) :
    Truncates n (execAssign pos value names) := by
  induction names with
  | nil => exact truncates_pure ()
  | cons name names ih => exact (truncates_updating _).bind fun _ => ih

theorem execPieces_truncates (pos : Position) (pairs : List (String × String)) :
    Truncates n (execPieces pos pairs) := by
  induction pairs with
  | nil => exact truncates_pure ()
  | cons pair rest ih =>
      refine (truncates_reading _).bind fun type => (truncates_reading _).bind fun value => ?_
      exact (truncates_updating _).bind fun _ => ih

theorem execScan_truncates (pos : Position) (names : List String) :
    Truncates n (execScan pos names) := by
  unfold execScan
  refine truncates_flush.bind fun _ => truncates_readLine.bind fun line => ?_
  -- Both sides have read the same line.
  dsimp only
  split
  · exact (truncates_throw _).bind fun _ => execPieces_truncates pos _
  · exact execPieces_truncates pos _

theorem step_truncates (step : Step) : Truncates n step.exec := by
  cases step with
  | declare type d => exact execDeclarator_truncates type d
  | assign pos targets e =>
      exact (truncates_reading _).bind fun value => execAssign_truncates pos value targets
  | display e => exact (truncates_reading _).bind fun value => truncates_write value.render
  | scan pos names => exact execScan_truncates pos names

theorem execAll_truncates (n cap : Nat) (sts : List Statement) : Truncates n (execAll cap sts) :=
  execAll_of_steps (composable_truncates n) cap sts fun step _ => step_truncates step

end Statement

namespace Program

open Primer.Action Session

/-- Let a program run once on an output without a limit and once on one that takes `n` bytes.
    If what the first run writes fits, both runs are the same. If it does not, the second
    run fails for lack of room, it has written the first `n` bytes, and it has left all
    input that the first one leaves. -/
theorem exec_cut_at_limit (p : Program) (cap n : Nat) (s : Session) :
    let free : Session := { s with sink := {} }
    let full : Session := { s with sink := { room := some n } }
    let out := ((p.exec cap).after free).sink.written
    (out.size ≤ n →
      (p.exec cap).fault? full = (p.exec cap).fault? free ∧
      ((p.exec cap).after full).sink.written = out ∧
      ((p.exec cap).after full).store = ((p.exec cap).after free).store ∧
      ((p.exec cap).after full).warnings = ((p.exec cap).after free).warnings ∧
      ((p.exec cap).after full).input = ((p.exec cap).after free).input) ∧
    (n < out.size →
      (p.exec cap).fault? full = some (.channel .full) ∧
      ((p.exec cap).after full).sink.written = out.extract 0 n ∧
      ((p.exec cap).after free).input <:+ ((p.exec cap).after full).input) := by
  intro free full out
  have htruncates : Truncates n (p.exec cap) :=
    (Statement.execAll_truncates n cap p.statements).bind fun _ => truncates_flush
  have hstart : Limits n free full := ⟨rfl, Nat.zero_le n, rfl⟩
  rcases htruncates.ends free full hstart with halike | ⟨t, hrun, hover⟩
  · -- The limit has not been met.
    have hcoupled : (p.exec cap).fault? full = (p.exec cap).fault? free ∧
        Limits n ((p.exec cap).after free) ((p.exec cap).after full) := by
      unfold fault? Action.after
      generalize (p.exec cap).run free = r, (p.exec cap).run full = r' at halike ⊢
      cases halike with
      | ok x h => exact ⟨rfl, h⟩
      | error e h => exact ⟨rfl, h⟩
    rcases hcoupled with ⟨hfault, hend⟩
    refine ⟨fun _ => ⟨hfault, ?_⟩, fun hlt => absurd hend.fits (Nat.not_le.mpr hlt)⟩
    rw [hend.limited]
    exact ⟨rfl, rfl, rfl, rfl⟩
  · have hfault : (p.exec cap).fault? full = some (.channel .full) := by rw [fault?, hrun]
    refine ⟨fun hle => absurd hover.more (Nat.not_lt.mpr hle), fun _ => ⟨hfault, ?_⟩⟩
    rw [after_of_error hrun]
    exact ⟨hover.written, hover.input⟩

/-- A loop of three rounds that read a line, write a character of two bytes and warn. Its 144
    bytes fit into an output of that size, and one of 49 bytes is full in the middle of the
    character that the second round writes. -/
theorem exec_cut_at_limit_in_character :
    let pos : Position := ⟨2, 0⟩
    let declaration : Statement := .declare pos .int [⟨pos, "x", none⟩]
    let p : Program := ⟨⟨1, 0⟩, [declaration,
      .loopAfter pos
        [.scan pos ["x"], .display pos (.literal pos (.string "é")), declaration]
        (.compare pos .lt (.var pos "x") (.literal pos (.int 3)))]⟩
    let s : Session := { input := "1\n2\n3\n4\n".toUTF8.toList }
    let out := ((p.exec 9).after { s with sink := {} }).sink.written
    let wide : Session := { s with sink := { room := some 144 } }
    let narrow : Session := { s with sink := { room := some 49 } }
    out.size = 144 ∧ (p.exec 9).fault? wide = none ∧ ((p.exec 9).after wide).sink.written = out ∧
      (p.exec 9).fault? narrow = some (.channel .full) ∧
      ((p.exec 9).after narrow).sink.written = out.extract 0 49 ∧
      "4\n".toUTF8.toList <:+ ((p.exec 9).after narrow).input := by
  intro pos declaration p s out wide narrow
  have hsize : out.size = 144 := by decide +kernel
  have hdone : (p.exec 9).fault? { s with sink := {} } = none := by decide +kernel
  have hinput : ((p.exec 9).after { s with sink := {} }).input = "4\n".toUTF8.toList := by
    decide +kernel
  have hwide := (exec_cut_at_limit p 9 144 s).1 (Nat.le_of_eq hsize)
  have hnarrow := (exec_cut_at_limit p 9 49 s).2 (by rw [hsize]; decide)
  refine ⟨hsize, hwide.1.trans hdone, hwide.2.1, hnarrow.1, hnarrow.2.1, ?_⟩
  rw [← hinput]
  exact hnarrow.2.2

end Program

end Primer
