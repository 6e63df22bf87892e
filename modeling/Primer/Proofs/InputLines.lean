import Primer.Proofs.History
import Mathlib.Data.List.TakeDrop

/-!
# Input Is Read in Whole Lines

How much of its input a run has consumed when it ends. The input is a sequence of lines, and
each scan that gets as far as reading takes one of them. What it makes of the line no longer
matters then: a line that is no text, that has too many pieces or pieces of the wrong form,
or that is meant for a variable that does not exist has been consumed all the same. A
scan that does not get as far is one whose output could not be flushed, and the output may
take one flush and refuse the next.

So the number of lines that a run consumes is counted off its history. One step drops a line
or none (`Moment.input_after`), and along the path these add up (`Path.lines_input`). If
there are more scans than lines, the later ones find an empty input and leave it.

## Main definitions

* `Session.lines`: The lines of some input.
* `Moment.readsLine`: The step is a scan that gets as far as reading.

## Theorems

* `Session.flatten_lines`, `Session.lines_eq_append`: The lines make up the input, and each of
  them but the last goes up to a line feed.
* `Program.exec_takes_lines`: A run consumes as many lines as its history has scans that
  read, if there are so many.
-/

namespace Primer

namespace Session

/-- The lines of some input. A line includes its line feed, which the last one may lack. -/
def lines : List UInt8 → List (List UInt8)
  | [] => []
  | b :: bs =>
      if b = 10 then [b] :: lines bs
      else
        match lines bs with
        | [] => [[b]]
        | line :: rest => (b :: line) :: rest

theorem lines_feed (bs : List UInt8) : lines (10 :: bs) = [10] :: lines bs := by
  rw [lines, if_pos rfl]

theorem lines_of_ne {b : UInt8} (hb : b ≠ 10) (bs : List UInt8) :
    lines (b :: bs) = (b :: (lines bs).headD []) :: (lines bs).tail := by
  rw [lines, if_neg hb]
  cases lines bs <;> rfl

/-- The lines make up the input. -/
theorem flatten_lines (input : List UInt8) : (lines input).flatten = input := by
  induction input with
  | nil => rfl
  | cons b bs ih =>
      by_cases hb : b = 10
      · rw [hb, lines_feed, List.flatten_cons, ih]
        rfl
      · rw [lines_of_ne hb, List.flatten_cons, List.cons_append]
        congr 1
        cases hls : lines bs with
        | nil => rw [hls] at ih; exact ih
        | cons line rest => rw [hls] at ih; exact ih

/-- A line goes up to a line feed, or to the end of the input if it is the last one. -/
theorem lines_eq_append (input : List UInt8) : ∃ ended last, lines input = ended ++ last ∧
    (∀ line ∈ ended, ∃ body, 10 ∉ body ∧ line = body ++ [10]) ∧
      (last = [] ∨ ∃ body, body ≠ [] ∧ 10 ∉ body ∧ last = [body]) := by
  induction input with
  | nil => exact ⟨[], [], rfl, List.forall_mem_nil _, .inl rfl⟩
  | cons b bs ih =>
      rcases ih with ⟨ended, last, hls, hended, hlast⟩
      by_cases hb : b = 10
      · refine ⟨[10] :: ended, last, ?_, List.forall_mem_cons.mpr ⟨?_, hended⟩, hlast⟩
        · rw [hb, lines_feed, hls, List.cons_append]
        · exact ⟨[], List.not_mem_nil, rfl⟩
      · -- The byte goes in front of the first line, whichever kind it is of.
        have hnotMem : ∀ {body : List UInt8}, 10 ∉ body → 10 ∉ b :: body := fun h hmem =>
          (List.mem_cons.mp hmem).elim (fun heq => hb heq.symm) h
        cases ended with
        | nil =>
            refine ⟨[], [b :: last.headD []], ?_, List.forall_mem_nil _, .inr ?_⟩
            · rcases hlast with rfl | ⟨body, -, -, rfl⟩
              · rw [lines_of_ne hb, hls]; rfl
              · rw [lines_of_ne hb, hls]; rfl
            · refine ⟨b :: last.headD [], List.cons_ne_nil _ _, hnotMem ?_, rfl⟩
              rcases hlast with rfl | ⟨body, -, hbody, rfl⟩
              · exact List.not_mem_nil
              · exact hbody
        | cons line ended =>
            rcases List.forall_mem_cons.mp hended with ⟨⟨body, hbody, rfl⟩, hrest⟩
            refine ⟨(b :: (body ++ [10])) :: ended, last, ?_, ?_, hlast⟩
            · rw [lines_of_ne hb, hls]; rfl
            · exact List.forall_mem_cons.mpr ⟨⟨b :: body, hnotMem hbody, rfl⟩, hrest⟩

/-- Splitting off a line leaves the other lines. -/
theorem lines_splitLine (input : List UInt8) :
    lines (splitLine input).2 = (lines input).tail := by
  induction input with
  | nil => rfl
  | cons b bs ih =>
      by_cases hb : b = 10
      · rw [hb, lines_feed, splitLine, if_pos rfl]
        rfl
      · rw [lines_of_ne hb, splitLine, if_neg hb]
        exact ih

end Session

namespace Moment

open Session

/-- The step is a scan, and the output is flushed before it reads. -/
def readsLine (m : Moment) : Bool :=
  match m.step with
  | .scan _ _ => (Action.fault? flush m.before).isNone
  | _ => false

/-- A step that reads takes a line, and no other step touches the input. -/
theorem input_after (m : Moment) :
    (m.step.exec.after m.before).input =
      if m.readsLine then (splitLine m.before.input).2 else m.before.input := by
  rcases m with ⟨step, s⟩
  have heffect := step.exec_effect s
  generalize step.exec.after s = t at heffect ⊢
  cases heffect with
  | scanned hflush store => simp [readsLine, Action.fault?, run_flush, hflush]
  | unread hflush => simp [readsLine, Action.fault?, run_flush, hflush]
  | _ => rfl

end Moment

namespace Path

open Session

variable {steps : List Step} {s t : Session} {ms : List Moment}

/-- A run drops as many lines as it has steps that read. -/
theorem lines_input (h : Path steps s ms t) :
    lines t.input = (lines s.input).drop (ms.countP Moment.readsLine) := by
  induction h with
  | nil s => rfl
  | @cons step s t ms _ _ ih =>
      rw [ih, Moment.input_after ⟨step, s⟩]
      cases hreads : Moment.readsLine ⟨step, s⟩ with
      | true =>
          rw [List.countP_cons_of_pos hreads, if_pos rfl, lines_splitLine, ← List.drop_one,
            List.drop_drop, Nat.add_comm]
      | false =>
          rw [List.countP_cons_of_neg (by rw [hreads]; exact Bool.false_ne_true),
            if_neg Bool.false_ne_true]

end Path

namespace Program

open Session

/-- A run consumes whole lines of its input: as many as it executes scans that get as far as
    reading, or all of them if there are fewer. A line goes up to a line feed and includes it,
    and only the last one may lack it. A run that executes no scan leaves the input as it is.
    This does not depend on how the run ends, or on which writes and flushes are refused. -/
theorem exec_takes_lines (cap : Nat) (p : Program) (s : Session) :
    (∃ ended last, lines s.input = ended ++ last ∧
        (∀ line ∈ ended, ∃ body, 10 ∉ body ∧ line = body ++ [10]) ∧
        (last = [] ∨ ∃ body, body ≠ [] ∧ 10 ∉ body ∧ last = [body])) ∧
      s.input = ((lines s.input).take (min (lines s.input).length
        ((p.history cap s).countP Moment.readsLine))).flatten ++ ((p.exec cap).after s).input ∧
      ((∀ m ∈ p.history cap s, ∀ pos names, m.step ≠ .scan pos names) →
        ((p.exec cap).after s).input = s.input) := by
  have hpath : Path _ s (p.history cap s) _ := Statement.execAll_records cap p.statements s
  have hlines := hpath.lines_input
  set scans := (p.history cap s).countP Moment.readsLine with hscans
  have hrest : ((p.exec cap).after s).input = ((lines s.input).drop scans).flatten := by
    rcases p.after_exec cap s with ⟨sink, hafter⟩
    rw [hafter, ← hlines, flatten_lines]
  refine ⟨lines_eq_append s.input, ?_, fun hnone => ?_⟩
  · have htake : (lines s.input).take (min (lines s.input).length scans)
        = (lines s.input).take scans := by
      rw [List.take_eq_take_iff]
      omega
    rw [htake, hrest, ← List.flatten_append, List.take_append_drop, flatten_lines]
  · have hzero : scans = 0 := by
      rw [hscans, List.countP_eq_zero]
      intro m hm
      rcases m with ⟨step, before⟩
      cases step with
      | scan pos names => exact absurd rfl (hnone _ hm pos names)
      | _ => exact Bool.false_ne_true
    rw [hrest, hzero, List.drop_zero, flatten_lines]

/-- Three scans and four lines. The second scan fails on the form of its line, which is
    consumed, and the third is not reached. If the lines are in order and the output takes two
    flushes and refuses the third, the third scan fails and its line is left. In a loop that is
    never entered no scan is reached. -/
theorem exec_takes_two_of_four_lines :
    let pos : Position := ⟨2, 0⟩
    let scan : Statement := .scan pos ["x"]
    let p : Program := ⟨⟨1, 0⟩, [.declare pos .int [⟨pos, "x", none⟩], scan, scan, scan]⟩
    let q : Program := ⟨⟨1, 0⟩, [.loop pos (.literal pos (.bool false)) [scan]]⟩
    let s : Session := { input := "1\n2.5\n3\n4".toUTF8.toList }
    let t : Session :=
      { input := "1\n2\n3\n4".toUTF8.toList, sink := { stuckLater := fun n => n == 1 } }
    (p.exec 9).fault? s = some (.program pos (.inputFormat "2.5" .int)) ∧
      s.input = "1\n2.5\n".toUTF8.toList ++ ((p.exec 9).after s).input ∧
      (p.exec 9).fault? t = some (.channel .flush) ∧
      t.input = "1\n2\n".toUTF8.toList ++ ((p.exec 9).after t).input ∧
      (∀ m ∈ q.history 9 s, ∀ pos names, m.step ≠ .scan pos names) ∧
      ((q.exec 9).after s).input = s.input := by
  intro pos scan p q s t
  have hformat : (p.exec 9).fault? s = some (.program pos (.inputFormat "2.5" .int)) := by
    decide +kernel
  have hflush : (p.exec 9).fault? t = some (.channel .flush) := by decide +kernel
  have hs : ((lines s.input).take (min (lines s.input).length
      ((p.history 9 s).countP Moment.readsLine))).flatten = "1\n2.5\n".toUTF8.toList := by
    decide +kernel
  have ht : ((lines t.input).take (min (lines t.input).length
      ((p.history 9 t).countP Moment.readsLine))).flatten = "1\n2\n".toUTF8.toList := by
    decide +kernel
  have hnone : ∀ m ∈ q.history 9 s, ∀ pos names, m.step ≠ .scan pos names := by
    have hnil : q.history 9 s = [] := rfl
    rw [hnil]
    exact List.forall_mem_nil _
  have hps := (exec_takes_lines 9 p s).2.1
  have hpt := (exec_takes_lines 9 p t).2.1
  rw [hs] at hps
  rw [ht] at hpt
  exact ⟨hformat, hps, hflush, hpt, hnone, (exec_takes_lines 9 q s).2.2 hnone⟩

end Program

end Primer
