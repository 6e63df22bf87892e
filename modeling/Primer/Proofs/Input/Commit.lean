import Mathlib.Data.List.Forall2
import Primer.Proofs.Frame
import Primer.Proofs.WellTyped

/-!
# A Scan Keeps What Was Read Before the First Bad Piece

What a scan does to the variables when a piece of its line cannot be read. The pieces are
paired with the names from the left, and each piece is read and stored before the next one is
looked at. So the pieces in front of the first bad one have been stored, and nothing behind
it has been touched. A line with the wrong number of pieces is refused before anything is stored.

Whether a piece is bad is decided at the moment it is reached, over variables that earlier
pieces may have changed, the same ones included. But storing a value keeps the type of a
variable, and the type is all that reading a piece depends on. The judgement can therefore
be made in advance, over the variables as they were before the scan. This separates the two
halves of the argument: which pieces are good is a matter of the old store alone
(`Store.exists_front`), and a run of good pieces is stored one after the other
(`Statement.run_execPieces_append`).

A piece that is read is a value of the variable's own type, and storing such a value cannot
fail. Hence a scan never reports that a value has the wrong type, or that a variable is not
defined.

## Main definitions

* `Store.reads?`: The value that a piece of input is for a variable.
* `Store.Refuses`: Why a piece cannot be read into a variable.
* `Store.setAll`: A store after values have been put into variables in order.

## Theorems

* `Store.find?_setAll`: Each variable holds the last value that was put into it.
* `Statement.run_execPieces_cons`, `Statement.run_execPieces_refused`: One piece.
* `Statement.run_execPieces_append`: A run of good pieces.
* `Statement.run_execScan`: A scan, once its line has been read.
* `Statement.exec_scan_commits`: A scan stores exactly the values before the first bad piece.
-/

namespace Primer

/-- A piece of input is read as a value of the type that is asked for. -/
theorem Input.type?_of_value? {type : DataType} {piece : String} {v : Value}
    (h : value? type piece = some v) : v.type? = some type := by
  cases type with
  | string => rcases Option.some.inj h with rfl; rfl
  | _ =>
      rcases Option.map_eq_some_iff.mp h with ⟨x, -, rfl⟩
      rfl

namespace Store

/-- The value that a piece of input is for the variable of the given name. There has to be
    such a variable, and the piece has to be in the form of its type. -/
def reads? (store : Store) (name piece : String) : Option Value :=
  (store.find? name).bind fun b => Input.value? b.type piece

/-- Why a piece of input cannot be read into the variable of the given name. -/
inductive Refuses (store : Store) (name piece : String) : Cause → Prop where
  | undeclared (h : store.find? name = none) : Refuses store name piece (.undeclared name)
  | illegible {b : Binding} (h : store.find? name = some b)
      (hpiece : Input.value? b.type piece = none) :
      Refuses store name piece (.inputFormat piece b.type)

/-- Puts values into variables in order, keeping their types. -/
def setAll (store : Store) (changes : List (String × Value)) : Store :=
  changes.foldl (fun store change => store.set change.1 change.2) store

/-- The value put last into the variable of the given name. -/
def lastOf? (name : String) (changes : List (String × Value)) : Option Value :=
  ((changes.filter fun change => change.1 = name).getLast?).map Prod.snd

variable {store : Store} {name piece other : String} {v : Value}

theorem reads?_eq_none : store.reads? name piece = none ↔
    ∃ cause, store.Refuses name piece cause := by
  unfold reads?
  constructor
  · intro h
    cases hfind : store.find? name with
    | none => exact ⟨_, .undeclared hfind⟩
    | some b => rw [hfind] at h; exact ⟨_, .illegible hfind h⟩
  · rintro ⟨cause, ⟨h⟩ | ⟨h, hpiece⟩⟩
    · rw [h]; rfl
    · rw [h]; exact hpiece

theorem reads?_eq_some : store.reads? name piece = some v ↔
    ∃ b, store.find? name = some b ∧ Input.value? b.type piece = some v :=
  Option.bind_eq_some_iff

/-- Storing a value does not change what other pieces are read as, since it keeps the type
    of every variable. -/
@[simp]
theorem reads?_set (store : Store) (name : String) (v : Value) (other piece : String) :
    (store.set name v).reads? other piece = store.reads? other piece := by
  unfold reads?
  rw [find?_set]
  cases store.find? other with
  | none => rfl
  | some b => by_cases ho : other = name <;> simp only [ho, Option.map_some, Option.bind_some,
      if_true, if_false]

@[simp]
theorem setAll_nil : store.setAll [] = store :=
  rfl

@[simp]
theorem setAll_cons (change : String × Value) (changes : List (String × Value)) :
    store.setAll (change :: changes) = (store.set change.1 change.2).setAll changes :=
  rfl

theorem lastOf?_cons (change : String × Value) (changes : List (String × Value)) :
    lastOf? name (change :: changes) =
      (lastOf? name changes).or (if change.1 = name then some change.2 else none) := by
  unfold lastOf?
  by_cases h : change.1 = name
  · rw [List.filter_cons_of_pos (by simpa using h), List.getLast?_cons, if_pos h]
    cases (changes.filter fun change => change.1 = name).getLast? <;> rfl
  · rw [List.filter_cons_of_neg (by simpa using h), if_neg h, Option.or_none]

theorem lastOf?_of_notMem {changes : List (String × Value)} (h : name ∉ changes.map Prod.fst) :
    lastOf? name changes = none := by
  induction changes with
  | nil => rfl
  | cons change changes ih =>
      rw [List.map_cons, List.mem_cons, not_or] at h
      rw [lastOf?_cons, ih h.2, if_neg (Ne.symm h.1)]
      rfl

/-- Each variable holds the value that was put into it last, or what it held before if there
    is none. Its type is what it was, and no variable is new. -/
theorem find?_setAll (store : Store) (changes : List (String × Value)) (name : String) :
    (store.setAll changes).find? name = (store.find? name).map fun b =>
      { b with value := (lastOf? name changes).getD b.value } := by
  induction changes generalizing store with
  | nil => exact Option.map_id'.symm
  | cons change changes ih =>
      rw [setAll_cons, ih, find?_set, Option.map_map, lastOf?_cons]
      congr 1
      funext b
      by_cases h : name = change.1
      · simp only [Function.comp_apply, h, if_true]
        cases lastOf? change.1 changes <;> rfl
      · simp only [Function.comp_apply, h, Ne.symm h, if_false, Option.or_none]

/-- What is refused is refused no less after other pieces have been stored. -/
theorem Refuses.setAll {cause : Cause} (h : store.Refuses name piece cause)
    (changes : List (String × Value)) : (store.setAll changes).Refuses name piece cause := by
  have hfind := store.find?_setAll changes name
  cases h with
  | undeclared h =>
      rw [h] at hfind
      exact .undeclared hfind
  | illegible h hpiece =>
      rw [h, Option.map_some] at hfind
      exact (Refuses.illegible hfind hpiece :)

theorem Refuses.ne {cause : Cause} (h : store.Refuses name piece cause) :
    (∀ found expected, cause ≠ .mismatch found expected) ∧ ∀ name, cause ≠ .undefined name := by
  cases h <;> simp only [ne_eq, reduceCtorEq, not_false_eq_true, implies_true, and_self]

/-- The pieces in front of the first bad one. All of them can be read, and the next one
    cannot if there is one. -/
theorem exists_front (store : Store) (pairs : List (String × String)) :
    ∃ front values rest, pairs = front ++ rest ∧
      List.Forall₂ (fun pair v => store.reads? pair.1 pair.2 = some v) front values ∧
      (rest = [] ∨ ∃ pair more cause, rest = pair :: more ∧
        store.Refuses pair.1 pair.2 cause) := by
  induction pairs with
  | nil => exact ⟨[], [], [], rfl, .nil, .inl rfl⟩
  | cons pair pairs ih =>
      cases hread : store.reads? pair.1 pair.2 with
      | none =>
          rcases reads?_eq_none.mp hread with ⟨cause, hcause⟩
          exact ⟨[], [], pair :: pairs, rfl, .nil, .inr ⟨pair, pairs, cause, rfl, hcause⟩⟩
      | some v =>
          rcases ih with ⟨front, values, rest, rfl, hfront, hrest⟩
          exact ⟨pair :: front, v :: values, rest, rfl, .cons hread hfront, hrest⟩

end Store

namespace Statement

open Session

variable {pos : Position} {names : List String} {s : Session} {name piece : String} {v : Value}

/-- A piece that can be read is stored, and the rest follows. -/
theorem run_execPieces_cons (h : s.store.reads? name piece = some v)
    (rest : List (String × String)) :
    (execPieces pos ((name, piece) :: rest)).run s =
      (execPieces pos rest).run { s with store := s.store.set name v } := by
  rcases Store.reads?_eq_some.mp h with ⟨b, hfind, hvalue⟩
  have htype : s.store.type name pos = .ok b.type := by rw [Store.type, hfind]
  have hread : Input.read b.type piece pos = .ok v := by rw [Input.read, hvalue]
  -- The value is of the variable's type, so there is nothing to refuse.
  have hassign : (Store.assign name v pos).run s.store = .ok () (s.store.set name v) :=
    Store.assign_of_type hfind (Input.type?_of_value? hvalue) pos
  simp only [execPieces, EStateM.run_bind, run_reading, run_updating, htype, hread, hassign]

/-- A piece that cannot be read ends the scan, and nothing is stored for it. -/
theorem run_execPieces_refused {cause : Cause} (h : s.store.Refuses name piece cause)
    (rest : List (String × String)) :
    (execPieces pos ((name, piece) :: rest)).run s = .error (.program pos cause) s := by
  cases h with
  | undeclared h =>
      have htype : s.store.type name pos = .error (.program pos (.undeclared name)) := by
        rw [Store.type, h]
      simp only [execPieces, EStateM.run_bind, run_reading, htype]
  | @illegible b h hpiece =>
      have htype : s.store.type name pos = .ok b.type := by rw [Store.type, h]
      have hread : Input.read b.type piece pos
          = .error (.program pos (.inputFormat piece b.type)) := by rw [Input.read, hpiece]
      simp only [execPieces, EStateM.run_bind, run_reading, htype, hread]

/-- A run of pieces that can be read is stored piece by piece. That they can be read is asked
    of the store before the first of them. -/
theorem run_execPieces_append {front : List (String × String)} {values : List Value}
    (h : List.Forall₂ (fun pair v => s.store.reads? pair.1 pair.2 = some v) front values)
    (rest : List (String × String)) :
    (execPieces pos (front ++ rest)).run s = (execPieces pos rest).run
      { s with store := s.store.setAll ((front.map Prod.fst).zip values) } := by
  induction front generalizing s values with
  | nil =>
      cases h
      rfl
  | cons pair front ih =>
      rcases pair with ⟨name, piece⟩
      cases h with
      | @cons _ v _ values hread hrest =>
          rw [List.cons_append, run_execPieces_cons hread]
          refine ih (hrest.imp fun pair w hw => ?_)
          rw [Store.reads?_set]
          exact hw

/-- Once the output has been flushed and a line of text read, the pieces are counted, and then
    read if there are neither too few nor too many. -/
theorem run_execScan {line : String} (hflush : s.sink.stuck = false)
    (hline : String.fromUTF8? (splitLine s.input).1.toByteArray = some line) :
    (execScan pos names).run s =
      if Input.pieces line = [] ∨ names.length < (Input.pieces line).length then
        .error (.program pos (.inputCount names.length (Input.pieces line).length))
          { s with sink := s.sink.flushed, input := (splitLine s.input).2 }
      else (execPieces pos (names.zip (Input.pieces line))).run
        { s with sink := s.sink.flushed, input := (splitLine s.input).2 } := by
  have hcount : ((Input.pieces line).isEmpty || decide (names.length < (Input.pieces line).length))
      = true ↔ Input.pieces line = [] ∨ names.length < (Input.pieces line).length := by
    rw [Bool.or_eq_true, List.isEmpty_iff, decide_eq_true_iff]
  simp only [execScan, EStateM.run_bind, run_flush, hflush, run_readLine, hline, hcount,
    Bool.false_eq_true, if_false]
  split
  · rfl
  · rfl

/-- The names in front of a list of pairs are the first of all names. -/
theorem map_fst_of_zip_eq_append {pieces : List String} {front rest : List (String × String)}
    (h : names.zip pieces = front ++ rest) :
    front.map Prod.fst = names.take front.length := by
  have hlength : front.length ≤ pieces.length := by
    have hzip := congrArg List.length h
    rw [List.length_zip, List.length_append] at hzip
    omega
  calc front.map Prod.fst
      = ((names.zip pieces).take front.length).map Prod.fst := by rw [h, List.take_left]
    _ = ((names.take front.length).zip (pieces.take front.length)).map Prod.fst := by
        rw [List.zip_eq_zipWith, List.take_zipWith, ← List.zip_eq_zipWith]
    _ = names.take front.length := by
        refine List.map_fst_zip ?_
        rw [List.length_take, List.length_take]
        omega

/-- Pieces are stored up to the first one that cannot be read. -/
theorem run_execPieces_zip (pos : Position) (s : Session) {pieces : List String}
    (hlength : pieces.length ≤ names.length) :
    ∃ values : List Value, values.length ≤ pieces.length ∧
      (∀ i name piece, i < values.length → names[i]? = some name → pieces[i]? = some piece →
        s.store.reads? name piece = values[i]?) ∧
      let kept : Session :=
        { s with store := s.store.setAll ((names.take values.length).zip values) }
      ((values.length = pieces.length ∧
          (execPieces pos (names.zip pieces)).run s = .ok () kept) ∨
        ∃ name piece cause, names[values.length]? = some name ∧
          pieces[values.length]? = some piece ∧ s.store.Refuses name piece cause ∧
          (execPieces pos (names.zip pieces)).run s = .error (.program pos cause) kept) := by
  rcases s.store.exists_front (names.zip pieces) with
    ⟨front, values, rest, hpairs, hfront, hrest⟩
  have hvalues : front.length = values.length := hfront.length_eq
  have hcount : front.length + rest.length = pieces.length := by
    rw [← List.length_append, ← hpairs, List.length_zip, Nat.min_eq_right hlength]
  have hrun : (execPieces pos (front ++ rest)).run s = _ := run_execPieces_append hfront rest
  rw [← hpairs, map_fst_of_zip_eq_append hpairs, hvalues] at hrun
  refine ⟨values, by omega, ?_, ?_⟩
  · intro i name piece hi hname hpiece
    have hpair : (front ++ rest)[i]? = some (name, piece) := by
      rw [← hpairs, List.getElem?_zip_eq_some]
      exact ⟨hname, hpiece⟩
    rw [List.getElem?_append_left (by omega), List.getElem?_eq_some_iff] at hpair
    rcases hpair with ⟨hlt, hpair⟩
    have hread := hfront.get hlt hi
    rw [List.get_eq_getElem, hpair] at hread
    rw [hread, List.getElem?_eq_getElem hi]
    rfl
  · intro kept
    rcases hrest with rfl | ⟨⟨name, piece⟩, more, cause, rfl, hcause⟩
    · left
      exact ⟨by rw [← hvalues]; simpa using hcount, hrun⟩
    · right
      -- The pair behind the front is the one at the place given by its length.
      have hpair : (names.zip pieces)[values.length]? = some (name, piece) := by
        rw [hpairs, ← hvalues, List.getElem?_append_right (Nat.le_refl _), Nat.sub_self]
        rfl
      rcases List.getElem?_zip_eq_some.mp hpair with ⟨hname, hpiece⟩
      exact ⟨name, piece, cause, hname, hpiece, hcause,
        hrun.trans (run_execPieces_refused (hcause.setAll _) more)⟩

/-- What a scan does once its output has been flushed and its line turns out to be text. With
    no piece or more pieces than names, it fails and stores nothing. Otherwise let `j` be the
    first place at which the variable does not exist or the piece is not in the form of its
    type, all over the store before the scan. The pieces before `j` are stored in
    order and nothing else is changed, and the fault is that of the piece at `j`; if there
    is no such place, all pieces are stored and the scan succeeds. It never fails for the
    type of a value, or because a variable is not defined. -/
theorem exec_scan_commits (cap : Nat) (pos : Position) (names : List String) {s : Session}
    {line : String} (hflush : s.sink.stuck = false)
    (hline : String.fromUTF8? (splitLine s.input).1.toByteArray = some line) :
    let p := Input.pieces line
    let result := (exec cap (.scan pos names)).run s
    let taken : Session := { s with sink := s.sink.flushed, input := (splitLine s.input).2 }
    ((p = [] ∨ names.length < p.length) →
        result = .error (.program pos (.inputCount names.length p.length)) taken) ∧
      (p ≠ [] → p.length ≤ names.length → ∃ j values, j ≤ p.length ∧ values.length = j ∧
        (∀ i name piece, i < j → names[i]? = some name → p[i]? = some piece →
          s.store.reads? name piece = values[i]?) ∧
        let changes := (names.take j).zip values
        let kept : Session := { taken with store := s.store.setAll changes }
        (∀ name, kept.store.find? name = (s.store.find? name).map fun b =>
          { b with value := (Store.lastOf? name changes).getD b.value }) ∧
        ((j = p.length ∧ result = .ok () kept) ∨
          ∃ name piece cause, names[j]? = some name ∧ p[j]? = some piece ∧
            s.store.Refuses name piece cause ∧ result = .error (.program pos cause) kept)) ∧
      ∀ pos' cause, (exec cap (.scan pos names)).fault? s = some (.program pos' cause) →
        (∀ found expected, cause ≠ .mismatch found expected) ∧
          ∀ name, cause ≠ .undefined name := by
  intro p result taken
  have hrun : result = if p = [] ∨ names.length < p.length then
      .error (.program pos (.inputCount names.length p.length)) taken
      else (execPieces pos (names.zip p)).run taken := by
    unfold result
    rw [exec]
    exact run_execScan hflush hline
  -- A fault of the scan is the one that its run ends with.
  have hfault : ∀ pos' cause, (exec cap (.scan pos names)).fault? s = some (.program pos' cause) →
      ∃ s', result = .error (.program pos' cause) s' :=
    fun _ _ h => ⟨_, Action.fault?_eq_some.mp h⟩
  by_cases hbad : p = [] ∨ names.length < p.length
  · rw [if_pos hbad] at hrun
    refine ⟨fun _ => hrun, fun hne hle => ?_, fun pos' cause h => ?_⟩
    · exact absurd hbad (not_or.mpr ⟨hne, Nat.not_lt.mpr hle⟩)
    · rcases hfault pos' cause h with ⟨s', hs'⟩
      rw [hrun] at hs'
      cases hs'
      simp only [ne_eq, reduceCtorEq, not_false_eq_true, implies_true, and_self]
  · rw [if_neg hbad] at hrun
    have hle : p.length ≤ names.length := Nat.not_lt.mp (not_or.mp hbad).2
    rcases run_execPieces_zip pos taken hle with ⟨values, hj, hread, hend⟩
    rw [← hrun] at hend
    refine ⟨fun h => absurd h hbad, fun _ _ => ?_, fun pos' cause h => ?_⟩
    · exact ⟨values.length, values, hj, rfl, hread, s.store.find?_setAll _, hend⟩
    · rcases hfault pos' cause h with ⟨s', hs'⟩
      rcases hend with ⟨-, hok⟩ | ⟨name, piece, cause', -, -, hcause, herror⟩
      · rw [hok] at hs'
        cases hs'
      · rw [herror] at hs'
        cases hs'
        exact hcause.ne

/-- Four pieces for five names, one of which is repeated. The last piece is bad: the two
    variables keep what was read into them, and the fifth name does not matter. -/
theorem exec_scan_commits_three_of_four :
    let pos : Position := ⟨4, 0⟩
    let names := ["a", "b", "a", "b", "c"]
    let line := "1, TRUE,2,x\n"
    let s : Session :=
      { store := ⟨[("b", ⟨.bool, .empty⟩), ("a", ⟨.int, .int 7⟩)]⟩
        input := (line ++ "rest").toUTF8.toList }
    let scan := exec 5 (.scan pos names)
    s.sink.stuck = false ∧
      String.fromUTF8? (splitLine s.input).1.toByteArray = some line ∧
      Input.pieces line = ["1", "TRUE", "2", "x"] ∧
      scan.fault? s = some (.program pos (.inputFormat "x" .bool)) ∧
      (scan.after s).store = ⟨[("b", ⟨.bool, .bool true⟩), ("a", ⟨.int, .int 2⟩)]⟩ ∧
      ∃ values cause, values.length < 4 ∧ scan.run s = .error (.program pos cause)
        { s with
          store := s.store.setAll ((names.take values.length).zip values)
          sink := s.sink.flushed
          input := (splitLine s.input).2 } := by
  intro pos names line s scan
  have hline : String.fromUTF8? (splitLine s.input).1.toByteArray = some line := by
    decide +kernel
  have hpieces : Input.pieces line = ["1", "TRUE", "2", "x"] := by decide +kernel
  have hfault : scan.fault? s = some (.program pos (.inputFormat "x" .bool)) := by
    decide +kernel
  refine ⟨rfl, hline, hpieces, hfault, by decide +kernel, ?_⟩
  rcases (exec_scan_commits 5 pos names rfl hline).2.1 (by rw [hpieces]; decide)
    (by rw [hpieces]; decide) with
    ⟨j, values, -, rfl, -, -, ⟨-, hok⟩ | ⟨_, _, cause, -, hpiece, -, hrun⟩⟩
  · have hrun := Action.fault?_eq_some.mp hfault
    rw [hok] at hrun
    cases hrun
  · refine ⟨values, cause, ?_, hrun⟩
    rw [hpieces] at hpiece
    exact (List.getElem?_eq_some_iff.mp hpiece).1

end Statement

end Primer
