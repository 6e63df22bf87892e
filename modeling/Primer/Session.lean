import Primer.Store

/-!
# Sessions

What a running program acts on: its variables, the input it has not read yet, the
output it has written, and the warnings it has given. An action on a session can
fail, and the session it leaves then is the one at the moment of the failure, so
what happened before a fault is never undone.

Input and output are bytes, since a line of input may be no text and an output
with little room may cut a character in two.

An output may refuse what is asked of it, and it may answer otherwise the next time. It
refuses a write once it has no room for it, and then there is room again for some
bytes, or none. Its answers to the flushes come one after the other, in any order.

## Main definitions

* `Sink`: An output with what has been written to it.
* `Session`: The state of a running program.
* `Action`: Something that acts on a session.
* `Sink.write`, `Sink.flushed`: The output after a write and after a flush.
* `Session.write`, `Session.flush`, `Session.readLine`: Output and input.
* `Session.warn`: Gives a warning.
* `Session.reading`, `Session.updating`: Actions on the variables.

## Theorems

* `Sink.write_unlimited`, `Sink.write_of_le`, `Sink.write_of_lt`: The write that always
  succeeds, the one that there is room for, and the one that is cut.
* `Session.run_write`, `Session.run_flush`, `Session.run_readLine`,
  `Session.run_reading`, `Session.run_updating`: What the basic actions do to a
  session.
-/

namespace Primer

/-- An output with what has been written to it. -/
structure Sink where
  /-- The bytes written so far. -/
  written : ByteArray := .empty
  /-- How many more bytes the output takes before it refuses a write, if it ever does. -/
  room : Option Nat := none
  /-- How many bytes it takes after that, until it refuses the next write, and so on. -/
  roomLater : Nat → Option Nat := fun _ => some 0
  /-- Whether the output refuses the next flush. -/
  stuck : Bool := false
  /-- Whether it refuses the flushes after that, in order. -/
  stuckLater : Nat → Bool := fun _ => stuck

namespace Sink

/-- The sink after writing some bytes to it, and whether all of them were taken. A write that is
    refused is cut where the room ends. -/
def write (sink : Sink) (bytes : ByteArray) : Sink × Bool :=
  match sink.room with
  | none => ({ sink with written := sink.written ++ bytes }, true)
  | some room =>
      if bytes.size ≤ room then
        ({ sink with written := sink.written ++ bytes, room := some (room - bytes.size) }, true)
      else
        ({ sink with
            written := sink.written ++ bytes.extract 0 room
            room := sink.roomLater 0
            roomLater := fun n => sink.roomLater (n + 1) }, false)

/-- The sink after a flush, refused or not. The next answer is then the one to come. -/
def flushed (sink : Sink) : Sink :=
  { sink with stuck := sink.stuckLater 0, stuckLater := fun n => sink.stuckLater (n + 1) }

variable {sink : Sink} {bytes : ByteArray}

theorem write_unlimited (h : sink.room = none) (bytes : ByteArray) :
    sink.write bytes = ({ sink with written := sink.written ++ bytes }, true) := by
  rw [write, h]

theorem write_of_le {room : Nat} (h : sink.room = some room) (hle : bytes.size ≤ room) :
    sink.write bytes = ({ sink with
      written := sink.written ++ bytes, room := some (room - bytes.size) }, true) := by
  rw [write, h]
  exact if_pos hle

theorem write_of_lt {room : Nat} (h : sink.room = some room) (hlt : room < bytes.size) :
    sink.write bytes = ({ sink with
      written := sink.written ++ bytes.extract 0 room
      room := sink.roomLater 0
      roomLater := fun n => sink.roomLater (n + 1) }, false) := by
  rw [write, h]
  exact if_neg (Nat.not_le.mpr hlt)

end Sink

/-- The state of a running program. -/
structure Session where
  store : Store := .empty
  /-- The bytes of input that have not been read yet. -/
  input : List UInt8 := []
  sink : Sink := {}
  /-- The warnings given so far, the first one in front. -/
  warnings : List Fault := []

/-- Something that acts on a session and yields a value of type `α`. -/
abbrev Action (α : Type) : Type := EStateM Fault Session α

namespace Session

/-- Writes a text. The session is taken apart first, so that the output can grow in
    place. -/
def write (text : String) : Action Unit := fun ⟨store, input, sink, warnings⟩ =>
  match sink.write text.toUTF8 with
  | (sink, true) => .ok () ⟨store, input, sink, warnings⟩
  | (sink, false) => .error (.channel .full) ⟨store, input, sink, warnings⟩

/-- Flushes the output. -/
def flush : Action Unit := do
  let stuck := (← get).sink.stuck
  modify fun s => { s with sink := s.sink.flushed }
  if stuck then throw (.channel .flush)

/-- The first line of some input, with its line feed, and the input after it. -/
def splitLine : List UInt8 → List UInt8 × List UInt8
  | [] => ([], [])
  | b :: bs =>
      if b = 10 then ([b], bs)
      else
        let (line, rest) := splitLine bs
        (b :: line, rest)

/-- Reads a line. A line that is no text is taken from the input all the same. -/
def readLine : Action String := do
  let (line, rest) := splitLine (← get).input
  modify fun s => { s with input := rest }
  match String.fromUTF8? line.toByteArray with
  | some text => return text
  | none => throw (.channel .notText)

/-- Gives a warning: writes it on a line of its own and records it. -/
def warn (warning : Fault) : Action Unit := do
  write (warning.message ++ "\n")
  modify fun s => { s with warnings := s.warnings ++ [warning] }

/-- Asks for something that depends on the variables alone. -/
def reading {α : Type} (f : Store → Except Fault α) : Action α := do
  match f (← get).store with
  | .ok a => return a
  | .error e => throw e

/-- Changes the variables. A change that fails leaves what it has made of them. -/
def updating (u : Store.Update) : Action Unit := fun s =>
  match u.run s.store with
  | .ok _ store => .ok () { s with store }
  | .error e store => .error e { s with store }

theorem run_write (text : String) (s : Session) :
    (write text).run s =
      match s.sink.write text.toUTF8 with
      | (sink, true) => .ok () { s with sink }
      | (sink, false) => .error (.channel .full) { s with sink } :=
  rfl

theorem run_flush (s : Session) :
    flush.run s =
      if s.sink.stuck then .error (.channel .flush) { s with sink := s.sink.flushed }
      else .ok () { s with sink := s.sink.flushed } := by
  simp only [flush, EStateM.run_bind, EStateM.run_get, EStateM.run_modify]
  cases s.sink.stuck <;> rfl

theorem run_readLine (s : Session) :
    readLine.run s =
      match String.fromUTF8? (splitLine s.input).1.toByteArray with
      | some text => .ok text { s with input := (splitLine s.input).2 }
      | none => .error (.channel .notText) { s with input := (splitLine s.input).2 } := by
  simp only [readLine, EStateM.run_bind, EStateM.run_get, EStateM.run_modify]
  cases String.fromUTF8? (splitLine s.input).1.toByteArray <;> rfl

theorem run_reading {α : Type} (f : Store → Except Fault α) (s : Session) :
    (reading f).run s =
      match f s.store with
      | .ok a => .ok a s
      | .error e => .error e s := by
  simp only [reading, EStateM.run_bind, EStateM.run_get]
  cases f s.store <;> rfl

theorem run_updating (u : Store.Update) (s : Session) :
    (updating u).run s =
      match u.run s.store with
      | .ok _ store => .ok () { s with store }
      | .error e store => .error e { s with store } :=
  rfl

end Session

end Primer
