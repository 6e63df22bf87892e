import Primer.CommandLine

/-!
# The Program

Runs the command line. Standard input is taken line by line, and only when the
running program asks for a line, so a program can prompt its user.

A run is a function of its whole input, and it is found out whether it asks for
another line by running it with a blank line added. If the run takes that line it
fails there, since a blank line has no pieces, and what it has written up to then
is what stands before the question. Running it again with the user's line in place
of the blank one retraces the same steps. If the input has ended instead, the
failure is the right answer: the end of the input reads as a blank line.
-/

namespace Primer

namespace CommandLine

/-- Reads the next line of standard input. The last line is given a line feed if
    it has none, and after it there is no line. -/
partial def nextLine (stdin : IO.FS.Stream) : IO (List UInt8) := do
  let byte ← stdin.read 1
  match byte.toList with
  | [] => return []
  | 10 :: _ => return [10]
  | b :: _ =>
      let rest ← nextLine stdin
      return b :: (if rest.isEmpty then [10] else rest)

/-- Passes the end of an answer on, after the output has been written. -/
def finish (answer : Answer) : IO UInt32 := do
  (← IO.getStdout).putStr answer.report
  (← IO.getStdout).flush
  (← IO.getStderr).putStr answer.complaint
  return answer.exitCode.toUInt32

/-- Runs a source text on the input taken so far and the lines that are still to
    come. The first `shown` bytes of the output have been written already. -/
partial def converse (source : String) (cap : Nat) (input : List UInt8) (shown : Nat) :
    IO UInt32 := do
  let answer := run source cap (input ++ [10])
  let stdout ← IO.getStdout
  stdout.write (answer.output.extract shown answer.output.size)
  stdout.flush
  if answer.unread.isEmpty then
    let line ← nextLine (← IO.getStdin)
    if line.isEmpty then finish answer
    else converse source cap (input ++ line) answer.output.size
  else finish answer

/-- The text of a file, if it can be read as one. -/
def fileText? (path : String) : IO (Option String) := do
  try
    return String.fromUTF8? (← IO.FS.readBinFile path)
  catch _ =>
    return none

end CommandLine

end Primer

open Primer

/-- Runs the command line. -/
def main (args : List String) : IO UInt32 := do
  match CommandLine.parse? args with
  | none => do
      (← IO.getStderr).putStrLn "Usage: codelang [-f] [-m N] [-V] <contents>"
      return 2
  | some .version => CommandLine.finish CommandLine.version
  | some (.run (.text source) cap) => CommandLine.converse source cap [] 0
  | some (.run (.file path) cap) =>
      match ← CommandLine.fileText? path with
      | some source => CommandLine.converse source cap [] 0
      | none => CommandLine.finish (CommandLine.noFile path)
