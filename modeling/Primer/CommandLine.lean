import Primer.Parser.Program
import Primer.Statement.Exec

/-!
# The Command Line

What the command line asks for, and what running a program answers. Both are
plain functions: the program around them only hands over the arguments, the file
and the input, and passes the answer on.

Arguments are read from left to right. Asking for the version settles the matter
at once, so only a mistake in an earlier argument comes before it. Options may
stand after the program, short ones may be written together, and after `--`
nothing is an option.

## Main definitions

* `CommandLine.Request`: What the command line asks for.
* `CommandLine.parse?`: The request that some arguments are.
* `CommandLine.Answer`: What a run gives back.
* `CommandLine.run`: Runs a source text.
-/

namespace Primer

namespace CommandLine

/-- Where the program to run comes from. -/
inductive Source where
  | text (source : String)
  | file (path : String)
deriving DecidableEq, Repr

/-- What the command line asks for. -/
inductive Request where
  | version
  | run (source : Source) (cap : Nat)
deriving DecidableEq, Repr

/-- The options met so far. -/
structure Options where
  isFile : Bool := false
  cap : Option Nat := none
  contents : Option String := none

/-- What some short options written together come to. -/
inductive Cluster where
  /-- They are all read. -/
  | complete (options : Options)
  /-- The last of them takes the next argument as its value. -/
  | needsCap (options : Options)
  | version
  | mistake

namespace Options

/-- Marks the program as a file. This can be said once. -/
def setFile (o : Options) : Option Options :=
  if o.isFile then none else some { o with isFile := true }

/-- Sets the cap on the rounds of a loop: an unsigned 64-bit number, possibly with
    a plus sign. This can be said once. -/
def setCap (o : Options) (text : List Char) : Option Options :=
  let digits :=
    match text with
    | '+' :: cs => cs
    | cs => cs
  match o.cap, (Text.natural? digits).filter (· < 0x10000000000000000) with
  | none, some n => some { o with cap := some n }
  | _, _ => none

/-- Sets the program. This can be said once. -/
def setContents (o : Options) (text : String) : Option Options :=
  if o.contents.isSome then none else some { o with contents := some text }

/-- The request that the options make. There has to be a program. -/
def request? (o : Options) : Option Request :=
  o.contents.map fun text =>
    .run (if o.isFile then .file text else .text text) (o.cap.getD Program.defaultCap)

/-- Reads short options written together. -/
def readShort (o : Options) : List Char → Cluster
  | [] => .complete o
  | 'f' :: cs =>
      match o.setFile with
      | some o => o.readShort cs
      | none => .mistake
  | 'V' :: _ => .version
  | ['m'] => .needsCap o
  | 'm' :: cs =>
      let value :=
        match cs with
        | '=' :: rest => rest
        | rest => rest
      match o.setCap value with
      | some o => .complete o
      | none => .mistake
  | _ :: _ => .mistake

end Options

/-- Whether an argument cannot be the value of an option, because it is one
    itself. -/
def isOption (arg : String) : Bool :=
  match arg.toList with
  | '-' :: _ :: _ => true
  | _ => false

/-- The request that some arguments are, after the given options. There is none
    if the arguments make no sense. -/
def parseFrom? (o : Options) : List String → Option Request
  | [] => o.request?
  | arg :: rest =>
      match arg.toList with
      | ['-', '-'] => do (← rest.foldlM Options.setContents o).request?
      | '-' :: '-' :: name =>
          if name = "version".toList then some .version
          else if name = "file".toList then do parseFrom? (← o.setFile) rest
          else if name = "max-iterations".toList then capFrom? o rest
          else if "max-iterations=".toList.isPrefixOf name then do
            parseFrom? (← o.setCap (name.drop "max-iterations=".length)) rest
          else none
      | '-' :: c :: cs =>
          match o.readShort (c :: cs) with
          | .complete o => parseFrom? o rest
          | .needsCap o => capFrom? o rest
          | .version => some .version
          | .mistake => none
      | _ => do parseFrom? (← o.setContents arg) rest
where
  /-- The request that some arguments are whose first one is the cap. -/
  capFrom? (o : Options) : List String → Option Request
    | [] => none
    | value :: rest =>
        if isOption value then none
        else do parseFrom? (← o.setCap value.toList) rest

/-- The request that some arguments are. -/
def parse? (args : List String) : Option Request :=
  parseFrom? {} args

/-- What a run gives back. -/
structure Answer where
  exitCode : Nat
  /-- What the program wrote. -/
  output : ByteArray := .empty
  /-- What follows it on the standard output. -/
  report : String := ""
  /-- What goes to the standard error output. -/
  complaint : String := ""
  /-- The input that was not read. -/
  unread : List UInt8 := []

/-- The answer to a question for the version. -/
def version : Answer :=
  { exitCode := 0, report := "codelang 0.1.0\n" }

/-- The answer when the file with the program cannot be read as a text. -/
def noFile (path : String) : Answer :=
  { exitCode := 1
    complaint := s!"Failed to read the input file '{path}'. "
      ++ "Perhaps this file does not exist?\n" }

/-- Runs a source text. A mistake in the text is reported apart from the output,
    and a fault of the running program at the end of it. -/
def run (source : String) (cap : Nat) (input : List UInt8) : Answer :=
  match Program.ofSource source with
  | .error e => { exitCode := 1, complaint := e.message ++ "\n", unread := input }
  | .ok p =>
      match (p.exec cap).run { input } with
      | .ok _ s => { exitCode := 0, output := s.sink.written, unread := s.input }
      | .error e s =>
          { exitCode := 1, output := s.sink.written, report := e.message ++ "\n",
            unread := s.input }

end CommandLine

end Primer
