import Primer.Expr.Eval
import Primer.Session
import Primer.Statement.Basic
import Primer.Value.Input

/-!
# Running Statements

What statements do to a session. A statement denotes an action, a list of them
the actions in order, and the loops are built from the actions of their condition
and body: they know how many more rounds the cap allows and nothing else about
the statements they repeat.

## Main definitions

* `Statement.loopGuardFirst`: A loop that asks before each round.
* `Statement.loopBodyFirst`: A loop that asks after each round.
* `Statement.exec`: Runs a statement.
* `Statement.execAll`: Runs statements in order.
* `Program.exec`: Runs a program.
-/

namespace Primer

namespace Statement

open Session

/-- Declares one name. A name that is taken is left as it is, with a warning. -/
def execDeclarator (type : DataType) (d : Declarator) : Action Unit := do
  match (← get).store.find? d.name with
  | some _ => warn (.program d.pos (.redeclared d.name))
  | none => do
      let initial ← reading fun store => d.initializer.mapM (Expr.eval store)
      updating (Store.declare d.name type initial d.pos)

/-- Assigns one value to names in order. -/
def execAssign (pos : Position) (value : Value) : List String → Action Unit
  | [] => return
  | name :: names => do
      updating (Store.assign name value pos)
      execAssign pos value names

/-- Reads pieces of input into names in order. -/
def execPieces (pos : Position) : List (String × String) → Action Unit
  | [] => return
  | (name, piece) :: rest => do
      let type ← reading fun store => store.type name pos
      let value ← reading fun _ => Input.read type piece pos
      updating (Store.assign name value pos)
      execPieces pos rest

/-- Reads a line of input into names. It has to bring at least one piece and at
    most one for each name. -/
def execScan (pos : Position) (names : List String) : Action Unit := do
  flush
  let pieces := Input.pieces (← readLine)
  if pieces.isEmpty || names.length < pieces.length then
    throw (.program pos (.inputCount names.length pieces.length))
  execPieces pos (names.zip pieces)

/-- Repeats a body as long as a guard holds, asking before each round, for at
    most `rounds` rounds. The guard is asked once more after the last of them,
    and must not hold then. -/
def loopGuardFirst (pos : Position) (guard : Action Bool) (body : Action Unit) :
    Nat → Action Unit
  | 0 => do
      if ← guard then throw (.program pos .endlessLoop)
  | rounds + 1 => do
      if ← guard then
        body
        loopGuardFirst pos guard body rounds

/-- Runs a body and repeats it as long as a guard holds, asking after each round,
    for at most `more` further rounds. The guard is not asked after the last of
    them: reaching it is a fault by itself. -/
def loopBodyFirst (pos : Position) (guard : Action Bool) (body : Action Unit) :
    Nat → Action Unit
  | 0 => do
      body
      throw (.program pos .endlessLoop)
  | more + 1 => do
      body
      if ← guard then loopBodyFirst pos guard body more

mutual

/-- Runs a statement, with a cap on the rounds of each loop. -/
def exec (cap : Nat) : Statement → Action Unit
  | .declare _ type declarators => declarators.forM (execDeclarator type)
  | .assign pos names e => do
      let value ← reading fun store => e.eval store
      execAssign pos value names
  | .choose _ first others otherwise => do
      if ← execBranch cap first then return
      if ← execBranches cap others then return
      execOtherwise cap otherwise
  | .loop pos guard body =>
      loopGuardFirst pos (reading fun store => guard.guard store pos) (execAll cap body) cap
  | .loopAfter pos body guard =>
      loopBodyFirst pos (reading fun store => guard.guard store pos) (execAll cap body) (cap - 1)
  | .display _ e => do
      let value ← reading fun store => e.eval store
      write value.render
  | .scan pos names => execScan pos names

/-- Runs statements in order. -/
def execAll (cap : Nat) : List Statement → Action Unit
  | [] => return
  | s :: rest => do
      exec cap s
      execAll cap rest

/-- Runs the body of a branch if its condition holds, and says whether it did. -/
def execBranch (cap : Nat) : Branch → Action Bool
  | ⟨pos, guard, body⟩ => do
      if ← reading fun store => guard.guard store pos then
        execAll cap body
        return true
      else return false

/-- Runs the first branch whose condition holds, and says whether there is
    one. -/
def execBranches (cap : Nat) : List Branch → Action Bool
  | [] => return false
  | b :: rest => do
      if ← execBranch cap b then return true else execBranches cap rest

/-- Runs the body for the case that no branch was taken, if there is one. -/
def execOtherwise (cap : Nat) : Option (List Statement) → Action Unit
  | none => return
  | some body => execAll cap body

end

end Statement

namespace Program

/-- The cap on the rounds of a loop unless another one is asked for. -/
def defaultCap : Nat := 1000

/-- Runs a program: its statements, and then the output is flushed. -/
def exec (cap : Nat) (p : Program) : Action Unit := do
  Statement.execAll cap p.statements
  Session.flush

end Program

end Primer
