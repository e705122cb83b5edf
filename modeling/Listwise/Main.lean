import Listwise.CommandLine

/-!
# The program

Reads the arguments, does the job they ask for, and ends with its exit code.  An interactive session
is answered line by line, as the lines come in.
-/

namespace Listwise.Program

/-- Shown when the arguments cannot be read. -/
def usage : String :=
  "usage: listwise [-f | --file] [-i | --interactive] [--lower-bound N] [--upper-bound N] [SCRIPT]"

/-- Writes an outcome and gives its exit code. -/
def report (o : Outcome) : IO UInt32 := do
  IO.print o.stdout
  IO.eprint o.stderr
  return o.code

/-- The text of a file, if it can be read. -/
def readFile? (path : String) : IO (Option String) := do
  try
    return some (← IO.FS.readFile path)
  catch _ =>
    return none

/-- The bytes up to the next newline, which is included, or up to the end of the input. -/
partial def readLine (input : IO.FS.Stream) (seen : List UInt8) : IO (List UInt8) := do
  match (← input.read 1).toList with
  | [] => return seen.reverse
  | b :: _ => if b == 10 then return (b :: seen).reverse else readLine input (b :: seen)

/-- Answers the lines of the input one by one. -/
partial def converse (input : IO.FS.Stream) (env : Environment) (line : Nat) : IO UInt32 := do
  IO.print Environment.prompt
  (← IO.getStdout).flush
  match Environment.decodeLines (← readLine input []) with
  | [] => return 0
  | none :: _ => report (.failure Environment.undecodable 1)
  | some text :: _ =>
    let r := env.reply text line
    IO.print r.stdout
    IO.eprint r.stderr
    converse input r.environment (line + 1)

/-- Does a job. -/
def perform : Job → IO UInt32
  | .refuse message => report (.failure message 2)
  | .interactive limits => do converse (← IO.getStdin) (Environment.start limits) 1
  | .script limits text => report (.ofScript limits text)
  | .scriptFile limits path => do
    match ← readFile? path with
    | some text => report (.ofScript limits text)
    | none => report (.unreadable path)

end Listwise.Program

open Listwise in
def main (args : List String) : IO UInt32 := do
  match Options.parse? args with
  | some options => Program.perform options.job
  | none =>
    IO.eprintln Program.usage
    return 2
