import Listwise.Grammar.Statement
import Listwise.Statement
import Listwise.Text.Blank
import Listwise.Text.Lines

/-!
# Sessions

A session carries out statements one after the other.

* `Session.execute`: one input.  An input that fails leaves no trace.
* `Session.executeScript`: the lines of a script, up to the first that fails.
* `runScript`: what a script shows in a session of its own.
-/

namespace Listwise

/-- The range limits in force and the lists defined so far. -/
structure Session where
  limits : RangeLimits
  store : Store
  deriving DecidableEq, Repr

/-- How far a script got: the session it left, the texts it showed, and the error that stopped it. -/
structure Transcript where
  session : Session
  shown : List String
  error : Option Error
  deriving DecidableEq, Repr

namespace Session

/-- A session without lists. -/
def start (limits : RangeLimits) : Session := ⟨limits, .empty⟩

/-- Carries out a statement: the new session and the texts shown. -/
def perform (s : Session) : Statement → Except Error (Session × List String)
  | .definitions lists => .ok ({ s with store := s.store.insertAll lists }, [])
  | .showAll => .ok (s, [s.store.render])
  | .comprehension c => do
    let l ← c.run s.store
    return ({ s with store := s.store.insert l }, [])

/-- Carries out an input, of which the first line has the given number. -/
def execute (s : Session) (input : String) (line : Nat) :
    Except Error (Session × List String) := do
  match ← Written.Statement.parse? input line with
  | none => return (s, [])
  | some w => s.perform (← Statement.ofWritten s.limits w)

/-- Whether a line of a script is passed over: it is blank, or begins with `//` after blanks. -/
def isIdle (line : String) : Bool :=
  match line.toList.dropWhile Text.isBlank with
  | [] => true
  | '/' :: '/' :: _ => true
  | _ => false

/-- Carries out numbered inputs, up to the first that fails. -/
def executeEach (s : Session) : List (String × Nat) → Transcript
  | [] => ⟨s, [], none⟩
  | (input, line) :: rest =>
    match s.execute input line with
    | .error e => ⟨s, [], some e⟩
    | .ok (s', shown) =>
      let t := s'.executeEach rest
      { t with shown := shown ++ t.shown }

/-- The lines of a script that are carried out, with their numbers. -/
def inputs (script : String) : List (String × Nat) :=
  ((Text.lines script).zipIdx 1).filter fun (line, _) => !isIdle line

/-- Carries out the lines of a script, up to the first that fails. -/
def executeScript (s : Session) (script : String) : Transcript := s.executeEach (inputs script)

end Session

/-- What a script shows in a session of its own, or the error that stopped it. -/
def runScript (limits : RangeLimits) (script : String) : Except Error String :=
  let t := (Session.start limits).executeScript script
  match t.error with
  | some e => .error e
  | none => .ok (String.join t.shown)

end Listwise
