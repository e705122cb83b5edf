import Listwise.Session

/-!
# Environments

A session in use.  Statements are carried out in place: each list that a statement defines goes into the
store as its turn comes, and an error keeps the changes that were made before it.

* `Action`: steps that change an environment and may fail.
* `Environment.run`: an input, step by step.
* `Environment.executeLine`, `Environment.executeScript`: one input, and the lines of a script.
* `Call`: the ways to use an environment.
-/

namespace Listwise

/-- Whether a statement is being carried out. -/
inductive Activity where
  | idle
  | evaluating
  deriving DecidableEq, Repr

/-- A session, the texts it has shown so far, and whether a statement is being carried out. -/
structure Environment extends Session where
  shown : List String
  activity : Activity
  deriving DecidableEq, Repr

/-- Steps that change an environment and may fail.  A failure keeps the changes made before it. -/
abbrev Action := ExceptT Error (StateM Environment)

namespace Environment

/-- An environment without lists. -/
def start (limits : RangeLimits) : Environment := ⟨.start limits, [], .idle⟩

/-! ## Steps -/

/-- Defines a list, or replaces the one of its name. -/
def define (l : NamedList) : Action Unit :=
  modify fun env => { env with store := env.store.insert l }

/-- Shows a text. -/
def display (text : String) : Action Unit :=
  modify fun env => { env with shown := env.shown ++ [text] }

/-- Carries out a statement. -/
def perform : Statement → Action Unit
  | .definitions lists => lists.forM define
  | .showAll => do display (← get).store.render
  | .comprehension c => do define (← c.run (← get).store)

/-- Carries out an input, of which the first line has the given number. -/
def run (input : String) (line : Nat) : Action Unit := do
  match ← Written.Statement.parse? input line with
  | none => return ()
  | some w => perform (← Statement.ofWritten (← get).limits w)

/-! ## Whole inputs -/

/-- Carries out an input: the result, and the environment it leaves. -/
def executeLine (env : Environment) (input : String) (line : Nat) :
    Except Error Unit × Environment :=
  let (result, env) := (run input line).run.run { env with activity := .evaluating }
  (result, { env with activity := .idle })

/-- Carries out numbered inputs, up to the first that fails. -/
def executeEach (env : Environment) : List (String × Nat) → Except Error Unit × Environment
  | [] => (.ok (), env)
  | (input, line) :: rest =>
    match env.executeLine input line with
    | (.ok (), env) => env.executeEach rest
    | (.error e, env) => (.error e, env)

/-- Carries out the lines of a script, up to the first that fails. -/
def executeScript (env : Environment) (script : String) : Except Error Unit × Environment :=
  env.executeEach (Session.inputs script)

end Environment

/-- The ways to use an environment. -/
inductive Call where
  | execute (input : String)
  | executeLine (input : String) (line : Nat)
  | executeScript (script : String)
  deriving DecidableEq, Repr

namespace Call

/-- Makes a call: the result, and the environment it leaves. -/
def make (env : Environment) : Call → Except Error Unit × Environment
  | .execute input => env.executeLine input 1
  | .executeLine input line => env.executeLine input line
  | .executeScript script => env.executeScript script

end Call

end Listwise
