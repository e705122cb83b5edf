import Listwise.Environment

/-!
# The command line

* `Options.parse?`: the options that arguments spell; `none` if they spell none.
* `Options.job`: what there is to do.
* `Job.run`: the output, the error output and the exit code, given the files and the standard input.
-/

namespace Listwise

/-- What the arguments ask for. -/
structure Options where
  file : Bool := false
  interactive : Bool := false
  lowerBound : Option Int64 := none
  upperBound : Option Int64 := none
  contents : Option String := none
  deriving DecidableEq, Repr

namespace Options

/-- Reads a signed 64-bit integer: an optional sign and at least one digit. -/
def int64? (text : String) : Option Int64 :=
  let (negative, digits) := Decimal.splitSign text.toList
  if digits ≠ [] ∧ digits.all Char.isDigit then
    let n := Decimal.digitsValue digits
    let z : Int := if negative then -n else n
    if Int64.minValue.toInt ≤ z ∧ z ≤ Int64.maxValue.toInt then some (Int64.ofInt z) else none
  else none

/-- Sets a flag, once only. -/
def setFlag? (o : Options) : Char → Option Options
  | 'f' => if o.file then none else some { o with file := true }
  | 'i' => if o.interactive then none else some { o with interactive := true }
  | _ => none

/-- Sets an option with a value, once only. -/
def setValue? (o : Options) (name value : String) : Option Options := do
  let n ← int64? value
  match name, o.lowerBound, o.upperBound with
  | "lower-bound", none, _ => some { o with lowerBound := some n }
  | "upper-bound", _, none => some { o with upperBound := some n }
  | _, _, _ => none

/-- Sets the positional argument, once only. -/
def setContents? (o : Options) (text : String) : Option Options :=
  if o.contents.isSome then none else some { o with contents := some text }

/-- The flag of a long name. -/
def longFlag? : String → Option Char
  | "file" => some 'f'
  | "interactive" => some 'i'
  | _ => none

/-- Takes in arguments.  Flags may be joined behind one dash, a value follows its option directly or
behind `=`, and `--` makes positional all that follows. -/
def readFrom? (o : Options) : List String → Option Options
  | [] => some o
  | arg :: args =>
    match arg.toList with
    | ['-', '-'] => args.foldlM setContents? o
    | '-' :: '-' :: cs =>
      let name := String.ofList (cs.takeWhile (· != '='))
      match cs.dropWhile (· != '='), longFlag? name with
      | _ :: value, _ => do (← o.setValue? name (String.ofList value)).readFrom? args
      | [], some flag => do (← o.setFlag? flag).readFrom? args
      | [], none =>
        match args with
        | [] => none
        | value :: args => do (← o.setValue? name value).readFrom? args
    | '-' :: c :: cs => do (← (c :: cs).foldlM setFlag? o).readFrom? args
    | _ => do (← o.setContents? arg).readFrom? args

/-- The options that the arguments spell. -/
def parse? (args : List String) : Option Options := readFrom? {} args

end Options

/-- What there is to do. -/
inductive Job where
  | refuse (message : String)
  | interactive (limits : RangeLimits)
  | script (limits : RangeLimits) (text : String)
  | scriptFile (limits : RangeLimits) (path : String)

/-- What the options ask to do. -/
def Options.job (o : Options) : Job :=
  let low := o.lowerBound.getD RangeLimits.standard.low
  let high := o.upperBound.getD RangeLimits.standard.high
  match RangeLimits.ofBounds? low high with
  | none =>
    .refuse ("The lower bound (" ++ toString low ++ ") must not exceed the upper bound (" ++
      toString high ++ ").")
  | some limits =>
    if o.interactive then .interactive limits
    else
      match o.contents with
      | none =>
        .refuse "Nothing to run. Pass a script, a file with `--file`, or use `--interactive`."
      | some text => if o.file then .scriptFile limits text else .script limits text

/-- What a program writes and the code it ends with. -/
structure Outcome where
  stdout : String
  stderr : String
  code : UInt32
  deriving DecidableEq, Repr

namespace Outcome

/-- Nothing but a complaint. -/
def failure (message : String) (code : UInt32) : Outcome := ⟨"", message ++ "\n", code⟩

/-- What a script writes. -/
def ofScript (limits : RangeLimits) (text : String) : Outcome :=
  let (result, env) := (Environment.start limits).executeScript text
  match result with
  | .error e => ⟨String.join env.shown, e.message ++ "\n", 1⟩
  | .ok () => ⟨String.join env.shown, "", 0⟩

/-- A file that could not be read. -/
def unreadable (path : String) : Outcome :=
  failure ("Failed to read the input file '" ++ path ++ "'. Perhaps this file does not exist?") 1

end Outcome

/-! ## Interactive sessions -/

namespace Environment

/-- Asks for the next line. -/
def prompt : String := "> "

/-- What an environment answers to a line. -/
structure Reply where
  environment : Environment
  stdout : String
  stderr : String

/-- Carries out a line and writes what it shows.  One that fails is reported, and the environment stays
in use. -/
def reply (env : Environment) (input : String) (line : Nat) : Reply :=
  let (result, env) := { env with shown := [] }.executeLine input line
  match result with
  | .ok () => ⟨env, String.join env.shown, ""⟩
  | .error e => ⟨env, String.join env.shown, e.message ++ "\n"⟩

/-- The complaint about input that is no text. -/
def undecodable : String :=
  "Failed to read from standard input: stream did not contain valid UTF-8"

/-- Answers lines, of which the first has the given number; one that is no text ends the session. -/
def converse (env : Environment) (line : Nat) : List (Option String) → Outcome
  | [] => ⟨"", "", 0⟩
  | none :: _ => .failure undecodable 1
  | some input :: rest =>
    let r := env.reply input line
    let o := r.environment.converse (line + 1) rest
    ⟨r.stdout ++ prompt ++ o.stdout, r.stderr ++ o.stderr, o.code⟩

/-- The lines of raw input, those decoded that are text. -/
def decodeLines (bytes : List UInt8) : List (Option String) :=
  (Text.splitLines 10 13 bytes).map fun line => String.fromUTF8? ⟨line.toArray⟩

end Environment

/-- What an interactive session writes on raw input. -/
def Outcome.ofInput (limits : RangeLimits) (input : List UInt8) : Outcome :=
  let o := (Environment.start limits).converse 1 (Environment.decodeLines input)
  { o with stdout := Environment.prompt ++ o.stdout }

/-- What a job writes, given the files that can be read and the standard input. -/
def Job.run (readFile : String → Option String) (input : List UInt8) : Job → Outcome
  | .refuse message => .failure message 2
  | .interactive limits => .ofInput limits input
  | .script limits text => .ofScript limits text
  | .scriptFile limits path =>
    match readFile path with
    | some text => .ofScript limits text
    | none => .unreadable path

end Listwise
