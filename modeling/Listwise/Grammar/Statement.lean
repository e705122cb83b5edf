import Listwise.Grammar.Arithmetic
import Listwise.Token.Lexer

/-!
# Reading statements

```
statement     = "show" | comprehension | clause ("," clause)*
clause        = NAME "=" elements
elements      = "[" [literal ("," literal)*] "]" | number ".." [number] | ".." number
literal       = number | NAME | TEXT
comprehension = NAME "=" "[" [sum] "|" [binding ("," binding)*] ["|" [predicate ("," predicate)*]] "]"
binding       = NAME "in" (NAME | elements)
predicate     = NAME ["==" | "=" | ">" | ">=" | "<" | "<="] number
```

A statement is taken for a comprehension if it begins with `NAME "=" "["` and a `|` stands between
this bracket and the one that closes it, outside of other brackets.
-/

namespace Listwise

namespace Grammar

open Written

/-! ## Lists -/

/-- Reads an element of a list. -/
def literal (line : Nat) : Reader Literal
  | [] => .error (atEnd line)
  | ⟨.word text, _⟩ :: ts => .ok (.one (.text text) ts)
  | ⟨.quoted text, _⟩ :: ts => .ok (.one (.text text) ts)
  | l :: ts =>
    if startsNumber (l :: ts) then mapRead .number (number line) (l :: ts)
    else .error (unexpected .listElement l)

/-- Reads the upper end of a range from `lower`, if there is one. -/
def rangeEnd (line : Nat) (lower : String) : OptionalReader Elements := fun ts =>
  if startsNumber ts then relax (mapRead (.between lower) (number line)) ts
  else .ok (.keep (.above lower) ts)

/-- Reads a range that has a lower end. -/
def rangeFrom (line : Nat) : Reader Elements :=
  andThen (number line) fun lower =>
  andMaybe (expect line .dotDot) fun _ =>
  rangeEnd line lower

/-- Reads the elements of a list. -/
def elements (line : Nat) : Reader Elements
  | ⟨.leftBracket, _⟩ :: ts =>
    (mapRead .listed (listUntil line (literal line) .rightBracket) ts).map Taken.behind
  | ⟨.dotDot, _⟩ :: ts => (mapRead .below (number line) ts).map Taken.behind
  | ts => rangeFrom line ts

/-- Reads a definition. -/
def clause (line : Nat) : Reader Clause :=
  andThen (identifier line) fun name =>
  andThen (expect line .equals) fun _ =>
  mapRead (fun es => ⟨name, es⟩) (elements line)

/-! ## Comprehensions -/

/-- Reads what a variable runs through. -/
def source (line : Nat) : Reader Source
  | ⟨.word name, _⟩ :: ts => .ok (.one (.list name) ts)
  | ts => mapRead .inline (elements line) ts

/-- Reads a binding. -/
def binding (line : Nat) : Reader Binding :=
  andThen (identifier line) fun var =>
  andThen (expect line .inWord) fun _ =>
  mapRead (fun src => ⟨var, src⟩) (source line)

/-- Whether the bindings of a comprehension are over before they begin. -/
def endsBindings : List Lexeme → Bool
  | ⟨.pipe, _⟩ :: _ => true
  | ⟨.rightBracket, _⟩ :: _ => true
  | _ => false

/-- Reads bindings, possibly none. -/
def bindings (line : Nat) : OptionalReader (List Binding) := fun ts =>
  if endsBindings ts then .ok (.keep [] ts) else relax (chain (binding line)) ts

/-- The relation that a token stands for. -/
def relation? : Token → Option Relation
  | .equalEqual => some .eq
  | .equals => some .eq
  | .greater => some .gt
  | .greaterEqual => some .ge
  | .less => some .lt
  | .lessEqual => some .le
  | _ => none

/-- Reads an optional relation. -/
def optionalRelation : OptionalReader (Option Relation)
  | [] => .ok (.keep none [])
  | l :: ts =>
    match relation? l.token with
    | some r => .ok (Taken.one (some r) ts).behind
    | none => .ok (.keep none (l :: ts))

/-- Reads a predicate. -/
def predicate (line : Nat) : Reader Predicate :=
  andThen (identifier line) fun operand =>
  optionally optionalRelation fun r =>
  mapRead (fun threshold => ⟨operand, r, threshold⟩) (number line)

/-- Reads the end of a comprehension: a bracket, or predicates and a bracket. -/
def predicates (line : Nat) : Reader (List Predicate)
  | [] => .error (atEnd line)
  | ⟨.pipe, _⟩ :: ts => (listUntil line (predicate line) .rightBracket ts).map Taken.behind
  | ⟨.rightBracket, _⟩ :: ts => .ok (.one [] ts)
  | l :: _ => .error (unexpected .pipeOrBracket l)

/-- Whether a comprehension has no transform. -/
def lacksTransform : List Lexeme → Bool
  | ⟨.pipe, _⟩ :: _ => true
  | _ => false

/-- Reads the transform of a comprehension, if there is one. -/
def transform (line : Nat) : OptionalReader (Option (Expr String)) := fun ts =>
  if lacksTransform ts then .ok (.keep none ts) else relax (mapRead some (sum line)) ts

/-- Reads a comprehension. -/
def comprehension (line : Nat) : Reader Comprehension :=
  andThen (identifier line) fun result =>
  andThen (expect line .equals) fun _ =>
  andThen (expect line .leftBracket) fun _ =>
  optionally (transform line) fun e =>
  andThen (expect line .pipe) fun _ =>
  optionally (bindings line) fun bs =>
  mapRead (fun ps => ⟨result, e, bs, ps⟩) (predicates line)

/-! ## Statements -/

/-- Whether a `|` stands before the bracket that closes what `depth` inner brackets have opened. -/
def pipeInside (depth : Nat) : List Lexeme → Bool
  | [] => false
  | l :: ts =>
    match l.token, depth with
    | .leftBracket, depth => pipeInside (depth + 1) ts
    | .rightBracket, 0 => false
    | .rightBracket, depth + 1 => pipeInside depth ts
    | .pipe, 0 => true
    | _, depth => pipeInside depth ts

/-- Whether a statement is taken for a comprehension. -/
def startsComprehension : List Lexeme → Bool
  | ⟨.word _, _⟩ :: ⟨.equals, _⟩ :: ⟨.leftBracket, _⟩ :: ts => pipeInside 0 ts
  | _ => false

/-- Reads a statement. -/
def statement (line : Nat) : Reader Statement
  | ⟨.showWord, n⟩ :: ts => .ok (.one ⟨.showAll, n⟩ ts)
  | ts =>
    if startsComprehension ts then
      mapRead (fun c => ⟨.comprehension c, line⟩) (comprehension line) ts
    else mapRead (fun cs => ⟨.definitions cs, line⟩) (chain (clause line)) ts

end Grammar

/-- The statement that the lexemes are, all of them; nothing if there are none. -/
def Written.Statement.ofLexemes? (line : Nat) (ts : List Lexeme) :
    Except Error (Option Written.Statement) :=
  if ts.isEmpty then .ok none
  else do
    let t ← Grammar.statement line ts
    match t.rest with
    | [] => return some t.value
    | l :: _ => .error ⟨.trailingToken l.token, l.line⟩

/-- The statement that a text is; nothing if it has no tokens.  `line` is the number of its first
line. -/
def Written.Statement.parse? (text : String) (line : Nat) :
    Except Error (Option Written.Statement) := do
  Written.Statement.ofLexemes? line (← Token.tokenize text line)

end Listwise
