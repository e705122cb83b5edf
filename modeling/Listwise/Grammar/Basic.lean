import Listwise.Error

/-!
# Reading from a list of lexemes

A reader takes lexemes off the front of a list and gives what it read together with the rest.  That
the rest is shorter is part of the result (`Taken`), so readers can call each other and repeat.  All
readers report the end of the input on the line they are given.

* `andThen`, `optionally`, `andMaybe`: one reader after another, of which the first or the second may
  take nothing.
* `expect`, `identifier`, `number`: one token, or a number with its sign.
* `chain`: items with commas between them.
* `listUntil`: the same up to a closing token, where there may be none.
-/

namespace Listwise.Grammar

/-! ## Readers -/

/-- What was read, and the lexemes that follow: fewer than `n`. -/
@[ext] structure Taken (α : Type) (n : Nat) where
  value : α
  rest : List Lexeme
  shorter : rest.length < n

/-- A reader of values of type `α`; it takes at least one lexeme. -/
abbrev Reader (α : Type) := (ts : List Lexeme) → Except Error (Taken α ts.length)

/-- A reader that may take nothing. -/
abbrev OptionalReader (α : Type) := (ts : List Lexeme) → Except Error (Taken α (ts.length + 1))

namespace Taken

variable {α β : Type} {n m : Nat}

/-- Another view of what was read. -/
def map (f : α → β) (t : Taken α n) : Taken β n := ⟨f t.value, t.rest, t.shorter⟩

/-- The same, under a larger bound. -/
def widen (h : n ≤ m) (t : Taken α n) : Taken α m :=
  ⟨t.value, t.rest, Nat.lt_of_lt_of_le t.shorter h⟩

/-- The value `x`, for which one lexeme was taken. -/
def one {l : Lexeme} (x : α) (ts : List Lexeme) : Taken α (l :: ts).length :=
  ⟨x, ts, Nat.lt_succ_self _⟩

/-- The value `x`, for which nothing was taken. -/
def keep (x : α) (ts : List Lexeme) : Taken α (ts.length + 1) := ⟨x, ts, Nat.lt_succ_self _⟩

/-- The same, behind a lexeme that was taken before. -/
def behind (t : Taken α n) : Taken α (n + 1) := t.widen (Nat.le_succ _)

end Taken

section Combinators

variable {α β : Type}

/-- Reads with `r`, and then with what `k` makes of the result. -/
def andThen (r : Reader α) (k : α → Reader β) : Reader β := fun ts => do
  let t ← r ts
  let u ← k t.value t.rest
  return u.widen (Nat.le_of_lt t.shorter)

/-- Reads with `r`, which may take nothing, and then with what `k` makes of the result. -/
def optionally (r : OptionalReader α) (k : α → Reader β) : Reader β := fun ts => do
  let t ← r ts
  let u ← k t.value t.rest
  return u.widen (Nat.le_of_lt_succ t.shorter)

/-- Reads with `r`, and then with what `k` makes of the result, which may take nothing more. -/
def andMaybe (r : Reader α) (k : α → OptionalReader β) : Reader β := fun ts => do
  let t ← r ts
  let u ← k t.value t.rest
  return u.widen t.shorter

/-- Reads with `r`, and looks at the result through `f`. -/
def mapRead (f : α → β) (r : Reader α) : Reader β := fun ts => (r ts).map (Taken.map f)

/-- Reads with `r`, as a reader that may take nothing. -/
def relax (r : Reader α) : OptionalReader α := fun ts => (r ts).map Taken.behind

end Combinators

/-! ## Single tokens -/

/-- The error for a lexeme that stands where something else was expected. -/
def unexpected (expected : Expected) (found : Lexeme) : Error :=
  ⟨.unexpectedToken expected found.token, found.line⟩

/-- The error for a statement that stops too early. -/
def atEnd (line : Nat) : Error := ⟨.unexpectedEnd, line⟩

/-- Reads the token `t`. -/
def expect (line : Nat) (t : Token) : Reader Unit
  | [] => .error (atEnd line)
  | l :: ts => if l.token = t then .ok (.one () ts) else .error (unexpected (.token t) l)

/-- Reads a name. -/
def identifier (line : Nat) : Reader String
  | [] => .error (atEnd line)
  | ⟨.word name, _⟩ :: ts => .ok (.one name ts)
  | l :: _ => .error (unexpected .identifier l)

/-- Reads a number without sign. -/
def unsignedNumber (line : Nat) : Reader String
  | [] => .error (atEnd line)
  | ⟨.number text, _⟩ :: ts => .ok (.one text ts)
  | l :: _ => .error (unexpected .number l)

/-- Reads a number with an optional minus sign. -/
def number (line : Nat) : Reader String
  | ⟨.minus, _⟩ :: ts => (mapRead ("-" ++ ·) (unsignedNumber line) ts).map Taken.behind
  | ts => unsignedNumber line ts

/-- Whether a number with an optional minus sign may begin here. -/
def startsNumber : List Lexeme → Bool
  | ⟨.number _, _⟩ :: _ => true
  | ⟨.minus, _⟩ :: _ => true
  | _ => false

/-! ## Sequences -/

section Sequence

variable {α : Type} (line : Nat) (item : Reader α)

/-- Reads items with commas between them, at least one. -/
def chain (ts : List Lexeme) : Except Error (Taken (List α) ts.length) := do
  let ⟨x, ts₁, h₁⟩ ← item ts
  match ts₁, h₁ with
  | ⟨.comma, _⟩ :: ts₂, h₁ =>
    let t ← chain ts₂
    return (t.map (x :: ·)).behind.widen (Nat.le_of_lt h₁)
  | ts₁, h₁ => return ⟨[x], ts₁, h₁⟩
termination_by ts.length
decreasing_by exact Nat.lt_of_succ_lt h₁

/-- Reads items with commas between them, at least one, and the closing token behind them. -/
def itemsUntil (closing : Token) (ts : List Lexeme) : Except Error (Taken (List α) ts.length) := do
  let ⟨x, ts₁, h₁⟩ ← item ts
  match ts₁, h₁ with
  | [], _ => .error (atEnd line)
  | l :: ts₂, h₁ =>
    if l.token = .comma then
      let t ← itemsUntil closing ts₂
      return (t.map (x :: ·)).behind.widen (Nat.le_of_lt h₁)
    else if l.token = closing then return (Taken.keep [x] ts₂).widen (Nat.le_of_lt h₁)
    else .error (unexpected (.commaOr closing) l)
termination_by ts.length
decreasing_by exact Nat.lt_of_succ_lt h₁

/-- Reads items with commas between them, possibly none, and the closing token behind them. -/
def listUntil (closing : Token) : Reader (List α)
  | [] => itemsUntil line item closing []
  | l :: ts =>
    if l.token = closing then .ok (.one [] ts) else itemsUntil line item closing (l :: ts)

end Sequence

end Listwise.Grammar
