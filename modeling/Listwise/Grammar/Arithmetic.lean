import Listwise.Grammar.Basic
import Listwise.Written

/-!
# Reading arithmetic

From the loosest to the tightest binding:

```
sum     = product (("+" | "-") product)*
product = signed (("*" | "/") signed)*
signed  = "-" signed | power
power   = atom ["^" signed]
atom    = NUMBER | NAME | "(" sum ")"
```

Sums and products group to the left, powers to the right, and a sign binds looser than a power.
Every operation stands on the line of its sign.
-/

namespace Listwise.Grammar

/-- The operation of a sum that a token stands for. -/
def sumOp? : Token → Option Op
  | .plus => some .add
  | .minus => some .sub
  | _ => none

/-- The operation of a product that a token stands for. -/
def productOp? : Token → Option Op
  | .star => some .mul
  | .slash => some .div
  | _ => none

-- A reader calls one of what binds tighter on the same lexemes, or any on fewer: five readers, so five a lexeme.
mutual

/-- Reads a sum. -/
def sum (line : Nat) (ts : List Lexeme) : Except Error (Taken (Expr String) ts.length) := do
  let ⟨left, ts₁, h₁⟩ ← product line ts
  let t ← sumTail line left ts₁
  return t.widen h₁
termination_by 5 * ts.length + 4

/-- Reads what follows the first operands of a sum, which are `left`. -/
def sumTail (line : Nat) (left : Expr String) (ts : List Lexeme) :
    Except Error (Taken (Expr String) (ts.length + 1)) :=
  match ts with
  | [] => .ok (.keep left [])
  | l :: ts₁ =>
    match sumOp? l.token with
    | none => .ok (.keep left (l :: ts₁))
    | some op => do
      let ⟨right, ts₂, h₂⟩ ← product line ts₁
      let t ← sumTail line (.binary op left right l.line) ts₂
      return (t.widen h₂).behind.behind
termination_by 5 * ts.length

/-- Reads a product. -/
def product (line : Nat) (ts : List Lexeme) : Except Error (Taken (Expr String) ts.length) := do
  let ⟨left, ts₁, h₁⟩ ← signed line ts
  let t ← productTail line left ts₁
  return t.widen h₁
termination_by 5 * ts.length + 3

/-- Reads what follows the first operands of a product, which are `left`. -/
def productTail (line : Nat) (left : Expr String) (ts : List Lexeme) :
    Except Error (Taken (Expr String) (ts.length + 1)) :=
  match ts with
  | [] => .ok (.keep left [])
  | l :: ts₁ =>
    match productOp? l.token with
    | none => .ok (.keep left (l :: ts₁))
    | some op => do
      let ⟨right, ts₂, h₂⟩ ← signed line ts₁
      let t ← productTail line (.binary op left right l.line) ts₂
      return (t.widen h₂).behind.behind
termination_by 5 * ts.length

/-- Reads a power with any number of signs in front. -/
def signed (line : Nat) (ts : List Lexeme) : Except Error (Taken (Expr String) ts.length) :=
  match ts with
  | ⟨.minus, n⟩ :: ts₁ => do
    let t ← signed line ts₁
    return (t.map (.negate · n)).behind
  | ts => power line ts
termination_by 5 * ts.length + 2

/-- Reads an atom with an optional exponent. -/
def power (line : Nat) (ts : List Lexeme) : Except Error (Taken (Expr String) ts.length) := do
  let ⟨base, ts₁, h₁⟩ ← atom line ts
  match ts₁, h₁ with
  | ⟨.caret, n⟩ :: ts₂, h₁ =>
    let t ← signed line ts₂
    return (t.map (.binary .pow base · n)).behind.widen (Nat.le_of_lt h₁)
  | ts₁, h₁ => return ⟨base, ts₁, h₁⟩
termination_by 5 * ts.length + 1
decreasing_by
  · exact Nat.lt_succ_self _
  · have h : 5 * (ts₂.length + 1) ≤ 5 * ts.length := Nat.mul_le_mul_left 5 (Nat.le_of_lt h₁)
    exact Nat.lt_succ_of_le (Nat.le_trans (Nat.add_le_add_left (by decide) _) h)

/-- Reads a number, a name or an expression in parentheses. -/
def atom (line : Nat) (ts : List Lexeme) : Except Error (Taken (Expr String) ts.length) :=
  match ts with
  | [] => .error (atEnd line)
  | ⟨.number text, n⟩ :: ts₁ => .ok (.one (.literal text n) ts₁)
  | ⟨.word name, n⟩ :: ts₁ => .ok (.one (.var name n) ts₁)
  | ⟨.leftParen, n⟩ :: ts₁ => do
    let ⟨inner, ts₂, h₂⟩ ← sum line ts₁
    let t ← expect line .rightParen ts₂
    return ((t.map fun _ => .group inner n).behind.widen h₂).behind
  | l :: _ => .error (unexpected .expression l)
termination_by 5 * ts.length

end

end Listwise.Grammar
