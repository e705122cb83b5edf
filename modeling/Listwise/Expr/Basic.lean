import Listwise.Decimal.Text

/-!
# Arithmetic expressions

`Expr ν` is an expression whose literals are of type `ν`: texts as long as the expression is only
written down, decimals once it can be evaluated.  Every node knows its line.  `Expr.render` writes
an expression on one line, its literals in their shortest form.
-/

namespace Listwise

/-- The binary operations. -/
inductive Op where
  | add
  | sub
  | mul
  | div
  | pow
  deriving DecidableEq, Repr

/-- An arithmetic expression with literals of type `ν`. -/
inductive Expr (ν : Type) where
  | literal (value : ν) (line : Nat)
  | var (name : String) (line : Nat)
  | binary (op : Op) (left right : Expr ν) (line : Nat)
  | negate (operand : Expr ν) (line : Nat)
  | group (inner : Expr ν) (line : Nat)
  deriving DecidableEq, Repr

/-- The sign of an operation. -/
def Op.symbol : Op → String
  | .add => "+"
  | .sub => "-"
  | .mul => "*"
  | .div => "/"
  | .pow => "^"

namespace Expr

/-- The line of an expression: that of its outermost literal, name or sign. -/
def line {ν : Type} : Expr ν → Nat
  | .literal _ n => n
  | .var _ n => n
  | .binary _ _ _ n => n
  | .negate _ n => n
  | .group _ n => n

/-- The expression with every literal replaced by what `f` makes of it and its line, from left to
right; the first failure stops. -/
def mapLiterals {ν μ ε : Type} (f : ν → Nat → Except ε μ) : Expr ν → Except ε (Expr μ)
  | .literal v n => return .literal (← f v n) n
  | .var x n => return .var x n
  | .binary op l r n => return .binary op (← l.mapLiterals f) (← r.mapLiterals f) n
  | .negate e n => return .negate (← e.mapLiterals f) n
  | .group e n => return .group (← e.mapLiterals f) n

/-- The expression on one line. -/
def render : Expr Decimal → String
  | .literal v _ => v.canonical.toText
  | .var x _ => x
  | .binary op l r _ => l.render ++ " " ++ op.symbol ++ " " ++ r.render
  | .negate e _ => "-" ++ e.render
  | .group e _ => "(" ++ e.render ++ ")"

end Expr

end Listwise
