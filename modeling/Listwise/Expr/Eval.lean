import Listwise.Decimal.Arithmetic
import Listwise.Decimal.Binary64
import Listwise.Error
import Listwise.Expr.Basic

/-!
# Evaluation

`Expr.eval` computes an expression under an assignment of decimals to names.  An operation that has
no result stops it, with an error that quotes the operation and stands on its line.
-/

namespace Listwise

/-- The decimals that names stand for; the first pair of a name counts. -/
abbrev Assignment := List (String × Decimal)

/-- The decimal that a name stands for; `0` for a name without one. -/
def Assignment.value (σ : Assignment) (name : String) : Decimal := (σ.lookup name).getD 0

/-- The power `a ^ b`, by way of binary floating point. -/
def Decimal.pow (a b : Decimal) : Except ArithmeticFault Decimal :=
  if a.isZero && b.negative && !b.isZero then .error .divisionByZero
  else
    let x := Float.pow a.toFloat b.toFloat
    if x.isNaN then .error .undefinedPower
    else
      match Decimal.ofFloat? x with
      | some d => .ok d
      | none => .error .overflow

/-- A result that may be too large. -/
def orOverflow : Option Decimal → Except ArithmeticFault Decimal
  | some d => .ok d
  | none => .error .overflow

/-- The result of an operation. -/
def Op.apply (op : Op) (a b : Decimal) : Except ArithmeticFault Decimal :=
  match op with
  | .add => orOverflow (a.add? b)
  | .sub => orOverflow (a.sub? b)
  | .mul => orOverflow (a.mul? b)
  | .div => if b.isZero then .error .divisionByZero else orOverflow (a.div? b)
  | .pow => a.pow b

/-- The value of an expression; operands are computed from left to right. -/
def Expr.eval (σ : Assignment) : Expr Decimal → Except Error Decimal
  | .literal v _ => .ok v
  | .var x _ => .ok (σ.value x)
  | .negate e _ => do return -(← e.eval σ)
  | .group e _ => e.eval σ
  | .binary op l r n => do
    let a ← l.eval σ
    let b ← r.eval σ
    match op.apply a b with
    | .ok v => return v
    | .error fault => .error ⟨.arithmetic fault (Expr.binary op l r n).render, n⟩

namespace Expr

section Binary

variable {σ : Assignment} {op : Op} {l r : Expr Decimal} {n : Nat}

/-- Once its operands are computed, an operation gives its result, or an error that quotes it. -/
theorem eval_binary {a b : Decimal} (hl : l.eval σ = .ok a) (hr : r.eval σ = .ok b) :
    (Expr.binary op l r n).eval σ = (op.apply a b).mapError fun fault =>
      ⟨.arithmetic fault (Expr.binary op l r n).render, n⟩ := by
  rw [eval, hl, hr]
  simp only [bind, Except.bind]
  cases op.apply a b <;> rfl

theorem eval_binary_left {e : Error} (hl : l.eval σ = .error e) : (Expr.binary op l r n).eval σ = .error e := by
  rw [eval, hl]
  rfl

theorem eval_binary_right {a : Decimal} {e : Error} (hl : l.eval σ = .ok a) (hr : r.eval σ = .error e) :
    (Expr.binary op l r n).eval σ = .error e := by
  rw [eval, hl, hr]
  rfl

end Binary

end Expr

end Listwise
