import Listwise.Decimal.Basic

/-!
# Rounding to a decimal

* `halfEven n d`: the natural number nearest to `n / d`, a tie going to the even neighbour.
* `nearest? negative n d s`: the value `± n / d / 10 ^ s`, rounded half-even at the finest scale
  (of at most `s` and at most `maxScale`) whose mantissa fits; `none` if it fits at no scale.
-/

namespace Listwise

/-- The natural number nearest to `n / d`; a tie goes to the even neighbour. -/
def halfEven (n d : Nat) : Nat :=
  let q := n / d
  let r := n % d
  if d < 2 * r ∨ (2 * r = d ∧ q % 2 = 1) then q + 1 else q

namespace Decimal

/-- The value `± n / d / 10 ^ s`, rounded at the finest scale of at most the given one. -/
def nearestFrom? (negative : Bool) (n d s : Nat) : Nat → Option Decimal
  | 0 => ofParts? negative (halfEven n (d * tenPow s)) 0
  | t + 1 =>
    match ofParts? negative (halfEven n (d * tenPow (s - (t + 1)))) (t + 1) with
    | some x => some x
    | none => nearestFrom? negative n d s t

/-- The value `± n / d / 10 ^ s`, rounded half-even at the finest scale that fits. -/
def nearest? (negative : Bool) (n d s : Nat) : Option Decimal :=
  nearestFrom? negative n d s (min s maxScale)

end Decimal

end Listwise
