import Listwise.Decimal.Arithmetic

/-!
# Ranges

* `RangeLimits`: a smallest and a largest end for ranges.  A range that is open at one end runs up to
  the limit there.
* `range? lower upper`: the numbers `lower`, `lower + 1`, … up to `upper`.
-/

namespace Listwise

/-- The least and the greatest end that a range may have. -/
structure RangeLimits where
  low : Int64
  high : Int64
  low_le_high : low ≤ high
  deriving DecidableEq, Repr

namespace RangeLimits

/-- The limits with these ends, if they are in order. -/
def ofBounds? (low high : Int64) : Option RangeLimits :=
  if h : low ≤ high then some ⟨low, high, h⟩ else none

/-- The limits where none are given: `-32767` and `32767`. -/
def standard : RangeLimits := ⟨-32767, 32767, by decide⟩

/-- The least end, as a decimal. -/
def lower (l : RangeLimits) : Decimal := Decimal.ofInt64 l.low

/-- The greatest end, as a decimal. -/
def upper (l : RangeLimits) : Decimal := Decimal.ofInt64 l.high

/-- Whether a range may end at `d`. -/
def admits (l : RangeLimits) (d : Decimal) : Bool := l.lower ≤ d && d ≤ l.upper

end RangeLimits

namespace Decimal

/-- The numbers from `current` up to `upper` in steps of one, but at most `room` of them, behind
those already found (`seen`, last first).  `none` if a step overflows. -/
def stepsTo? (upper : Decimal) : Nat → Decimal → List Decimal → Option (List Decimal)
  | 0, _, seen => some seen.reverse
  | room + 1, current, seen =>
    if current ≤ upper then
      match current.add? 1 with
      | some next => stepsTo? upper room next (current :: seen)
      | none => none
    else some seen.reverse

/-- The numbers `lower`, `lower + 1`, … up to `upper`; `none` if a step overflows.  A step raises the
integer part by at least one, whether it is rounded or not, so the integer parts of the two ends
bound their number. -/
def range? (lower upper : Decimal) : Option (List Decimal) :=
  stepsTo? upper (upper.floor - lower.floor + 1).toNat lower []

end Decimal

end Listwise
