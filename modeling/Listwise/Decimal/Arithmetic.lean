import Listwise.Decimal.Rounding

/-!
# Sums, differences, products and quotients

Each operation computes the exact result and rounds it to the finest scale that fits; `none` means
that the result is too large for a decimal.

* A sum has the larger of the two scales where it fits; adding a zero gives the other operand
  unchanged, and a difference of two zeros is the second of them.
* A product has the sum of the scales where it fits.  With a zero factor it is `0`, whatever sign and
  scale the factors have.
* A quotient is found by long division, which takes up to nine digits in a step (`LongDivision.run?`).
  It ends when nothing is left, or when no further digit has room: then it is rounded.  Once a division
  has left a remainder, `shorten` removes trailing zeros.
-/

namespace Listwise.Decimal

/-- The sum, or `none` on overflow. -/
def add? (a b : Decimal) : Option Decimal :=
  if a.isZero then some b
  else if b.isZero then some a
  else
    let s := max a.scale b.scale
    let c := a.coefficient * tenPow (s - a.scale) + b.coefficient * tenPow (s - b.scale)
    nearest? (c < 0) c.natAbs 1 s

/-- The difference, or `none` on overflow.  A zero is not negated when it is taken from a zero. -/
def sub? (a b : Decimal) : Option Decimal :=
  if a.isZero && b.isZero then some b else add? a (-b)

/-- The product, or `none` on overflow.  Factors with mantissas of 32 bits that have more than 47 places
together are not multiplied: their product would be rounded to zero. -/
def mul? (a b : Decimal) : Option Decimal :=
  if a.isZero || b.isZero then some 0
  else if a.mantissa < 4294967296 ∧ b.mantissa < 4294967296 ∧ 47 < a.scale + b.scale then some 0
  else nearest? (a.negative != b.negative) (a.mantissa * b.mantissa) 1 (a.scale + b.scale)

/-! ## Division -/

/-- Removes `width` trailing zeros behind the point, if there are that many. -/
def dropBlock (width : Nat) (d : Decimal) : Decimal :=
  if width ≤ d.scale ∧ d.mantissa % tenPow width = 0 then
    { negative := d.negative
      mantissa := d.mantissa / tenPow width
      scale := d.scale - width
      mantissa_lt := Nat.lt_of_le_of_lt (Nat.div_le_self _ _) d.mantissa_lt
      scale_le := Nat.le_trans (Nat.sub_le _ _) d.scale_le }
  else d

/-- Removes eight trailing zeros, where the low 32 bits of the mantissa are clear. -/
def dropOctet (d : Decimal) : Decimal :=
  if d.mantissa % 4294967296 = 0 then dropBlock 8 d else d

/-- Removes trailing zeros in blocks of eight, four, two and one.  Up to seven go for certain;
a block of eight only while the low 32 bits of the mantissa are clear, so zeros may remain. -/
def shorten (d : Decimal) : Decimal :=
  dropBlock 1 (dropBlock 2 (dropBlock 4 (dropOctet (dropOctet (dropOctet d)))))

/-- A long division under way: the digits of the quotient so far, what is left of the dividend, and
how many digits may still follow.  The last digit so far stands at scale `maxScale - places`, which is
before the point as long as `places` is larger than `maxScale`. -/
structure LongDivision where
  digits : Nat
  rest : Nat
  places : Nat
  deriving DecidableEq, Repr

namespace LongDivision

/-- The greatest number of further digits, of at most `p`, that has room in a mantissa behind `q`. -/
def room (q : Nat) : Nat → Nat
  | 0 => 0
  | p + 1 => if q * tenPow (p + 1) < capacity then p + 1 else room q p

/-- How many digits the next step takes: nine, if as many may follow and have room.  When nothing is
left, the digits that follow are zeros, and only those before the point are needed. -/
def width (x : LongDivision) : Nat :=
  if x.rest = 0 then min 9 (x.places - maxScale) else room x.digits (min 9 x.places)

/-- The division by `d` with `p` digits more. -/
def further (d p : Nat) (x : LongDivision) : LongDivision where
  digits := x.digits * tenPow p + x.rest * tenPow p / d
  rest := x.rest * tenPow p % d
  places := x.places - p

/-- The quotient without its last digit, rounded; there is none if that digit stands before the point. -/
def roundLast? (negative : Bool) (d : Nat) (x : LongDivision) : Option Decimal :=
  if x.places < maxScale then
    ofParts? negative (halfEven (x.digits * d + x.rest) (d * 10)) (maxScale - x.places - 1)
  else none

/-- The quotient with all its digits, rounded by what is left.  If it is rounded up to the capacity, its
last digit goes. -/
def round? (negative : Bool) (d : Nat) (x : LongDivision) : Option Decimal :=
  if halfEven (x.digits * d + x.rest) d < capacity then
    ofParts? negative (halfEven (x.digits * d + x.rest) d) (maxScale - x.places)
  else x.roundLast? negative d

theorem room_le (q p : Nat) : room q p ≤ p := by
  fun_induction room q p with
  | case1 => exact Nat.le_refl 0
  | case2 p _ => exact Nat.le_refl _
  | case3 p _ ih => exact Nat.le_succ_of_le ih

theorem width_le (x : LongDivision) : x.width ≤ x.places := by
  unfold width
  split
  · omega
  · exact Nat.le_trans (room_le _ _) (Nat.min_le_right _ _)

theorem places_further_lt {x : LongDivision} (h : x.width ≠ 0) (d : Nat) :
    (x.further d x.width).places < x.places := by
  have := x.width_le
  simp only [further]
  omega

/-- The quotient by `d`.  There is none if the digits run out of room before the point. -/
def run? (negative : Bool) (d : Nat) (x : LongDivision) : Option Decimal :=
  if x.width < 9 ∧ maxScale < x.places - x.width then none
  else if _h : x.width = 0 then x.round? negative d
  else if (x.further d x.width).digits < capacity then (x.further d x.width).run? negative d
  else (x.further d x.width).roundLast? negative d
termination_by x.places
decreasing_by exact places_further_lt _h d

end LongDivision

/-- The quotient; `none` on overflow and for a divisor of zero. -/
def div? (a b : Decimal) : Option Decimal :=
  if b.isZero then none
  else if a.isZero then some 0
  else
    let x : LongDivision :=
      ⟨a.mantissa / b.mantissa, a.mantissa % b.mantissa, maxScale + b.scale - a.scale⟩
    let quotient := x.run? (a.negative != b.negative) b.mantissa
    if x.rest = 0 then quotient else quotient.map shorten

end Listwise.Decimal
