import Listwise.Decimal.Basic

/-!
# Decimals and binary floating point

Powers are computed in binary floating point, so decimals go there and back.

* `toFloat`: the decimal as a double.  A decimal with a fraction is rounded, in doubles, to as many
  places as its scale has.
* `ofFloat?`: the double as a decimal; `none` if it is not finite or too large.
-/

namespace Listwise.Decimal

/-! ## From decimal to double -/

/-- The double nearest to a natural number. -/
def natToFloat (n : Nat) : Float := Float.ofScientific n false 0

/-- The product `r * a ^ n` in doubles, by repeated squaring of `a`. -/
def timesPow (r a : Float) (n : Nat) : Float :=
  let r' := if n % 2 = 1 then r * a else r
  if n / 2 = 0 then r' else timesPow r' (a * a) (n / 2)
termination_by n
decreasing_by omega

/-- The decimal as a double. -/
def toFloat (d : Decimal) : Float :=
  let magnitude :=
    if d.scale = 0 then natToFloat d.mantissa
    else
      let unit := tenPow d.scale
      let whole := natToFloat (d.mantissa / unit)
      let fraction := natToFloat (d.mantissa % unit) / natToFloat unit
      if fraction == 0 then whole
      else
        let places := timesPow 1 10 d.scale
        ((whole + fraction) * places).round / places
  if d.negative && !(d.isZero && d.scale == 0) then -magnitude else magnitude

/-! ## From double to decimal

A finite double is `m * 2 ^ e`.  Its decimal is found as `m * 10 ^ e10`, in whole numbers: the
factors of two are traded one by one for factors of ten and five, and where the mantissa has no
room the last digit is cut. -/

/-- Replaces `m * 2 ^ -n * 10 ^ e10`, up to the bits that find no room, by `m' * 10 ^ e10'`: a
factor `1/2` is taken from `m`, or is `5/10`. -/
def clearHalves (m : Nat) (e10 : Int) : Nat → Nat × Int
  | 0 => (m, e10)
  | n + 1 =>
    if m % 2 = 0 then clearHalves (m / 2) (e10 + 1) n
    else if 5 * m < capacity then clearHalves (5 * m) e10 n
    else clearHalves (m / 2) (e10 + 1) n

/-- Replaces `m * 2 ^ n * 10 ^ e10` by `m' * 10 ^ e10'`: a factor `2` goes into `m`, or is
`10/5`. -/
def clearDoubles (m : Nat) (e10 : Int) : Nat → Option (Nat × Int)
  | 0 => some (m, e10)
  | n + 1 =>
    if 2 * m < capacity then clearDoubles (2 * m) (e10 - 1) n
    else if 2 * e10 > n + 1 then none
    else clearDoubles (m / 5) e10 n

/-- `m * 10 ^ n`, if it fits a mantissa. -/
def shiftUp? (m n : Nat) : Option Nat :=
  if m * tenPow n < capacity then some (m * tenPow n) else none

/-- Cuts `n` last digits one by one, each rounding half up, until nothing is left.  Gives the scale
that remains too, from `scale`. -/
def cutDigits (m scale : Nat) : Nat → Nat × Nat
  | 0 => (m, scale)
  | n + 1 =>
    if m / 10 = 0 then (0, 0)
    else cutDigits (m / 10 + if 5 ≤ m % 10 then 1 else 0) (scale - 1) n

/-- Cuts last digits, each rounding half up, while the mantissa has more than 52 bits. -/
def cutBits (m : Nat) : Nat → Nat × Nat
  | 0 => (m, 0)
  | scale + 1 =>
    if 1 <<< 52 ≤ m then cutBits (m / 10 + if 5 ≤ m % 10 then 1 else 0) scale
    else (m, scale + 1)

/-- The decimal nearest to `m / 10 ^ scale` that the bits of a double justify. -/
def ofDouble? (negative : Bool) (m scale : Nat) : Option Decimal :=
  let (m, scale) := cutDigits m scale (scale - maxScale)
  let (m, scale) := cutBits m scale
  let (m, scale) := dropZeros m scale
  ofParts? negative m scale

/-- The double with the given bits as a decimal. -/
def ofFloatBits? (bits : Nat) : Option Decimal :=
  let negative := (bits >>> 63) % 2 == 1
  let exponent := (bits >>> 52) % 2048
  let fraction := bits % (1 <<< 52)
  if exponent = 2047 then none
  else if exponent = 0 ∧ fraction = 0 then some 0
  else
    let m := if exponent = 0 then fraction else (1 <<< 52) + fraction
    let e : Int := if exponent = 0 then -1074 else exponent - 1075
    let traded :=
      if e < 0 then some (clearHalves m e (-e).toNat) else clearDoubles m e e.toNat
    match traded with
    | none => none
    | some (m, e10) =>
      if 0 < e10 then (shiftUp? m e10.toNat).bind fun m => ofDouble? negative m 0
      else ofDouble? negative m (-e10).toNat

/-- The double as a decimal; `none` if it is not finite or too large. -/
def ofFloat? (x : Float) : Option Decimal := ofFloatBits? x.toBits.toNat

end Listwise.Decimal
