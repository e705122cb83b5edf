import Listwise.Decimal.Basic

/-!
# Decimals as text

`toText` writes a decimal in positional notation with exactly `scale` digits behind the point, never
with an exponent, and with a `0` before the point of a pure fraction: `2.50`, `-0.001`, `17`.
-/

namespace Listwise.Decimal

/-- The digits of `n`, padded with zeros in front to at least `width` of them. -/
def paddedDigits (n width : Nat) : List Char :=
  let digits := Nat.toDigits 10 n
  List.replicate (width - digits.length) '0' ++ digits

/-- The characters of a decimal in positional notation. -/
def toChars (d : Decimal) : List Char :=
  let digits := paddedDigits d.mantissa (d.scale + 1)
  let whole := digits.take (digits.length - d.scale)
  let fraction := digits.drop (digits.length - d.scale)
  (if d.negative then ['-'] else []) ++ whole ++ (if d.scale = 0 then [] else '.' :: fraction)

/-- A decimal in positional notation, with all the digits of its scale. -/
def toText (d : Decimal) : String := String.ofList d.toChars

end Listwise.Decimal
