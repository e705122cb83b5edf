/-!
# Decimals

A decimal is a sign, a mantissa below `2 ^ 96` and a scale of at most `28`; its value is
`± mantissa / 10 ^ scale`.  One value has many decimals (`1`, `1.0`, `-0` and `0`), so three
comparisons by value stand beside structural equality: `a ≈ b`, `a < b` and `a ≤ b`.

* `coefficient`: mantissa and sign as one integer.
* `ofInt64`: every machine integer is a decimal of scale `0`.
* `canonical`: the decimal of the same value without trailing zeros and without `-0`.
-/

namespace Listwise

/-- Mantissas are the natural numbers below this bound, which is `2 ^ 96`. -/
abbrev Decimal.capacity : Nat := 79228162514264337593543950336

/-- No decimal has more digits after the point. -/
abbrev Decimal.maxScale : Nat := 28

/-- The power `10 ^ n`. -/
def tenPow (n : Nat) : Nat := Nat.pow 10 n

/-- The number `± mantissa / 10 ^ scale`. -/
structure Decimal where
  negative : Bool
  mantissa : Nat
  scale : Nat
  mantissa_lt : mantissa < Decimal.capacity
  scale_le : scale ≤ Decimal.maxScale
  deriving DecidableEq, Repr

namespace Decimal

/-- The decimal with these parts, if they are in range. -/
def ofParts? (negative : Bool) (mantissa scale : Nat) : Option Decimal :=
  if h : mantissa < capacity ∧ scale ≤ maxScale then
    some ⟨negative, mantissa, scale, h.1, h.2⟩
  else
    none

/-- A machine integer, at scale `0`. -/
def ofInt64 (n : Int64) : Decimal where
  negative := n < 0
  mantissa := n.toInt.natAbs
  scale := 0
  mantissa_lt := by
    have hl := n.le_toInt
    have hu := n.toInt_lt
    simp only [capacity]
    omega
  scale_le := Nat.zero_le _

instance : Zero Decimal := ⟨⟨false, 0, 0, by decide, by decide⟩⟩
instance : One Decimal := ⟨⟨false, 1, 0, by decide, by decide⟩⟩
instance : Inhabited Decimal := ⟨0⟩

/-- Mantissa and sign as one integer. -/
def coefficient (d : Decimal) : Int :=
  if d.negative then -(d.mantissa : Int) else d.mantissa

/-- Whether the value is zero, of whatever sign and scale. -/
def isZero (d : Decimal) : Bool := d.mantissa == 0

/-- The decimal with the other sign; of zero too. -/
def neg (d : Decimal) : Decimal := { d with negative := !d.negative }

instance : Neg Decimal := ⟨neg⟩

/-! ## Comparison by value

Two decimals are compared on a common denominator, which is exact. -/

instance : HasEquiv Decimal :=
  ⟨fun a b => a.coefficient * tenPow b.scale = b.coefficient * tenPow a.scale⟩

instance : LT Decimal :=
  ⟨fun a b => a.coefficient * tenPow b.scale < b.coefficient * tenPow a.scale⟩

instance : LE Decimal :=
  ⟨fun a b => a.coefficient * tenPow b.scale ≤ b.coefficient * tenPow a.scale⟩

instance (a b : Decimal) : Decidable (a ≈ b) :=
  inferInstanceAs (Decidable (a.coefficient * tenPow b.scale = b.coefficient * tenPow a.scale))

instance (a b : Decimal) : Decidable (a < b) :=
  inferInstanceAs (Decidable (a.coefficient * tenPow b.scale < b.coefficient * tenPow a.scale))

instance (a b : Decimal) : Decidable (a ≤ b) :=
  inferInstanceAs (Decidable (a.coefficient * tenPow b.scale ≤ b.coefficient * tenPow a.scale))

/-- The greatest integer that is at most the value. -/
def floor (d : Decimal) : Int := d.coefficient.fdiv (tenPow d.scale)

/-! ## Trailing zeros -/

/-- Mantissa and scale after the trailing zeros behind the point are dropped. -/
def dropZeros (mantissa : Nat) : Nat → Nat × Nat
  | 0 => (mantissa, 0)
  | scale + 1 =>
    if mantissa % 10 = 0 then dropZeros (mantissa / 10) scale else (mantissa, scale + 1)

theorem dropZeros_fst_le (mantissa scale : Nat) : (dropZeros mantissa scale).1 ≤ mantissa := by
  fun_induction dropZeros mantissa scale with
  | case1 => exact Nat.le_refl _
  | case2 m s _ ih => exact Nat.le_trans ih (Nat.div_le_self m 10)
  | case3 => exact Nat.le_refl _

theorem dropZeros_snd_le (mantissa scale : Nat) : (dropZeros mantissa scale).2 ≤ scale := by
  fun_induction dropZeros mantissa scale with
  | case1 => exact Nat.le_refl _
  | case2 m s _ ih => exact Nat.le_succ_of_le ih
  | case3 => exact Nat.le_refl _

/-- The decimal of the same value in its shortest form: no trailing zeros behind the point, and
`0` for every zero. -/
def canonical (d : Decimal) : Decimal :=
  if d.isZero then 0
  else
    { negative := d.negative
      mantissa := (dropZeros d.mantissa d.scale).1
      scale := (dropZeros d.mantissa d.scale).2
      mantissa_lt := Nat.lt_of_le_of_lt (dropZeros_fst_le _ _) d.mantissa_lt
      scale_le := Nat.le_trans (dropZeros_snd_le _ _) d.scale_le }

end Decimal

end Listwise
