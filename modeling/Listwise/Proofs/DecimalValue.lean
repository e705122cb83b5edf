import Mathlib.Algebra.Order.Field.Basic
import Mathlib.Algebra.Order.Field.Rat
import Mathlib.Tactic.FieldSimp
import Mathlib.Tactic.Linarith
import Mathlib.Tactic.Ring
import Listwise.Decimal.Basic
import Listwise.Decimal.Text

/-!
# The value of a decimal

`toRat d` is the rational number that a decimal stands for.  The comparisons of decimals are those of their values,
and the shortest form is what two decimals of one value have in common.

* `equiv_iff`, `lt_iff`, `le_iff`: comparison of decimals is comparison of rational numbers.
* `isZero_congr`, `negative_congr`: what else of a decimal its value determines.
* `canonical_eq_iff`: decimals have the same shortest form exactly if they have the same value.
-/

namespace Listwise

theorem tenPow_add (m n : Nat) : tenPow (m + n) = tenPow m * tenPow n := Nat.pow_add 10 m n

theorem tenPow_pos (n : Nat) : 0 < tenPow n := Nat.pow_pos (by decide)

theorem cast_tenPow (n : Nat) : (tenPow n : ℚ) = 10 ^ n := by
  exact_mod_cast (rfl : tenPow n = 10 ^ n)

theorem cast_tenPow_ne_zero (n : Nat) : (tenPow n : ℚ) ≠ 0 := by
  exact_mod_cast (tenPow_pos n).ne'

theorem cast_tenPow_pos (n : Nat) : (0 : ℚ) < tenPow n := by
  exact_mod_cast tenPow_pos n

namespace Decimal

/-- The rational number that a decimal stands for. -/
def toRat (d : Decimal) : ℚ := d.coefficient / tenPow d.scale

section Comparison

variable {a b : Decimal}

theorem equiv_iff : a ≈ b ↔ a.toRat = b.toRat := by
  rw [toRat, toRat, div_eq_div_iff (cast_tenPow_ne_zero _) (cast_tenPow_ne_zero _)]
  exact_mod_cast Iff.rfl

theorem lt_iff : a < b ↔ a.toRat < b.toRat := by
  rw [toRat, toRat, div_lt_div_iff₀ (cast_tenPow_pos _) (cast_tenPow_pos _)]
  exact_mod_cast Iff.rfl

theorem le_iff : a ≤ b ↔ a.toRat ≤ b.toRat := by
  rw [toRat, toRat, div_le_div_iff₀ (cast_tenPow_pos _) (cast_tenPow_pos _)]
  exact_mod_cast Iff.rfl

@[refl] theorem equiv_refl (a : Decimal) : a ≈ a := equiv_iff.mpr rfl

theorem equiv_symm (h : a ≈ b) : b ≈ a := equiv_iff.mpr (equiv_iff.mp h).symm

theorem equiv_trans {c : Decimal} (h : a ≈ b) (h' : b ≈ c) : a ≈ c :=
  equiv_iff.mpr ((equiv_iff.mp h).trans (equiv_iff.mp h'))

end Comparison

/-! ## Sign and size -/

section Parts

variable {a b : Decimal}

theorem natAbs_coefficient (d : Decimal) : d.coefficient.natAbs = d.mantissa := by
  unfold coefficient
  split <;> omega

theorem abs_toRat (d : Decimal) : |d.toRat| = d.mantissa / tenPow d.scale := by
  rw [toRat, abs_div, abs_of_pos (cast_tenPow_pos _), ← natAbs_coefficient, Nat.cast_natAbs, Int.cast_abs]

theorem toRat_eq_zero_iff (d : Decimal) : d.toRat = 0 ↔ d.mantissa = 0 := by
  rw [← abs_eq_zero, abs_toRat, div_eq_zero_iff, or_iff_left (cast_tenPow_ne_zero _), Nat.cast_eq_zero]

theorem toRat_neg_iff (d : Decimal) : d.toRat < 0 ↔ d.negative = true ∧ d.mantissa ≠ 0 := by
  rw [toRat, div_neg_iff]
  have hpos := cast_tenPow_pos d.scale
  have hcoefficient : (d.coefficient : ℚ) < 0 ↔ d.negative = true ∧ d.mantissa ≠ 0 := by
    rw [Int.cast_lt_zero, coefficient]
    cases d.negative <;> simp [Nat.pos_iff_ne_zero]
  rw [hcoefficient]
  constructor
  · rintro (⟨-, h⟩ | ⟨h, -⟩)
    · linarith
    · exact h
  · exact fun h => .inr ⟨h, hpos⟩

theorem isZero_iff_mantissa (d : Decimal) : d.isZero = true ↔ d.mantissa = 0 := by
  rw [isZero, beq_iff_eq]

theorem isZero_iff (d : Decimal) : d.isZero = true ↔ d.toRat = 0 := by
  rw [isZero_iff_mantissa, toRat_eq_zero_iff]

theorem equiv_of_isZero (ha : a.isZero = true) (hb : b.isZero = true) : a ≈ b :=
  equiv_iff.mpr (((isZero_iff a).mp ha).trans ((isZero_iff b).mp hb).symm)

theorem isZero_congr (h : a ≈ b) : a.isZero = b.isZero := by
  rw [Bool.eq_iff_iff, isZero_iff, isZero_iff, equiv_iff.mp h]

/-- The sign of a nonzero decimal is determined by its value. -/
theorem negative_congr (h : a ≈ b) (ha : ¬ a.isZero = true) : a.negative = b.negative := by
  have hb : ¬ b.isZero = true := by rwa [← isZero_congr h]
  rw [isZero_iff_mantissa] at ha hb
  have hneg : a.toRat < 0 ↔ b.toRat < 0 := by rw [equiv_iff.mp h]
  rw [toRat_neg_iff, toRat_neg_iff] at hneg
  rw [Bool.eq_iff_iff]
  simpa [ha, hb] using hneg

/-- The mantissas of decimals of one value differ by the power of ten between their scales. -/
theorem mantissa_congr (h : a ≈ b) : a.mantissa * tenPow b.scale = b.mantissa * tenPow a.scale := by
  have habs : |a.toRat| = |b.toRat| := by rw [equiv_iff.mp h]
  rw [abs_toRat, abs_toRat, div_eq_div_iff (cast_tenPow_ne_zero _) (cast_tenPow_ne_zero _)] at habs
  exact_mod_cast habs

theorem toRat_neg (d : Decimal) : (-d).toRat = -d.toRat := by
  have hcoefficient : (-d).coefficient = -d.coefficient := by
    show (if (!d.negative) = true then -(d.mantissa : Int) else d.mantissa) = -d.coefficient
    unfold coefficient
    cases d.negative <;> simp
  have hscale : (-d).scale = d.scale := rfl
  rw [toRat, toRat, hcoefficient, hscale, Int.cast_neg, neg_div]

theorem neg_congr (h : a ≈ b) : -a ≈ -b := by
  rw [equiv_iff, toRat_neg, toRat_neg, equiv_iff.mp h]

/-- Decimals of one sign have one value if their mantissas fit each other's scales. -/
theorem equiv_of_parts (hsign : a.negative = b.negative)
    (h : a.mantissa * tenPow b.scale = b.mantissa * tenPow a.scale) : a ≈ b := by
  show a.coefficient * tenPow b.scale = b.coefficient * tenPow a.scale
  have h' : (a.mantissa : Int) * tenPow b.scale = b.mantissa * tenPow a.scale := by exact_mod_cast h
  unfold coefficient
  rw [hsign]
  split
  · rw [Int.neg_mul, Int.neg_mul, h']
  · exact h'

end Parts

/-! ## Integers -/

section Integers

/-- A machine integer keeps its value. -/
@[simp] theorem toRat_ofInt64 (n : Int64) : (ofInt64 n).toRat = n.toInt := by
  have hcoefficient : (ofInt64 n).coefficient = n.toInt := by
    simp only [coefficient, ofInt64, decide_eq_true_eq, Int64.lt_iff_toInt_lt, Int64.toInt_zero]
    split <;> omega
  have hscale : (tenPow (ofInt64 n).scale : ℚ) = 1 := Nat.cast_one
  rw [toRat, hcoefficient, hscale, div_one]

end Integers

/-! ## Shortest forms -/

section Canonical

variable {a b : Decimal}

/-- The zeros that are dropped make up the difference of the scales. -/
theorem dropZeros_spec (m s : Nat) : m = (dropZeros m s).1 * tenPow (s - (dropZeros m s).2) := by
  fun_induction dropZeros m s with
  | case1 m => simp [tenPow]
  | case2 m s hm ih =>
    have hle := dropZeros_snd_le (m / 10) s
    have hsub : s + 1 - (dropZeros (m / 10) s).2 = s - (dropZeros (m / 10) s).2 + 1 := by omega
    have hten : tenPow (s - (dropZeros (m / 10) s).2 + 1) = tenPow (s - (dropZeros (m / 10) s).2) * 10 := rfl
    rw [hsub, hten, ← Nat.mul_assoc, ← ih]
    omega
  | case3 m s hm => simp [tenPow]

/-- No zero behind the point is left. -/
theorem dropZeros_last (m s : Nat) : (dropZeros m s).2 = 0 ∨ (dropZeros m s).1 % 10 ≠ 0 := by
  fun_induction dropZeros m s with
  | case1 m => exact .inl rfl
  | case2 m s hm ih => exact ih
  | case3 m s hm => exact .inr hm

theorem canonical_equiv (d : Decimal) : d.canonical ≈ d := by
  by_cases hz : d.isZero = true
  · rw [canonical, if_pos hz]
    exact equiv_of_isZero rfl hz
  · rw [canonical, if_neg hz]
    refine equiv_of_parts rfl ?_
    have hspec := dropZeros_spec d.mantissa d.scale
    have hle := dropZeros_snd_le d.mantissa d.scale
    have hsplit : d.scale = d.scale - (dropZeros d.mantissa d.scale).2 + (dropZeros d.mantissa d.scale).2 := by omega
    calc (dropZeros d.mantissa d.scale).1 * tenPow d.scale
        = (dropZeros d.mantissa d.scale).1 * tenPow (d.scale - (dropZeros d.mantissa d.scale).2) *
            tenPow (dropZeros d.mantissa d.scale).2 := by rw [Nat.mul_assoc, ← tenPow_add, ← hsplit]
      _ = d.mantissa * tenPow (dropZeros d.mantissa d.scale).2 := by rw [← hspec]

/-- Of two numbers without zeros to drop that have one value, neither has the larger scale. -/
theorem scale_le_of_reduced {m s m' s' : Nat} (h : m * tenPow s' = m' * tenPow s)
    (hlast : s = 0 ∨ m % 10 ≠ 0) : s ≤ s' := by
  by_contra hlt
  have hsplit : s = s - s' - 1 + 1 + s' := by omega
  have hten : tenPow (s - s' - 1 + 1) = tenPow (s - s' - 1) * 10 := rfl
  rw [hsplit, tenPow_add, ← Nat.mul_assoc, hten] at h
  have hm : m = m' * (tenPow (s - s' - 1) * 10) := Nat.eq_of_mul_eq_mul_right (tenPow_pos s') h
  rw [← Nat.mul_assoc] at hm
  omega

/-- **The shortest form is determined by the value.** -/
theorem canonical_eq_iff : a.canonical = b.canonical ↔ a ≈ b := by
  constructor
  · intro h
    exact equiv_trans (equiv_symm (canonical_equiv a)) (h ▸ canonical_equiv b)
  · intro h
    have hzero := isZero_congr h
    by_cases hz : a.isZero = true
    · rw [canonical, canonical, if_pos hz, if_pos (hzero ▸ hz)]
    · have hz' : ¬ b.isZero = true := by rwa [← hzero]
      have hvalue := mantissa_congr (equiv_trans (canonical_equiv a) (equiv_trans h (equiv_symm (canonical_equiv b))))
      rw [canonical, canonical, if_neg hz, if_neg hz'] at hvalue ⊢
      have hscale : (dropZeros a.mantissa a.scale).2 = (dropZeros b.mantissa b.scale).2 :=
        Nat.le_antisymm (scale_le_of_reduced hvalue (dropZeros_last _ _))
          (scale_le_of_reduced hvalue.symm (dropZeros_last _ _))
      simp only [hscale] at hvalue
      have hmantissa := Nat.eq_of_mul_eq_mul_right (tenPow_pos _) hvalue
      simp only [hmantissa, hscale, negative_congr h hz]

end Canonical

end Decimal

end Listwise
