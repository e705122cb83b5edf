import Listwise.Expr.Eval
import Listwise.Proofs.LongDivision

/-!
# Quotients

A quotient is off by at most half a unit of its last digit, and not at all if it is a decimal.  It fails for a divisor of
zero, and otherwise only if it is too large, which it cannot be if the divisor is one or more.

* `abs_halfEven_sub_le`: rounding to a natural number is off by at most one half.
* `abs_div?_sub_le`: a quotient is off by at most half a unit of its last digit.
* `exists_div?`: a divisor of one or more gives a quotient.
* `div?_exact`: a quotient that is a decimal is found as it is.
* `division_fails_only_when_it_must`: the three together, of expressions.
-/

namespace Listwise

open Decimal (capacity maxScale toRat)

/-! ## Rounding -/

/-- Rounding is off by at most one half. -/
theorem abs_halfEven_sub_le (n : Nat) {d : Nat} (hd : 0 < d) : |(halfEven n d : ℚ) - n / d| ≤ 1 / 2 := by
  have hsplit := Nat.div_add_mod' n d
  have hrest := Nat.mod_lt n hd
  have hbounds : 2 * n ≤ 2 * (halfEven n d * d) + d ∧ 2 * (halfEven n d * d) ≤ 2 * n + d := by
    unfold halfEven
    dsimp only
    split
    case isTrue hup =>
      rw [Nat.add_mul (n / d) 1 d, Nat.one_mul]
      omega
    case isFalse hdown => omega
  have hpos : (0 : ℚ) < d := by exact_mod_cast hd
  have hlow : (2 * n : ℚ) ≤ 2 * (halfEven n d * d) + d := by exact_mod_cast hbounds.1
  have hhigh : (2 * (halfEven n d * d) : ℚ) ≤ 2 * n + d := by exact_mod_cast hbounds.2
  have hquotient : (n : ℚ) / d * d = n := div_mul_cancel₀ _ hpos.ne'
  rw [abs_le]
  constructor
  · nlinarith
  · nlinarith

namespace Decimal

variable {a b c v : Decimal}

theorem dropBlock_scale_le (width : Nat) (d : Decimal) : (dropBlock width d).scale ≤ d.scale := by
  unfold dropBlock
  split
  · exact Nat.sub_le _ _
  · exact Nat.le_refl _

theorem dropOctet_scale_le (d : Decimal) : (dropOctet d).scale ≤ d.scale := by
  unfold dropOctet
  split
  · exact dropBlock_scale_le 8 d
  · exact Nat.le_refl _

theorem shorten_scale_le (d : Decimal) : (shorten d).scale ≤ d.scale :=
  (dropBlock_scale_le 1 _).trans <| (dropBlock_scale_le 2 _).trans <| (dropBlock_scale_le 4 _).trans <|
    (dropOctet_scale_le _).trans <| (dropOctet_scale_le _).trans (dropOctet_scale_le d)

/-! ## The size of a quotient -/

/-- The quotient at the last scale, as a fraction of natural numbers. -/
theorem abs_toRat_div (a b : Decimal) :
    |a.toRat / b.toRat| =
      ((a.mantissa * tenPow (quotientPlaces a b) : ℕ) : ℚ) / ((b.mantissa * tenPow maxScale : ℕ) : ℚ) := by
  have hplaces : (tenPow (quotientPlaces a b) * tenPow a.scale : ℚ) = tenPow maxScale * tenPow b.scale := by
    exact_mod_cast tenPow_quotientPlaces a b
  have ha := cast_tenPow_ne_zero a.scale
  have hb := cast_tenPow_ne_zero b.scale
  have hm := cast_tenPow_ne_zero maxScale
  rw [abs_div, abs_toRat, abs_toRat]
  push_cast
  by_cases hz : (b.mantissa : ℚ) = 0
  · simp [hz]
  · rw [div_div_div_eq, div_eq_div_iff (mul_ne_zero ha hz) (mul_ne_zero hz hm)]
    calc (a.mantissa * tenPow b.scale * (b.mantissa * tenPow maxScale) : ℚ)
        = a.mantissa * (tenPow maxScale * tenPow b.scale) * b.mantissa := by ring
      _ = a.mantissa * tenPow (quotientPlaces a b) * (tenPow a.scale * b.mantissa) := by rw [← hplaces]; ring

theorem toRat_nonneg (h : a.negative = false) : 0 ≤ a.toRat := by
  rw [← not_lt, toRat_neg_iff, h]
  simp

theorem toRat_nonpos (h : a.negative = true) : a.toRat ≤ 0 := by
  by_cases hz : a.mantissa = 0
  · exact ((toRat_eq_zero_iff a).mpr hz).le
  · exact ((toRat_neg_iff a).mpr ⟨h, hz⟩).le

theorem toRat_div_nonneg (h : (a.negative != b.negative) = false) : 0 ≤ a.toRat / b.toRat := by
  cases ha : a.negative <;> cases hb : b.negative <;> simp only [ha, hb] at h
  · exact div_nonneg (toRat_nonneg ha) (toRat_nonneg hb)
  · cases h
  · cases h
  · exact div_nonneg_of_nonpos (toRat_nonpos ha) (toRat_nonpos hb)

theorem toRat_div_nonpos (h : (a.negative != b.negative) = true) : a.toRat / b.toRat ≤ 0 := by
  cases ha : a.negative <;> cases hb : b.negative <;> simp only [ha, hb] at h
  · cases h
  · exact div_nonpos_of_nonneg_of_nonpos (toRat_nonneg ha) (toRat_nonpos hb)
  · exact div_nonpos_of_nonpos_of_nonneg (toRat_nonpos ha) (toRat_nonneg hb)
  · cases h

/-- A decimal with the sign of the quotient is as far from it as their sizes. -/
theorem abs_sub_toRat_div (h : v.negative = (a.negative != b.negative)) :
    |v.toRat - a.toRat / b.toRat| = |(v.mantissa / tenPow v.scale : ℚ) -
      (a.mantissa * tenPow (quotientPlaces a b) : ℕ) / (b.mantissa * tenPow maxScale : ℕ)| := by
  rw [← abs_toRat_div, ← abs_toRat]
  cases hv : v.negative with
  | false => rw [abs_of_nonneg (toRat_nonneg hv), abs_of_nonneg (toRat_div_nonneg (h ▸ hv))]
  | true => rw [abs_of_nonpos (toRat_nonpos hv), abs_of_nonpos (toRat_div_nonpos (h ▸ hv)), neg_sub_neg, abs_sub_comm]

theorem negative_of_toRat_eq_div (hc : c.toRat = a.toRat / b.toRat) (hne : c.toRat ≠ 0) :
    c.negative = (a.negative != b.negative) := by
  cases hsign : a.negative != b.negative with
  | false =>
    by_contra hnegative
    exact hne (le_antisymm (toRat_nonpos (by simpa using hnegative)) (hc ▸ toRat_div_nonneg hsign))
  | true =>
    by_contra hnegative
    exact hne (le_antisymm (hc ▸ toRat_div_nonpos hsign) (toRat_nonneg (by simpa using hnegative)))

/-- Zeros at its end apart, a quotient is rounded at its own scale. -/
theorem div?_eq_some (ha : ¬ a.isZero = true) (hb : ¬ b.isZero = true) (h : a.div? b = some v) :
    ∃ w, w ≈ v ∧ v.scale ≤ w.scale ∧ w.negative = (a.negative != b.negative) ∧
      w.mantissa = halfEven (a.mantissa * tenPow (quotientPlaces a b)) (b.mantissa * tenPow (maxScale - w.scale)) := by
  rcases div?_eq ha hb with hlong | hlong
  · rw [hlong] at h
    obtain ⟨hnegative, hmantissa⟩ := LongDivision.run?_eq_some (divides_start a hb) (digits_start_lt a b) h
    exact ⟨v, equiv_refl v, Nat.le_refl _, hnegative, hmantissa⟩
  · rw [hlong, Option.map_eq_some_iff] at h
    obtain ⟨w, hw, rfl⟩ := h
    obtain ⟨hnegative, hmantissa⟩ := LongDivision.run?_eq_some (divides_start a hb) (digits_start_lt a b) hw
    exact ⟨w, equiv_symm (shorten_equiv w), shorten_scale_le w, hnegative, hmantissa⟩

/-- **A quotient is off by at most half a unit of its last digit.** -/
theorem abs_div?_sub_le (hb : ¬ b.isZero = true) (h : a.div? b = some v) :
    |v.toRat - a.toRat / b.toRat| ≤ 1 / 2 / 10 ^ v.scale := by
  by_cases ha : a.isZero = true
  · rw [div?, if_neg hb, if_pos ha] at h
    cases h
    have hzero : (0 : Decimal).toRat = 0 := (isZero_iff 0).mp rfl
    rw [(isZero_iff a).mp ha, hzero, zero_div, sub_zero, abs_zero]
    positivity
  · obtain ⟨w, hvalue, hscale, hnegative, hmantissa⟩ := div?_eq_some ha hb h
    have hsplit : tenPow maxScale = tenPow (maxScale - w.scale) * tenPow w.scale := by
      rw [← tenPow_add, Nat.sub_add_cancel w.scale_le]
    have hround := abs_halfEven_sub_le (a.mantissa * tenPow (quotientPlaces a b))
      (Nat.mul_pos (mantissa_pos hb) (tenPow_pos (maxScale - w.scale)))
    rw [← hmantissa] at hround
    have hw := cast_tenPow_pos w.scale
    calc |v.toRat - a.toRat / b.toRat|
        = |(w.mantissa / tenPow w.scale : ℚ) -
            (a.mantissa * tenPow (quotientPlaces a b) : ℕ) / (b.mantissa * tenPow maxScale : ℕ)| := by
          rw [← equiv_iff.mp hvalue, abs_sub_toRat_div hnegative]
      _ = |(w.mantissa : ℚ) - (a.mantissa * tenPow (quotientPlaces a b) : ℕ) /
            (b.mantissa * tenPow (maxScale - w.scale) : ℕ)| / tenPow w.scale := by
          rw [hsplit, ← Nat.mul_assoc, Nat.cast_mul (b.mantissa * _), ← div_div, ← sub_div, abs_div, abs_of_pos hw]
      _ ≤ 1 / 2 / tenPow w.scale := by gcongr
      _ ≤ 1 / 2 / 10 ^ v.scale := by
          rw [cast_tenPow]
          gcongr
          norm_num

/-- **A divisor of one or more gives a quotient.** -/
theorem exists_div? (a : Decimal) (h : 1 ≤ |b.toRat|) : ∃ v, a.div? b = some v := by
  have hsize : tenPow b.scale ≤ b.mantissa := by
    rw [abs_toRat, one_le_div (cast_tenPow_pos _)] at h
    exact_mod_cast h
  have hb : ¬ b.isZero = true := by
    rw [isZero_iff_mantissa]
    have := tenPow_pos b.scale
    omega
  by_cases ha : a.isZero = true
  · exact ⟨0, by rw [div?, if_neg hb, if_pos ha]⟩
  · have hle : a.mantissa * tenPow (quotientPlaces a b) ≤ (capacity - 1) * (b.mantissa * tenPow maxScale) := by
      calc a.mantissa * tenPow (quotientPlaces a b)
          ≤ a.mantissa * tenPow (quotientPlaces a b) * tenPow a.scale := Nat.le_mul_of_pos_right _ (tenPow_pos _)
        _ = a.mantissa * tenPow maxScale * tenPow b.scale := by
          rw [Nat.mul_assoc, tenPow_quotientPlaces, Nat.mul_assoc]
        _ ≤ (capacity - 1) * tenPow maxScale * b.mantissa := by
          gcongr
          exact Nat.le_sub_one_of_lt a.mantissa_lt
        _ = (capacity - 1) * (b.mantissa * tenPow maxScale) := by ring
    obtain ⟨x, hx⟩ := exists_nearest? (mantissa_pos hb) (by decide : capacity - 1 < capacity) hle
    have hagree := div?_agree_nearest? ha hb
    rw [nearestQuotient?, hx] at hagree
    generalize a.div? b = v at hagree
    cases hagree with
    | some _ => exact ⟨_, rfl⟩

/-- **A quotient that is a decimal is not rounded.** -/
theorem div?_exact (hb : ¬ b.isZero = true) (hc : c.toRat = a.toRat / b.toRat) : ∃ v, a.div? b = some v ∧ v ≈ c := by
  by_cases ha : a.isZero = true
  · refine ⟨0, by rw [div?, if_neg hb, if_pos ha], equiv_of_isZero rfl ?_⟩
    rw [isZero_iff, hc, (isZero_iff a).mp ha, zero_div]
  · have hne : c.toRat ≠ 0 := by
      rw [isZero_iff] at ha hb
      rw [hc]
      exact div_ne_zero ha hb
    have htotal : c.mantissa * (b.mantissa * tenPow (maxScale - c.scale)) =
        a.mantissa * tenPow (quotientPlaces a b) := by
      have hsize : (c.mantissa / tenPow c.scale : ℚ) =
          (a.mantissa * tenPow (quotientPlaces a b) : ℕ) / (b.mantissa * tenPow maxScale : ℕ) := by
        rw [← abs_toRat, hc, abs_toRat_div]
      have hden : ((b.mantissa * tenPow maxScale : ℕ) : ℚ) ≠ 0 := by
        exact_mod_cast (Nat.mul_pos (mantissa_pos hb) (tenPow_pos maxScale)).ne'
      rw [div_eq_div_iff (cast_tenPow_ne_zero _) hden] at hsize
      have hsplit : tenPow maxScale = tenPow (maxScale - c.scale) * tenPow c.scale := by
        rw [← tenPow_add, Nat.sub_add_cancel c.scale_le]
      apply Nat.eq_of_mul_eq_mul_right (tenPow_pos c.scale)
      rw [Nat.mul_assoc, Nat.mul_assoc, ← hsplit]
      exact_mod_cast hsize
    have hexact := agree_nearest?_of_exact (mantissa_pos hb) htotal
    rw [negative_of_toRat_eq_div hc hne] at hexact
    have hagree := (div?_agree_nearest? ha hb).trans hexact.symm
    generalize a.div? b = v at hagree
    cases hagree with
    | some hv => exact ⟨_, rfl, hv⟩

end Decimal

/-! ## Division in expressions -/

section Expressions

variable {σ : Assignment} {l r : Expr Decimal} {a b : Decimal}

/-- **Division fails only when it must.**  Of operands that have values, a quotient is a division by zero exactly if the
divisor is zero, whatever its sign and scale.  If the divisor is one or more in size, there is a quotient; it is off by at
most half a unit of its last digit, and exact if the quotient is a decimal at all. -/
theorem division_fails_only_when_it_must (hl : l.eval σ = .ok a) (hr : r.eval σ = .ok b) (n : Nat) :
    ((∃ text line, (Expr.binary .div l r n).eval σ = .error ⟨.arithmetic .divisionByZero text, line⟩) ↔ b.toRat = 0) ∧
      (1 ≤ |b.toRat| →
        ∃ v, (Expr.binary .div l r n).eval σ = .ok v ∧ |v.toRat - a.toRat / b.toRat| ≤ 1 / 2 / 10 ^ v.scale ∧
          ((∃ c : Decimal, c.toRat = a.toRat / b.toRat) → v.toRat = a.toRat / b.toRat)) := by
  rw [Expr.eval_binary hl hr, Op.apply, ← Decimal.isZero_iff]
  constructor
  · by_cases hb : b.isZero = true
    · rw [if_pos hb]
      exact ⟨fun _ => hb, fun _ => ⟨_, _, rfl⟩⟩
    · rw [if_neg hb]
      refine ⟨?_, fun h => absurd h hb⟩
      -- without a zero divisor, the only fault is an overflow
      rintro ⟨text, line, h⟩
      cases hv : a.div? b <;> rw [hv] at h <;> cases h
  · intro hsize
    obtain ⟨v, hv⟩ := Decimal.exists_div? a hsize
    have hb : ¬ b.isZero = true := by
      rw [Decimal.isZero_iff]
      intro hzero
      rw [hzero, abs_zero] at hsize
      norm_num at hsize
    refine ⟨v, ?_, Decimal.abs_div?_sub_le hb hv, ?_⟩
    · rw [if_neg hb, hv]
      rfl
    · rintro ⟨c, hc⟩
      obtain ⟨w, hw, hwc⟩ := Decimal.div?_exact hb hc
      obtain rfl : v = w := Option.some.inj (hv.symm.trans hw)
      rw [Decimal.equiv_iff.mp hwc, hc]

/-- `x / 8.0` and `x / -0.00`, where `x` is `1`. -/
theorem division_fails_only_when_it_must_eighth :
    let σ : Assignment := [("x", 1)]
    let x : Expr Decimal := .var "x" 1
    let eight : Decimal := ⟨false, 80, 1, by decide, by decide⟩
    let zero : Decimal := ⟨true, 0, 2, by decide, by decide⟩
    x.eval σ = .ok 1 ∧ 1 ≤ |eight.toRat| ∧
      (∃ v, (Expr.binary .div x (.literal eight 1) 1).eval σ = .ok v ∧ |v.toRat - 1 / 8| ≤ 1 / 2 / 10 ^ v.scale ∧
        v.toRat = 1 / 8) ∧
      ∃ text line, (Expr.binary .div x (.literal zero 1) 1).eval σ = .error ⟨.arithmetic .divisionByZero text, line⟩ := by
  intro σ x eight zero
  have hx : x.eval σ = .ok 1 := by decide +kernel
  have hsize : 1 ≤ |eight.toRat| := by decide +kernel
  have hquotient : (1 : Decimal).toRat / eight.toRat = 1 / 8 := by decide +kernel
  have heighth : toRat ⟨false, 125, 3, by decide, by decide⟩ = (1 : Decimal).toRat / eight.toRat := by decide +kernel
  obtain ⟨v, hv, hnear, hexact⟩ := (division_fails_only_when_it_must (r := .literal eight 1) hx rfl 1).2 hsize
  have hzero := (division_fails_only_when_it_must (r := .literal zero 1) hx rfl 1).1.mpr (by decide +kernel)
  rw [hquotient] at hnear hexact heighth
  exact ⟨hx, hsize, ⟨v, hv, hnear, hexact ⟨_, heighth⟩⟩, hzero⟩

end Expressions

end Listwise
