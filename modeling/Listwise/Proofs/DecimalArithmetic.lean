import Listwise.Decimal.Arithmetic
import Listwise.Proofs.DecimalValue

/-!
# Arithmetic by value

Sums and products branch on mantissas and scales, on zeros and on overflow; still their values depend on the values of
the operands only.  Both come down to `nearest?`, which looks for the finest scale that fits.

* `nearestFrom?_congr`: from one scale on downwards, the search depends on the quotient only.
* `nearest?_congr`: of two scales of one value, the finer one gives the search more to try, but what it finds there
  is exact.
* `add?_congr`, `sub?_congr`, `mul?_congr`.
-/

namespace Listwise

/-! ## Rounding to a natural number -/

section HalfEven

theorem halfEven_mul_right (n d : Nat) {c : Nat} (hc : 0 < c) : halfEven (n * c) (d * c) = halfEven n d := by
  have hquotient : n * c / (d * c) = n / d := Nat.mul_div_mul_right n d hc
  have hremainder : n * c % (d * c) = n % d * c := Nat.mul_mod_mul_right c n d
  have htwice : 2 * (n % d * c) = 2 * (n % d) * c := (Nat.mul_assoc _ _ _).symm
  have hlt : d * c < 2 * (n % d) * c ↔ d < 2 * (n % d) := Nat.mul_lt_mul_right hc
  have heq : 2 * (n % d) * c = d * c ↔ 2 * (n % d) = d := Nat.mul_left_inj hc.ne'
  simp only [halfEven, hquotient, hremainder, htwice, hlt, heq]

/-- Rounding depends on the quotient only. -/
theorem halfEven_congr {n d n' d' : Nat} (hd : 0 < d) (hd' : 0 < d') (h : n * d' = n' * d) :
    halfEven n d = halfEven n' d' := by
  calc halfEven n d = halfEven (n * d') (d * d') := (halfEven_mul_right n d hd').symm
    _ = halfEven (n' * d) (d' * d) := by rw [h, Nat.mul_comm d d']
    _ = halfEven n' d' := halfEven_mul_right n' d' hd

theorem halfEven_one (n : Nat) : halfEven n 1 = n := by
  simp [halfEven, Nat.mod_one]

theorem halfEven_eq_zero {n d : Nat} (h : 2 * n < d) : halfEven n d = 0 := by
  have hlt : n < d := by omega
  rw [halfEven, Nat.div_eq_of_lt hlt, Nat.mod_eq_of_lt hlt, if_neg (by omega)]

end HalfEven

namespace Decimal

/-- Two results of one value, or none both. -/
abbrev Agree : Option Decimal → Option Decimal → Prop := Option.Rel (· ≈ ·)

namespace Agree

variable {x y z : Option Decimal}

theorem refl (x : Option Decimal) : Agree x x := by
  cases x with
  | none => exact .none
  | some d => exact .some (equiv_refl d)

theorem symm (h : Agree x y) : Agree y x := by
  cases h with
  | none => exact .none
  | some h => exact .some (equiv_symm h)

theorem trans (h : Agree x y) (h' : Agree y z) : Agree x z := by
  cases h with
  | none => exact h'
  | some h =>
    cases h' with
    | some h' => exact .some (equiv_trans h h')

theorem of_eq (h : x = y) : Agree x y := h ▸ refl x

/-- What keeps the value of a result keeps the result. -/
theorem map {f : Decimal → Decimal} (hf : ∀ d, f d ≈ d) (x : Option Decimal) : Agree (x.map f) x := by
  cases x with
  | none => exact .none
  | some d => exact .some (hf d)

end Agree

/-! ## Rounding to a decimal -/

section Nearest

variable {negative : Bool} {n d s n' d' s' : Nat}

theorem ofParts?_of_fits (hn : n < capacity) (hs : s ≤ maxScale) :
    ofParts? negative n s = some ⟨negative, n, s, hn, hs⟩ := by
  rw [ofParts?, dif_pos ⟨hn, hs⟩]

theorem ofParts?_of_not_fits (hn : ¬ n < capacity) : ofParts? negative n s = none := by
  rw [ofParts?, dif_neg fun h => hn h.1]

/-- From a scale `t` that both share on downwards, the search sees the quotient only. -/
theorem nearestFrom?_congr {t : Nat} (hd : 0 < d) (hd' : 0 < d') (ht : t ≤ s) (ht' : t ≤ s')
    (h : n * (d' * tenPow s') = n' * (d * tenPow s)) :
    nearestFrom? negative n d s t = nearestFrom? negative n' d' s' t := by
  have hround : ∀ u, u ≤ t → halfEven n (d * tenPow (s - u)) = halfEven n' (d' * tenPow (s' - u)) := by
    intro u hu
    have hs : tenPow s = tenPow (s - u) * tenPow u := by rw [← tenPow_add, Nat.sub_add_cancel (by omega)]
    have hs' : tenPow s' = tenPow (s' - u) * tenPow u := by rw [← tenPow_add, Nat.sub_add_cancel (by omega)]
    have hcross : n * (d' * tenPow (s' - u)) = n' * (d * tenPow (s - u)) := by
      apply Nat.eq_of_mul_eq_mul_right (tenPow_pos u)
      rw [hs, hs'] at h
      simp only [Nat.mul_assoc] at h ⊢
      exact h
    exact halfEven_congr (Nat.mul_pos hd (tenPow_pos _)) (Nat.mul_pos hd' (tenPow_pos _)) hcross
  induction t with
  | zero =>
    have hlast := hround 0 (Nat.le_refl 0)
    rw [Nat.sub_zero, Nat.sub_zero] at hlast
    rw [nearestFrom?, nearestFrom?, hlast]
  | succ t ih =>
    have hrest := ih (by omega) (by omega) fun u hu => hround u (by omega)
    rw [nearestFrom?, nearestFrom?, hround (t + 1) (Nat.le_refl _), hrest]

/-- The search begins at its scale and ends there if the number fits as it is. -/
theorem nearest?_of_fits (hn : n < capacity) (hs : s ≤ maxScale) :
    nearest? negative n 1 s = some ⟨negative, n, s, hn, hs⟩ := by
  have hround : halfEven n (1 * tenPow (s - s)) = n := by
    rw [Nat.sub_self]
    exact halfEven_one n
  rw [nearest?, Nat.min_eq_left hs]
  cases s with
  | zero => rw [nearestFrom?, hround, ofParts?_of_fits hn hs]
  | succ t => rw [nearestFrom?, hround, ofParts?_of_fits hn hs]

theorem nearest?_integer (negative : Bool) (n : Nat) : nearest? negative n 1 0 = ofParts? negative n 0 := by
  rw [nearest?, Nat.zero_min, nearestFrom?, show 1 * tenPow 0 = 1 from rfl, halfEven_one]

/-- A zero behind the number does not change what is found. -/
theorem nearest?_pad (negative : Bool) (n s : Nat) :
    Agree (nearest? negative (n * 10) 1 (s + 1)) (nearest? negative n 1 s) := by
  have hten : tenPow (s + 1) = tenPow s * 10 := rfl
  have hcross : n * 10 * (1 * tenPow s) = n * (1 * tenPow (s + 1)) := by
    rw [hten]
    ring
  have hbelow : ∀ t ≤ s, nearestFrom? negative (n * 10) 1 (s + 1) t = nearestFrom? negative n 1 s t :=
    fun t ht => nearestFrom?_congr Nat.one_pos Nat.one_pos (by omega) ht hcross
  by_cases hs : s < maxScale
  · by_cases hn : n * 10 < capacity
    · -- the finer scale fits: both are exact
      rw [nearest?_of_fits hn hs, nearest?_of_fits (by omega) hs.le]
      exact .some (equiv_of_parts rfl (by rw [hten]; ring))
    · have hround : halfEven (n * 10) (1 * tenPow (s + 1 - (s + 1))) = n * 10 := by
        rw [Nat.sub_self]
        exact halfEven_one _
      apply Agree.of_eq
      rw [nearest?, nearest?, Nat.min_eq_left hs, Nat.min_eq_left hs.le, nearestFrom?, hround,
        ofParts?_of_not_fits hn, hbelow s (Nat.le_refl s)]
  · apply Agree.of_eq
    rw [nearest?, nearest?, Nat.min_eq_right (by omega), Nat.min_eq_right (by omega), hbelow _ (by omega)]

theorem nearest?_pad_many (negative : Bool) (n s k : Nat) :
    Agree (nearest? negative (n * tenPow k) 1 (s + k)) (nearest? negative n 1 s) := by
  induction k with
  | zero => exact Agree.of_eq (by rw [show tenPow 0 = 1 from rfl, Nat.mul_one, Nat.add_zero])
  | succ k ih =>
    have hten : n * tenPow (k + 1) = n * tenPow k * 10 := (Nat.mul_assoc n (tenPow k) 10).symm
    rw [hten, ← Nat.add_assoc]
    exact (nearest?_pad negative _ _).trans ih

/-- **What is found depends on the value only**, not on the scale it is given at. -/
theorem nearest?_congr (h : n * tenPow s' = n' * tenPow s) :
    Agree (nearest? negative n 1 s) (nearest? negative n' 1 s') := by
  wlog hle : s ≤ s' generalizing n s n' s'
  · exact (this h.symm (by omega)).symm
  have hsplit : s' = s + (s' - s) := by omega
  have hpad : n' = n * tenPow (s' - s) := by
    rw [hsplit, tenPow_add, Nat.mul_comm (tenPow s), ← Nat.mul_assoc] at h
    exact (Nat.eq_of_mul_eq_mul_right (tenPow_pos s) h).symm
  rw [hpad, hsplit, Nat.add_sub_cancel_left]
  exact (nearest?_pad_many negative n s _).symm

/-- A quotient that is rounded depends on its value only. -/
theorem nearest?_quotient (hd : 0 < d) (hd' : 0 < d') (h : n * d' = n' * d) :
    nearest? negative n d s = nearest? negative n' d' s := by
  apply nearestFrom?_congr hd hd' (Nat.min_le_left _ _) (Nat.min_le_left _ _)
  rw [← Nat.mul_assoc, h, Nat.mul_assoc]

/-- Less than half a unit of the finest scale is rounded to zero. -/
theorem nearest?_of_small (negative : Bool) (h : 2 * n < tenPow (s - maxScale)) :
    ∃ x, nearest? negative n 1 s = some x ∧ x.isZero = true := by
  have hround : halfEven n (1 * tenPow (s - min s maxScale)) = 0 := by
    have hplaces : s - min s maxScale = s - maxScale := by omega
    rw [hplaces, Nat.one_mul, halfEven_eq_zero h]
  have hfits : 0 < capacity := by decide
  have hmin : min s maxScale ≤ maxScale := Nat.min_le_right _ _
  rw [nearest?]
  cases hm : min s maxScale with
  | zero =>
    rw [hm, Nat.sub_zero] at hround
    exact ⟨_, by rw [nearestFrom?, hround, ofParts?_of_fits hfits (Nat.zero_le _)], rfl⟩
  | succ t =>
    rw [hm] at hround hmin
    exact ⟨_, by rw [nearestFrom?, hround, ofParts?_of_fits hfits hmin], rfl⟩

end Nearest

/-! ## Sums -/

section Sum

variable {a b a' b' : Decimal}

/-- The sum of the coefficients at the larger of the two scales. -/
def sumCoefficient (a b : Decimal) : Int :=
  a.coefficient * tenPow (max a.scale b.scale - a.scale) + b.coefficient * tenPow (max a.scale b.scale - b.scale)

theorem coefficient_align (d : Decimal) {s : Nat} (hs : d.scale ≤ s) :
    ((d.coefficient * tenPow (s - d.scale) : Int) : ℚ) / tenPow s = d.toRat := by
  have hsplit : tenPow s = tenPow (s - d.scale) * tenPow d.scale := by rw [← tenPow_add, Nat.sub_add_cancel hs]
  have hne := cast_tenPow_ne_zero (s - d.scale)
  rw [toRat, hsplit]
  push_cast
  rw [mul_comm (d.coefficient : ℚ), mul_div_mul_left _ _ hne]

theorem sumCoefficient_div (a b : Decimal) :
    (sumCoefficient a b : ℚ) / tenPow (max a.scale b.scale) = a.toRat + b.toRat := by
  rw [sumCoefficient, Int.cast_add, add_div, coefficient_align a (le_max_left _ _),
    coefficient_align b (le_max_right _ _)]

theorem sumCoefficient_neg_iff (a b : Decimal) : sumCoefficient a b < 0 ↔ a.toRat + b.toRat < 0 := by
  rw [← sumCoefficient_div, div_lt_iff₀ (cast_tenPow_pos _), zero_mul, Int.cast_lt_zero]

theorem add?_of_nonzero (ha : ¬ a.isZero = true) (hb : ¬ b.isZero = true) :
    a.add? b = nearest? (sumCoefficient a b < 0) (sumCoefficient a b).natAbs 1 (max a.scale b.scale) := by
  rw [add?, if_neg ha, if_neg hb]
  rfl

theorem sumCoefficient_congr (ha : a ≈ a') (hb : b ≈ b') :
    sumCoefficient a b * tenPow (max a'.scale b'.scale) = sumCoefficient a' b' * tenPow (max a.scale b.scale) := by
  have hvalue : (sumCoefficient a b : ℚ) / tenPow (max a.scale b.scale) =
      sumCoefficient a' b' / tenPow (max a'.scale b'.scale) := by
    rw [sumCoefficient_div, sumCoefficient_div, equiv_iff.mp ha, equiv_iff.mp hb]
  rw [div_eq_div_iff (cast_tenPow_ne_zero _) (cast_tenPow_ne_zero _)] at hvalue
  exact_mod_cast hvalue

/-- **Sums depend on values only.**  A zero operand gives the other one with its own scale, which has its value. -/
theorem add?_congr (ha : a ≈ a') (hb : b ≈ b') : Agree (a.add? b) (a'.add? b') := by
  have hza := isZero_congr ha
  have hzb := isZero_congr hb
  by_cases hz : a.isZero = true
  · rw [add?, add?, if_pos hz, if_pos (hza ▸ hz)]
    exact .some hb
  · by_cases hw : b.isZero = true
    · rw [add?, add?, if_neg hz, if_pos hw, if_neg (hza ▸ hz), if_pos (hzb ▸ hw)]
      exact .some ha
    · have hcross := sumCoefficient_congr ha hb
      have hsign : (sumCoefficient a b < 0) = (sumCoefficient a' b' < 0) := by
        rw [sumCoefficient_neg_iff, sumCoefficient_neg_iff, equiv_iff.mp ha, equiv_iff.mp hb]
      have hsize : (sumCoefficient a b).natAbs * tenPow (max a'.scale b'.scale) =
          (sumCoefficient a' b').natAbs * tenPow (max a.scale b.scale) := by
        have h := congrArg Int.natAbs hcross
        rwa [Int.natAbs_mul, Int.natAbs_mul, Int.natAbs_natCast, Int.natAbs_natCast] at h
      rw [add?_of_nonzero hz hw, add?_of_nonzero (hza ▸ hz) (hzb ▸ hw)]
      simp only [hsign]
      exact nearest?_congr hsize

/-- A difference is the sum with the negated operand, but for the sign of a zero. -/
theorem sub?_agree (a b : Decimal) : Agree (a.sub? b) (a.add? (-b)) := by
  unfold sub?
  split
  · next h =>
    obtain ⟨ha, hb⟩ := Bool.and_eq_true_iff.mp h
    rw [add?, if_pos ha]
    exact .some (equiv_of_isZero hb hb)
  · exact .refl _

theorem sub?_congr (ha : a ≈ a') (hb : b ≈ b') : Agree (a.sub? b) (a'.sub? b') :=
  ((sub?_agree a b).trans (add?_congr ha (neg_congr hb))).trans (sub?_agree a' b').symm

end Sum

/-! ## Products -/

section Product

variable {a b a' b' : Decimal}

theorem mul?_of_zero (h : a.isZero = true ∨ b.isZero = true) : a.mul? b = some 0 := by
  rw [mul?, if_pos (Bool.or_eq_true_iff.mpr h)]

/-- The product of the mantissas, rounded at the sum of the scales. -/
def roundedProduct (a b : Decimal) : Option Decimal :=
  nearest? (a.negative != b.negative) (a.mantissa * b.mantissa) 1 (a.scale + b.scale)

/-- A product is found by rounding, but for the sign and the scale of a zero. -/
theorem mul?_agree (a b : Decimal) : Agree (a.mul? b) (a.roundedProduct b) := by
  have hsmall (h : 2 * (a.mantissa * b.mantissa) < tenPow (a.scale + b.scale - maxScale)) :
      Agree (some 0) (a.roundedProduct b) := by
    obtain ⟨x, hx, hx0⟩ := nearest?_of_small (a.negative != b.negative) h
    rw [roundedProduct, hx]
    exact .some (equiv_of_isZero rfl hx0)
  unfold mul?
  split_ifs with hzero htiny
  · have hproduct : a.mantissa * b.mantissa = 0 := by
      rw [Nat.mul_eq_zero, ← isZero_iff_mantissa, ← isZero_iff_mantissa]
      exact Bool.or_eq_true_iff.mp hzero
    rw [hproduct] at hsmall
    exact hsmall (tenPow_pos _)
  · obtain ⟨ha, hb, hscale⟩ := htiny
    -- the product has 64 bits, and twenty places or more go
    have hproduct : a.mantissa * b.mantissa < 4294967296 * 4294967296 := Nat.mul_lt_mul'' ha hb
    have hplaces : tenPow 20 ≤ tenPow (a.scale + b.scale - maxScale) :=
      Nat.pow_le_pow_right (by decide) (Nat.le_sub_of_add_le hscale)
    have htwenty : tenPow 20 = 100000000000000000000 := by decide
    exact hsmall (by omega)
  · exact .refl _

/-- **Products depend on values only.** -/
theorem mul?_congr (ha : a ≈ a') (hb : b ≈ b') : Agree (a.mul? b) (a'.mul? b') := by
  by_cases hz : a.isZero = true ∨ b.isZero = true
  · have hz' : a'.isZero = true ∨ b'.isZero = true := by rwa [← isZero_congr ha, ← isZero_congr hb]
    rw [mul?_of_zero hz, mul?_of_zero hz']
    exact .refl _
  · obtain ⟨hz, hw⟩ := not_or.mp hz
    have hma := mantissa_congr ha
    have hmb := mantissa_congr hb
    refine ((mul?_agree a b).trans ?_).trans (mul?_agree a' b').symm
    rw [roundedProduct, roundedProduct, negative_congr ha hz, negative_congr hb hw]
    apply nearest?_congr
    calc a.mantissa * b.mantissa * tenPow (a'.scale + b'.scale)
        = a.mantissa * tenPow a'.scale * (b.mantissa * tenPow b'.scale) := by rw [tenPow_add]; ring
      _ = a'.mantissa * tenPow a.scale * (b'.mantissa * tenPow b.scale) := by rw [hma, hmb]
      _ = a'.mantissa * b'.mantissa * tenPow (a.scale + b.scale) := by rw [tenPow_add]; ring

end Product

end Decimal

end Listwise
