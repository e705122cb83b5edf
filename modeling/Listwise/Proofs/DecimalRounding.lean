import Mathlib.Data.Rat.Floor
import Mathlib.Tactic.Zify
import Listwise.Proofs.DecimalArithmetic

/-!
# What rounding keeps

A sum is rounded where its digits find no room.  Rounding leaves alone what is a decimal already, and it never goes past
an integer, since an integer is a number at every scale.

* `le_halfEven`, `halfEven_le`: rounding to a natural number does not go past one.
* `nearest?_eq_some`, `exists_nearest?`: the decimal that is found, and when there is one.
* `add?_exact`: a sum that is a decimal is found as it is.
* `le_of_add?_eq_some`: a sum that is rounded stays above the integers it was above.
* `floor_eq`: the integer part of a decimal.
-/

namespace Listwise

/-! ## Natural numbers -/

section HalfEven

variable {n d q : Nat}

theorem le_halfEven (hd : 0 < d) (h : q * d ≤ n) : q ≤ halfEven n d := by
  have hquotient : q ≤ n / d := (Nat.le_div_iff_mul_le hd).mpr h
  unfold halfEven
  dsimp only
  split <;> omega

theorem halfEven_le (hd : 0 < d) (h : n ≤ q * d) : halfEven n d ≤ q := by
  have hquotient : n / d ≤ q := by
    have := Nat.div_le_div_right (c := d) h
    rwa [Nat.mul_div_cancel q hd] at this
  unfold halfEven
  dsimp only
  split
  case isFalse => exact hquotient
  case isTrue hup =>
    -- a remainder, so the quotient is below `q`
    have hrest : 0 < n % d := by omega
    have hsplit := Nat.div_add_mod n d
    have hlt : d * (n / d) < d * q := by
      rw [Nat.mul_comm d q]
      omega
    exact Nat.lt_of_mul_lt_mul_left hlt

/-- An integer that is rounded with its sign stays above the numbers it was above. -/
theorem le_signed_halfEven {n z : ℤ} {d p : Nat} (hd : 0 < d) (h : z * (p * d : ℕ) ≤ n) :
    z * p ≤ if n < 0 then -(halfEven n.natAbs d : ℤ) else halfEven n.natAbs d := by
  obtain ⟨w, rfl | rfl⟩ := z.eq_nat_or_neg
  · have hn : 0 ≤ n := le_trans (by positivity) h
    have hround : w * p ≤ halfEven n.natAbs d := by
      apply le_halfEven hd
      zify
      rw [abs_of_nonneg hn, mul_assoc]
      exact_mod_cast h
    rw [if_neg (not_lt.mpr hn)]
    exact_mod_cast hround
  · by_cases hn : n < 0
    · -- below zero the size is rounded, and it was at most `w`
      have hround : halfEven n.natAbs d ≤ w * p := by
        apply halfEven_le hd
        zify
        rw [abs_of_neg hn]
        push_cast at h
        linarith
      rw [if_pos hn]
      zify at hround
      linarith
    · have hpos : (0 : ℤ) ≤ w * p := by positivity
      rw [if_neg hn]
      linarith [Int.natCast_nonneg (halfEven n.natAbs d)]

end HalfEven

namespace Decimal

/-! ## Decimals -/

section Nearest

variable {negative : Bool} {n d s : Nat} {x : Decimal}

theorem eq_of_ofParts?_eq_some {m : Nat} (h : ofParts? negative m s = some x) :
    x.negative = negative ∧ x.mantissa = m ∧ x.scale = s := by
  unfold ofParts? at h
  split at h
  · cases h
    exact ⟨rfl, rfl, rfl⟩
  · cases h

theorem nearestFrom?_eq_some {t : Nat} (h : nearestFrom? negative n d s t = some x) :
    x.negative = negative ∧ x.scale ≤ t ∧ x.mantissa = halfEven n (d * tenPow (s - x.scale)) := by
  induction t with
  | zero =>
    obtain ⟨hnegative, hmantissa, hscale⟩ := eq_of_ofParts?_eq_some h
    rw [hscale]
    exact ⟨hnegative, Nat.le_refl 0, hmantissa⟩
  | succ t ih =>
    rw [nearestFrom?] at h
    split at h
    · next y hy =>
      cases h
      obtain ⟨hnegative, hmantissa, hscale⟩ := eq_of_ofParts?_eq_some hy
      rw [hscale]
      exact ⟨hnegative, Nat.le_refl _, hmantissa⟩
    · obtain ⟨hnegative, hscale, hmantissa⟩ := ih h
      exact ⟨hnegative, by omega, hmantissa⟩

/-- What is found is rounded at its own scale. -/
theorem nearest?_eq_some (h : nearest? negative n d s = some x) :
    x.negative = negative ∧ x.scale ≤ s ∧ x.mantissa = halfEven n (d * tenPow (s - x.scale)) := by
  obtain ⟨hnegative, hscale, hmantissa⟩ := nearestFrom?_eq_some h
  exact ⟨hnegative, hscale.trans (Nat.min_le_left _ _), hmantissa⟩

/-- There is a decimal to be found, if the integer part is not too large. -/
theorem exists_nearest? {q : Nat} (hd : 0 < d) (hq : q < capacity) (h : n ≤ q * (d * tenPow s)) :
    ∃ x, nearest? negative n d s = some x := by
  have hround : halfEven n (d * tenPow s) < capacity :=
    (halfEven_le (Nat.mul_pos hd (tenPow_pos s)) h).trans_lt hq
  have hfrom : ∀ t, ∃ x, nearestFrom? negative n d s t = some x := by
    intro t
    induction t with
    | zero => exact ⟨_, ofParts?_of_fits hround (Nat.zero_le _)⟩
    | succ t ih =>
      rw [nearestFrom?]
      split
      · exact ⟨_, rfl⟩
      · exact ih
  exact hfrom _

/-- A decimal is found as it is, at whatever scale it is given. -/
theorem nearest?_exact (negative : Bool) (x : Decimal) (h : n * tenPow x.scale = x.mantissa * tenPow s) :
    ∃ y, nearest? negative n 1 s = some y ∧ y ≈ ⟨negative, x.mantissa, x.scale, x.mantissa_lt, x.scale_le⟩ := by
  have hagree : Agree (nearest? negative n 1 s) (nearest? negative x.mantissa 1 x.scale) := nearest?_congr h
  rw [nearest?_of_fits x.mantissa_lt x.scale_le] at hagree
  generalize nearest? negative n 1 s = y at hagree
  cases hagree with
  | some hy => exact ⟨_, rfl, hy⟩

end Nearest

/-! ## Sums -/

section Sum

variable {a b c : Decimal}

/-- **A sum that is a decimal is not rounded.** -/
theorem add?_exact (h : c.toRat = a.toRat + b.toRat) : ∃ x, a.add? b = some x ∧ x ≈ c := by
  by_cases ha : a.isZero = true
  · refine ⟨b, by rw [add?, if_pos ha], equiv_iff.mpr ?_⟩
    rw [h, (isZero_iff a).mp ha, zero_add]
  · by_cases hb : b.isZero = true
    · refine ⟨a, by rw [add?, if_neg ha, if_pos hb], equiv_iff.mpr ?_⟩
      rw [h, (isZero_iff b).mp hb, add_zero]
    · have hvalue : (sumCoefficient a b : ℚ) / tenPow (max a.scale b.scale) = c.coefficient / tenPow c.scale := by
        rw [sumCoefficient_div, ← h, toRat]
      rw [div_eq_div_iff (cast_tenPow_ne_zero _) (cast_tenPow_ne_zero _)] at hvalue
      have hsize : (sumCoefficient a b).natAbs * tenPow c.scale = c.mantissa * tenPow (max a.scale b.scale) := by
        have habs := congrArg Int.natAbs (show sumCoefficient a b * (tenPow c.scale : ℤ) =
          c.coefficient * (tenPow (max a.scale b.scale) : ℤ) by exact_mod_cast hvalue)
        rwa [Int.natAbs_mul, Int.natAbs_mul, Int.natAbs_natCast, Int.natAbs_natCast, natAbs_coefficient] at habs
      obtain ⟨x, hx, hxc⟩ := nearest?_exact (sumCoefficient a b < 0) c hsize
      refine ⟨x, by rw [add?_of_nonzero ha hb, hx], equiv_trans hxc ?_⟩
      -- the sign is that of the sum, but for zero
      by_cases hc : c.mantissa = 0
      · exact equiv_of_isZero (by simp [isZero, hc]) (by simp [isZero, hc])
      · refine equiv_of_parts ?_ rfl
        have hsign := toRat_neg_iff c
        rw [h, ← sumCoefficient_neg_iff, and_iff_left hc] at hsign
        show decide (sumCoefficient a b < 0) = c.negative
        rw [Bool.eq_iff_iff, decide_eq_true_eq, hsign]

/-- **A sum is not rounded past an integer below it.** -/
theorem le_of_add?_eq_some (h : a.add? b = some c) {z : ℤ} (hz : (z : ℚ) ≤ a.toRat + b.toRat) : (z : ℚ) ≤ c.toRat := by
  by_cases ha : a.isZero = true
  · rw [add?, if_pos ha] at h
    cases h
    rwa [(isZero_iff a).mp ha, zero_add] at hz
  by_cases hb : b.isZero = true
  · rw [add?, if_neg ha, if_pos hb] at h
    cases h
    rwa [(isZero_iff b).mp hb, add_zero] at hz
  rw [add?_of_nonzero ha hb] at h
  obtain ⟨hnegative, hscale, hmantissa⟩ := nearest?_eq_some h
  have hpow : tenPow (max a.scale b.scale) = tenPow c.scale * tenPow (max a.scale b.scale - c.scale) := by
    rw [← tenPow_add, Nat.add_sub_cancel' hscale]
  have hbelow : z * (tenPow c.scale * tenPow (max a.scale b.scale - c.scale) : ℕ) ≤ sumCoefficient a b := by
    rw [← sumCoefficient_div, le_div_iff₀ (cast_tenPow_pos _), hpow] at hz
    exact_mod_cast hz
  have hround : z * (tenPow c.scale : ℤ) ≤ c.coefficient := by
    have hsigned := le_signed_halfEven (tenPow_pos _) hbelow
    rw [coefficient, hnegative, hmantissa, Nat.one_mul]
    simpa using hsigned
  rw [toRat, le_div_iff₀ (cast_tenPow_pos _)]
  exact_mod_cast hround

end Sum

/-- The integer part is that of the value. -/
theorem floor_eq (d : Decimal) : d.floor = ⌊d.toRat⌋ := by
  have hdiv : d.coefficient.fdiv (tenPow d.scale) = d.coefficient / (tenPow d.scale : ℤ) :=
    Int.fdiv_eq_ediv_of_nonneg _ (Int.natCast_nonneg _)
  rw [floor, hdiv, toRat, Rat.floor_intCast_div_natCast]

end Decimal

end Listwise
