import Listwise.Expr.Eval
import Listwise.Proofs.DecimalRounding

/-!
# Sums, differences and products that fit

A polynomial is an expression of sums, differences and products.  Each of its parts has an exact value, and a scale
that is enough to write this value: the larger scale of the operands of a sum, the sum of the scales of the factors of
a product.

* `Expr.Fits`: the exact value of an expression, at its natural scale, has room in a decimal.
* `apply_exact`: an operation whose result fits is exact, and its scale is at most the natural one.  It may be smaller,
  since adding a zero gives the other operand with its own scale, and a product with a zero has no places.
* `eval_of_fits`: so evaluation is exact as long as every part fits.
* `eval_of_large`: with integers only, the first part that does not fit is the one that overflows.
* `polynomials_are_exact_while_they_fit`: both together.
-/

namespace Listwise

open Decimal (capacity maxScale)

/-! ## Definitions -/

/-- Whether an operation is a sum, a difference or a product. -/
def Op.isPolynomial : Op → Bool
  | .add => true
  | .sub => true
  | .mul => true
  | .div => false
  | .pow => false

/-- The result of a sum, a difference or a product, without rounding. -/
def Op.exact : Op → ℚ → ℚ → ℚ
  | .add, a, b => a + b
  | .sub, a, b => a - b
  | .mul, a, b => a * b
  | _, _, _ => 0

/-- The scale that is enough for a sum, a difference or a product of numbers of two scales. -/
def Op.naturalScale : Op → Nat → Nat → Nat
  | .mul, s, t => s + t
  | _, s, t => max s t

namespace Expr

/-- Whether all operations are sums, differences and products. -/
def isPolynomial {ν : Type} : Expr ν → Bool
  | .literal _ _ => true
  | .var _ _ => true
  | .binary op l r _ => op.isPolynomial && l.isPolynomial && r.isPolynomial
  | .negate e _ => e.isPolynomial
  | .group e _ => e.isPolynomial

/-- The expression and all that it is put together of, in the order of evaluation: operands from left to right, and
then what is made of them. -/
def postorder {ν : Type} : Expr ν → List (Expr ν)
  | .literal v n => [.literal v n]
  | .var x n => [.var x n]
  | .binary op l r n => l.postorder ++ r.postorder ++ [.binary op l r n]
  | .negate e n => e.postorder ++ [.negate e n]
  | .group e n => e.postorder ++ [.group e n]

section Values

variable (σ : Assignment)

/-- The decimals that evaluation begins with: the literals, and the values of the variables. -/
def leaves : Expr Decimal → List Decimal
  | .literal v _ => [v]
  | .var x _ => [σ.value x]
  | .binary _ l r _ => l.leaves ++ r.leaves
  | .negate e _ => e.leaves
  | .group e _ => e.leaves

/-- The value of a polynomial, without rounding. -/
def exact : Expr Decimal → ℚ
  | .literal v _ => v.toRat
  | .var x _ => (σ.value x).toRat
  | .binary op l r _ => op.exact l.exact r.exact
  | .negate e _ => -e.exact
  | .group e _ => e.exact

/-- The scale that is enough for the value of a polynomial. -/
def naturalScale : Expr Decimal → Nat
  | .literal v _ => v.scale
  | .var x _ => (σ.value x).scale
  | .binary op l r _ => op.naturalScale l.naturalScale r.naturalScale
  | .negate e _ => e.naturalScale
  | .group e _ => e.naturalScale

/-- The exact value has room in a decimal, at its natural scale. -/
structure Fits (e : Expr Decimal) : Prop where
  scale_le : e.naturalScale σ ≤ 28
  lt : |e.exact σ| * 10 ^ e.naturalScale σ < 2 ^ 96

instance (e : Expr Decimal) : Decidable (e.Fits σ) :=
  decidable_of_iff (e.naturalScale σ ≤ 28 ∧ |e.exact σ| * 10 ^ e.naturalScale σ < 2 ^ 96)
    ⟨fun h => ⟨h.1, h.2⟩, fun h => ⟨h.1, h.2⟩⟩

/-- Whether the exact value is too large for a decimal. -/
def isLarge (e : Expr Decimal) : Bool := 2 ^ 96 ≤ |e.exact σ|

end Values

end Expr

/-! ## Operations -/

namespace Decimal

theorem abs_toRat_lt (d : Decimal) : |d.toRat| < 2 ^ 96 := by
  rw [abs_toRat]
  calc (d.mantissa : ℚ) / tenPow d.scale
      ≤ d.mantissa := div_le_self (Nat.cast_nonneg _) (by exact_mod_cast tenPow_pos d.scale)
    _ < 2 ^ 96 := by exact_mod_cast d.mantissa_lt

section Sum

variable {a b : Decimal} {s : Nat}

theorem natAbs_sumCoefficient (a b : Decimal) :
    ((sumCoefficient a b).natAbs : ℚ) = |a.toRat + b.toRat| * 10 ^ max a.scale b.scale := by
  rw [← sumCoefficient_div, abs_div, abs_of_pos (cast_tenPow_pos _), ← cast_tenPow,
    div_mul_cancel₀ _ (cast_tenPow_ne_zero _), Nat.cast_natAbs, Int.cast_abs]

theorem toRat_ofInt {c : ℤ} (hc : c.natAbs < capacity) (hs : s ≤ maxScale) :
    toRat ⟨c < 0, c.natAbs, s, hc, hs⟩ = c / tenPow s := by
  have hcoefficient : coefficient ⟨c < 0, c.natAbs, s, hc, hs⟩ = c := by
    simp only [coefficient, decide_eq_true_eq]
    split <;> omega
  rw [toRat, hcoefficient]

/-- **A sum that has room at a scale of both operands is exact**, at a scale that is no larger. -/
theorem add?_of_room (ha : a.scale ≤ s) (hb : b.scale ≤ s) (hs : s ≤ maxScale)
    (h : |a.toRat + b.toRat| * 10 ^ s < 2 ^ 96) :
    ∃ v, a.add? b = some v ∧ v.toRat = a.toRat + b.toRat ∧ v.scale ≤ s := by
  by_cases hza : a.isZero = true
  · refine ⟨b, by rw [add?, if_pos hza], ?_, hb⟩
    rw [(isZero_iff a).mp hza, zero_add]
  by_cases hzb : b.isZero = true
  · refine ⟨a, by rw [add?, if_neg hza, if_pos hzb], ?_, ha⟩
    rw [(isZero_iff b).mp hzb, add_zero]
  have hmax : max a.scale b.scale ≤ s := max_le ha hb
  have hroom : (sumCoefficient a b).natAbs < capacity := by
    have hlt : ((sumCoefficient a b).natAbs : ℚ) < 2 ^ 96 := by
      rw [natAbs_sumCoefficient]
      refine lt_of_le_of_lt ?_ h
      gcongr
      norm_num
    exact_mod_cast hlt
  refine ⟨_, (add?_of_nonzero hza hzb).trans (nearest?_of_fits hroom (hmax.trans hs)), ?_, hmax⟩
  rw [toRat_ofInt hroom (hmax.trans hs), sumCoefficient_div]

/-- A sum of integers that is too large is found at no scale. -/
theorem add?_of_large (ha : a.scale = 0) (hb : b.scale = 0) (h : 2 ^ 96 ≤ |a.toRat + b.toRat|) : a.add? b = none := by
  have hza : ¬ a.isZero = true := by
    intro hza
    rw [(isZero_iff a).mp hza, zero_add] at h
    exact absurd (abs_toRat_lt b) (not_lt.mpr h)
  have hzb : ¬ b.isZero = true := by
    intro hzb
    rw [(isZero_iff b).mp hzb, add_zero] at h
    exact absurd (abs_toRat_lt a) (not_lt.mpr h)
  have hlarge : ¬ (sumCoefficient a b).natAbs < capacity := by
    have hle : (2 ^ 96 : ℚ) ≤ (sumCoefficient a b).natAbs := by
      rw [natAbs_sumCoefficient, ha, hb]
      simpa using h
    rw [not_lt]
    exact_mod_cast hle
  rw [add?_of_nonzero hza hzb, ha, hb, max_self, nearest?_integer, ofParts?_of_not_fits hlarge]

theorem toRat_add_neg (a b : Decimal) : a.toRat + (-b).toRat = a.toRat - b.toRat := by rw [toRat_neg, sub_eq_add_neg]

theorem sub?_of_room (ha : a.scale ≤ s) (hb : b.scale ≤ s) (hs : s ≤ maxScale)
    (h : |a.toRat - b.toRat| * 10 ^ s < 2 ^ 96) :
    ∃ v, a.sub? b = some v ∧ v.toRat = a.toRat - b.toRat ∧ v.scale ≤ s := by
  unfold sub?
  split
  · next hzero =>
    obtain ⟨hza, hzb⟩ := Bool.and_eq_true_iff.mp hzero
    refine ⟨b, rfl, ?_, hb⟩
    rw [(isZero_iff a).mp hza, (isZero_iff b).mp hzb, sub_zero]
  · rw [← toRat_add_neg] at h ⊢
    exact add?_of_room ha hb hs h

theorem sub?_of_large (ha : a.scale = 0) (hb : b.scale = 0) (h : 2 ^ 96 ≤ |a.toRat - b.toRat|) : a.sub? b = none := by
  have hsum : a.add? (-b) = none := add?_of_large ha hb (by rwa [toRat_add_neg])
  have hagree := sub?_agree a b
  rw [hsum] at hagree
  generalize a.sub? b = x at hagree ⊢
  cases hagree
  rfl

end Sum

section Product

variable {a b : Decimal} {s t : Nat}

theorem cast_mantissa_mul (a b : Decimal) :
    ((a.mantissa * b.mantissa : ℕ) : ℚ) = |a.toRat * b.toRat| * 10 ^ (a.scale + b.scale) := by
  have ha := cast_tenPow_ne_zero a.scale
  have hb := cast_tenPow_ne_zero b.scale
  rw [abs_mul, abs_toRat, abs_toRat, pow_add, ← cast_tenPow, ← cast_tenPow]
  field_simp
  push_cast
  rfl

theorem toRat_mul (hn : a.mantissa * b.mantissa < capacity) (hs : a.scale + b.scale ≤ maxScale) :
    toRat ⟨a.negative != b.negative, a.mantissa * b.mantissa, a.scale + b.scale, hn, hs⟩ = a.toRat * b.toRat := by
  have hcoefficient : coefficient ⟨a.negative != b.negative, a.mantissa * b.mantissa, a.scale + b.scale, hn, hs⟩ =
      a.coefficient * b.coefficient := by
    unfold coefficient
    cases a.negative <;> cases b.negative <;> simp
  rw [toRat, hcoefficient, toRat, toRat, tenPow_add, div_mul_div_comm]
  push_cast
  rfl

theorem mul?_of_nonzero (h : ¬ (a.isZero = true ∨ b.isZero = true)) (hs : a.scale + b.scale ≤ maxScale) :
    a.mul? b = a.roundedProduct b := by
  have htiny : ¬ (a.mantissa < 4294967296 ∧ b.mantissa < 4294967296 ∧ 47 < a.scale + b.scale) := by
    have hmax : maxScale = 28 := rfl
    omega
  rw [mul?, if_neg (by rwa [Bool.or_eq_true]), if_neg htiny, roundedProduct]

/-- **A product that has room at the sum of the scales is exact**, at a scale that is no larger. -/
theorem mul?_of_room (ha : a.scale ≤ s) (hb : b.scale ≤ t) (hs : s + t ≤ maxScale)
    (h : |a.toRat * b.toRat| * 10 ^ (s + t) < 2 ^ 96) :
    ∃ v, a.mul? b = some v ∧ v.toRat = a.toRat * b.toRat ∧ v.scale ≤ s + t := by
  by_cases hzero : a.isZero = true ∨ b.isZero = true
  · refine ⟨0, mul?_of_zero hzero, ?_, Nat.zero_le _⟩
    rw [isZero_iff, isZero_iff] at hzero
    rw [mul_eq_zero.mpr hzero]
    exact (isZero_iff 0).mp rfl
  have hsum : a.scale + b.scale ≤ s + t := Nat.add_le_add ha hb
  have hroom : a.mantissa * b.mantissa < capacity := by
    have hlt : ((a.mantissa * b.mantissa : ℕ) : ℚ) < 2 ^ 96 := by
      rw [cast_mantissa_mul]
      refine lt_of_le_of_lt ?_ h
      gcongr
      norm_num
    exact_mod_cast hlt
  rw [mul?_of_nonzero hzero (hsum.trans hs), roundedProduct]
  exact ⟨_, nearest?_of_fits hroom (hsum.trans hs), toRat_mul hroom (hsum.trans hs), hsum⟩

/-- A product of integers that is too large is found at no scale. -/
theorem mul?_of_large (ha : a.scale = 0) (hb : b.scale = 0) (h : 2 ^ 96 ≤ |a.toRat * b.toRat|) : a.mul? b = none := by
  have hzero : ¬ (a.isZero = true ∨ b.isZero = true) := by
    intro hzero
    rw [isZero_iff, isZero_iff] at hzero
    rw [mul_eq_zero.mpr hzero, abs_zero] at h
    exact absurd h (by norm_num)
  have hlarge : ¬ a.mantissa * b.mantissa < capacity := by
    have hle : (2 ^ 96 : ℚ) ≤ (a.mantissa * b.mantissa : ℕ) := by
      rw [cast_mantissa_mul, ha, hb]
      simpa using h
    rw [not_lt]
    exact_mod_cast hle
  rw [mul?_of_nonzero hzero (by rw [ha, hb]; exact Nat.zero_le _), roundedProduct, ha, hb, nearest?_integer,
    ofParts?_of_not_fits hlarge]

end Product

end Decimal

namespace Op

variable {op : Op} {a b : Decimal}

/-- **An operation whose result fits is exact**, and its scale is at most the natural one. -/
theorem apply_exact (hop : op.isPolynomial = true) {s t : Nat} (ha : a.scale ≤ s) (hb : b.scale ≤ t)
    (hs : op.naturalScale s t ≤ maxScale)
    (h : |op.exact a.toRat b.toRat| * 10 ^ op.naturalScale s t < 2 ^ 96) :
    ∃ v, op.apply a b = .ok v ∧ v.toRat = op.exact a.toRat b.toRat ∧ v.scale ≤ op.naturalScale s t := by
  cases op with
  | add =>
    obtain ⟨v, hv, hvalue, hscale⟩ := Decimal.add?_of_room (le_max_of_le_left ha) (le_max_of_le_right hb) hs h
    exact ⟨v, by rw [apply, hv, orOverflow], hvalue, hscale⟩
  | sub =>
    obtain ⟨v, hv, hvalue, hscale⟩ := Decimal.sub?_of_room (le_max_of_le_left ha) (le_max_of_le_right hb) hs h
    exact ⟨v, by rw [apply, hv, orOverflow], hvalue, hscale⟩
  | mul =>
    obtain ⟨v, hv, hvalue, hscale⟩ := Decimal.mul?_of_room ha hb hs h
    exact ⟨v, by rw [apply, hv, orOverflow], hvalue, hscale⟩
  | div => cases hop
  | pow => cases hop

/-- An operation on integers whose result is too large overflows. -/
theorem apply_of_large (hop : op.isPolynomial = true) (ha : a.scale = 0) (hb : b.scale = 0)
    (h : 2 ^ 96 ≤ |op.exact a.toRat b.toRat|) : op.apply a b = .error .overflow := by
  cases op with
  | add => rw [apply, Decimal.add?_of_large ha hb h, orOverflow]
  | sub => rw [apply, Decimal.sub?_of_large ha hb h, orOverflow]
  | mul => rw [apply, Decimal.mul?_of_large ha hb h, orOverflow]
  | div => cases hop
  | pow => cases hop

end Op

/-! ## Expressions -/

namespace Expr

variable {σ : Assignment} {e : Expr Decimal}

theorem self_mem_postorder {ν : Type} (e : Expr ν) : e ∈ e.postorder := by
  cases e <;> simp [postorder]

/-- **Evaluation is exact as long as every part fits.** -/
theorem eval_of_fits (he : e.isPolynomial = true) (h : ∀ x ∈ e.postorder, x.Fits σ) :
    ∃ v, e.eval σ = .ok v ∧ v.toRat = e.exact σ ∧ v.scale ≤ e.naturalScale σ := by
  induction e with
  | literal v n => exact ⟨v, rfl, rfl, Nat.le_refl _⟩
  | var x n => exact ⟨σ.value x, rfl, rfl, Nat.le_refl _⟩
  | group e n ih =>
    obtain ⟨v, hv, hvalue, hscale⟩ := ih he fun x hx => h x (by simp [postorder, hx])
    exact ⟨v, by rw [eval, hv], hvalue, hscale⟩
  | negate e n ih =>
    obtain ⟨v, hv, hvalue, hscale⟩ := ih he fun x hx => h x (by simp [postorder, hx])
    refine ⟨-v, ?_, ?_, hscale⟩
    · rw [eval, hv]
      rfl
    · rw [Decimal.toRat_neg, hvalue, exact]
  | binary op l r n ihl ihr =>
    simp only [isPolynomial, Bool.and_eq_true] at he
    obtain ⟨⟨hop, hl⟩, hr⟩ := he
    obtain ⟨a, ha, hvaluea, hscalea⟩ := ihl hl fun x hx => h x (by simp [postorder, hx])
    obtain ⟨b, hb, hvalueb, hscaleb⟩ := ihr hr fun x hx => h x (by simp [postorder, hx])
    obtain ⟨hscale, hroom⟩ := h _ (self_mem_postorder (.binary op l r n))
    rw [exact, ← hvaluea, ← hvalueb] at hroom ⊢
    obtain ⟨v, hv, hvalue, hle⟩ := Op.apply_exact hop hscalea hscaleb hscale hroom
    refine ⟨v, ?_, hvalue, hle⟩
    rw [eval_binary ha hb, hv]
    rfl

theorem isLarge_iff : e.isLarge σ = true ↔ 2 ^ 96 ≤ |e.exact σ| := by
  rw [isLarge, decide_eq_true_eq]

theorem abs_exact_lt (h : e.postorder.find? (isLarge σ) = none) {x : Expr Decimal} (hx : x ∈ e.postorder) :
    |x.exact σ| < 2 ^ 96 := by
  rw [← not_le, ← isLarge_iff]
  exact List.find?_eq_none.mp h x hx

/-- What evaluation of a part begins with, evaluation of the whole begins with too. -/
theorem leaves_subset {x : Expr Decimal} (hx : x ∈ e.postorder) : x.leaves σ ⊆ e.leaves σ := by
  induction e with
  | literal v n =>
    rw [List.mem_singleton.mp hx]
    exact fun _ hd => hd
  | var y n =>
    rw [List.mem_singleton.mp hx]
    exact fun _ hd => hd
  | group e n ih =>
    rcases List.mem_append.mp hx with hx | hx
    · exact ih hx
    · rw [List.mem_singleton.mp hx]
      exact fun _ hd => hd
  | negate e n ih =>
    rcases List.mem_append.mp hx with hx | hx
    · exact ih hx
    · rw [List.mem_singleton.mp hx]
      exact fun _ hd => hd
  | binary op l r n ihl ihr =>
    simp only [postorder, List.mem_append, List.mem_singleton] at hx
    rcases hx with (hx | hx) | rfl
    · exact fun d hd => List.mem_append_left _ (ihl hx hd)
    · exact fun d hd => List.mem_append_right _ (ihr hx hd)
    · exact fun _ hd => hd

theorem naturalScale_of_integers (h : ∀ d ∈ e.leaves σ, d.scale = 0) : e.naturalScale σ = 0 := by
  induction e with
  | literal v n => exact h v List.mem_cons_self
  | var x n => exact h _ List.mem_cons_self
  | group e n ih => exact ih h
  | negate e n ih => exact ih h
  | binary op l r n ihl ihr =>
    simp only [leaves, List.mem_append] at h
    rw [naturalScale, ihl fun d hd => h d (.inl hd), ihr fun d hd => h d (.inr hd)]
    cases op <;> rfl

/-- Integers evaluate to the exact integer, if no part is too large. -/
theorem eval_of_not_large (he : e.isPolynomial = true) (hleaves : ∀ d ∈ e.leaves σ, d.scale = 0)
    (h : e.postorder.find? (isLarge σ) = none) :
    ∃ v, e.eval σ = .ok v ∧ v.toRat = e.exact σ ∧ v.scale = 0 := by
  have hfits : ∀ x ∈ e.postorder, x.Fits σ := by
    intro x hx
    have hscale : x.naturalScale σ = 0 := naturalScale_of_integers fun d hd => hleaves d (leaves_subset hx hd)
    refine ⟨by omega, ?_⟩
    rw [hscale, pow_zero, mul_one]
    exact abs_exact_lt h hx
  obtain ⟨v, hv, hvalue, hscale⟩ := eval_of_fits he hfits
  rw [naturalScale_of_integers hleaves] at hscale
  exact ⟨v, hv, hvalue, Nat.le_zero.mp hscale⟩

/-- **Of integers, the first part that is too large overflows.**  It is an operation: a decimal is never too large, and
neither is what is negated or put in parentheses, if it was not too large before. -/
theorem eval_of_large (he : e.isPolynomial = true) (hleaves : ∀ d ∈ e.leaves σ, d.scale = 0) {x : Expr Decimal}
    (h : e.postorder.find? (isLarge σ) = some x) : e.eval σ = .error ⟨.arithmetic .overflow x.render, x.line⟩ := by
  have hlarge : 2 ^ 96 ≤ |x.exact σ| := isLarge_iff.mp (List.find?_some h)
  induction e with
  | literal v n =>
    obtain rfl := List.mem_singleton.mp (List.mem_of_find?_eq_some h)
    exact absurd v.abs_toRat_lt (not_lt.mpr hlarge)
  | var y n =>
    obtain rfl := List.mem_singleton.mp (List.mem_of_find?_eq_some h)
    exact absurd (σ.value y).abs_toRat_lt (not_lt.mpr hlarge)
  | group e n ih =>
    rw [postorder, List.find?_append, Option.or_eq_some_iff] at h
    rcases h with h | ⟨hnone, h⟩
    · exact ih he hleaves h
    · obtain rfl := List.mem_singleton.mp (List.mem_of_find?_eq_some h)
      exact absurd (abs_exact_lt hnone (self_mem_postorder e)) (not_lt.mpr hlarge)
  | negate e n ih =>
    rw [postorder, List.find?_append, Option.or_eq_some_iff] at h
    rcases h with h | ⟨hnone, h⟩
    · rw [eval, ih he hleaves h]
      rfl
    · obtain rfl := List.mem_singleton.mp (List.mem_of_find?_eq_some h)
      rw [exact, abs_neg] at hlarge
      exact absurd (abs_exact_lt hnone (self_mem_postorder e)) (not_lt.mpr hlarge)
  | binary op l r n ihl ihr =>
    simp only [isPolynomial, Bool.and_eq_true] at he
    obtain ⟨⟨hop, hl⟩, hr⟩ := he
    have hleft : ∀ d ∈ l.leaves σ, d.scale = 0 := fun d hd => hleaves d (List.mem_append_left _ hd)
    have hright : ∀ d ∈ r.leaves σ, d.scale = 0 := fun d hd => hleaves d (List.mem_append_right _ hd)
    rw [postorder, List.find?_append, List.find?_append, Option.or_eq_some_iff, Option.or_eq_some_iff] at h
    rcases h with (h | ⟨hnone, h⟩) | ⟨hnone, h⟩
    · exact eval_binary_left (ihl hl hleft h)
    · obtain ⟨a, ha, -, -⟩ := eval_of_not_large hl hleft hnone
      exact eval_binary_right ha (ihr hr hright h)
    · -- both operands are exact, so the operation itself is too large
      obtain ⟨hnonel, hnoner⟩ := Option.or_eq_none_iff.mp hnone
      obtain ⟨a, ha, hvaluea, hscalea⟩ := eval_of_not_large hl hleft hnonel
      obtain ⟨b, hb, hvalueb, hscaleb⟩ := eval_of_not_large hr hright hnoner
      obtain rfl := List.mem_singleton.mp (List.mem_of_find?_eq_some h)
      rw [exact, ← hvaluea, ← hvalueb] at hlarge
      rw [eval_binary ha hb, Op.apply_of_large hop hscalea hscaleb hlarge]
      rfl

/-- **Sums, differences and products are exact while they fit.**  If the exact value of every part has room in a decimal
at its natural scale, evaluation succeeds with the exact value.  If there are integers only, nothing goes wrong
silently: as soon as some part is too large, evaluation fails, and what overflows is the first such part in the order of
evaluation. -/
theorem polynomials_are_exact_while_they_fit {e : Expr Decimal} (he : e.isPolynomial = true) (σ : Assignment) :
    ((∀ x ∈ e.postorder, x.Fits σ) → ∃ v, e.eval σ = .ok v ∧ v.toRat = e.exact σ) ∧
      ((∀ d ∈ e.leaves σ, d.scale = 0) → (∃ x ∈ e.postorder, 2 ^ 96 ≤ |x.exact σ|) →
        ∃ x, e.postorder.find? (fun x => 2 ^ 96 ≤ |x.exact σ|) = some x ∧
          e.eval σ = .error ⟨.arithmetic .overflow x.render, x.line⟩) := by
  refine ⟨fun h => ?_, fun hleaves hlarge => ?_⟩
  · obtain ⟨v, hv, hvalue, -⟩ := eval_of_fits he h
    exact ⟨v, hv, hvalue⟩
  · obtain ⟨y, hy, hvalue⟩ := hlarge
    have hfound : (e.postorder.find? (isLarge σ)).isSome = true := by
      rw [List.find?_isSome]
      exact ⟨y, hy, by simpa [isLarge] using hvalue⟩
    obtain ⟨x, hx⟩ := Option.isSome_iff_exists.mp hfound
    exact ⟨x, hx, eval_of_large he hleaves hx⟩

/-- `2.50 * x - (y + 0.1)` fits, where `x` is `4.0` and `y` has no value; of `-(x + x) - y * y`, where `x` is `2 ^ 95` and
`y` is `2 ^ 60`, both operations are too large, and the first one overflows. -/
theorem polynomials_are_exact_while_they_fit_two :
    let small : Expr Decimal := .binary .sub
      (.binary .mul (.literal ⟨false, 250, 2, by decide, by decide⟩ 1) (.var "x" 1) 1)
      (.group (.binary .add (.var "y" 1) (.literal ⟨false, 1, 1, by decide, by decide⟩ 1) 1) 1) 1
    let sum : Expr Decimal := .binary .add (.var "x" 1) (.var "x" 1) 2
    let large : Expr Decimal := .binary .sub (.negate sum 3) (.binary .mul (.var "y" 4) (.var "y" 4) 5) 6
    let σ : Assignment := [("x", ⟨false, 40, 1, by decide, by decide⟩)]
    let τ : Assignment :=
      [("x", ⟨false, 39614081257132168796771975168, 0, by decide, by decide⟩),
        ("y", ⟨false, 1152921504606846976, 0, by decide, by decide⟩)]
    ((∀ x ∈ small.postorder, x.Fits σ) ∧ ∃ v, small.eval σ = .ok v ∧ v.toRat = 99 / 10) ∧
      (∀ d ∈ large.leaves τ, d.scale = 0) ∧ large.eval τ = .error ⟨.arithmetic .overflow "x + x", 2⟩ := by
  intro small sum large σ τ
  have hfits : ∀ x ∈ small.postorder, x.Fits σ := by decide +kernel
  have hleaves : ∀ d ∈ large.leaves τ, d.scale = 0 := by decide +kernel
  have hlarge : ∃ x ∈ large.postorder, 2 ^ 96 ≤ |x.exact τ| := ⟨sum, by decide +kernel, by decide +kernel⟩
  have hvalue : small.exact σ = 99 / 10 := by decide +kernel
  refine ⟨⟨hfits, ?_⟩, hleaves, ?_⟩
  · rw [← hvalue]
    exact (polynomials_are_exact_while_they_fit (e := small) rfl σ).1 hfits
  · obtain ⟨x, hx, heval⟩ := (polynomials_are_exact_while_they_fit (e := large) rfl τ).2 hleaves hlarge
    have hfirst : large.postorder.find? (fun x => 2 ^ 96 ≤ |x.exact τ|) = some sum := by decide +kernel
    obtain rfl : x = sum := Option.some.inj (hx.symm.trans hfirst)
    exact heval

end Expr

end Listwise
