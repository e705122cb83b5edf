import Listwise.Proofs.DecimalRounding

/-!
# Long division

The digits of a quotient are found up to nine at a time.  What has been found and what is left always add up to the
dividend, so each way in which the division can end is told by the digits it ends with.

* `nearest?_of_places`, `nearest?_of_large`: the finest scale that fits, by the number of places behind it.
* `LongDivision.Divides n d x`: what holds of a division of `n` by `d` in all its steps (`Divides.further`).
* `run?_eq`: a division that leaves a remainder to its end finds what `nearest?` finds, and it overflows if `nearest?`
  does; one that ends early is exact.
* `div?_agree_nearest?`, `div?_congr`: so quotients depend on values only.
-/

namespace Listwise

open Decimal (capacity maxScale)

/-! ## The finest scale that fits -/

section HalfEven

variable {n d : Nat}

/-- What is too large as it is rounded is too large with one digit more. -/
theorem capacity_le_halfEven (hd : 0 < d) (h : capacity ≤ halfEven n (d * 10)) : capacity ≤ halfEven n d := by
  by_contra hsmall
  have hlt : n < capacity * d := Nat.lt_of_not_le fun hle => hsmall (le_halfEven hd hle)
  have hround : halfEven n (d * 10) ≤ capacity - 1 := halfEven_le (by omega) (by simp only [capacity] at *; omega)
  simp only [capacity] at h hround
  omega

theorem capacity_le_halfEven_of_le (hd : 0 < d) {j k : Nat} (hjk : j ≤ k) (h : capacity ≤ halfEven n (d * tenPow k)) :
    capacity ≤ halfEven n (d * tenPow j) := by
  induction k, hjk using Nat.le_induction with
  | base => exact h
  | succ k _ ih =>
    apply ih
    apply capacity_le_halfEven (Nat.mul_pos hd (tenPow_pos k))
    rwa [Nat.mul_assoc]

end HalfEven

namespace Decimal

section Nearest

variable {negative : Bool} {n d k : Nat}

/-- The search goes down to the first scale that fits. -/
theorem nearestFrom?_of_places {t : Nat} (ht : t ≤ maxScale) (hk : k ≤ maxScale) (hkt : maxScale ≤ t + k)
    (hfits : halfEven n (d * tenPow k) < capacity) (hlarge : ∀ j < k, capacity ≤ halfEven n (d * tenPow j)) :
    nearestFrom? negative n d maxScale t =
      some ⟨negative, halfEven n (d * tenPow k), maxScale - k, hfits, Nat.sub_le _ _⟩ := by
  induction t with
  | zero =>
    obtain rfl : k = maxScale := by omega
    rw [nearestFrom?, ofParts?_of_fits hfits (Nat.zero_le _)]
    simp only [Nat.sub_self]
  | succ t ih =>
    rw [nearestFrom?]
    by_cases hend : maxScale - (t + 1) = k
    · have hscale : maxScale - k = t + 1 := by omega
      rw [hend, ofParts?_of_fits hfits ht]
      simp only [hscale]
    · rw [ofParts?_of_not_fits (Nat.not_lt.mpr (hlarge _ (by omega)))]
      exact ih (by omega) (by omega)

/-- What is found at the finest scale that fits. -/
theorem nearest?_of_places (hd : 0 < d) (hk : k ≤ maxScale) (hfits : halfEven n (d * tenPow k) < capacity)
    (hfinest : ∀ j, k = j + 1 → capacity ≤ halfEven n (d * tenPow j)) :
    nearest? negative n d maxScale =
      some ⟨negative, halfEven n (d * tenPow k), maxScale - k, hfits, Nat.sub_le _ _⟩ := by
  rw [nearest?, Nat.min_self]
  apply nearestFrom?_of_places (Nat.le_refl _) hk (Nat.le_add_right _ _) hfits
  intro j hj
  exact capacity_le_halfEven_of_le hd (Nat.le_sub_one_of_lt hj) (hfinest (k - 1) (by omega))

/-- Nothing is found if the integer part is too large as it is rounded. -/
theorem nearest?_of_large (hd : 0 < d) (h : capacity ≤ halfEven n (d * tenPow maxScale)) :
    nearest? negative n d maxScale = none := by
  have hlarge : ∀ k ≤ maxScale, ¬ halfEven n (d * tenPow k) < capacity :=
    fun k hk => Nat.not_lt.mpr (capacity_le_halfEven_of_le hd hk h)
  have hfrom : ∀ t, nearestFrom? negative n d maxScale t = none := by
    intro t
    induction t with
    | zero => rw [nearestFrom?, ofParts?_of_not_fits (hlarge _ (Nat.le_refl _))]
    | succ t ih => rw [nearestFrom?, ofParts?_of_not_fits (hlarge _ (Nat.sub_le _ _)), ih]
  exact hfrom _

end Nearest

/-! ## The steps of a division -/

namespace LongDivision

/-- A division of `n` by `d` under way: the digits so far and what is left, moved to the last scale, make up `n`. -/
structure Divides (n d : Nat) (x : LongDivision) : Prop where
  rest_lt : x.rest < d
  total : (x.digits * d + x.rest) * tenPow x.places = n

section Steps

variable {n d p : Nat} {x : LongDivision}

/-- The digits that a step takes are those of what was left. -/
theorem total_further (d p : Nat) (x : LongDivision) :
    (x.further d p).digits * d + (x.further d p).rest = (x.digits * d + x.rest) * tenPow p := by
  have hsplit := Nat.div_add_mod (x.rest * tenPow p) d
  calc (x.digits * tenPow p + x.rest * tenPow p / d) * d + x.rest * tenPow p % d
      = x.digits * d * tenPow p + (d * (x.rest * tenPow p / d) + x.rest * tenPow p % d) := by ring
    _ = (x.digits * d + x.rest) * tenPow p := by rw [hsplit]; ring

/-- **A step keeps the dividend.** -/
theorem Divides.further (hx : x.Divides n d) (hp : p ≤ x.places) : (x.further d p).Divides n d where
  rest_lt := Nat.mod_lt _ (Nat.zero_lt_of_lt hx.rest_lt)
  total := by
    have hplaces : tenPow x.places = tenPow p * tenPow (x.places - p) := by rw [← tenPow_add, Nat.add_sub_cancel' hp]
    rw [total_further, ← hx.total, hplaces, Nat.mul_assoc]
    rfl

theorem room_fits {q : Nat} (hq : q < capacity) (p : Nat) : q * tenPow (room q p) < capacity := by
  fun_induction room q p with
  | case1 => rwa [show tenPow 0 = 1 from rfl, Nat.mul_one]
  | case2 p h => exact h
  | case3 p _ ih => exact ih

theorem room_full {q p : Nat} (h : room q p < p) : capacity ≤ q * tenPow (room q p + 1) := by
  fun_induction room q p with
  | case1 => omega
  | case2 p _ => omega
  | case3 p hfull ih =>
    by_cases hlt : room q p < p
    · exact ih hlt
    · have heq : room q p = p := Nat.le_antisymm (room_le q p) (Nat.le_of_not_lt hlt)
      rw [heq]
      exact Nat.le_of_not_lt hfull

end Steps

/-! ## The end of a division -/

section End

variable {negative : Bool} {n d : Nat} {x : LongDivision}

theorem Divides.pos (hx : x.Divides n d) : 0 < d := Nat.zero_lt_of_lt hx.rest_lt

/-- At the place of its last digit, the quotient is rounded by what is left. -/
theorem Divides.halfEven_places (hx : x.Divides n d) :
    halfEven n (d * tenPow x.places) = halfEven (x.digits * d + x.rest) d := by
  rw [← hx.total, halfEven_mul_right _ _ (tenPow_pos _)]

theorem Divides.halfEven_places_succ (hx : x.Divides n d) :
    halfEven n (d * tenPow (x.places + 1)) = halfEven (x.digits * d + x.rest) (d * 10) := by
  have hten : d * tenPow (x.places + 1) = d * 10 * tenPow x.places := by
    rw [tenPow_add, show tenPow 1 = 10 from rfl]
    ring
  rw [hten, ← hx.total, halfEven_mul_right _ _ (tenPow_pos _)]

/-- With digits that have no room at their own scale, the last one goes. -/
theorem roundLast?_eq (hx : x.Divides n d) (hlarge : capacity ≤ halfEven (x.digits * d + x.rest) d)
    (hfits : x.places < maxScale → halfEven (x.digits * d + x.rest) (d * 10) < capacity) :
    x.roundLast? negative d = nearest? negative n d maxScale := by
  rw [← hx.halfEven_places] at hlarge
  unfold roundLast?
  split
  case isTrue hplaces =>
    have hfits := hfits hplaces
    rw [← hx.halfEven_places_succ] at hfits ⊢
    rw [nearest?_of_places hx.pos hplaces hfits, ofParts?_of_fits hfits (by omega)]
    · rfl
    · intro j hj
      obtain rfl : x.places = j := by omega
      exact hlarge
  case isFalse hplaces =>
    rw [nearest?_of_large hx.pos (capacity_le_halfEven_of_le hx.pos (Nat.le_of_not_lt hplaces) hlarge)]

/-- With digits behind which no further one has room, the quotient is rounded where it stands. -/
theorem round?_eq (hx : x.Divides n d) (hroom : x.digits < capacity) (hplaces : x.places ≤ maxScale)
    (hfull : x.places ≠ 0 → capacity ≤ x.digits * 10) : x.round? negative d = nearest? negative n d maxScale := by
  have hrest := hx.rest_lt
  unfold round?
  split
  case isTrue hfits =>
    rw [← hx.halfEven_places] at hfits ⊢
    rw [nearest?_of_places hx.pos hplaces hfits, ofParts?_of_fits hfits (by omega)]
    -- one digit more would be too much: the digits so far are already
    intro j hj
    apply le_halfEven (Nat.mul_pos hx.pos (tenPow_pos j))
    have hten : tenPow x.places = 10 * tenPow j := by
      rw [hj, tenPow_add, show tenPow 1 = 10 from rfl, Nat.mul_comm]
    calc capacity * (d * tenPow j) ≤ x.digits * 10 * (d * tenPow j) := Nat.mul_le_mul_right _ (hfull (by omega))
      _ = x.digits * d * (10 * tenPow j) := by ring
      _ ≤ (x.digits * d + x.rest) * (10 * tenPow j) := Nat.mul_le_mul_right _ (Nat.le_add_right _ _)
      _ = n := by rw [← hten, hx.total]
  case isFalse hlarge =>
    refine roundLast?_eq hx (Nat.le_of_not_lt hlarge) fun _ => ?_
    have htotal : x.digits * d + x.rest ≤ (capacity - 1) * (d * 10) := by
      have hdigits : x.digits * d ≤ (capacity - 1) * d := Nat.mul_le_mul_right _ (Nat.le_sub_one_of_lt hroom)
      simp only [capacity] at hdigits ⊢
      omega
    have hround := halfEven_le (Nat.mul_pos hx.pos (by decide : 0 < 10)) htotal
    simp only [capacity] at hround ⊢
    omega

/-- With nothing left behind the point, the quotient is the digits as they are. -/
theorem round?_of_rest_eq_zero (hx : x.Divides n d) (hroom : x.digits < capacity) (hplaces : x.places ≤ maxScale)
    (hrest : x.rest = 0) : ∃ v, x.round? negative d = some v ∧ v.negative = negative ∧
      v.mantissa * (d * tenPow (maxScale - v.scale)) = n := by
  have hround : halfEven (x.digits * d + x.rest) d = x.digits := by
    have hmul := halfEven_mul_right x.digits 1 hx.pos
    rwa [Nat.one_mul, halfEven_one, ← Nat.add_zero (x.digits * d), ← hrest] at hmul
  refine ⟨⟨negative, x.digits, maxScale - x.places, hroom, Nat.sub_le _ _⟩, ?_, rfl, ?_⟩
  · rw [round?, hround, if_pos hroom, ofParts?_of_fits hroom]
  · have hscale : maxScale - (maxScale - x.places) = x.places := by omega
    rw [hscale, ← Nat.mul_assoc, ← hx.total, hrest, Nat.add_zero]

/-- Digits that run out of room before the point are too many. -/
theorem nearest?_of_overflow (hx : x.Divides n d) (h : x.width < 9 ∧ maxScale < x.places - x.width) :
    nearest? negative n d maxScale = none := by
  obtain ⟨hwidth, hplaces⟩ := h
  have hrest : x.rest ≠ 0 := by
    intro hrest
    rw [width, if_pos hrest] at hwidth hplaces
    omega
  rw [width, if_neg hrest] at hwidth hplaces
  have hmax : maxScale = 28 := rfl
  have hmin : min 9 x.places = 9 := by omega
  rw [hmin] at hwidth hplaces
  have hfull := room_full hwidth
  set w := room x.digits 9
  obtain ⟨more, hmore⟩ : ∃ more, x.places = w + 1 + maxScale + more := Nat.exists_eq_add_of_le (by omega)
  apply nearest?_of_large hx.pos
  apply le_halfEven (Nat.mul_pos hx.pos (tenPow_pos _))
  calc capacity * (d * tenPow maxScale)
      ≤ x.digits * tenPow (w + 1) * (d * tenPow maxScale) := Nat.mul_le_mul_right _ hfull
    _ ≤ x.digits * tenPow (w + 1) * (d * tenPow maxScale) * tenPow more := Nat.le_mul_of_pos_right _ (tenPow_pos _)
    _ = x.digits * d * tenPow x.places := by
      rw [hmore, tenPow_add (w + 1 + maxScale), tenPow_add (w + 1)]
      ring
    _ ≤ (x.digits * d + x.rest) * tenPow x.places := Nat.mul_le_mul_right _ (Nat.le_add_right _ _)
    _ = n := hx.total

/-- Digits that a step has brought beyond the capacity have room again without the last one, if that stands behind the
point. -/
theorem halfEven_further_lt (hx : x.Divides n d) (hroom : x.digits < capacity) (hstep : x.width ≠ 0)
    (hplaces : (x.further d x.width).places < maxScale) :
    halfEven ((x.further d x.width).digits * d + (x.further d x.width).rest) (d * 10) < capacity := by
  have hplaces : x.places - x.width < maxScale := hplaces
  have hmax : maxScale = 28 := rfl
  have hrest : x.rest ≠ 0 := by
    intro hrest
    rw [width, if_pos hrest] at hplaces hstep
    omega
  have hwidth : x.width = room x.digits (min 9 x.places) := by rw [width, if_neg hrest]
  have hle : x.width ≤ 9 := hwidth ▸ (room_le _ _).trans (Nat.min_le_left _ _)
  have hfits : x.digits * tenPow x.width < capacity := hwidth ▸ room_fits hroom _
  -- what was left brings less than a unit of the digits before
  have hbrought : x.rest * tenPow x.width ≤ d * 1000000000 :=
    Nat.mul_le_mul hx.rest_lt.le (Nat.pow_le_pow_right (by decide) hle)
  have htotal : (x.digits * d + x.rest) * tenPow x.width ≤ (capacity - 1) * (d * 10) := by
    have hdigits : x.digits * tenPow x.width * d ≤ (capacity - 1) * d :=
      Nat.mul_le_mul_right _ (Nat.le_sub_one_of_lt hfits)
    have hsum : (x.digits * d + x.rest) * tenPow x.width = x.digits * tenPow x.width * d + x.rest * tenPow x.width := by
      ring
    simp only [capacity] at hdigits ⊢
    omega
  have hround := halfEven_le (Nat.mul_pos hx.pos (by decide : 0 < 10)) htotal
  rw [total_further]
  simp only [capacity] at hround ⊢
  omega

/-- **A long division finds the nearest decimal**, and overflows where there is none, unless nothing is left early: then
it is exact. -/
theorem run?_eq (negative : Bool) (hx : x.Divides n d) (hroom : x.digits < capacity) :
    x.run? negative d = nearest? negative n d maxScale ∨
      ∃ v, x.run? negative d = some v ∧ v.negative = negative ∧ v.mantissa * (d * tenPow (maxScale - v.scale)) = n := by
  fun_induction run? negative d x with
  | case1 x h => exact .inl (nearest?_of_overflow hx h).symm
  | case2 x h hwidth =>
    have hplaces : x.places ≤ maxScale := by omega
    by_cases hrest : x.rest = 0
    · exact .inr (round?_of_rest_eq_zero hx hroom hplaces hrest)
    · refine .inl (round?_eq hx hroom hplaces fun hne => ?_)
      rw [width, if_neg hrest] at hwidth
      have hfull := room_full (q := x.digits) (p := min 9 x.places) (by omega)
      rwa [hwidth] at hfull
  | case3 x h hwidth hdigits ih => exact ih (hx.further x.width_le) hdigits
  | case4 x h hwidth hdigits =>
    have hy := hx.further x.width_le
    have hlarge : capacity * d ≤ (x.further d x.width).digits * d + (x.further d x.width).rest :=
      (Nat.mul_le_mul_right d (Nat.le_of_not_lt hdigits)).trans (Nat.le_add_right _ _)
    exact .inl (roundLast?_eq hy (le_halfEven hx.pos hlarge) (halfEven_further_lt hx hroom hwidth))

/-- Whatever is found is rounded at its own scale. -/
theorem run?_eq_some (hx : x.Divides n d) (hroom : x.digits < capacity) {v : Decimal} (h : x.run? negative d = some v) :
    v.negative = negative ∧ v.mantissa = halfEven n (d * tenPow (maxScale - v.scale)) := by
  rcases run?_eq negative hx hroom with hnearest | ⟨w, hw, hnegative, htotal⟩
  · rw [hnearest] at h
    obtain ⟨hnegative, -, hmantissa⟩ := nearest?_eq_some h
    exact ⟨hnegative, hmantissa⟩
  · obtain rfl : w = v := Option.some.inj (hw.symm.trans h)
    have hmul := halfEven_mul_right w.mantissa 1 (Nat.mul_pos hx.pos (tenPow_pos (maxScale - w.scale)))
    rw [htotal, Nat.one_mul, halfEven_one] at hmul
    exact ⟨hnegative, hmul.symm⟩

end End

end LongDivision

/-! ## Quotients -/

section Quotient

variable {a b a' b' : Decimal}

theorem dropBlock_equiv (width : Nat) (d : Decimal) : dropBlock width d ≈ d := by
  unfold dropBlock
  split
  case isTrue h =>
    refine equiv_of_parts rfl ?_
    have hsplit : tenPow d.scale = tenPow width * tenPow (d.scale - width) := by
      rw [← tenPow_add, Nat.add_sub_cancel' h.1]
    have hdiv : d.mantissa / tenPow width * tenPow width = d.mantissa :=
      Nat.div_mul_cancel (Nat.dvd_of_mod_eq_zero h.2)
    show d.mantissa / tenPow width * tenPow d.scale = d.mantissa * tenPow (d.scale - width)
    rw [hsplit, ← Nat.mul_assoc, hdiv]
  case isFalse => exact equiv_refl d

theorem dropOctet_equiv (d : Decimal) : dropOctet d ≈ d := by
  unfold dropOctet
  split
  · exact dropBlock_equiv 8 d
  · exact equiv_refl d

theorem shorten_equiv (d : Decimal) : shorten d ≈ d :=
  equiv_trans (dropBlock_equiv 1 _) <| equiv_trans (dropBlock_equiv 2 _) <| equiv_trans (dropBlock_equiv 4 _) <|
    equiv_trans (dropOctet_equiv _) <| equiv_trans (dropOctet_equiv _) (dropOctet_equiv d)

/-- The digits behind the point that a quotient may have. -/
def quotientPlaces (a b : Decimal) : Nat := maxScale + b.scale - a.scale

theorem tenPow_quotientPlaces (a b : Decimal) :
    tenPow (quotientPlaces a b) * tenPow a.scale = tenPow maxScale * tenPow b.scale := by
  have := a.scale_le
  rw [← tenPow_add, ← tenPow_add, quotientPlaces, Nat.sub_add_cancel (by omega)]

/-- The quotient of two decimals, rounded without regard to digits that end early. -/
def nearestQuotient? (a b : Decimal) : Option Decimal :=
  nearest? (a.negative != b.negative) (a.mantissa * tenPow (quotientPlaces a b)) b.mantissa maxScale

/-- The quotient of two decimals by long division, with the zeros at its end. -/
def longQuotient? (a b : Decimal) : Option Decimal :=
  LongDivision.run? (a.negative != b.negative) b.mantissa
    ⟨a.mantissa / b.mantissa, a.mantissa % b.mantissa, quotientPlaces a b⟩

theorem mantissa_pos (ha : ¬ a.isZero = true) : 0 < a.mantissa := by
  rw [isZero_iff_mantissa] at ha
  omega

/-- A division begins with the whole quotient and its remainder. -/
theorem divides_start (a : Decimal) (hb : ¬ b.isZero = true) :
    LongDivision.Divides (a.mantissa * tenPow (quotientPlaces a b)) b.mantissa
      ⟨a.mantissa / b.mantissa, a.mantissa % b.mantissa, quotientPlaces a b⟩ where
  rest_lt := Nat.mod_lt _ (mantissa_pos hb)
  total := by
    show (a.mantissa / b.mantissa * b.mantissa + a.mantissa % b.mantissa) * _ = _
    rw [Nat.div_add_mod' a.mantissa b.mantissa]

theorem digits_start_lt (a b : Decimal) : a.mantissa / b.mantissa < capacity :=
  (Nat.div_le_self _ _).trans_lt a.mantissa_lt

/-- Zeros at the end apart, a quotient is what long division finds. -/
theorem div?_eq (ha : ¬ a.isZero = true) (hb : ¬ b.isZero = true) :
    a.div? b = longQuotient? a b ∨ a.div? b = (longQuotient? a b).map shorten := by
  rw [div?, if_neg hb, if_neg ha]
  dsimp only
  split
  · exact .inl rfl
  · exact .inr rfl

/-- A decimal that is the quotient is what rounding finds. -/
theorem agree_nearest?_of_exact {n d : Nat} (hd : 0 < d) {v : Decimal}
    (h : v.mantissa * (d * tenPow (maxScale - v.scale)) = n) : Agree (some v) (nearest? v.negative n d maxScale) := by
  have hwhole : nearest? v.negative n d maxScale =
      nearest? v.negative (v.mantissa * tenPow (maxScale - v.scale)) 1 maxScale := by
    apply nearest?_quotient hd Nat.one_pos
    rw [Nat.mul_one, ← h]
    ring
  rw [hwhole, show some v = nearest? v.negative v.mantissa 1 v.scale from
    (nearest?_of_fits v.mantissa_lt v.scale_le).symm]
  apply nearest?_congr
  rw [Nat.mul_assoc, ← tenPow_add, Nat.sub_add_cancel v.scale_le]

theorem longQuotient?_agree_nearest? (hb : ¬ b.isZero = true) :
    Agree (longQuotient? a b) (nearestQuotient? a b) := by
  rcases LongDivision.run?_eq (a.negative != b.negative) (divides_start a hb) (digits_start_lt a b) with
    hnearest | ⟨v, hv, hnegative, htotal⟩
  · exact Agree.of_eq hnearest
  · have hagree := agree_nearest?_of_exact (mantissa_pos hb) htotal
    rw [hnegative, ← hv] at hagree
    exact hagree

/-- **A quotient is the nearest decimal**, whether its digits end early or not. -/
theorem div?_agree_nearest? (ha : ¬ a.isZero = true) (hb : ¬ b.isZero = true) :
    Agree (a.div? b) (nearestQuotient? a b) := by
  have hlong := longQuotient?_agree_nearest? (a := a) hb
  rcases div?_eq ha hb with h | h
  · rwa [h]
  · rw [h]
    exact (Agree.map shorten_equiv _).trans hlong

theorem nearestQuotient?_congr (ha : a ≈ a') (hb : b ≈ b') (hza : ¬ a.isZero = true) (hzb : ¬ b.isZero = true) :
    nearestQuotient? a b = nearestQuotient? a' b' := by
  rw [nearestQuotient?, nearestQuotient?, negative_congr ha hza, negative_congr hb hzb]
  apply nearest?_quotient (mantissa_pos hzb) (mantissa_pos (isZero_congr hb ▸ hzb))
  have hma := mantissa_congr ha
  have hmb := mantissa_congr hb
  have hp := tenPow_quotientPlaces a b
  have hp' := tenPow_quotientPlaces a' b'
  -- both sides times the powers of ten of the operands' scales
  apply Nat.eq_of_mul_eq_mul_right (Nat.mul_pos (tenPow_pos a.scale) (tenPow_pos a'.scale))
  calc a.mantissa * tenPow (quotientPlaces a b) * b'.mantissa * (tenPow a.scale * tenPow a'.scale)
      = a.mantissa * tenPow a'.scale * (tenPow (quotientPlaces a b) * tenPow a.scale) * b'.mantissa := by ring
    _ = a'.mantissa * tenPow a.scale * tenPow maxScale * (b'.mantissa * tenPow b.scale) := by rw [hma, hp]; ring
    _ = a'.mantissa * tenPow a.scale * tenPow maxScale * (b.mantissa * tenPow b'.scale) := by rw [hmb]
    _ = a'.mantissa * tenPow a.scale * (tenPow (quotientPlaces a' b') * tenPow a'.scale) * b.mantissa := by
      rw [hp']; ring
    _ = a'.mantissa * tenPow (quotientPlaces a' b') * b.mantissa * (tenPow a.scale * tenPow a'.scale) := by ring

/-- **Quotients depend on values only.** -/
theorem div?_congr (ha : a ≈ a') (hb : b ≈ b') : Agree (a.div? b) (a'.div? b') := by
  have hza := isZero_congr ha
  have hzb := isZero_congr hb
  by_cases hw : b.isZero = true
  · rw [div?, div?, if_pos hw, if_pos (hzb ▸ hw)]
    exact .none
  · have hw' : ¬ b'.isZero = true := by rwa [← hzb]
    by_cases hz : a.isZero = true
    · rw [div?, div?, if_neg hw, if_neg hw', if_pos hz, if_pos (hza ▸ hz)]
      exact Agree.refl _
    · have hround := nearestQuotient?_congr ha hb hz hw
      have h := div?_agree_nearest? hz hw
      rw [hround] at h
      exact h.trans (div?_agree_nearest? (hza ▸ hz) hw').symm

end Quotient

end Decimal

end Listwise
