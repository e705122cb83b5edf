import Listwise.Statement
import Listwise.Proofs.DecimalRounding
import Listwise.Proofs.Results

/-!
# The steps of a range

A range goes up in sums of one, and a sum is rounded where its digits find no room.  So a range is `a`, `a + 1`, `a + 2`, …
exactly as long as these numbers are decimals; from there on it loses digits of the fraction of `a`.

* `floor_lt_of_add?_one`, `exists_add?_one`: a step raises the integer part, rounded or not, and does not overflow.
* `Decimal.Steps upper d ds`: `ds` is what the steps from `d` up to `upper` come to.
* `exists_range?`: the room that a range is given is enough for all of its steps.
* `unitSteps`, `Steps.map_toRat_iff`: the numbers `lower`, `lower + 1`, …, and when the steps are these.
* `ranges_step_by_one`: the elements of a range as it is written.
-/

namespace Listwise

namespace Decimal

/-! ## One step -/

section Step

variable {d e : Decimal}

@[simp] theorem toRat_one : (1 : Decimal).toRat = 1 := by
  have hcoefficient : (1 : Decimal).coefficient = 1 := rfl
  have hscale : tenPow (1 : Decimal).scale = 1 := rfl
  rw [toRat, hcoefficient, hscale]
  norm_num

/-- A step does not overflow below `2 ^ 64`. -/
theorem exists_add?_one (h : d.toRat ≤ 2 ^ 64) : ∃ e, d.add? 1 = some e := by
  by_cases hd : d.isZero = true
  · exact ⟨1, by rw [add?, if_pos hd]⟩
  have hsize : |d.toRat + 1| ≤ ((max (2 ^ 64 + 1) d.mantissa : ℕ) : ℚ) := by
    -- from below, the sum is closer to zero than `d`
    have hlow : -(d.mantissa : ℚ) ≤ d.toRat := by
      have habs : |d.toRat| ≤ d.mantissa := by
        rw [abs_toRat]
        exact div_le_self (Nat.cast_nonneg _) (by exact_mod_cast tenPow_pos d.scale)
      linarith [neg_abs_le d.toRat]
    have hmantissa : (d.mantissa : ℚ) ≤ (max (2 ^ 64 + 1) d.mantissa : ℕ) := by exact_mod_cast le_max_right _ _
    have hword : (2 ^ 64 + 1 : ℚ) ≤ (max (2 ^ 64 + 1) d.mantissa : ℕ) := by exact_mod_cast le_max_left _ _
    rw [abs_le]
    constructor <;> linarith
  have hfits : max (2 ^ 64 + 1) d.mantissa < capacity := max_lt (by decide) d.mantissa_lt
  rw [add?_of_nonzero hd (by decide)]
  apply exists_nearest? Nat.one_pos hfits
  rw [← toRat_one, ← sumCoefficient_div, abs_div, abs_of_pos (cast_tenPow_pos _), div_le_iff₀ (cast_tenPow_pos _)] at hsize
  rw [Nat.one_mul]
  zify
  exact_mod_cast hsize

/-- A step raises the integer part, even if it is rounded. -/
theorem floor_lt_of_add?_one (h : d.add? 1 = some e) : d.floor < e.floor := by
  rw [floor_eq, floor_eq, Int.lt_iff_add_one_le, Int.le_floor]
  apply le_of_add?_eq_some h
  push_cast
  rw [toRat_one]
  linarith [Int.floor_le d.toRat]

end Step

/-! ## All steps -/

/-- The numbers from one decimal up to `upper`, each the one before plus one, as it is rounded. -/
inductive Steps (upper : Decimal) : Decimal → List Decimal → Prop where
  | past {d : Decimal} (h : upper < d) : Steps upper d []
  | step {d e : Decimal} {ds : List Decimal} (h : d ≤ upper) (hnext : d.add? 1 = some e) (hrest : Steps upper e ds) :
      Steps upper d (d :: ds)

section Steps

variable {upper d : Decimal} {ds : List Decimal}

theorem not_le_iff : ¬ d ≤ upper ↔ upper < d := by
  rw [le_iff, lt_iff, not_le]

theorem lt_of_floor_lt (h : upper.floor < d.floor) : upper < d := by
  rw [floor_eq, floor_eq] at h
  rw [lt_iff]
  exact lt_of_not_ge fun hle => absurd (Int.floor_le_floor hle) (not_le.mpr h)

/-- With room for one number to each integer part, all steps are taken. -/
theorem exists_stepsTo? (hupper : upper.toRat ≤ 2 ^ 64) {room : Nat} (hroom : upper.floor - d.floor < room)
    (seen : List Decimal) : ∃ ds, stepsTo? upper room d seen = some (seen.reverse ++ ds) ∧ Steps upper d ds := by
  induction room generalizing d seen with
  | zero =>
    have hpast : upper < d := lt_of_floor_lt (by omega)
    exact ⟨[], by rw [stepsTo?, List.append_nil], .past hpast⟩
  | succ room ih =>
    by_cases hd : d ≤ upper
    · obtain ⟨e, he⟩ := exists_add?_one ((le_iff.mp hd).trans hupper)
      have hfloor := floor_lt_of_add?_one he
      obtain ⟨ds, hds, hsteps⟩ := ih (d := e) (by omega) (d :: seen)
      refine ⟨d :: ds, ?_, .step hd he hsteps⟩
      rw [stepsTo?, if_pos hd, he]
      dsimp only
      rw [hds, List.reverse_cons, List.append_assoc, List.singleton_append]
    · exact ⟨[], by rw [stepsTo?, if_neg hd, List.append_nil], .past (not_le_iff.mp hd)⟩

theorem exists_range? (lower : Decimal) (hupper : upper.toRat ≤ 2 ^ 64) :
    ∃ ds, range? lower upper = some ds ∧ Steps upper lower ds := by
  have hroom : upper.floor - lower.floor < ((upper.floor - lower.floor + 1).toNat : ℤ) := by omega
  exact exists_stepsTo? hupper hroom []

theorem Steps.eq_nil_iff (h : Steps upper d ds) : ds = [] ↔ upper < d := by
  cases h with
  | past h => exact ⟨fun _ => h, fun _ => rfl⟩
  | step h _ _ => exact ⟨nofun, fun hpast => absurd h (not_le_iff.mpr hpast)⟩

theorem Steps.head_eq (h : Steps upper d ds) {e : Decimal} {es : List Decimal} (hds : ds = e :: es) : e = d := by
  cases h with
  | past _ => cases hds
  | step _ _ _ =>
    cases hds
    rfl

end Steps

/-! ## Steps of exactly one -/

/-- The numbers `lower`, `lower + 1`, …, `lower + ⌊upper - lower⌋`; none if `lower` is above `upper`. -/
def unitSteps (lower upper : ℚ) : List ℚ := (List.range (⌊upper - lower⌋ + 1).toNat).map fun k => lower + (k : ℕ)

/-- The numbers `lower`, `lower + 1`, … up to `upper` are decimals, and the sum behind the last of them is beyond
`upper` as it is rounded. -/
def StepsExactly (lower upper : Decimal) : Prop :=
  ∀ k : ℕ, lower.toRat + k ≤ upper.toRat →
    ∃ d : Decimal, d.toRat = lower.toRat + k ∧ (upper.toRat < lower.toRat + k + 1 → ∀ e ∈ d.add? 1, upper < e)

section Exact

variable {lower upper d e : Decimal} {ds : List Decimal}

theorem unitSteps_of_lt {x y : ℚ} (h : y < x) : unitSteps x y = [] := by
  have hfloor : ⌊y - x⌋ < 0 := Int.floor_lt.mpr (by push_cast; linarith)
  have hnone : (⌊y - x⌋ + 1).toNat = 0 := by omega
  rw [unitSteps, hnone]
  rfl

theorem unitSteps_of_le {x y : ℚ} (h : x ≤ y) : unitSteps x y = x :: unitSteps (x + 1) y := by
  have hfloor : 0 ≤ ⌊y - x⌋ := Int.floor_nonneg.mpr (by linarith)
  have hnext : ⌊y - (x + 1)⌋ = ⌊y - x⌋ - 1 := by
    rw [← Int.floor_sub_one]
    congr 1
    ring
  have hcount : (⌊y - x⌋ + 1).toNat = (⌊y - (x + 1)⌋ + 1).toNat + 1 := by omega
  rw [unitSteps, unitSteps, hcount, List.range_succ_eq_map, List.map_cons, List.map_map, Nat.cast_zero, add_zero]
  refine congrArg (x :: ·) (List.map_congr_left fun k _ => ?_)
  simp only [Function.comp_apply, Nat.succ_eq_add_one, Nat.cast_add, Nat.cast_one]
  ring

theorem stepsExactly_of_lt (h : upper < d) : StepsExactly d upper := by
  intro k hk
  have hk' : (0 : ℚ) ≤ k := Nat.cast_nonneg k
  linarith [lt_iff.mp h]

/-- One step that does not reach the end has to be exact, and so have all others. -/
theorem stepsExactly_step (hnext : d.add? 1 = some e) (h : d.toRat + 1 ≤ upper.toRat) :
    StepsExactly d upper ↔ e.toRat = d.toRat + 1 ∧ StepsExactly e upper := by
  have hshift : e.toRat = d.toRat + 1 → ∀ k : ℕ, d.toRat + (k + 1 : ℕ) = e.toRat + k := by
    intro he k
    rw [he]
    push_cast
    ring
  constructor
  · intro hexact
    obtain ⟨x, hx, -⟩ := hexact 1 (by push_cast; exact h)
    have he : e.toRat = d.toRat + 1 := by
      obtain ⟨y, hy, hyx⟩ := add?_exact (a := d) (b := 1) (c := x) (by rw [hx, toRat_one, Nat.cast_one])
      rw [hnext] at hy
      cases hy
      rw [equiv_iff.mp hyx, hx, Nat.cast_one]
    refine ⟨he, fun k hk => ?_⟩
    rw [← hshift he] at hk ⊢
    exact hexact (k + 1) hk
  · rintro ⟨he, hexact⟩ k hk
    cases k with
    | zero => exact ⟨d, by simp, fun hlast => absurd hlast (by push_cast; linarith)⟩
    | succ k =>
      rw [hshift he] at hk ⊢
      exact hexact k hk

/-- The last step may be rounded, as long as it leads beyond the end. -/
theorem stepsExactly_last (hnext : d.add? 1 = some e) (h : d ≤ upper) (hlast : upper.toRat < d.toRat + 1) :
    StepsExactly d upper ↔ upper < e := by
  constructor
  · intro hexact
    obtain ⟨x, hx, hbeyond⟩ := hexact 0 (by simpa using le_iff.mp h)
    have hagree : Agree (x.add? 1) (d.add? 1) := add?_congr (equiv_iff.mpr (by simpa using hx)) (equiv_refl 1)
    rw [hnext] at hagree
    generalize x.add? 1 = y at hagree hbeyond
    cases hagree with
    | some hy =>
      have hupper := hbeyond (by simpa using hlast) _ rfl
      rwa [lt_iff, equiv_iff.mp hy, ← lt_iff] at hupper
  · intro hupper k hk
    cases k with
    | zero =>
      refine ⟨d, by simp, fun _ e' he' => ?_⟩
      rw [hnext] at he'
      cases he'
      exact hupper
    | succ k =>
      have hk' : (0 : ℚ) ≤ k := Nat.cast_nonneg k
      push_cast at hk
      linarith

/-- **When the steps of a range are exactly one.** -/
theorem Steps.map_toRat_iff (h : Steps upper d ds) :
    ds.map toRat = unitSteps d.toRat upper.toRat ↔ StepsExactly d upper := by
  induction h with
  | past h => exact ⟨fun _ => stepsExactly_of_lt h, fun _ => (unitSteps_of_lt (lt_iff.mp h)).symm⟩
  | @step d e ds h hnext hrest ih =>
    rw [unitSteps_of_le (le_iff.mp h), List.map_cons, List.cons_inj_right]
    by_cases hlast : d.toRat + 1 ≤ upper.toRat
    · rw [stepsExactly_step hnext hlast]
      constructor
      · intro hmap
        -- there is another number, which is the sum
        have he : e.toRat = d.toRat + 1 := by
          rw [unitSteps_of_le hlast] at hmap
          obtain ⟨e', es, hds, he', -⟩ := List.map_eq_cons_iff.mp hmap
          rw [← hrest.head_eq hds, he']
        rw [← he] at hmap
        exact ⟨he, ih.mp hmap⟩
      · rintro ⟨he, hexact⟩
        rw [← he]
        exact ih.mpr hexact
    · rw [not_le] at hlast
      rw [stepsExactly_last hnext h hlast, unitSteps_of_lt hlast, List.map_eq_nil_iff, hrest.eq_nil_iff]

/-- Every number of a range, and the one behind it, is a decimal. -/
theorem stepsExactly_of_forall
    (h : ∀ k : ℕ, lower.toRat + k ≤ upper.toRat + 1 → ∃ d : Decimal, d.toRat = lower.toRat + k) :
    StepsExactly lower upper := by
  intro k hk
  obtain ⟨d, hd⟩ := h k (by linarith)
  obtain ⟨c, hc⟩ := h (k + 1) (by push_cast; linarith)
  refine ⟨d, hd, fun hlast e he => ?_⟩
  have hsum : c.toRat = d.toRat + (1 : Decimal).toRat := by
    rw [hc, hd, toRat_one]
    push_cast
    ring
  obtain ⟨x, hx, hxc⟩ := add?_exact hsum
  rw [hx] at he
  cases he
  rw [lt_iff, equiv_iff.mp hxc, hsum, hd, toRat_one]
  exact hlast

theorem exists_toRat_eq (k : ℕ) (h : |lower.toRat + k| * tenPow lower.scale < capacity) :
    ∃ d : Decimal, d.toRat = lower.toRat + k := by
  set c : ℤ := lower.coefficient + k * tenPow lower.scale with hc
  have hvalue : lower.toRat + k = c / tenPow lower.scale := by
    rw [hc, toRat]
    push_cast
    rw [add_div, mul_div_cancel_right₀ _ (cast_tenPow_ne_zero _)]
  have hsize : c.natAbs < capacity := by
    rw [hvalue, abs_div, abs_of_pos (cast_tenPow_pos _), div_mul_cancel₀ _ (cast_tenPow_ne_zero _)] at h
    zify
    exact_mod_cast h
  refine ⟨⟨c < 0, c.natAbs, lower.scale, hsize, lower.scale_le⟩, ?_⟩
  have hcoefficient : (⟨c < 0, c.natAbs, lower.scale, hsize, lower.scale_le⟩ : Decimal).coefficient = c := by
    simp only [coefficient, decide_eq_true_eq]
    split <;> omega
  rw [toRat, hcoefficient, hvalue]

/-- The digits behind the point find room beside both ends, and so beside all numbers between them. -/
theorem stepsExactly_of_room (h : max |lower.toRat| |upper.toRat + 1| * tenPow lower.scale < capacity) :
    StepsExactly lower upper := by
  apply stepsExactly_of_forall
  intro k hk
  apply exists_toRat_eq
  have hsize : |lower.toRat + k| ≤ max |lower.toRat| |upper.toRat + 1| :=
    abs_le_max_abs_abs (le_add_of_nonneg_right (Nat.cast_nonneg k)) hk
  exact (mul_le_mul_of_nonneg_right hsize (cast_tenPow_pos _).le).trans_lt h

/-- Nine digits behind the point find room beside any machine integer. -/
theorem stepsExactly_of_scale_le (hscale : lower.scale ≤ 9) (hlower : |lower.toRat| ≤ 2 ^ 63)
    (hupper : |upper.toRat| ≤ 2 ^ 63) : StepsExactly lower upper := by
  apply stepsExactly_of_room
  have hnext : |upper.toRat + 1| ≤ 2 ^ 63 + 1 := by
    have := abs_add_le upper.toRat 1
    rw [abs_one] at this
    linarith
  have hsize : max |lower.toRat| |upper.toRat + 1| ≤ 2 ^ 63 + 1 := max_le (by linarith) hnext
  have hpow : (tenPow lower.scale : ℚ) ≤ 10 ^ 9 := by
    have := Nat.pow_le_pow_right (n := 10) (by decide) hscale
    exact_mod_cast this
  calc max |lower.toRat| |upper.toRat + 1| * tenPow lower.scale
      ≤ (2 ^ 63 + 1) * 10 ^ 9 := mul_le_mul hsize hpow (cast_tenPow_pos _).le (by norm_num)
    _ < capacity := by norm_num [capacity]

end Exact

end Decimal

/-! ## Ranges as they are written -/

namespace RangeLimits

variable {limits : RangeLimits} {line : Nat} {text : String} {d : Decimal}

theorem admits_iff (limits : RangeLimits) (d : Decimal) :
    limits.admits d = true ↔ (limits.low.toInt : ℚ) ≤ d.toRat ∧ d.toRat ≤ limits.high.toInt := by
  simp only [admits, Bool.and_eq_true, decide_eq_true_eq, Decimal.le_iff, lower, upper, Decimal.toRat_ofInt64]

theorem toInt_low_le (limits : RangeLimits) : (limits.low.toInt : ℚ) ≤ limits.high.toInt := by
  exact_mod_cast Int64.le_iff_toInt_le.mp limits.low_le_high

theorem admits_lower (limits : RangeLimits) : limits.admits limits.lower = true := by
  rw [admits_iff, lower, Decimal.toRat_ofInt64]
  exact ⟨le_refl _, limits.toInt_low_le⟩

theorem admits_upper (limits : RangeLimits) : limits.admits limits.upper = true := by
  rw [admits_iff, upper, Decimal.toRat_ofInt64]
  exact ⟨limits.toInt_low_le, le_refl _⟩

theorem admits_of_readBound (h : limits.readBound line text = .ok d) : limits.admits d = true := by
  obtain ⟨d', -, h⟩ := bind_eq_ok.mp h
  split at h
  · next hadmits =>
    cases h
    exact hadmits
  · cases h

/-- What limits admit is in the range of machine integers. -/
theorem abs_toRat_of_admits (h : limits.admits d = true) : |d.toRat| ≤ 2 ^ 63 := by
  obtain ⟨hlow, hhigh⟩ := (admits_iff limits d).mp h
  have hleast : (-2 ^ 63 : ℚ) ≤ limits.low.toInt := by exact_mod_cast limits.low.le_toInt
  have hgreatest : (limits.high.toInt : ℚ) ≤ 2 ^ 63 := by exact_mod_cast limits.high.toInt_lt.le
  exact abs_le.mpr ⟨hleast.trans hlow, hhigh.trans hgreatest⟩

end RangeLimits

namespace Written

/-- The ends of a range as it is read: the one that is written, and the limit for one that is left out. -/
def Elements.HasEnds (limits : RangeLimits) (line : Nat) (a b : Decimal) : Elements → Prop
  | .listed _ => False
  | .between lower upper => limits.readBound line lower = .ok a ∧ limits.readBound line upper = .ok b
  | .above lower => limits.readBound line lower = .ok a ∧ b = limits.upper
  | .below upper => a = limits.lower ∧ limits.readBound line upper = .ok b

namespace Elements.HasEnds

variable {limits : RangeLimits} {line : Nat} {a b : Decimal} {es : Elements}

theorem values_eq (h : es.HasEnds limits line a b) : es.values limits line = rangeValues line a b := by
  cases es with
  | listed items => exact h.elim
  | between lower upper =>
    rw [values, h.1, h.2]
    rfl
  | above lower =>
    rw [values, h.1, h.2]
    rfl
  | below upper =>
    rw [values, h.1, h.2]
    rfl

theorem admits (h : es.HasEnds limits line a b) : limits.admits a = true ∧ limits.admits b = true := by
  cases es with
  | listed items => exact h.elim
  | between lower upper => exact ⟨RangeLimits.admits_of_readBound h.1, RangeLimits.admits_of_readBound h.2⟩
  | above lower =>
    obtain ⟨ha, rfl⟩ := h
    exact ⟨RangeLimits.admits_of_readBound ha, limits.admits_upper⟩
  | below upper =>
    obtain ⟨rfl, hb⟩ := h
    exact ⟨limits.admits_lower, RangeLimits.admits_of_readBound hb⟩

end Elements.HasEnds

/-- **A range steps by one, as long as its numbers are decimals.**  The range from `a` to `b` always has elements: `a`,
and from there each number plus one, as it is rounded, as long as `b` is not passed.  They are `a`, `a + 1`, …,
`a + ⌊b - a⌋` exactly if these numbers are decimals and the sum behind the last of them is not rounded back to `b`; then
their number is `⌊b - a⌋ + 1`, or none if `a` is above `b`, and all have the fraction of `a`.  It is so if the digits of
`a` behind the point find room beside `a` and beside `b + 1`, and always if `a` has at most nine of them. -/
theorem ranges_step_by_one {limits : RangeLimits} {line : Nat} {a b : Decimal} {es : Elements}
    (hends : es.HasEnds limits line a b) :
    ∃ ds : List Decimal, es.values limits line = .ok (ds.map .number) ∧ Decimal.Steps b a ds ∧
      (ds.map Decimal.toRat = Decimal.unitSteps a.toRat b.toRat ↔ Decimal.StepsExactly a b) ∧
      (Decimal.StepsExactly a b → ds.length = (⌊b.toRat - a.toRat⌋ + 1).toNat ∧
        ∀ d ∈ ds, Int.fract d.toRat = Int.fract a.toRat) ∧
      (max |a.toRat| |b.toRat + 1| * tenPow a.scale < Decimal.capacity → Decimal.StepsExactly a b) ∧
      (a.scale ≤ 9 → Decimal.StepsExactly a b) := by
  have ha := RangeLimits.abs_toRat_of_admits hends.admits.1
  have hb := RangeLimits.abs_toRat_of_admits hends.admits.2
  have hupper : b.toRat ≤ 2 ^ 64 := (le_abs_self b.toRat).trans (hb.trans (by norm_num))
  obtain ⟨ds, hds, hsteps⟩ := Decimal.exists_range? a hupper
  refine ⟨ds, ?_, hsteps, hsteps.map_toRat_iff, fun hexact => ⟨?_, ?_⟩, Decimal.stepsExactly_of_room,
    fun hscale => Decimal.stepsExactly_of_scale_le hscale ha hb⟩
  · rw [hends.values_eq, rangeValues, hds]
  · have hlength := congrArg List.length (hsteps.map_toRat_iff.mpr hexact)
    simpa [Decimal.unitSteps] using hlength
  · intro d hd
    have hmem : d.toRat ∈ Decimal.unitSteps a.toRat b.toRat := by
      rw [← hsteps.map_toRat_iff.mpr hexact]
      exact List.mem_map_of_mem hd
    obtain ⟨k, -, hk⟩ := List.mem_map.mp hmem
    rw [← hk, Int.fract_add_natCast]

/-- A range up to the limit, from a number with a fraction. -/
theorem ranges_step_by_one_open :
    let limits : RangeLimits := ⟨-10, 10, by decide⟩
    let a : Decimal := ⟨false, 725, 2, by decide, by decide⟩
    (Elements.above "7.25").HasEnds limits 1 a limits.upper ∧
      ∃ ds : List Decimal, (Elements.above "7.25").values limits 1 = .ok (ds.map .number) ∧
        ds.map Decimal.toRat = [29 / 4, 33 / 4, 37 / 4] := by
  intro limits a
  have hends : (Elements.above "7.25").HasEnds limits 1 a limits.upper := ⟨by decide +kernel, rfl⟩
  obtain ⟨ds, hvalues, -, hiff, -, -, hscale⟩ := ranges_step_by_one hends
  refine ⟨hends, ds, hvalues, ?_⟩
  have ha : a.toRat = 29 / 4 := by norm_num [a, Decimal.toRat, Decimal.coefficient, tenPow]
  have hb : limits.upper.toRat = 10 := by simp [limits, RangeLimits.upper]
  have hsteps : Decimal.unitSteps (29 / 4) 10 = [29 / 4, 33 / 4, 37 / 4] := by
    have hfloor : ⌊(10 - 29 / 4 : ℚ)⌋ = 2 := by norm_num
    have hcount : (2 + 1 : ℤ).toNat = 3 := rfl
    rw [Decimal.unitSteps, hfloor, hcount]
    norm_num [List.range_succ]
  rw [hiff.mpr (hscale (by decide)), ha, hb, hsteps]

/-- Beyond the room for its digits a range loses the fraction of its start: the sum behind `7.0…05`, with `28` digits
behind the point, is rounded to `8.0…0`, which does not pass `8`. -/
theorem range_loses_fraction :
    let es := Elements.between "7.0000000000000000000000000005" "8"
    let a : Decimal := ⟨false, 70000000000000000000000000005, 28, by decide, by decide⟩
    let b : Decimal := ⟨false, 8, 0, by decide, by decide⟩
    let c : Decimal := ⟨false, 8000000000000000000000000000, 27, by decide, by decide⟩
    es.HasEnds .standard 1 a b ∧ es.values .standard 1 = .ok [.number a, .number c] ∧
      ⌊b.toRat - a.toRat⌋ + 1 = 1 ∧ Int.fract c.toRat ≠ Int.fract a.toRat := by
  intro es a b c
  have ha : a.toRat = 7 + 5 / 10 ^ 28 := by norm_num [a, Decimal.toRat, Decimal.coefficient, tenPow]
  have hb : b.toRat = 8 := by norm_num [b, Decimal.toRat, Decimal.coefficient, tenPow]
  have hc : c.toRat = 8 := by norm_num [c, Decimal.toRat, Decimal.coefficient, tenPow]
  refine ⟨⟨by decide +kernel, by decide +kernel⟩, by decide +kernel, ?_, ?_⟩
  · rw [ha, hb]
    norm_num
  · rw [ha, hc]
    norm_num

end Written

end Listwise
