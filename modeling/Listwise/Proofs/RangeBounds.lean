import Listwise.Proofs.RangeSteps

/-!
# How far a range goes

A step may be rounded, but it always raises the integer part.  So the numbers of a range increase, and there is at
most one of them for each integer between the ends: the limits for the ends of ranges are limits for their sizes.

* `lt_of_add?_one`: a step goes up.
* `Steps.between`, `Steps.increasing`, `Steps.length_le`: what follows for all steps of a range.
* `ranges_stay_within_limits`: the elements of a range as it is written.
-/

namespace Listwise

namespace Decimal

section Steps

variable {upper d e : Decimal} {ds : List Decimal}

theorem lt_of_add?_one (h : d.add? 1 = some e) : d < e := lt_of_floor_lt (floor_lt_of_add?_one h)

theorem floor_mono (h : d ≤ e) : d.floor ≤ e.floor := by
  rw [floor_eq, floor_eq]
  exact Int.floor_le_floor (le_iff.mp h)

theorem Steps.head?_eq (h : Steps upper d ds) (hd : d ≤ upper) : ds.head? = some d := by
  cases h with
  | past hpast => exact absurd hd (not_le_iff.mpr hpast)
  | step _ _ _ => rfl

theorem Steps.between (h : Steps upper d ds) : ∀ x ∈ ds, d ≤ x ∧ x ≤ upper := by
  induction h with
  | past _ => exact List.forall_mem_nil _
  | @step d e ds hd hnext hrest ih =>
    have hup := (lt_iff.mp (lt_of_add?_one hnext)).le
    refine List.forall_mem_cons.mpr ⟨⟨le_iff.mpr le_rfl, hd⟩, fun x hx => ?_⟩
    obtain ⟨hex, hxu⟩ := ih x hx
    exact ⟨le_iff.mpr (hup.trans (le_iff.mp hex)), hxu⟩

theorem Steps.increasing (h : Steps upper d ds) : ds.Pairwise (· < ·) := by
  induction h with
  | past _ => exact .nil
  | @step d e ds hd hnext hrest ih =>
    refine .cons (fun x hx => ?_) ih
    have hup := lt_iff.mp (lt_of_add?_one hnext)
    exact lt_iff.mpr (hup.trans_le (le_iff.mp (hrest.between x hx).1))

/-- There is at most one number for each integer part. -/
theorem Steps.length_le (h : Steps upper d ds) : ds.length ≤ (upper.floor - d.floor + 1).toNat := by
  induction h with
  | past _ => exact Nat.zero_le _
  | @step d e ds hd hnext hrest ih =>
    have hfloor := floor_lt_of_add?_one hnext
    have hupper := floor_mono hd
    rw [List.length_cons]
    omega

end Steps

end Decimal

namespace RangeLimits

theorem ofBounds?_of_le {low high : Int64} (h : low ≤ high) : ofBounds? low high = some ⟨low, high, h⟩ :=
  dif_pos h

theorem floor_of_admits {limits : RangeLimits} {d : Decimal} (h : limits.admits d = true) :
    limits.low.toInt ≤ d.floor ∧ d.floor ≤ limits.high.toInt := by
  obtain ⟨hlow, hhigh⟩ := (admits_iff limits d).mp h
  rw [Decimal.floor_eq]
  refine ⟨Int.le_floor.mpr hlow, ?_⟩
  have hfloor := Int.floor_le_floor hhigh
  rwa [Int.floor_intCast] at hfloor

end RangeLimits

namespace Written

/-- **A range stays within the limits and so does its size.**  Two machine integers in order are limits, and a range
whose written ends lie within them always has elements, without an overflow: the steps from its start, which come to an
end.  They increase, begin with the start unless it is above the end, lie between start and end and so within the
limits, and there are no more of them than there are integers within the limits. -/
theorem ranges_stay_within_limits {low high : Int64} (horder : low ≤ high) :
    ∃ limits, RangeLimits.ofBounds? low high = some limits ∧
      ∀ (line : Nat) (es : Elements) (a b : Decimal), es.HasEnds limits line a b →
        ∃ ds : List Decimal, es.values limits line = .ok (ds.map .number) ∧ Decimal.Steps b a ds ∧
          ds.Pairwise (· < ·) ∧ (a ≤ b → ds.head? = some a) ∧
          (∀ d ∈ ds, a ≤ d ∧ d ≤ b ∧ (low.toInt : ℚ) ≤ d.toRat ∧ d.toRat ≤ high.toInt) ∧
          (ds.length : ℤ) ≤ high.toInt - low.toInt + 1 := by
  refine ⟨⟨low, high, horder⟩, RangeLimits.ofBounds?_of_le horder, fun line es a b hends => ?_⟩
  obtain ⟨ha, hb⟩ := hends.admits
  have hupper : b.toRat ≤ 2 ^ 64 :=
    (le_abs_self b.toRat).trans ((RangeLimits.abs_toRat_of_admits hb).trans (by norm_num))
  obtain ⟨ds, hds, hsteps⟩ := Decimal.exists_range? a hupper
  refine ⟨ds, ?_, hsteps, hsteps.increasing, hsteps.head?_eq, fun d hd => ?_, ?_⟩
  · rw [hends.values_eq, rangeValues, hds]
  · obtain ⟨had, hdb⟩ := hsteps.between d hd
    refine ⟨had, hdb, ?_, ?_⟩
    · exact ((RangeLimits.admits_iff _ a).mp ha).1.trans (Decimal.le_iff.mp had)
    · exact (Decimal.le_iff.mp hdb).trans ((RangeLimits.admits_iff _ b).mp hb).2
  · have hlength := hsteps.length_le
    have hlow := (RangeLimits.floor_of_admits ha).1
    have hhigh := (RangeLimits.floor_of_admits hb).2
    have hlimits := Int64.le_iff_toInt_le.mp horder
    dsimp only at hlow hhigh
    omega

/-- A range whose first step is rounded, within limits of three integers. -/
theorem ranges_stay_within_limits_rounded :
    let es := Elements.above "7.0000000000000000000000000005"
    let limits : RangeLimits := ⟨6, 8, by decide⟩
    let a : Decimal := ⟨false, 70000000000000000000000000005, 28, by decide, by decide⟩
    (6 : Int64) ≤ 8 ∧ es.HasEnds limits 1 a limits.upper ∧
      ∃ ds : List Decimal, es.values limits 1 = .ok (ds.map .number) ∧ ds.Pairwise (· < ·) ∧
        ds.head? = some a ∧ ds.length ≤ 3 := by
  intro es limits a
  have horder : (6 : Int64) ≤ 8 := by decide
  have hends : es.HasEnds limits 1 a limits.upper := ⟨by decide +kernel, rfl⟩
  obtain ⟨limits', hlimits, hall⟩ := ranges_stay_within_limits horder
  rw [RangeLimits.ofBounds?_of_le horder, Option.some_inj] at hlimits
  subst hlimits
  obtain ⟨ds, hvalues, -, hincreasing, hhead, -, hlength⟩ := hall 1 es a limits.upper hends
  refine ⟨horder, hends, ds, hvalues, hincreasing, hhead (by decide +kernel), ?_⟩
  have hcount : (8 : Int64).toInt - (6 : Int64).toInt + 1 = 3 := by decide
  rw [hcount] at hlength
  exact_mod_cast hlength

end Written

end Listwise
