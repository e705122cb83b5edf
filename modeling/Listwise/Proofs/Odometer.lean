import Mathlib.Algebra.BigOperators.Group.List.Basic
import Mathlib.Data.List.Nodup
import Listwise.Comprehension

/-!
# The odometer passes every combination once

* `visited ws`: the states of the odometer from `ws` on, each made from the one before by `advance`.
* `stops ss`: all states over the sources `ss`, in lexicographic order.
* `ahead ws`: the part of `stops` that begins with `ws`, by recursion on the wheels.  It is what relates the
  counter to the combinations that were passed already: a step takes its first state off (`ahead_of_advance`).
* `visited_eq_stops`: started at the first positions, the odometer passes all states, in this order; there are
  as many as the product of the sizes (`length_stops`), and no two are the same (`nodup_stops`).
-/

namespace Listwise

/-! ## Definitions -/

/-- The states of the odometer from the current one on. -/
def visited (ws : List Wheel) : List (List Wheel) :=
  match _h : advance ws with
  | (true, ws') => ws :: visited ws'
  | (false, _) => [ws]
termination_by remaining ws
decreasing_by exact remaining_advance_lt _h

/-- A source at each of its positions. -/
def Source.wheels (s : Source) : List Wheel := (List.finRange s.values.size).map fun i => ⟨s, i⟩

/-- The wheel at each of the positions that follow. -/
def Wheel.later (w : Wheel) : List Wheel := w.wheels.drop (w.position.val + 1)

/-- All states of the odometer over some sources, the first wheel slowest. -/
def stops : List Source → List (List Wheel)
  | [] => [[]]
  | s :: ss => s.wheels.flatMap fun w => (stops ss).map (w :: ·)

/-- The states from the current one on: first those in which the first wheel stays, then those in which it has
moved on and the others run through all their positions. -/
def ahead : List Wheel → List (List Wheel)
  | [] => [[]]
  | w :: ws =>
    (ahead ws).map (w :: ·) ++ w.later.flatMap fun w' => (stops (ws.map Wheel.toSource)).map (w' :: ·)

/-! ## One wheel -/

namespace Source

theorem length_wheels (s : Source) : s.wheels.length = s.values.size := by
  simp [wheels]

theorem nodup_wheels (s : Source) : s.wheels.Nodup := by
  refine (List.nodup_finRange _).map ?_
  intro i j hij
  simpa using hij

theorem toSource_of_mem {s : Source} {w : Wheel} (h : w ∈ s.wheels) : w.toSource = s := by
  obtain ⟨i, -, rfl⟩ := List.mem_map.mp h
  rfl

theorem map_value_wheels (s : Source) : s.wheels.map Wheel.value = s.values.toList := by
  refine List.ext_getElem (by simp [wheels]) ?_
  intro i h₁ h₂
  simp [wheels, Wheel.value]

end Source

namespace Wheel

theorem mem_wheels (w : Wheel) : w ∈ w.wheels :=
  List.mem_map.mpr ⟨w.position, List.mem_finRange _, rfl⟩

theorem wheels_drop (w : Wheel) : w.wheels.drop w.position.val = w :: w.later := by
  have hlt : w.position.val < w.wheels.length := by
    rw [Source.length_wheels]
    exact w.position.isLt
  rw [later, List.drop_eq_getElem_cons hlt]
  simp [Source.wheels]

theorem later_of_next? {w w' : Wheel} (h : w.next? = some w') :
    w'.toSource = w.toSource ∧ w.later = w' :: w'.later := by
  unfold next? at h
  split at h
  case isTrue hlt =>
    cases h
    exact ⟨rfl, wheels_drop ⟨w.toSource, ⟨w.position.val + 1, hlt⟩⟩⟩
  case isFalse => cases h

theorem later_of_next?_none {w : Wheel} (h : w.next? = none) : w.later = [] := by
  unfold next? at h
  split at h
  case isTrue => cases h
  case isFalse hge =>
    rw [later, List.drop_eq_nil_iff, Source.length_wheels]
    omega

theorem wheels_eq_reset_cons (w : Wheel) : w.wheels = w.reset :: w.reset.later :=
  wheels_drop w.reset

end Wheel

/-! ## All wheels -/

/-- From the first positions on, everything is still ahead. -/
theorem ahead_reset (ws : List Wheel) :
    ahead (ws.map Wheel.reset) = stops (ws.map Wheel.toSource) := by
  induction ws with
  | nil => rfl
  | cons w ws ih =>
    have hsrc : (ws.map Wheel.reset).map Wheel.toSource = ws.map Wheel.toSource := by
      simp [Wheel.reset]
    simp only [List.map_cons, ahead, stops, ih, hsrc]
    rw [Wheel.wheels_eq_reset_cons, List.flatMap_cons]

/-- A step takes the current state off those that are ahead; the last step leaves the wheels reset. -/
theorem ahead_of_advance (ws : List Wheel) :
    (∀ ws', advance ws = (true, ws') →
      ws'.map Wheel.toSource = ws.map Wheel.toSource ∧ ahead ws = ws :: ahead ws') ∧
    (∀ ws', advance ws = (false, ws') → ws' = ws.map Wheel.reset ∧ ahead ws = [ws]) := by
  fun_induction advance ws with
  | case1 =>
    refine ⟨fun ws' h => ?_, fun ws' h => ?_⟩ <;> cases h
    exact ⟨rfl, rfl⟩
  | case2 w ws ws₁ hws ih =>
    obtain ⟨hsrc, hahead⟩ := ih.1 ws₁ hws
    refine ⟨fun ws' h => ?_, fun ws' h => ?_⟩ <;> cases h
    refine ⟨by simp [hsrc], ?_⟩
    simp only [ahead, hahead, hsrc, List.map_cons, List.cons_append]
  | case3 w ws ws₁ hws w₁ hw ih =>
    -- the wheels behind `w` have come to their end: they are reset, and `w` moves on
    obtain ⟨hreset, hahead⟩ := ih.2 ws₁ hws
    obtain ⟨hsrc, hlater⟩ := Wheel.later_of_next? hw
    have hsrcs : ws₁.map Wheel.toSource = ws.map Wheel.toSource := by
      simp [hreset, Wheel.reset]
    have hall : ahead ws₁ = stops (ws.map Wheel.toSource) := by
      rw [hreset, ahead_reset]
    refine ⟨fun ws' h => ?_, fun ws' h => ?_⟩ <;> cases h
    refine ⟨by simp [hsrc, hsrcs], ?_⟩
    simp only [ahead, hahead, hlater, hsrcs, hall, List.map_cons, List.map_nil, List.flatMap_cons,
      List.singleton_append]
  | case4 w ws ws₁ hws hw ih =>
    obtain ⟨hreset, hahead⟩ := ih.2 ws₁ hws
    have hlater := Wheel.later_of_next?_none hw
    refine ⟨fun ws' h => ?_, fun ws' h => ?_⟩ <;> cases h
    refine ⟨by simp [hreset], ?_⟩
    simp only [ahead, hahead, hlater, List.map_cons, List.map_nil, List.flatMap_nil, List.append_nil]

theorem visited_eq_ahead (ws : List Wheel) : visited ws = ahead ws := by
  fun_induction visited ws with
  | case1 ws ws' h ih => rw [((ahead_of_advance ws).1 ws' h).2, ih]
  | case2 ws ws' h => rw [((ahead_of_advance ws).2 ws' h).2]

theorem reset_of_first? {ss : List Source} {ws : List Wheel} (h : ss.mapM Wheel.first? = some ws) :
    ws.map Wheel.reset = ws ∧ ws.map Wheel.toSource = ss := by
  induction ss generalizing ws with
  | nil =>
    cases h
    exact ⟨rfl, rfl⟩
  | cons s ss ih =>
    simp only [List.mapM_cons, Option.bind_eq_bind, Option.bind_eq_some_iff, Option.pure_def,
      Option.some.injEq] at h
    obtain ⟨w, hw, ws₁, hws, rfl⟩ := h
    obtain ⟨hreset, hsrc⟩ := ih hws
    unfold Wheel.first? at hw
    split at hw
    case isTrue =>
      cases hw
      exact ⟨by simp [hreset, Wheel.reset], by simp [hsrc]⟩
    case isFalse => cases hw

/-- **The odometer passes all states**, in lexicographic order. -/
theorem visited_eq_stops {ss : List Source} {ws : List Wheel} (h : ss.mapM Wheel.first? = some ws) :
    visited ws = stops ss := by
  obtain ⟨hreset, hsrc⟩ := reset_of_first? h
  rw [visited_eq_ahead, ← hreset, ahead_reset, hsrc]

/-- Without a wheel for one of the sources there is no state at all. -/
theorem stops_eq_nil {ss : List Source} (h : ss.mapM Wheel.first? = none) : stops ss = [] := by
  induction ss with
  | nil => cases h
  | cons s ss ih =>
    rw [stops]
    rcases Nat.eq_zero_or_pos s.values.size with hz | hpos
    · have : s.wheels = [] := by
        rw [← List.length_eq_zero_iff, Source.length_wheels, hz]
      rw [this, List.flatMap_nil]
    · have hnone : ss.mapM Wheel.first? = none := by
        rw [Option.eq_none_iff_forall_ne_some]
        simpa [List.mapM_cons, Wheel.first?, hpos] using h
      simp [ih hnone]

/-- The states are all the ways to give every source a position. -/
theorem mem_stops {ss : List Source} {stop : List Wheel} :
    stop ∈ stops ss ↔ stop.map Wheel.toSource = ss := by
  induction ss generalizing stop with
  | nil => simp [stops]
  | cons s ss ih =>
    simp only [stops, List.mem_flatMap, List.mem_map, ih]
    constructor
    · rintro ⟨w, hw, t, ht, rfl⟩
      rw [List.map_cons, Source.toSource_of_mem hw, ht]
    · intro h
      obtain ⟨w, t, rfl, hw, ht⟩ := List.map_eq_cons_iff.mp h
      exact ⟨w, hw ▸ Wheel.mem_wheels w, t, ht, rfl⟩

theorem length_stops (ss : List Source) :
    (stops ss).length = (ss.map (·.values.size)).prod := by
  induction ss with
  | nil => rfl
  | cons s ss ih =>
    simp [stops, List.length_flatMap, Source.length_wheels, ih]

theorem nodup_stops (ss : List Source) : (stops ss).Nodup := by
  induction ss with
  | nil => simp [stops]
  | cons s ss ih =>
    rw [stops, List.nodup_flatMap]
    constructor
    · intro w _
      exact ih.map (List.cons_injective)
    · refine s.nodup_wheels.imp ?_
      intro w w' hne stop hs hs'
      obtain ⟨t, -, rfl⟩ := List.mem_map.mp hs
      obtain ⟨t', -, ht⟩ := List.mem_map.mp hs'
      exact hne (List.cons_eq_cons.mp ht).1.symm

end Listwise
