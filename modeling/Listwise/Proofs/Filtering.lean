import Listwise.Proofs.Combinations

/-!
# Predicates as a filter

Predicates are tried one after the other, and up to the first that does not hold.  Still a run does nothing else than to
evaluate its transform on the combinations that satisfy all of them, in the order in which they are passed.

* `Comprehension.passed`: the combinations that a run passes.  `Predicate.allHold`: what they are filtered by.
* `run_eq_mapM`: what a run comes to, if all predicates are defined and no binding is faulty.
* `predicates_filter_in_any_order`: so the order of the predicates does not matter, nor how often they are written, and
  a further predicate only takes elements away.
-/

namespace Listwise

/-! ## Definitions -/

/-- Whether all of the predicates hold. -/
def Predicate.allHold (ps : List Predicate) (σ : Assignment) : Bool := ps.all (·.holdsIn σ)

namespace Comprehension

/-- The combinations that a run passes, in their order; without bindings there are none. -/
def passed (c : Comprehension) (store : Store) : List Assignment :=
  if c.bindings = [] then [] else assignments (c.loops store) []

/-- The combinations that satisfy the predicates. -/
def kept (c : Comprehension) (store : Store) : List Assignment :=
  (c.passed store).filter (Predicate.allHold c.predicates)

end Comprehension

/-! ## What a run comes to -/

section Runs

variable {α β ε : Type}

/-- Rows of one result or none are the results of what is kept. -/
theorem mapM_filter_flatten (p : α → Bool) (f : α → Except ε β) (xs : List α) :
    (do return (← xs.mapM fun x => do if p x then return [← f x] else return []).flatten) = (xs.filter p).mapM f := by
  induction xs with
  | nil => rfl
  | cons x xs ih =>
    rw [List.mapM_cons, List.filter_cons]
    cases p x with
    | false =>
      rw [if_neg Bool.false_ne_true, if_neg Bool.false_ne_true, ← ih]
      simp
    | true =>
      rw [if_pos rfl, if_pos rfl, List.mapM_cons, ← ih]
      simp

variable {c : Comprehension} {store : Store}

theorem nestedLoops_eq_mapM (loops : List (String × List Decimal)) (σ : Assignment) :
    c.nestedLoops loops σ =
      ((assignments loops σ).filter (Predicate.allHold c.predicates)).mapM fun τ => c.transform.eval τ := by
  rw [nestedLoops_eq, ← mapM_filter_flatten]
  rfl

theorem defined_iff {ps : List Predicate} :
    ps.find? (·.relation.isNone) = none ↔ ∀ p ∈ ps, p.relation ≠ none := by simp

/-- A run filters the combinations, and evaluates the transform on those that are left. -/
theorem run_eq_mapM (hdef : ∀ p ∈ c.predicates, p.relation ≠ none) (hfault : store.firstFault? [] c.bindings = none) :
    c.run store = do
      return { name := c.result, elements := (← (c.kept store).mapM fun σ => c.transform.eval σ).map .number } := by
  rw [Comprehension.run_eq_nested, Comprehension.nested, defined_iff.mpr hdef, hfault, Comprehension.kept, Comprehension.passed]
  dsimp only
  split
  · rfl
  · rw [nestedLoops_eq_mapM]

theorem run_of_fault (hdef : ∀ p ∈ c.predicates, p.relation ≠ none) {cause : Cause}
    (hfault : store.firstFault? [] c.bindings = some cause) : c.run store = .error ⟨cause, c.line⟩ := by
  have hbindings : c.bindings ≠ [] := by
    intro h
    rw [h] at hfault
    cases hfault
  rw [Comprehension.run_eq_nested, Comprehension.nested, defined_iff.mpr hdef, hfault]
  dsimp only
  rw [if_neg hbindings]

theorem run_of_undefined {p : Predicate} (h : c.predicates.find? (·.relation.isNone) = some p) :
    c.run store = .error p.undefined := by
  rw [Comprehension.run_eq_nested, Comprehension.nested, h]
  rfl

/-- A run that succeeds has evaluated the transform on all combinations that satisfy the predicates. -/
theorem kept_of_run_eq_ok {l : NamedList} (h : c.run store = .ok l) :
    (∀ p ∈ c.predicates, p.relation ≠ none) ∧ store.firstFault? [] c.bindings = none ∧
      ∃ ds : List Decimal, (c.kept store).mapM (fun σ => c.transform.eval σ) = .ok ds ∧
        l = { name := c.result, elements := ds.map .number } := by
  have hdef := defined_iff.mp (run_eq_ok.mp h).1
  cases hfault : store.firstFault? [] c.bindings with
  | some cause =>
    rw [run_of_fault hdef hfault] at h
    cases h
  | none =>
    rw [run_eq_mapM hdef hfault] at h
    obtain ⟨ds, hds, h⟩ := bind_eq_ok.mp h
    exact ⟨hdef, rfl, ds, hds, (Except.ok.inj h).symm⟩

end Runs

/-! ## Other predicates -/

section Predicates

variable {c : Comprehension} {store : Store} {ps qs : List Predicate}

/-- The order of predicates does not matter, nor how often they are written. -/
theorem allHold_congr (h : ∀ p, p ∈ ps ↔ p ∈ qs) : Predicate.allHold ps = Predicate.allHold qs := by
  funext σ
  rw [Bool.eq_iff_iff, Predicate.allHold, Predicate.allHold, List.all_eq_true, List.all_eq_true]
  exact forall_congr' fun p => imp_congr_left (h p)

theorem allHold_append (ps qs : List Predicate) (σ : Assignment) :
    Predicate.allHold (ps ++ qs) σ = (Predicate.allHold ps σ && Predicate.allHold qs σ) := List.all_append

/-- Further predicates filter what is left. -/
theorem kept_append (c : Comprehension) (store : Store) (qs : List Predicate) :
    ({ c with predicates := c.predicates ++ qs } : Comprehension).kept store =
      (c.kept store).filter (Predicate.allHold qs) := by
  rw [Comprehension.kept, Comprehension.kept, List.filter_filter]
  refine List.filter_congr fun σ _ => ?_
  rw [allHold_append, Bool.and_comm]

theorem run_predicates_congr (hdef : ∀ p ∈ c.predicates, p.relation ≠ none) (h : ∀ p, p ∈ ps ↔ p ∈ c.predicates) :
    ({ c with predicates := ps } : Comprehension).run store = c.run store := by
  have hdef' : ∀ p ∈ ps, p.relation ≠ none := fun p hp => hdef p ((h p).mp hp)
  have hkept : ({ c with predicates := ps } : Comprehension).kept store = c.kept store := by
    rw [Comprehension.kept, Comprehension.kept, allHold_congr h]
    rfl
  -- a faulty binding is found before any predicate is tried
  cases hfault : store.firstFault? [] c.bindings with
  | some cause =>
    rw [run_of_fault hdef hfault]
    exact run_of_fault (c := { c with predicates := ps }) hdef' hfault
  | none =>
    rw [run_eq_mapM hdef hfault, ← hkept]
    exact run_eq_mapM (c := { c with predicates := ps }) hdef' hfault

end Predicates

/-! ## Elements and where they came from -/

section Elements

variable {α β ε : Type} {f : α → Except ε β} {g : α → β} {xs : List α}

theorem mapM_of_forall (h : ∀ x ∈ xs, f x = .ok (g x)) : xs.mapM f = .ok (xs.map g) := by
  rw [mapM_eq_ok, List.map_map]
  exact List.map_congr_left h

/-- If no result is an error, the results are the values of a function. -/
theorem exists_map_of_mapM [Inhabited β] {ys : List β} (h : xs.mapM f = .ok ys) :
    ∃ g : α → β, (∀ x ∈ xs, f x = .ok (g x)) ∧ ys = xs.map g := by
  rw [mapM_eq_ok] at h
  have hvalue : ∀ x ∈ xs, f x = .ok ((f x).toOption.getD default) := by
    intro x hx
    have hmem : f x ∈ ys.map Except.ok := h ▸ List.mem_map_of_mem hx
    obtain ⟨y, -, hy⟩ := List.mem_map.mp hmem
    rw [← hy]
    rfl
  refine ⟨fun x => (f x).toOption.getD default, hvalue, ?_⟩
  have hmap : ys.map (Except.ok (ε := ε)) = (xs.map fun x => (f x).toOption.getD default).map .ok := by
    rw [← h, List.map_map]
    exact List.map_congr_left hvalue
  exact List.map_injective_iff.mpr (fun _ _ => Except.ok.inj) hmap

end Elements

/-- **Predicates filter, in any order.**  If all predicates are defined, the same predicates in another order, or some of
them more than once, give the same list or the same error.  Further predicates leave of a list the elements that came
from combinations which satisfy them, in their order; they do not make a run fail.  If some predicate is undefined, the
first such one is the error, whatever else the comprehension has. -/
theorem predicates_filter_in_any_order (c : Comprehension) (store : Store) :
    ((∀ p ∈ c.predicates, p.relation ≠ none) →
      (∀ ps : List Predicate, (∀ p, p ∈ ps ↔ p ∈ c.predicates) →
        ({ c with predicates := ps } : Comprehension).run store = c.run store) ∧
      ∀ qs : List Predicate, (∀ q ∈ qs, q.relation ≠ none) → ∀ l, c.run store = .ok l →
        ∃ value : Assignment → Decimal,
          (∀ σ ∈ c.kept store, c.transform.eval σ = .ok (value σ)) ∧
            l.elements = (c.kept store).map (fun σ => .number (value σ)) ∧
            ({ c with predicates := c.predicates ++ qs } : Comprehension).run store =
              .ok { l with elements := ((c.kept store).filter (Predicate.allHold qs)).map fun σ => .number (value σ) }) ∧
    ((∃ p ∈ c.predicates, p.relation = none) →
      ∃ p, c.predicates.find? (·.relation.isNone) = some p ∧ c.run store = .error ⟨.undefinedComparison p.operand, p.line⟩) := by
  refine ⟨fun hdef => ⟨fun ps hps => run_predicates_congr hdef hps, fun qs hqs l hl => ?_⟩, ?_⟩
  · obtain ⟨-, hfault, ds, hds, rfl⟩ := kept_of_run_eq_ok hl
    obtain ⟨value, hvalue, rfl⟩ := exists_map_of_mapM hds
    refine ⟨value, hvalue, by rw [List.map_map]; rfl, ?_⟩
    have hdef' : ∀ p ∈ c.predicates ++ qs, p.relation ≠ none := by
      intro p hp
      exact (List.mem_append.mp hp).elim (hdef p) (hqs p)
    -- what is left was evaluated before, so it cannot fail now
    have hrest : ∀ σ ∈ (c.kept store).filter (Predicate.allHold qs), c.transform.eval σ = .ok (value σ) :=
      fun σ hσ => hvalue σ (List.mem_filter.mp hσ).1
    rw [run_eq_mapM (c := { c with predicates := c.predicates ++ qs }) hdef' hfault, kept_append, mapM_of_forall hrest]
    show Except.ok _ = _
    rw [List.map_map]
    rfl
  · rintro ⟨p, hp, hundefined⟩
    have hfound : (c.predicates.find? (·.relation.isNone)).isSome = true := by
      rw [List.find?_isSome]
      exact ⟨p, hp, by rw [hundefined]; rfl⟩
    obtain ⟨q, hq⟩ := Option.isSome_iff_exists.mp hfound
    exact ⟨q, hq, run_of_undefined hq⟩

/-- `[x + 1 | x in [0,1,2] | x >= 1, x <= 2]`: with its predicates the other way round and one of them twice, with
`x == 2` as well, and with a predicate that has no relation. -/
theorem predicates_filter_in_any_order_three :
    let two : Decimal := ⟨false, 2, 0, by decide, by decide⟩
    let three : Decimal := ⟨false, 3, 0, by decide, by decide⟩
    let low : Predicate := ⟨"x", some .ge, 1, 1⟩
    let high : Predicate := ⟨"x", some .le, two, 1⟩
    let equal : Predicate := ⟨"x", some .eq, two, 1⟩
    let bare : Predicate := ⟨"y", none, 1, 7⟩
    let c : Comprehension :=
      { result := "R", bindings := [⟨"x", [.number 0, .number 1, .number two], none⟩]
        transform := .binary .add (.var "x" 1) (.literal 1 1) 1, predicates := [low, high], line := 1 }
    let l : NamedList := { name := "R", elements := [.number two, .number three] }
    c.run .empty = .ok l ∧
      ({ c with predicates := [high, low, high] } : Comprehension).run .empty = .ok l ∧
      ({ c with predicates := [low, high, equal] } : Comprehension).run .empty =
        .ok { l with elements := [.number three] } ∧
      ({ c with predicates := [low, bare] } : Comprehension).run .empty = .error ⟨.undefinedComparison "y", 7⟩ := by
  intro two three low high equal bare c l
  have hl : c.run .empty = .ok l := by
    rw [Comprehension.run_eq_nested]
    decide +kernel
  have hkept : (c.kept .empty).filter (Predicate.allHold [equal]) = [[("x", two)]] := by decide +kernel
  obtain ⟨horder, hfurther⟩ := (predicates_filter_in_any_order c .empty).1 (by decide +kernel)
  obtain ⟨value, hvalue, -, hrun⟩ := hfurther [equal] (by decide +kernel) l hl
  have hthree : value [("x", two)] = three := by
    have hmem : [("x", two)] ∈ c.kept .empty := by decide +kernel
    have heval : c.transform.eval [("x", two)] = .ok three := by decide +kernel
    exact Except.ok.inj ((hvalue _ hmem).symm.trans heval)
  obtain ⟨p, hp, hundefined⟩ := (predicates_filter_in_any_order { c with predicates := [low, bare] } .empty).2
    ⟨bare, by simp, rfl⟩
  cases hp
  refine ⟨hl, ?_, ?_, hundefined⟩
  · rw [horder [high, low, high] (by simp [c]), hl]
  · rw [hkept, List.map_singleton, hthree] at hrun
    exact hrun

end Listwise
