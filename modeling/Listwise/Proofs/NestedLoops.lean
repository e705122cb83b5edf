import Listwise.Proofs.Odometer

/-!
# Comprehensions as nested loops

The plain reading of a comprehension, with a loop for every binding, and that `Comprehension.run` agrees with it.

* `fault?`: what is wrong with a binding, given those before it.  `target`: the list it runs through.
* `nestedLoops`: one loop inside the other, the first binding outermost; the innermost body yields the value of
  the transform if all predicates hold.
* `nested`: the checks in their order, then the loops.
* `run_eq_nested`: `run` gives the list, or the error, that `nested` gives.
-/

namespace Listwise

/-! ## The plain reading -/

/-- The number that a value is. -/
def Value.number? : Value → Option Decimal
  | .number d => some d
  | .text _ => none

/-- The text that a value is. -/
def Value.text? : Value → Option String
  | .number _ => none
  | .text s => some s

/-- The list that a binding runs through: its own elements if it has any or refers to no list, otherwise the
stored list that it refers to. -/
def Store.target (store : Store) (b : NamedList) : NamedList :=
  if b.elements = [] then (b.reference.bind store.get?).getD b else b

/-- A variable that is bound a second time. -/
def duplicate? (earlier : List NamedList) (b : NamedList) : Option Cause :=
  if b.name ∈ earlier.map (·.name) then some (.duplicateVariable b.name) else none

/-- A reference to a list that is not stored, where the binding has no elements itself. -/
def Store.missing? (store : Store) (b : NamedList) : Option Cause :=
  if b.elements = [] then
    (b.reference.filter fun name => (store.get? name).isNone).map .unknownList
  else none

/-- The first text among the elements of a list. -/
def NamedList.nonNumeric? (l : NamedList) : Option Cause :=
  (l.elements.findSome? Value.text?).map (.nonNumericElement l.name)

/-- What is wrong with a binding that follows the bindings `earlier`. -/
def Store.fault? (store : Store) (earlier : List NamedList) (b : NamedList) : Option Cause :=
  ((duplicate? earlier b).or (store.missing? b)).or (store.target b).nonNumeric?

/-- What is wrong with the first faulty binding among those that follow `earlier`. -/
def Store.firstFault? (store : Store) (earlier : List NamedList) : List NamedList → Option Cause
  | [] => none
  | b :: bs => (store.fault? earlier b).or (store.firstFault? (earlier ++ [b]) bs)

/-- Whether a predicate has a relation, and it holds. -/
def Predicate.holdsIn (σ : Assignment) (p : Predicate) : Bool :=
  p.relation.any fun r => r.holds (σ.value p.operand) p.threshold

namespace Comprehension

/-- The numbers that a loop for each of the variables yields, the first one outermost. -/
def nestedLoops (c : Comprehension) : List (String × List Decimal) → Assignment →
    Except Error (List Decimal)
  | [], σ => do
    if c.predicates.all (·.holdsIn σ) then return [← c.transform.eval σ] else return []
  | (x, values) :: loops, σ => do
    let rows ← values.mapM fun v => c.nestedLoops loops ((x, v) :: σ)
    return rows.flatten

/-- The variables and the numbers they run through. -/
def loops (c : Comprehension) (store : Store) : List (String × List Decimal) :=
  c.bindings.map fun b => (b.name, (store.target b).elements.filterMap Value.number?)

/-- The list that a comprehension defines, by nested loops. -/
def nested (c : Comprehension) (store : Store) : Except Error NamedList :=
  match c.predicates.find? (·.relation.isNone) with
  | some p => .error ⟨.undefinedComparison p.operand, p.line⟩
  | none =>
    if c.bindings = [] then .ok { name := c.result, elements := [] }
    else
      match store.firstFault? [] c.bindings with
      | some cause => .error ⟨cause, c.line⟩
      | none => do
        let found ← c.nestedLoops (c.loops store) []
        return { name := c.result, elements := found.map .number }

end Comprehension

/-! ## Sources -/

section Sources

variable (store : Store) (line : Nat)

theorem NamedList.numbers_eq (l : NamedList) :
    l.numbers line = match l.nonNumeric? with
      | some cause => .error ⟨cause, line⟩
      | none => .ok (l.elements.filterMap Value.number?) := by
  unfold NamedList.numbers NamedList.nonNumeric?
  induction l.elements with
  | nil => rfl
  | cons v vs ih =>
    cases v with
    | text s => rfl
    | number d =>
      rw [List.mapM_cons, ih, List.findSome?_cons_of_isNone rfl]
      cases vs.findSome? Value.text? <;> rfl

theorem Store.resolve_eq (b : NamedList) :
    store.resolve line b = match store.missing? b with
      | some cause => .error ⟨cause, line⟩
      | none => .ok (store.target b) := by
  obtain ⟨name, elements, reference⟩ := b
  unfold Store.resolve Store.missing? Store.target
  cases reference with
  | none => cases elements <;> rfl
  | some ref =>
    cases elements with
    | cons v vs => rfl
    | nil => cases hget : store.get? ref <;> simp [hget, Option.filter]

/-- The sources are those of the loops, unless a binding is faulty: then its fault is the error. -/
theorem Comprehension.sourcesFrom_eq (bs : List NamedList) (earlier : List NamedList)
    (bound : List String) (hbound : ∀ x, x ∈ bound ↔ x ∈ earlier.map (·.name)) :
    sourcesFrom store line bound bs = match store.firstFault? earlier bs with
      | some cause => .error ⟨cause, line⟩
      | none => .ok (bs.map fun b =>
          ⟨b.name, ((store.target b).elements.filterMap Value.number?).toArray⟩) := by
  induction bs generalizing earlier bound with
  | nil => rfl
  | cons b bs ih =>
    rw [sourcesFrom, Store.firstFault?, Store.fault?, duplicate?]
    by_cases hdup : b.name ∈ bound
    · rw [if_pos hdup, if_pos ((hbound _).mp hdup)]
      rfl
    · rw [if_neg hdup, if_neg (fun h => hdup ((hbound _).mpr h)), Store.resolve_eq]
      cases hmiss : store.missing? b with
      | some cause => rfl
      | none =>
        have hbound' : ∀ x, x ∈ b.name :: bound ↔ x ∈ (earlier ++ [b]).map (·.name) := by
          intro x
          simp [hbound x, or_comm]
        simp only [Option.none_or, bind, Except.bind]
        rw [NamedList.numbers_eq]
        cases (store.target b).nonNumeric? with
        | some cause => rfl
        | none =>
          rw [ih _ _ hbound']
          simp only [Option.none_or]
          cases store.firstFault? (earlier ++ [b]) bs <;> rfl

end Sources

/-! ## Loops -/

namespace Predicate

theorem evalEach_eq (σ : Assignment) {ps : List Predicate}
    (h : ∀ p ∈ ps, p.relation ≠ none) :
    evalEach σ ps = .ok (ps.all (·.holdsIn σ)) := by
  induction ps with
  | nil => rfl
  | cons p ps ih =>
    have hps : evalEach σ ps = .ok (ps.all (·.holdsIn σ)) := ih fun q hq => h q (by simp [hq])
    cases hr : p.relation with
    | none => exact absurd hr (h p (by simp))
    | some r =>
      have hp : p.eval σ = .ok (p.holdsIn σ) := by simp [eval, holdsIn, hr]
      rw [evalEach, hp, List.all_cons]
      cases p.holdsIn σ
      · rfl
      · exact hps

theorem evalAll_eq (σ : Assignment) {ps : List Predicate}
    (h : ps.find? (·.relation.isNone) = none) :
    evalAll σ ps = .ok (ps.all (·.holdsIn σ)) := by
  have hdef : ∀ p ∈ ps, p.relation ≠ none := by
    simpa using List.find?_eq_none.mp h
  rw [evalAll, ensureDefined, h, ← evalEach_eq σ hdef]
  rfl

end Predicate

namespace Comprehension

/-- A loop over rows of items, where each row adds its own results, adds the results of all rows. -/
theorem foldlM_rows {α β γ ε : Type} {rows : α → Except ε (List γ)} {items : α → List β}
    {body : List γ → β → Except ε (List γ)}
    (h : ∀ a found, (items a).foldlM body found = do return (← rows a).reverse ++ found)
    (as : List α) (found : List γ) :
    (as.flatMap items).foldlM body found = do return (← as.mapM rows).flatten.reverse ++ found := by
  induction as generalizing found with
  | nil => simp
  | cons a as ih =>
    simp [h, ih]

/-- The loop runs its body on every state that the odometer passes. -/
theorem turn_eq_foldlM (c : Comprehension) (ws : List Wheel) (found : List Decimal) :
    c.turn ws found =
      (visited ws).foldlM (fun found stop => c.visit (assignment stop) found) found := by
  fun_induction visited ws generalizing found with
  | case1 ws ws' h ih =>
    rw [turn, List.foldlM_cons]
    refine bind_congr fun found' => ?_
    rw [← ih]
    split <;> simp_all
  | case2 ws ws' h =>
    rw [turn, List.foldlM_cons]
    refine bind_congr fun found' => ?_
    split <;> simp_all

section Defined

variable {c : Comprehension} (hdef : c.predicates.find? (·.relation.isNone) = none)
include hdef

theorem visit_eq (σ : Assignment) (found : List Decimal) :
    c.visit σ found = do return (← c.nestedLoops [] σ).reverse ++ found := by
  rw [visit, Predicate.evalAll_eq σ hdef, nestedLoops]
  cases c.predicates.all (·.holdsIn σ)
  · rfl
  · show (do return (← c.transform.eval σ) :: found) = _
    simp

/-- The loop over all states, from the sources `ss` on, is as many nested loops. -/
theorem foldlM_stops (ss : List Source) (σ : Assignment) (found : List Decimal) :
    (stops ss).foldlM (fun found stop => c.visit (stop.foldl Wheel.assign σ) found) found =
      do return (← c.nestedLoops (ss.map fun s => (s.var, s.values.toList)) σ).reverse ++ found := by
  induction ss generalizing σ found with
  | nil => simp [stops, visit_eq hdef]
  | cons s ss ih =>
    have hrow : ∀ (w : Wheel) (found : List Decimal),
        ((stops ss).map (w :: ·)).foldlM
            (fun found stop => c.visit (stop.foldl Wheel.assign σ) found) found =
          do return (← c.nestedLoops (ss.map fun s => (s.var, s.values.toList))
            (w.assign σ)).reverse ++ found := by
      intro w found
      rw [List.foldlM_map]
      exact ih (w.assign σ) found
    rw [stops, foldlM_rows hrow, List.map_cons, nestedLoops, ← s.map_value_wheels, Source.wheels]
    simp only [List.mapM_map, bind_assoc, pure_bind]
    rfl

theorem collect_eq (ss : List Source) :
    c.collect ss = c.nestedLoops (ss.map fun s => (s.var, s.values.toList)) [] := by
  have hall := foldlM_stops hdef ss [] []
  unfold collect
  cases hws : ss.mapM Wheel.first? with
  | none =>
    rw [stops_eq_nil hws] at hall
    cases hn : c.nestedLoops (ss.map fun s => (s.var, s.values.toList)) [] with
    | error e => simp [hn, bind, Except.bind, pure, Except.pure] at hall
    | ok ds => simpa [hn, bind, Except.bind, pure, Except.pure] using hall
  | some ws =>
    simp only
    rw [turn_eq_foldlM, visited_eq_stops hws]
    unfold assignment
    rw [hall]
    simp

end Defined

/-! ## The whole run -/

theorem run_eq_nested (c : Comprehension) (store : Store) : c.run store = c.nested store := by
  unfold run nested Predicate.ensureDefined
  cases hdef : c.predicates.find? (·.relation.isNone) with
  | some p => rfl
  | none =>
    by_cases hb : c.bindings = []
    · simp [hb, bind, Except.bind, pure, Except.pure]
    · have hsrc := sourcesFrom_eq store c.line c.bindings [] [] (by simp)
      rw [if_neg hb, if_neg (by simpa using hb), sources, hsrc]
      cases store.firstFault? [] c.bindings with
      | some cause => rfl
      | none =>
        show (do
          let numbers ← c.collect _
          return { name := c.result, elements := numbers.map .number : NamedList }) = _
        rw [collect_eq hdef, List.map_map]
        rfl

theorem run_ok {c : Comprehension} {store : Store} {l : NamedList} (h : c.run store = .ok l) :
    ∃ ds : List Decimal, l = { name := c.result, elements := ds.map .number } := by
  rw [run_eq_nested] at h
  unfold nested at h
  split at h
  · cases h
  · split_ifs at h
    · cases h
      exact ⟨[], rfl⟩
    · split at h
      · cases h
      · cases hn : c.nestedLoops (c.loops store) [] with
        | error e => rw [hn] at h; cases h
        | ok ds =>
          rw [hn] at h
          cases h
          exact ⟨ds, rfl⟩

/-- **A comprehension runs as nested loops.**  It gives the list, or the error, that the nested loops give; a
list that it gives has the name asked for, no reference, and numbers only.  The odometer that stands for the
loops has run its body once on every combination when it ends: as often as the product of the sizes. -/
theorem run_as_nested_loops (c : Comprehension) (store : Store) :
    c.run store = c.nested store ∧
    (∀ l, c.run store = .ok l →
      l.name = c.result ∧ l.reference = none ∧ ∀ v ∈ l.elements, ∃ d, v = .number d) ∧
    ∀ ss ws, c.sources store = .ok ss → ss.mapM Wheel.first? = some ws →
      (∀ found, c.turn ws found =
        (visited ws).foldlM (fun found stop => c.visit (assignment stop) found) found) ∧
      (visited ws).length = (ss.map (·.values.size)).prod ∧ (visited ws).Nodup ∧
      ∀ stop, stop ∈ visited ws ↔ stop.map Wheel.toSource = ss := by
  refine ⟨run_eq_nested c store, fun l hl => ?_, fun ss ws _ hws => ?_⟩
  · obtain ⟨ds, rfl⟩ := run_ok hl
    refine ⟨rfl, rfl, fun v hv => ?_⟩
    obtain ⟨d, -, rfl⟩ := List.mem_map.mp hv
    exact ⟨d, rfl⟩
  · refine ⟨c.turn_eq_foldlM ws, ?_⟩
    rw [visited_eq_stops hws]
    exact ⟨length_stops ss, nodup_stops ss, fun stop => mem_stops⟩

/-- `R = [x + y | x in [0,1], y in Y | y >= 1]` over a stored list `Y = [0,1]`: four combinations, of which two
satisfy the predicate. -/
theorem run_as_nested_loops_two_sources :
    let c : Comprehension :=
      { result := "R"
        bindings := [⟨"x", [.number 0, .number 1], none⟩, ⟨"y", [], some "Y"⟩]
        transform := .binary .add (.var "x" 1) (.var "y" 1) 1
        predicates := [⟨"y", some .ge, 1, 1⟩]
        line := 1 }
    let store : Store := ⟨[⟨"Y", [.number 0, .number 1], none⟩]⟩
    c.run store =
      .ok { name := "R", elements := [.number 1, .number ⟨false, 2, 0, by decide, by decide⟩] } ∧
    ∃ ss ws, c.sources store = .ok ss ∧ ss.mapM Wheel.first? = some ws ∧
      (visited ws).length = 4 := by
  intro c store
  refine ⟨?_, [⟨"x", #[0, 1]⟩, ⟨"y", #[0, 1]⟩], _, rfl, rfl, ?_⟩
  · rw [(run_as_nested_loops c store).1]
    rfl
  · exact ((run_as_nested_loops c store).2.2 _ _ rfl rfl).2.1

end Comprehension

end Listwise
