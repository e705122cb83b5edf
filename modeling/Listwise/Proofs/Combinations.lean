import Listwise.Proofs.NestedLoops
import Listwise.Proofs.Results
import Mathlib.Data.List.Perm.Basic

/-!
# Combinations

The loops of a comprehension pass a list of combinations, each of which yields a number, nothing or an error.  What
a combination yields depends on the values of the variables only, so the order of the bindings is the order of the
combinations and nothing more.

* `assignments`: the combinations in the order of the loops.
* `nestedLoops_eq_ok`, `run_eq_ok`: a run succeeds if all combinations do.
* `perm_assignments`: loops in another order pass the same combinations.
* `reordered_bindings_reorder_result`: bindings in another order give the same numbers.
-/

namespace Listwise

/-! ## Definitions -/

/-- The combinations that nested loops pass, the first loop slowest, each in front of `σ`. -/
def assignments : List (String × List Decimal) → Assignment → List Assignment
  | [], σ => [σ]
  | (x, values) :: loops, σ => values.flatMap fun v => assignments loops ((x, v) :: σ)

/-- The same values for all names. -/
def Assignment.Same (σ τ : Assignment) : Prop := ∀ x, σ.value x = τ.value x

/-! ## Values of variables -/

section Values

variable {σ τ : Assignment}

theorem Assignment.value_cons (x : String) (v : Decimal) (σ : Assignment) (y : String) :
    Assignment.value ((x, v) :: σ) y = if y = x then v else σ.value y := by
  unfold Assignment.value
  rw [List.lookup_cons]
  by_cases h : y = x
  · simp [h]
  · have hb : (y == x) = false := beq_eq_false_iff_ne.mpr h
    rw [if_neg h, hb]

theorem Assignment.Same.cons (h : σ.Same τ) (x : String) (v : Decimal) :
    Assignment.Same ((x, v) :: σ) ((x, v) :: τ) := by
  intro y
  rw [value_cons, value_cons, h y]

/-- Two variables may be given their values in either order. -/
theorem Assignment.same_swap {x y : String} (hne : x ≠ y) (v w : Decimal) (σ : Assignment) :
    Assignment.Same ((x, v) :: (y, w) :: σ) ((y, w) :: (x, v) :: σ) := by
  intro z
  simp only [value_cons]
  by_cases hx : z = x
  · have hy : z ≠ y := fun hy => hne (hx.symm.trans hy)
    rw [if_pos hx, if_neg hy, if_pos hx]
  · rw [if_neg hx, if_neg hx]

theorem eval_congr (h : σ.Same τ) (e : Expr Decimal) : e.eval σ = e.eval τ := by
  induction e with
  | literal v n => rfl
  | var x n => rw [Expr.eval, Expr.eval, h x]
  | group e n ih => rw [Expr.eval, Expr.eval, ih]
  | negate e n ih => rw [Expr.eval, Expr.eval, ih]
  | binary op l r n ihl ihr => rw [Expr.eval, Expr.eval, ihl, ihr]

theorem holdsIn_congr (h : σ.Same τ) (p : Predicate) : p.holdsIn σ = p.holdsIn τ := by
  rw [Predicate.holdsIn, Predicate.holdsIn, h p.operand]

/-- What a combination yields depends on the values of its variables. -/
theorem yield_congr (c : Comprehension) (h : σ.Same τ) : c.nestedLoops [] σ = c.nestedLoops [] τ := by
  simp only [Comprehension.nestedLoops, eval_congr h, holdsIn_congr h]

end Values

/-! ## Success -/

section Success

variable {α β γ ε : Type}

theorem mapM_eq_ok {f : α → Except ε β} {xs : List α} {ys : List β} :
    xs.mapM f = .ok ys ↔ xs.map f = ys.map .ok := by
  induction xs generalizing ys with
  | nil => cases ys <;> simp [pure, Except.pure]
  | cons x xs ih =>
    rw [List.mapM_cons, bind_eq_ok]
    constructor
    · rintro ⟨z, hz, h⟩
      obtain ⟨zs, hzs, h⟩ := bind_eq_ok.mp h
      cases h
      rw [List.map_cons, List.map_cons, hz, ih.mp hzs]
    · intro h
      cases ys with
      | nil => cases h
      | cons z zs =>
        obtain ⟨hz, hzs⟩ := List.cons_eq_cons.mp h
        exact ⟨z, hz, bind_eq_ok.mpr ⟨zs, ih.mpr hzs, rfl⟩⟩

/-- Rows that are found one by one may be found row by row. -/
theorem mapM_flatMap_flatten {f : α → List β} {g : β → Except ε (List γ)} (as : List α) :
    (do return (← (as.flatMap f).mapM g).flatten) =
      (do return (← as.mapM fun a => do return (← (f a).mapM g).flatten).flatten : Except ε (List γ)) := by
  induction as with
  | nil => rfl
  | cons a as ih =>
    rw [List.flatMap_cons, List.mapM_append, List.mapM_cons]
    simp only [bind_assoc, pure_bind, List.flatten_append, List.flatten_cons]
    refine bind_congr fun row => ?_
    calc (do return row.flatten ++ (← (as.flatMap f).mapM g).flatten : Except ε (List γ))
      _ = (row.flatten ++ ·) <$> (do return (← (as.flatMap f).mapM g).flatten) := by simp
      _ = (row.flatten ++ ·) <$> (do return (← as.mapM fun a => do return (← (f a).mapM g).flatten).flatten) := by
        rw [ih]
      _ = _ := by simp

variable {c : Comprehension} {store : Store}

/-- **Nested loops are one loop over the combinations.** -/
theorem nestedLoops_eq (loops : List (String × List Decimal)) (σ : Assignment) :
    c.nestedLoops loops σ = do return (← (assignments loops σ).mapM (c.nestedLoops [])).flatten := by
  induction loops generalizing σ with
  | nil =>
    rw [assignments, List.mapM_cons]
    simp
  | cons loop loops ih =>
    obtain ⟨x, values⟩ := loop
    rw [assignments, mapM_flatMap_flatten, Comprehension.nestedLoops]
    simp only [← ih]

theorem nestedLoops_eq_ok {loops : List (String × List Decimal)} {σ : Assignment} {ds : List Decimal} :
    c.nestedLoops loops σ = .ok ds ↔
      ∃ rows : List (List Decimal), (assignments loops σ).map (c.nestedLoops []) = rows.map .ok ∧ rows.flatten = ds := by
  rw [nestedLoops_eq, bind_eq_ok]
  simp only [mapM_eq_ok]
  refine exists_congr fun rows => and_congr_right fun _ => ?_
  exact ⟨Except.ok.inj, congrArg Except.ok⟩

/-- No binding is faulty if no variable is bound twice, no list is missing and all elements are numbers. -/
theorem firstFault?_eq_none {earlier bs : List NamedList} :
    store.firstFault? earlier bs = none ↔
      (bs.map (·.name)).Nodup ∧ (∀ b ∈ bs, b.name ∉ earlier.map (·.name)) ∧
        ∀ b ∈ bs, store.missing? b = none ∧ (store.target b).nonNumeric? = none := by
  induction bs generalizing earlier with
  | nil => simp [Store.firstFault?]
  | cons b bs ih =>
    have hdup : duplicate? earlier b = none ↔ b.name ∉ earlier.map (·.name) := by
      rw [duplicate?]
      split_ifs with h <;> simp [h]
    have hlater : (∀ x ∈ bs, x.name ∉ (earlier ++ [b]).map (·.name)) ↔
        (∀ x ∈ bs, x.name ∉ earlier.map (·.name)) ∧ b.name ∉ bs.map (·.name) := by
      constructor
      · intro h
        refine ⟨fun x hx hmem => h x hx ?_, fun hmem => ?_⟩
        · rw [List.map_append]
          exact List.mem_append_left _ hmem
        · obtain ⟨x, hx, hname⟩ := List.mem_map.mp hmem
          refine h x hx ?_
          rw [hname, List.map_append]
          exact List.mem_append_right _ List.mem_cons_self
      · rintro ⟨hearlier, hb⟩ x hx hmem
        rw [List.map_append] at hmem
        rcases List.mem_append.mp hmem with hmem | hmem
        · exact hearlier x hx hmem
        · exact hb (List.mem_map.mpr ⟨x, hx, List.mem_singleton.mp hmem⟩)
    rw [Store.firstFault?, Store.fault?]
    simp only [Option.or_eq_none_iff, hdup, ih, hlater, List.map_cons, List.nodup_cons, List.forall_mem_cons]
    tauto

/-- When a run succeeds, and with which list. -/
theorem run_eq_ok {l : NamedList} :
    c.run store = .ok l ↔
      c.predicates.find? (·.relation.isNone) = none ∧
        ∃ ds : List Decimal, l = { name := c.result, elements := ds.map .number } ∧
          ((c.bindings = [] ∧ ds = []) ∨ (c.bindings ≠ [] ∧ store.firstFault? [] c.bindings = none ∧
            c.nestedLoops (c.loops store) [] = .ok ds)) := by
  rw [Comprehension.run_eq_nested, Comprehension.nested]
  cases hdef : c.predicates.find? (·.relation.isNone) with
  | some p => simp
  | none =>
    by_cases hb : c.bindings = []
    · simp [hb, eq_comm]
    · cases hfault : store.firstFault? [] c.bindings with
      | some cause => simp [hb]
      | none =>
        simp only [hb, if_false, bind_eq_ok, true_and, false_and, false_or, ne_eq, not_false_eq_true]
        refine exists_congr fun ds => ?_
        rw [and_comm]
        exact and_congr_left fun _ => ⟨fun h => (Except.ok.inj h).symm, fun h => congrArg Except.ok h.symm⟩

end Success

/-! ## The order of the loops -/

section Order

variable {β : Type} {g : Assignment → β} (hg : ∀ {σ τ : Assignment}, σ.Same τ → g σ = g τ)

theorem perm_flatMap_flatMap {α β γ : Type} (as : List α) (bs : List β) (f : α → β → List γ) :
    (as.flatMap fun a => bs.flatMap fun b => f a b).Perm (bs.flatMap fun b => as.flatMap fun a => f a b) := by
  induction as with
  | nil => simp
  | cons a as ih =>
    simp only [List.flatMap_cons]
    exact (ih.append_left _).trans (List.flatMap_append_perm bs _ _)

include hg

theorem map_assignments_congr (loops : List (String × List Decimal)) {σ τ : Assignment} (h : σ.Same τ) :
    (assignments loops σ).map g = (assignments loops τ).map g := by
  induction loops generalizing σ τ with
  | nil => simp only [assignments, List.map_singleton, hg h]
  | cons loop loops ih =>
    obtain ⟨x, values⟩ := loop
    simp only [assignments, List.map_flatMap]
    refine List.flatMap_congr fun v _ => ih (h.cons x v)

/-- **Loops in another order pass the same combinations.** -/
theorem perm_assignments {loops loops' : List (String × List Decimal)} (h : loops.Perm loops')
    (hnodup : (loops.map Prod.fst).Nodup) (σ : Assignment) :
    ((assignments loops σ).map g).Perm ((assignments loops' σ).map g) := by
  induction h generalizing σ with
  | nil => exact .refl _
  | cons loop _ ih =>
    obtain ⟨x, values⟩ := loop
    simp only [assignments, List.map_flatMap]
    exact List.Perm.flatMap_left values fun v _ => ih (List.nodup_cons.mp hnodup).2 _
  | swap loop loop' loops =>
    obtain ⟨x, vs⟩ := loop
    obtain ⟨y, ws⟩ := loop'
    have hne : x ≠ y := by
      rintro rfl
      exact (List.nodup_cons.mp hnodup).1 List.mem_cons_self
    simp only [assignments, List.map_flatMap]
    refine (perm_flatMap_flatMap ws vs _).trans ?_
    refine List.Perm.flatMap_left vs fun v _ => List.Perm.flatMap_left ws fun w _ => ?_
    rw [map_assignments_congr hg loops (Assignment.same_swap hne v w σ)]
  | trans h₁ _ ih₁ ih₂ => exact (ih₁ hnodup σ).trans (ih₂ ((h₁.map Prod.fst).nodup_iff.mp hnodup) σ)

end Order

/-! ## The order of the bindings -/

section Bindings

variable {c : Comprehension} {store : Store} {bindings : List NamedList}

theorem nestedLoops_of_perm {loops loops' : List (String × List Decimal)} (h : loops.Perm loops')
    (hnodup : (loops.map Prod.fst).Nodup) {σ : Assignment} {ds : List Decimal} (hds : c.nestedLoops loops σ = .ok ds) :
    ∃ ds', c.nestedLoops loops' σ = .ok ds' ∧ ds.Perm ds' := by
  obtain ⟨rows, hrows, rfl⟩ := nestedLoops_eq_ok.mp hds
  have hperm := perm_assignments (yield_congr c) h hnodup σ
  rw [hrows] at hperm
  have hcomp : Relation.Comp (· = List.map Except.ok ·) List.Perm ((assignments loops' σ).map (c.nestedLoops [])) rows := by
    rw [List.eq_map_comp_perm]
    exact hperm.symm
  obtain ⟨rows', hrows', hperm'⟩ := hcomp
  exact ⟨rows'.flatten, nestedLoops_eq_ok.mpr ⟨rows', hrows', rfl⟩, hperm'.symm.flatten⟩

/-- The loops do not look at the bindings they come from. -/
theorem nestedLoops_bindings (loops : List (String × List Decimal)) (σ : Assignment) :
    ({ c with bindings := bindings } : Comprehension).nestedLoops loops σ = c.nestedLoops loops σ := by
  rw [nestedLoops_eq, nestedLoops_eq]
  rfl

theorem run_of_perm (h : c.bindings.Perm bindings) {l : NamedList} (hl : c.run store = .ok l) :
    ∃ l', ({ c with bindings := bindings } : Comprehension).run store = .ok l' ∧ l.elements.Perm l'.elements := by
  obtain ⟨hdef, ds, rfl, hcases⟩ := run_eq_ok.mp hl
  rcases hcases with ⟨hempty, rfl⟩ | ⟨hne, hfault, hloops⟩
  · have hempty' : bindings = [] := (hempty ▸ h).symm.eq_nil
    exact ⟨_, run_eq_ok.mpr ⟨hdef, [], rfl, .inl ⟨hempty', rfl⟩⟩, .refl _⟩
  · have hne' : bindings ≠ [] := fun he => hne (he ▸ h).eq_nil
    obtain ⟨hnodup, -, hfine⟩ := firstFault?_eq_none.mp hfault
    have hfault' : store.firstFault? [] bindings = none := by
      refine firstFault?_eq_none.mpr ⟨(h.map _).nodup_iff.mp hnodup, fun b _ => List.not_mem_nil, ?_⟩
      exact fun b hb => hfine b (h.mem_iff.mpr hb)
    have hvars : ((c.loops store).map Prod.fst).Nodup := by
      rw [Comprehension.loops, List.map_map]
      exact hnodup
    obtain ⟨ds', hds', hperm⟩ := nestedLoops_of_perm (h.map _) hvars hloops
    rw [← nestedLoops_bindings] at hds'
    exact ⟨_, run_eq_ok.mpr ⟨hdef, ds', rfl, .inr ⟨hne', hfault', hds'⟩⟩, hperm.map _⟩

/-- **Bindings in another order give the same numbers in another order.**  A comprehension succeeds whatever the order
of its bindings, or fails whatever their order; if it succeeds, each number is found as often. -/
theorem reordered_bindings_reorder_result (c : Comprehension) (store : Store) {bindings : List NamedList}
    (h : c.bindings.Perm bindings) :
    ((∃ l, c.run store = .ok l) ↔ ∃ l, ({ c with bindings := bindings } : Comprehension).run store = .ok l) ∧
      ∀ l l', c.run store = .ok l → ({ c with bindings := bindings } : Comprehension).run store = .ok l' →
        l.elements.Perm l'.elements := by
  refine ⟨⟨?_, ?_⟩, ?_⟩
  · rintro ⟨l, hl⟩
    obtain ⟨l', hl', -⟩ := run_of_perm h hl
    exact ⟨l', hl'⟩
  · rintro ⟨l', hl'⟩
    obtain ⟨l, hl, -⟩ := run_of_perm (c := { c with bindings := bindings }) h.symm hl'
    exact ⟨l, hl⟩
  · intro l l' hl hl'
    obtain ⟨l₁, hl₁, hperm⟩ := run_of_perm h hl
    rw [hl'] at hl₁
    cases hl₁
    exact hperm

/-- `R = [x | x in [0,1], y in Y | z <= 0]` over a stored list `Y = [0,1]`, and with the bindings in the other order. -/
theorem reordered_bindings_reorder_result_two :
    let x : NamedList := ⟨"x", [.number 0, .number 1], none⟩
    let y : NamedList := ⟨"y", [], some "Y"⟩
    let c : Comprehension :=
      { result := "R", bindings := [x, y], transform := .var "x" 1, predicates := [⟨"z", some .le, 0, 1⟩], line := 1 }
    let store : Store := ⟨[⟨"Y", [.number 0, .number 1], none⟩]⟩
    let l : NamedList := ⟨"R", [.number 0, .number 0, .number 1, .number 1], none⟩
    let l' : NamedList := ⟨"R", [.number 0, .number 1, .number 0, .number 1], none⟩
    [x, y].Perm [y, x] ∧ c.run store = .ok l ∧ ({ c with bindings := [y, x] } : Comprehension).run store = .ok l' ∧
      l.elements.Perm l'.elements := by
  intro x y c store l l'
  have hperm : [x, y].Perm [y, x] := .swap y x []
  have hl : c.run store = .ok l := by
    rw [Comprehension.run_eq_nested]
    rfl
  have hl' : ({ c with bindings := [y, x] } : Comprehension).run store = .ok l' := by
    rw [Comprehension.run_eq_nested]
    rfl
  exact ⟨hperm, hl, hl', (reordered_bindings_reorder_result c store hperm).2 l l' hl hl'⟩

end Bindings

end Listwise
