import Listwise.Proofs.Filtering
import Listwise.Proofs.StoreHistory

/-!
# Intermediate lists

A comprehension over a list that another one has defined takes the values of the other's transform one by one.  It may
as well compute them where it needs them, from the combinations that the other one keeps.

* `Expr.substitute`: an expression with another one in place of a variable.
* `SameUpToText`: the same value, or the same fault on the same line, in whatever expression.
* `eval_substitute`: an expression may take the value of a variable, or what the value was computed from.
* `intermediate_lists_are_transparent`: so a comprehension over a stored result goes as the one that has both transforms.
-/

namespace Listwise

/-! ## Definitions -/

namespace Expr

variable {ν : Type}

/-- The names in an expression, from left to right. -/
def vars : Expr ν → List String
  | .literal _ _ => []
  | .var x _ => [x]
  | .binary _ l r _ => l.vars ++ r.vars
  | .negate e _ => e.vars
  | .group e _ => e.vars

/-- The expression with `f`, in parentheses, for every occurrence of `d`. -/
def substitute (e : Expr ν) (d : String) (f : Expr ν) : Expr ν :=
  match e with
  | .literal v n => .literal v n
  | .var x n => if x = d then .group f n else .var x n
  | .binary op l r n => .binary op (l.substitute d f) (r.substitute d f) n
  | .negate e n => .negate (e.substitute d f) n
  | .group e n => .group (e.substitute d f) n

end Expr

namespace Comprehension

/-- The comprehension `result = [g | d in list]`. -/
def through (result d list : String) (g : Expr Decimal) (line : Nat) : Comprehension :=
  { result := result, bindings := [{ name := d, elements := [], reference := some list }], transform := g,
    predicates := [], line := line }

/-- The comprehension `result = [g | …]`, with the bindings and predicates of `c`, and with the transform of `c` for `d`
in `g`. -/
def inlined (c : Comprehension) (result d : String) (g : Expr Decimal) (line : Nat) : Comprehension :=
  { c with result := result, transform := g.substitute d c.transform, line := line }

end Comprehension

/-- The same fault on the same line; the expression that is quoted may be another one. -/
def Error.SameFault (e e' : Error) : Prop :=
  ∃ fault text text', e.cause = .arithmetic fault text ∧ e' = ⟨.arithmetic fault text', e.line⟩

/-- The same value, or the same fault on the same line. -/
abbrev SameUpToText {α : Type} : Except Error α → Except Error α → Prop :=
  Related (fun _ => False) Error.SameFault fun a b => b = a

/-! ## Expressions -/

section Expressions

variable {σ τ : Assignment} {d : String} {f : Expr Decimal}

/-- **A variable stands for what its value was computed from.** -/
theorem eval_substitute (hd : f.eval σ = .ok (τ.value d)) {g : Expr Decimal}
    (h : ∀ x ∈ g.vars, x ≠ d → τ.value x = σ.value x) : SameUpToText (g.eval τ) ((g.substitute d f).eval σ) := by
  induction g with
  | literal v n => exact .ok rfl
  | var x n =>
    rw [Expr.substitute, Expr.eval]
    by_cases hx : x = d
    · rw [if_pos hx, Expr.eval, hd, hx]
      exact .ok rfl
    · rw [if_neg hx, Expr.eval, h x List.mem_cons_self hx]
      exact .ok rfl
  | group e n ih => exact ih h
  | negate e n ih => exact (ih h).bind_eq fun a => .ok rfl
  | binary op l r n ihl ihr =>
    have hl := ihl fun x hx => h x (List.mem_append_left _ hx)
    have hr := ihr fun x hx => h x (List.mem_append_right _ hx)
    rw [Expr.substitute, Expr.eval, Expr.eval]
    refine hl.bind_eq fun a => hr.bind_eq fun b => ?_
    -- both sides apply the operation to `a` and `b`, and quote what they have written
    cases op.apply a b with
    | ok v => exact .ok rfl
    | error fault => exact .error ⟨fault, _, _, rfl, rfl⟩

/-- Loops give no value to a name that is not their variable. -/
theorem value_of_mem_assignments {loops : List (String × List Decimal)} {x : String} (hx : x ∉ loops.map Prod.fst)
    (hτ : τ ∈ assignments loops σ) : τ.value x = σ.value x := by
  induction loops generalizing σ with
  | nil => rw [List.mem_singleton.mp hτ]
  | cons loop loops ih =>
    obtain ⟨y, values⟩ := loop
    rw [List.map_cons, List.mem_cons, not_or] at hx
    obtain ⟨v, -, hτ⟩ := List.mem_flatMap.mp hτ
    rw [ih hx.2 hτ, Assignment.value_cons, if_neg hx.1]

end Expressions

/-! ## Runs -/

section Runs

variable {c : Comprehension} {store : Store} {l : NamedList} {x : String} {σ : Assignment}

theorem value_of_mem_kept (hx : x ∉ c.bindings.map (·.name)) (hσ : σ ∈ c.kept store) : σ.value x = 0 := by
  have hpassed := List.mem_of_mem_filter hσ
  rw [Comprehension.passed] at hpassed
  split at hpassed
  · cases hpassed
  · have hloops : x ∉ (c.loops store).map Prod.fst := by
      rw [Comprehension.loops, List.map_map]
      exact hx
    exact value_of_mem_assignments hloops hpassed

/-- A list of numbers has no other element, and its numbers are found in it. -/
theorem numbers_of_elements {ds : List Decimal} (hl : l.elements = ds.map .number) :
    l.nonNumeric? = none ∧ l.elements.filterMap Value.number? = ds := by
  constructor
  · rw [NamedList.nonNumeric?, hl, Option.map_eq_none_iff, List.findSome?_eq_none_iff]
    intro v hv
    obtain ⟨d, -, rfl⟩ := List.mem_map.mp hv
    rfl
  · rw [hl, List.filterMap_map]
    exact List.filterMap_some

/-- A comprehension over a stored list of numbers evaluates its transform on each of them. -/
theorem run_through {list : String} (hget : store.get? list = some l) {ds : List Decimal}
    (hl : l.elements = ds.map .number) (result d : String) (g : Expr Decimal) (line : Nat) :
    (Comprehension.through result d list g line).run store = do
      return { name := result, elements := (← ds.mapM fun v => g.eval [(d, v)]).map .number } := by
  obtain ⟨hnumeric, hnumbers⟩ := numbers_of_elements hl
  have htarget : store.target { name := d, elements := [], reference := some list } = l := by
    rw [Store.target, if_pos rfl, Option.bind_some, hget, Option.getD_some]
  have hmissing : store.missing? { name := d, elements := [], reference := some list } = none := by
    rw [Store.missing?, if_pos rfl]
    simp [hget]
  have hfault : store.firstFault? [] (Comprehension.through result d list g line).bindings = none := by
    refine firstFault?_eq_none.mpr ⟨List.nodup_singleton d, fun b _ => List.not_mem_nil, ?_⟩
    exact List.forall_mem_singleton.mpr ⟨hmissing, htarget ▸ hnumeric⟩
  have hkept : (Comprehension.through result d list g line).kept store = ds.map fun v => [(d, v)] := by
    have hloops : (Comprehension.through result d list g line).loops store = [(d, ds)] := by
      rw [Comprehension.loops, Comprehension.through, List.map_singleton, htarget, hnumbers]
    have hpassed : (Comprehension.through result d list g line).passed store = ds.map fun v => [(d, v)] := by
      rw [Comprehension.passed, hloops, List.map_eq_flatMap]
      exact if_neg (List.cons_ne_nil _ _)
    rw [Comprehension.kept, hpassed]
    exact List.filter_eq_self.mpr fun _ _ => rfl
  rw [run_eq_mapM (List.forall_mem_nil _) hfault, hkept, List.mapM_map]
  rfl

end Runs

/-- **Intermediate lists are transparent.**  A comprehension over the result of another one succeeds with the same
elements, or fails with the same fault on the same line, as the one comprehension over the combinations of the other,
which has the other's transform in place of the variable; no name may be captured by the bindings of the other. -/
theorem intermediate_lists_are_transparent {c : Comprehension} {store : Store} {l : NamedList}
    (hl : c.run store = .ok l) {d : String} {g : Expr Decimal}
    (hg : ∀ x ∈ g.vars, x ≠ d → x ∉ c.bindings.map (·.name)) (result result' : String) (line line' : Nat) :
    (∃ elements,
      (Comprehension.through result d c.result g line).run (store.insert l) = .ok { name := result, elements := elements } ∧
        (c.inlined result' d g line').run store = .ok { name := result', elements := elements }) ∨
    ∃ fault text text' n,
      (Comprehension.through result d c.result g line).run (store.insert l) = .error ⟨.arithmetic fault text, n⟩ ∧
        (c.inlined result' d g line').run store = .error ⟨.arithmetic fault text', n⟩ := by
  obtain ⟨hdef, hfault, ds, hds, rfl⟩ := kept_of_run_eq_ok hl
  obtain ⟨value, hvalue, rfl⟩ := exists_map_of_mapM hds
  have hthrough := run_through (get?_insert_self store ⟨c.result, ((c.kept store).map value).map .number, none⟩) rfl
    result d g line
  have hinlined := run_eq_mapM (c := c.inlined result' d g line') hdef hfault
  -- both go through the combinations that `c` keeps
  have houtcome : SameUpToText ((c.kept store).mapM fun σ => g.eval [(d, value σ)])
      ((c.kept store).mapM fun σ => (g.substitute d c.transform).eval σ) := by
    refine Related.mapM_self fun σ hσ => eval_substitute ?_ ?_
    · rw [hvalue σ hσ, Assignment.value_cons, if_pos rfl]
    · intro x hx hne
      rw [Assignment.value_cons, if_neg hne, value_of_mem_kept (hg x hx hne) hσ]
      rfl
  rw [List.mapM_map] at hthrough
  rw [hthrough, hinlined]
  obtain ⟨_, ds, rfl, hx, hy⟩ | ⟨⟨_, n⟩, _, ⟨fault, text, text', rfl, rfl⟩, hx, hy⟩ := houtcome.ok_or_error
  · exact .inl ⟨ds.map .number, congrArg (· >>= _) hx, congrArg (· >>= _) hy⟩
  · exact .inr ⟨fault, text, text', n, congrArg (· >>= _) hx, congrArg (· >>= _) hy⟩

/-- `D = [x * 2 | x in [1,0] | x <= 1]`, with `[d * d + y | d in D]`, where `y` has no value, and with `[1 / d | d in D]`,
which fails at the second element. -/
theorem intermediate_lists_are_transparent_two :
    let two : Decimal := ⟨false, 2, 0, by decide, by decide⟩
    let four : Decimal := ⟨false, 4, 0, by decide, by decide⟩
    let c : Comprehension :=
      { result := "D", bindings := [⟨"x", [.number 1, .number 0], none⟩]
        transform := .binary .mul (.var "x" 1) (.literal two 1) 1, predicates := [⟨"x", some .le, 1, 1⟩], line := 1 }
    let l : NamedList := ⟨"D", [.number two, .number 0], none⟩
    let square : Expr Decimal := .binary .add (.binary .mul (.var "d" 2) (.var "d" 2) 2) (.var "y" 2) 2
    let quotient : Expr Decimal := .binary .div (.literal 1 3) (.var "d" 3) 3
    c.run .empty = .ok l ∧
      (Comprehension.through "E" "d" "D" square 2).run (Store.empty.insert l) =
        .ok ⟨"E", [.number four, .number 0], none⟩ ∧
      (c.inlined "F" "d" square 2).run .empty = .ok ⟨"F", [.number four, .number 0], none⟩ ∧
      (Comprehension.through "E" "d" "D" quotient 3).run (Store.empty.insert l) =
        .error ⟨.arithmetic .divisionByZero "1 / d", 3⟩ ∧
      ∃ text, (c.inlined "F" "d" quotient 3).run .empty = .error ⟨.arithmetic .divisionByZero text, 3⟩ := by
  intro two four c l square quotient
  have hl : c.run .empty = .ok l := by
    rw [Comprehension.run_eq_nested]
    decide +kernel
  have hsquare : (Comprehension.through "E" "d" "D" square 2).run (Store.empty.insert l) =
      .ok ⟨"E", [.number four, .number 0], none⟩ := by
    rw [Comprehension.run_eq_nested]
    decide +kernel
  have hquotient : (Comprehension.through "E" "d" "D" quotient 3).run (Store.empty.insert l) =
      .error ⟨.arithmetic .divisionByZero "1 / d", 3⟩ := by
    rw [Comprehension.run_eq_nested]
    decide +kernel
  refine ⟨hl, hsquare, ?_, hquotient, ?_⟩
  · obtain ⟨elements, hthrough, hinlined⟩ | ⟨fault, text, text', n, hthrough, -⟩ :=
      intermediate_lists_are_transparent hl (d := "d") (g := square) (by decide +kernel) "E" "F" 2 2
    · cases hsquare.symm.trans hthrough
      exact hinlined
    · cases hsquare.symm.trans hthrough
  · obtain ⟨elements, hthrough, -⟩ | ⟨fault, text, text', n, hthrough, hinlined⟩ :=
      intermediate_lists_are_transparent hl (d := "d") (g := quotient) (by decide +kernel) "E" "F" 3 3
    · cases hquotient.symm.trans hthrough
    · cases hquotient.symm.trans hthrough
      exact ⟨text', hinlined⟩

end Listwise
