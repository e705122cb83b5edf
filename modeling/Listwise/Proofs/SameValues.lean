import Listwise.Proofs.InPlace
import Listwise.Proofs.LongDivision
import Listwise.Proofs.NestedLoops
import Listwise.Proofs.TransformText

/-!
# Lists of the same values

The text of a store shows the values of its numbers, and not how they are written: `2.50` and `2.5` are shown alike.
Nothing but a power can tell them apart.

* `Value.Alike`, …, `Session.Alike`: the same texts and numbers of the same value, in the same places.
* `eval_alike`: without powers, an expression has the same value or fails in the same way.
* `run_alike`, `perform_alike`, `execute_alike`: so do comprehensions, statements and inputs.
* `alike_environments_behave_alike`: and so does what is carried out one after the other.
-/

namespace Listwise

/-! ## Definitions -/

/-- The same text, or numbers of the same value. -/
inductive Value.Alike : Value → Value → Prop where
  | number {a b : Decimal} (h : a ≈ b) : Alike (.number a) (.number b)
  | text (s : String) : Alike (.text s) (.text s)

/-- Lists of the same name and reference, with the same values. -/
structure NamedList.Alike (l l' : NamedList) : Prop where
  name : l.name = l'.name
  reference : l.reference = l'.reference
  elements : List.Forall₂ Value.Alike l.elements l'.elements

/-- Stores of the same lists, in the same order. -/
def Store.Alike (s t : Store) : Prop := List.Forall₂ NamedList.Alike s.lists t.lists

/-- The same names, with numbers of the same value. -/
def Assignment.Alike (σ τ : Assignment) : Prop := List.Forall₂ (fun p q => p.1 = q.1 ∧ p.2 ≈ q.2) σ τ

/-- Sessions under the same limits, with the same lists. -/
structure Session.Alike (s t : Session) : Prop where
  limits : s.limits = t.limits
  store : s.store.Alike t.store

/-- Whether an expression has a power. -/
def Expr.hasPower {ν : Type} : Expr ν → Bool
  | .literal _ _ => false
  | .var _ _ => false
  | .binary op l r _ => op = .pow || l.hasPower || r.hasPower
  | .negate e _ => e.hasPower
  | .group e _ => e.hasPower

/-- Whether an input has no power in its transform, if it is a comprehension. -/
def isPowerFree (input : String) (line : Nat) : Bool :=
  match Written.Statement.parse? input line with
  | .ok (some ⟨.comprehension c, _⟩) => !c.transform.any Expr.hasPower
  | _ => true

/-! ## Expressions -/

section Expressions

theorem orOverflow_congr {x y : Option Decimal} (h : Decimal.Agree x y) :
    SameResult (· ≈ ·) (orOverflow x) (orOverflow y) := by
  cases h with
  | none => exact .error rfl
  | some h => exact .ok h

/-- The operations other than powers see values only. -/
theorem apply_congr {op : Op} (hop : op ≠ .pow) {a a' b b' : Decimal} (ha : a ≈ a') (hb : b ≈ b') :
    SameResult (· ≈ ·) (op.apply a b) (op.apply a' b') := by
  cases op with
  | add => exact orOverflow_congr (Decimal.add?_congr ha hb)
  | sub => exact orOverflow_congr (Decimal.sub?_congr ha hb)
  | mul => exact orOverflow_congr (Decimal.mul?_congr ha hb)
  | div =>
    rw [Op.apply, Op.apply, Decimal.isZero_congr hb]
    by_cases hz : b'.isZero = true
    · rw [if_pos hz, if_pos hz]
      exact .error rfl
    · rw [if_neg hz, if_neg hz]
      exact orOverflow_congr (Decimal.div?_congr ha hb)
  | pow => exact absurd rfl hop

theorem value_alike {σ τ : Assignment} (h : σ.Alike τ) (name : String) : σ.value name ≈ τ.value name := by
  unfold Assignment.value
  induction h with
  | nil => exact Decimal.equiv_refl 0
  | @cons p q σ τ hpq _ ih =>
    obtain ⟨x, a⟩ := p
    obtain ⟨y, b⟩ := q
    obtain ⟨rfl, hab⟩ : x = y ∧ a ≈ b := hpq
    by_cases hx : name = x
    · simpa [hx] using hab
    · have hx : (name == x) = false := beq_eq_false_iff_ne.mpr hx
      simpa only [List.lookup_cons, hx] using ih

theorem eval_alike {σ τ : Assignment} (h : σ.Alike τ) {e : Expr Decimal} (he : e.hasPower = false) :
    SameResult (· ≈ ·) (e.eval σ) (e.eval τ) := by
  induction e with
  | literal d n => exact .ok (Decimal.equiv_refl d)
  | var x n => exact .ok (value_alike h x)
  | group e n ih => exact ih he
  | negate e n ih => exact (ih he).bind fun a b hab => .ok (Decimal.neg_congr hab)
  | binary op l r n ihl ihr =>
    simp only [Expr.hasPower, Bool.or_eq_false_iff, decide_eq_false_iff_not] at he
    obtain ⟨⟨hop, hl⟩, hr⟩ := he
    refine (ihl hl).bind fun a a' ha => (ihr hr).bind fun b b' hb => ?_
    -- an error quotes the operation as it is written, and not its operands' values
    have happly := apply_congr hop ha hb
    obtain ⟨v, v', hv, hx, hy⟩ | ⟨fault, _, rfl, hx, hy⟩ := happly.ok_or_error
    · rw [hx, hy]
      exact .ok hv
    · rw [hx, hy]
      exact .error rfl

theorem holds_congr (r : Relation) {a a' : Decimal} (h : a ≈ a') (b : Decimal) : r.holds a b = r.holds a' b := by
  have hvalue : a.toRat = a'.toRat := Decimal.equiv_iff.mp h
  cases r <;> simp only [Relation.holds, Decimal.equiv_iff, Decimal.lt_iff, Decimal.le_iff, hvalue]

theorem holdsIn_alike {σ τ : Assignment} (h : σ.Alike τ) (p : Predicate) : p.holdsIn σ = p.holdsIn τ := by
  unfold Predicate.holdsIn
  cases p.relation with
  | none => rfl
  | some r => exact holds_congr r (value_alike h p.operand) p.threshold

end Expressions

/-! ## Comprehensions -/

section Comprehensions

variable {s t : Store}

theorem get?_alike (h : s.Alike t) (name : String) : Option.Rel NamedList.Alike (s.get? name) (t.get? name) := by
  obtain ⟨ls⟩ := s
  obtain ⟨ls'⟩ := t
  replace h : List.Forall₂ NamedList.Alike ls ls' := h
  unfold Store.get?
  induction h with
  | nil => exact .none
  | @cons l l' ls ls' hl _ ih =>
    by_cases hname : l.name = name
    · have hname' : l'.name = name := hl.name ▸ hname
      simpa [hname, hname'] using hl
    · have hname' : ¬ l'.name = name := hl.name ▸ hname
      simpa [hname, hname'] using ih

theorem NamedList.Alike.refl (l : NamedList) : l.Alike l := by
  refine ⟨rfl, rfl, List.forall₂_same.mpr fun v _ => ?_⟩
  cases v with
  | number d => exact .number (Decimal.equiv_refl d)
  | text s => exact .text s

theorem target_alike (h : s.Alike t) (b : NamedList) : (s.target b).Alike (t.target b) := by
  unfold Store.target
  by_cases hb : b.elements = []
  · rw [if_pos hb, if_pos hb]
    cases b.reference with
    | none => exact .refl b
    | some name =>
      have hget := get?_alike h name
      show ((s.get? name).getD b).Alike ((t.get? name).getD b)
      generalize s.get? name = x, t.get? name = y at hget ⊢
      cases hget with
      | none => exact .refl b
      | some hl => exact hl
  · rw [if_neg hb, if_neg hb]
    exact .refl b

theorem missing?_alike (h : s.Alike t) (b : NamedList) : s.missing? b = t.missing? b := by
  have hnone : ∀ name, (s.get? name).isNone = (t.get? name).isNone := by
    intro name
    have hget := get?_alike h name
    generalize s.get? name = x, t.get? name = y at hget ⊢
    cases hget <;> rfl
  simp only [Store.missing?, hnone]

theorem nonNumeric?_alike {l l' : NamedList} (h : l.Alike l') : l.nonNumeric? = l'.nonNumeric? := by
  have htext : l.elements.findSome? Value.text? = l'.elements.findSome? Value.text? := by
    have helements := h.elements
    generalize l.elements = vs, l'.elements = ws at helements
    induction helements with
    | nil => rfl
    | cons hv _ ih =>
      cases hv with
      | number _ => exact ih
      | text s => rfl
  rw [NamedList.nonNumeric?, NamedList.nonNumeric?, htext, h.name]

theorem firstFault?_alike (h : s.Alike t) (earlier bs : List NamedList) :
    s.firstFault? earlier bs = t.firstFault? earlier bs := by
  induction bs generalizing earlier with
  | nil => rfl
  | cons b bs ih =>
    simp only [Store.firstFault?, Store.fault?, missing?_alike h b, nonNumeric?_alike (target_alike h b), ih]

/-- Loops over the same variables, through numbers of the same values. -/
def LoopsAlike (loops loops' : List (String × List Decimal)) : Prop :=
  List.Forall₂ (fun p q => p.1 = q.1 ∧ List.Forall₂ (· ≈ ·) p.2 q.2) loops loops'

theorem numbers_alike {vs ws : List Value} (h : List.Forall₂ Value.Alike vs ws) :
    List.Forall₂ (· ≈ ·) (vs.filterMap Value.number?) (ws.filterMap Value.number?) := by
  induction h with
  | nil => exact .nil
  | cons hv _ ih =>
    cases hv with
    | number hab => exact .cons hab ih
    | text s => exact ih

theorem loops_alike (h : s.Alike t) (c : Comprehension) : LoopsAlike (c.loops s) (c.loops t) := by
  unfold LoopsAlike Comprehension.loops
  rw [List.forall₂_map_left_iff, List.forall₂_map_right_iff, List.forall₂_same]
  exact fun b _ => ⟨rfl, numbers_alike (target_alike h b).elements⟩

theorem flatten_alike {rows rows' : List (List Decimal)} (h : List.Forall₂ (List.Forall₂ (· ≈ ·)) rows rows') :
    List.Forall₂ (· ≈ ·) rows.flatten rows'.flatten := by
  induction h with
  | nil => exact .nil
  | cons hrow _ ih => exact List.rel_append hrow ih

theorem nestedLoops_alike {c : Comprehension} (hc : c.transform.hasPower = false)
    {loops loops' : List (String × List Decimal)} (hl : LoopsAlike loops loops') {σ τ : Assignment}
    (h : σ.Alike τ) :
    SameResult (List.Forall₂ (· ≈ ·)) (c.nestedLoops loops σ) (c.nestedLoops loops' τ) := by
  induction hl generalizing σ τ with
  | nil =>
    have hall : c.predicates.all (·.holdsIn σ) = c.predicates.all (·.holdsIn τ) := by
      simp only [holdsIn_alike h]
    rw [Comprehension.nestedLoops, Comprehension.nestedLoops, hall]
    split
    · exact (eval_alike h hc).bind fun a b hab => .ok (.cons hab .nil)
    · exact .ok .nil
  | @cons p q loops loops' hpq _ ih =>
    obtain ⟨x, vs⟩ := p
    obtain ⟨y, ws⟩ := q
    obtain ⟨rfl, hvs⟩ : x = y ∧ List.Forall₂ (· ≈ ·) vs ws := hpq
    have hbound : ∀ v w, v ≈ w → Assignment.Alike ((x, v) :: σ) ((x, w) :: τ) :=
      fun v w hvw => .cons ⟨rfl, hvw⟩ h
    have hrows := Related.mapM hvs fun v w hvw => ih (hbound v w hvw)
    exact hrows.bind fun rows rows' hr => .ok (flatten_alike hr)

/-- A comprehension without powers gives lists of the same values, or the same error. -/
theorem run_alike (h : s.Alike t) {c : Comprehension} (hc : c.transform.hasPower = false) :
    SameResult NamedList.Alike (c.run s) (c.run t) := by
  -- the checks before the loops look at names, references and texts only
  rw [Comprehension.run_eq_nested, Comprehension.run_eq_nested, Comprehension.nested, Comprehension.nested,
    firstFault?_alike h]
  split
  · exact .error rfl
  · split_ifs
    · exact .ok (.refl _)
    · split
      · exact .error rfl
      · refine (nestedLoops_alike hc (loops_alike h c) .nil).bind fun ds ds' hds => .ok ⟨rfl, rfl, ?_⟩
        rw [List.forall₂_map_left_iff, List.forall₂_map_right_iff]
        exact hds.imp fun _ _ => .number

end Comprehensions

/-! ## Statements -/

section Statements

variable {s t : Store}

theorem insert_alike (h : s.Alike t) {l l' : NamedList} (hl : l.Alike l') : (s.insert l).Alike (t.insert l') := by
  obtain ⟨ls⟩ := s
  obtain ⟨ls'⟩ := t
  replace h : List.Forall₂ NamedList.Alike ls ls' := h
  show List.Forall₂ NamedList.Alike (Store.put l ls) (Store.put l' ls')
  induction h with
  | nil => exact .cons hl .nil
  | @cons x x' xs xs' hx hxs ih =>
    have hname : x.name = l.name ↔ x'.name = l'.name := by rw [hx.name, hl.name]
    rw [Store.put, Store.put]
    by_cases he : x.name = l.name
    · rw [if_pos he, if_pos (hname.mp he)]
      exact .cons hl hxs
    · rw [if_neg he, if_neg (mt hname.mpr he)]
      exact .cons hx ih

theorem insertAll_alike (ls : List NamedList) (h : s.Alike t) : (s.insertAll ls).Alike (t.insertAll ls) := by
  induction ls generalizing s t with
  | nil => exact h
  | cons l ls ih => exact ih (insert_alike h (.refl l))

theorem map_eq_of_forall₂ {α β : Type} {r : α → α → Prop} {f : α → β} {xs ys : List α}
    (h : List.Forall₂ r xs ys) (hf : ∀ x y, r x y → f x = f y) : xs.map f = ys.map f := by
  induction h with
  | nil => rfl
  | cons hxy _ ih => rw [List.map_cons, List.map_cons, hf _ _ hxy, ih]

theorem render_value {v w : Value} (h : v.Alike w) : v.render = w.render := by
  cases h with
  | number hab => rw [Value.render, Value.render, Decimal.canonical_eq_iff.mpr hab]
  | text s => rfl

theorem render_list {l l' : NamedList} (h : l.Alike l') : l.render = l'.render := by
  rw [NamedList.render, NamedList.render, h.name, map_eq_of_forall₂ h.elements fun _ _ => render_value]

/-- What is shown are values. -/
theorem render_alike (h : s.Alike t) : s.render = t.render := by
  rw [Store.render, Store.render, map_eq_of_forall₂ h]
  intro l l' hl
  rw [render_list hl]

/-- Sessions that are alike and the same texts. -/
def SameOutcome (p q : Session × List String) : Prop := p.1.Alike q.1 ∧ p.2 = q.2

theorem perform_alike {s t : Session} (h : s.Alike t) {st : Statement}
    (hst : ∀ c, st = .comprehension c → c.transform.hasPower = false) :
    SameResult SameOutcome (s.perform st) (t.perform st) := by
  cases st with
  | definitions lists => exact .ok ⟨⟨h.limits, insertAll_alike lists h.store⟩, rfl⟩
  | showAll => exact .ok ⟨h, congrArg (fun text => [text]) (render_alike h.store)⟩
  | comprehension c =>
    refine (run_alike h.store (hst c rfl)).bind fun l l' hl => .ok ⟨⟨h.limits, ?_⟩, rfl⟩
    exact insert_alike h.store hl

theorem hasPower_relabel {ν μ : Type} {f : ν → μ} {n : Nat} (e : Expr ν) :
    (e.relabel f n).hasPower = e.hasPower := by
  induction e with
  | literal v m => rfl
  | var x m => rfl
  | group e m ih => exact ih
  | negate e m ih => exact ih
  | binary op l r m ihl ihr => simp only [Expr.relabel, Expr.hasPower, ihl, ihr]

theorem hasPower_of_isPowerFree {input : String} {line : Nat} (hi : isPowerFree input line = true)
    {w : Written.Statement} (hw : Written.Statement.parse? input line = .ok (some w)) {limits : RangeLimits}
    {c : Comprehension} (hc : Statement.ofWritten limits w = .ok (.comprehension c)) :
    c.transform.hasPower = false := by
  obtain ⟨form, n⟩ := w
  cases form with
  | definitions clauses =>
    obtain ⟨lists, -, hc⟩ := bind_eq_ok.mp hc
    cases hc
  | showAll => cases hc
  | comprehension w =>
    obtain ⟨c', hread, hc⟩ := bind_eq_ok.mp hc
    cases hc
    obtain ⟨-, e, he, hmap⟩ := read_eq_ok hread
    have hfree : e.hasPower = false := by
      unfold isPowerFree at hi
      rw [hw] at hi
      simpa [he] using hi
    rw [← hasPower_relabel (f := fun _ => ()) (n := 0), relabel_mapLiterals hmap, hasPower_relabel, hfree]

theorem execute_alike {s t : Session} (h : s.Alike t) {input : String} {line : Nat}
    (hi : isPowerFree input line = true) :
    SameResult SameOutcome (s.execute input line) (t.execute input line) := by
  refine Related.bind_self (fun _ => rfl) fun r hr => ?_
  cases r with
  | none => exact .ok ⟨h, rfl⟩
  | some w =>
    dsimp only
    rw [← h.limits]
    refine Related.bind_self (fun _ => rfl) fun st hst => perform_alike h ?_
    rintro c rfl
    exact hasPower_of_isPowerFree hi hr hst

end Statements

/-! ## One input after the other -/

namespace Environment

/-- What each of the inputs gives and leaves, if all are carried out, whether they fail or not. -/
def steps (env : Environment) : List (String × Nat) → List (Except Error Unit × Environment)
  | [] => []
  | (input, line) :: rest => env.executeLine input line :: (env.executeLine input line).2.steps rest

/-- Two inputs gave the same, sessions are alike behind them, and the same texts were shown since `shown` and
`shown'`. -/
structure SameStep (shown shown' : List String) (p q : Except Error Unit × Environment) : Prop where
  result : p.1 = q.1
  session : p.2.toSession.Alike q.2.toSession
  texts : ∃ texts, p.2.shown = shown ++ texts ∧ q.2.shown = shown' ++ texts

section Steps

variable {env env' : Environment} {shown shown' : List String}

theorem executeLine_alike (h : env.toSession.Alike env'.toSession)
    (hshown : ∃ texts, env.shown = shown ++ texts ∧ env'.shown = shown' ++ texts) {input : String} {line : Nat}
    (hi : isPowerFree input line = true) :
    SameStep shown shown' (env.executeLine input line) (env'.executeLine input line) := by
  obtain ⟨texts, ht, ht'⟩ := hshown
  have hexecute := execute_alike h hi
  rw [executeLine_after, executeLine_after]
  obtain ⟨⟨s, more⟩, ⟨t, more'⟩, hpq, hx, hy⟩ | ⟨e, _, rfl, hx, hy⟩ := hexecute.ok_or_error
  · obtain ⟨halike, rfl⟩ : s.Alike t ∧ more = more' := hpq
    rw [hx, hy]
    refine ⟨rfl, halike, texts ++ more, ?_, ?_⟩
    · show env.shown ++ more = shown ++ (texts ++ more)
      rw [ht, List.append_assoc]
    · show env'.shown ++ more = shown' ++ (texts ++ more)
      rw [ht', List.append_assoc]
  · rw [hx, hy]
    exact ⟨rfl, h, texts, ht, ht'⟩

theorem steps_alike (h : env.toSession.Alike env'.toSession)
    (hshown : ∃ texts, env.shown = shown ++ texts ∧ env'.shown = shown' ++ texts) {inputs : List (String × Nat)}
    (hinputs : ∀ i ∈ inputs, isPowerFree i.1 i.2 = true) :
    List.Forall₂ (SameStep shown shown') (env.steps inputs) (env'.steps inputs) := by
  induction inputs generalizing env env' with
  | nil => exact .nil
  | cons i inputs ih =>
    obtain ⟨hi, hinputs⟩ := List.forall_mem_cons.mp hinputs
    have hstep := executeLine_alike h hshown hi
    exact .cons hstep (ih hstep.session hstep.texts hinputs)

/-- **What is shown of lists determines what becomes of them.**  Two environments under the same limits hold the same
texts and numbers of the same value in the same places, however the numbers are written.  Then any inputs without
powers, carried out one after the other, succeed in both or fail in both with the same error at every step; the same
texts are shown; and the environments are alike again. -/
theorem alike_environments_behave_alike (h : env.toSession.Alike env'.toSession) {inputs : List (String × Nat)}
    (hinputs : ∀ i ∈ inputs, isPowerFree i.1 i.2 = true) :
    List.Forall₂ (SameStep env.shown env'.shown) (env.steps inputs) (env'.steps inputs) :=
  steps_alike h ⟨[], (List.append_nil _).symm, (List.append_nil _).symm⟩ hinputs

/-- `2.50` and `-0` beside `2.5` and `0.000`, in a quotient that is rounded, in one that fails, and shown. -/
theorem alike_environments_behave_alike_four :
    let env : Environment := ⟨⟨.standard, ⟨[
      { name := "a", elements := [.number ⟨false, 250, 2, by decide, by decide⟩] },
      { name := "b", elements := [.number ⟨true, 0, 0, by decide, by decide⟩, .text "x"], reference := some "a" }]⟩⟩,
      ["earlier"], .idle⟩
    let env' : Environment := ⟨⟨.standard, ⟨[
      { name := "a", elements := [.number ⟨false, 25, 1, by decide, by decide⟩] },
      { name := "b", elements := [.number ⟨false, 0, 3, by decide, by decide⟩, .text "x"], reference := some "a" }]⟩⟩,
      [], .idle⟩
    let inputs := [("c = [v / 3 | v in a | v >= 2.5]", 1), ("c = [1 / (2.500 - v) | v in a]", 2),
      ("d = [v | v in b]", 3), ("show", 4)]
    env.toSession.Alike env'.toSession ∧ (∀ i ∈ inputs, isPowerFree i.1 i.2 = true) ∧
      List.Forall₂ (SameStep env.shown env'.shown) (env.steps inputs) (env'.steps inputs) := by
  intro env env' inputs
  have halike : env.toSession.Alike env'.toSession :=
    ⟨rfl, .cons ⟨rfl, rfl, .cons (.number (by decide)) .nil⟩
      (.cons ⟨rfl, rfl, .cons (.number (by decide)) (.cons (.text "x") .nil)⟩ .nil)⟩
  have hinputs : ∀ i ∈ inputs, isPowerFree i.1 i.2 = true := by decide +kernel
  exact ⟨halike, hinputs, alike_environments_behave_alike halike hinputs⟩

end Steps

end Environment

end Listwise
