import Listwise.Proofs.RangeBounds

/-!
# Faults of statements

A statement as written is at fault if one of its numerals is no decimal, an end of one of its ranges lies outside the
limits, or a comprehension has no transform.  `Statement.ofWritten` fails for these reasons and no others, since a range
whose ends are within the limits can always be spelled out.

* `Written.Statement.numerals`, `Written.Statement.ends`: all numerals of a statement, and the ends of its ranges.
* `Written.Statement.Fault`, `Written.Statement.WellFormed`: what is wrong with a statement, and that nothing is.
* `Checked faults x`: `x` is the first of `faults`, or no error if there are none.
* `ofWritten_checked`: a statement fails with the first of its faults, in the order in which it is read.
* `statements_fail_for_faults_only`: so it fails exactly if it is not well-formed.
-/

namespace Listwise

/-! ## Definitions -/

/-- The literals of an expression with their lines, from left to right. -/
def Expr.literals {ν : Type} : Expr ν → List (ν × Nat)
  | .literal v n => [(v, n)]
  | .var _ _ => []
  | .binary _ l r _ => l.literals ++ r.literals
  | .negate e _ => e.literals
  | .group e _ => e.literals

namespace Written

/-- The numeral that an element is. -/
def Literal.numerals : Literal → List String
  | .number t => [t]
  | .text _ => []

/-- The ends of a range that are written. -/
def Elements.ends : Elements → List String
  | .listed _ => []
  | .between lower upper => [lower, upper]
  | .above lower => [lower]
  | .below upper => [upper]

/-- The numerals of a list or a range. -/
def Elements.numerals : Elements → List String
  | .listed items => items.flatMap Literal.numerals
  | es => es.ends

/-- The elements that a variable runs through, if they are not those of a named list. -/
def Source.elements : Source → List Elements
  | .list _ => []
  | .inline es => [es]

/-- All lists and ranges that a statement writes out. -/
def Form.elements : Form → List Elements
  | .definitions clauses => clauses.map (·.elements)
  | .showAll => []
  | .comprehension c => c.bindings.flatMap (·.source.elements)

/-- The numerals outside of lists and ranges, with their lines: thresholds, and the literals of a transform. -/
def Form.looseNumerals (line : Nat) : Form → List (String × Nat)
  | .definitions _ => []
  | .showAll => []
  | .comprehension c => c.predicates.map (fun p => (p.threshold, line)) ++ (c.transform.map Expr.literals).getD []

namespace Statement

/-- All numerals of a statement, each with the line it is read on. -/
def numerals (w : Statement) : List (String × Nat) :=
  w.form.elements.flatMap (fun es => es.numerals.map fun t => (t, w.line)) ++ w.form.looseNumerals w.line

/-- The ends of all ranges of a statement. -/
def ends (w : Statement) : List String := w.form.elements.flatMap Elements.ends

/-- What is wrong with a statement. -/
inductive Fault (limits : RangeLimits) (w : Statement) : Error → Prop where
  | missingTransform {c : Comprehension} (hform : w.form = .comprehension c) (h : c.transform = none) :
      Fault limits w ⟨.missingTransform c.result, w.line⟩
  | malformedNumber {text : String} {n : Nat} (hmem : (text, n) ∈ w.numerals) (h : Decimal.parse? text = none) :
      Fault limits w ⟨.malformedNumber text, n⟩
  | outOfBounds {text : String} {d : Decimal} (hmem : text ∈ w.ends) (hparse : Decimal.parse? text = some d)
      (h : d.toRat < limits.low.toInt ∨ limits.high.toInt < d.toRat) :
      Fault limits w ⟨.rangeOutOfBounds text limits.lower limits.upper, w.line⟩

/-- Nothing is wrong with a statement. -/
structure WellFormed (limits : RangeLimits) (w : Statement) : Prop where
  numerals : ∀ p ∈ w.numerals, ∃ d, Decimal.parse? p.1 = some d
  ends : ∀ text ∈ w.ends, ∀ d, Decimal.parse? text = some d → limits.low.toInt ≤ d.toRat ∧ d.toRat ≤ limits.high.toInt
  transform : ∀ c, w.form = .comprehension c → c.transform ≠ none

end Statement

end Written

/-! ## Checks -/

/-- The first of the faults, or no error if there are none. -/
inductive Checked {α : Type} : List Error → Except Error α → Prop where
  | ok (a : α) : Checked [] (.ok a)
  | error (e : Error) (later : List Error) : Checked (e :: later) (.error e)

namespace Checked

variable {α β : Type} {faults later : List Error} {x : Except Error α}

theorem exists_ok_iff (h : Checked faults x) : (∃ a, x = .ok a) ↔ faults = [] := by
  cases h with
  | ok a => exact ⟨fun _ => rfl, fun _ => ⟨a, rfl⟩⟩
  | error e later => exact ⟨nofun, nofun⟩

theorem mem_of_error (h : Checked faults x) {e : Error} (he : x = .error e) : e ∈ faults := by
  cases h with
  | ok a => cases he
  | error e' later =>
    cases he
    exact List.mem_cons_self

/-- What is checked later is reported later. -/
theorem bind (h : Checked faults x) {f : α → Except Error β} (hf : ∀ a, x = .ok a → Checked later (f a)) :
    Checked (faults ++ later) (x >>= f) := by
  cases h with
  | ok a => exact hf a rfl
  | error e es => exact .error e (es ++ later)

theorem map (h : Checked faults x) (f : α → β) : Checked faults (x >>= fun a => pure (f a)) := by
  cases h with
  | ok a => exact .ok (f a)
  | error e es => exact .error e es

theorem mapM {f : α → Except Error β} {g : α → List Error} (h : ∀ a, Checked (g a) (f a)) (as : List α) :
    Checked (as.flatMap g) (as.mapM f) := by
  induction as with
  | nil => exact .ok []
  | cons a as ih =>
    rw [List.flatMap_cons, List.mapM_cons]
    exact (h a).bind fun b _ => ih.map (b :: ·)

end Checked

/-! ## Faults in the order of reading -/

/-- The fault of a numeral, if it has one. -/
def numeralFaults (line : Nat) (text : String) : List Error :=
  if Decimal.parse? text = none then [⟨.malformedNumber text, line⟩] else []

/-- The fault of an end of a range, if it has one. -/
def RangeLimits.endFaults (limits : RangeLimits) (line : Nat) (text : String) : List Error :=
  match Decimal.parse? text with
  | none => [⟨.malformedNumber text, line⟩]
  | some d => if limits.admits d then [] else [⟨.rangeOutOfBounds text limits.lower limits.upper, line⟩]

namespace Written

/-- The faults of a list or a range. -/
def Elements.faults (limits : RangeLimits) (line : Nat) : Elements → List Error
  | .listed items => items.flatMap fun l => l.numerals.flatMap (numeralFaults line)
  | es => es.ends.flatMap (limits.endFaults line)

/-- The faults of a comprehension; one without a transform is not looked at any further. -/
def Comprehension.faults (limits : RangeLimits) (line : Nat) (c : Comprehension) : List Error :=
  match c.transform with
  | none => [⟨.missingTransform c.result, line⟩]
  | some e =>
    (c.bindings.flatMap fun b => b.source.elements.flatMap (Elements.faults limits line)) ++
      ((c.predicates.flatMap fun p => numeralFaults line p.threshold) ++
        e.literals.flatMap fun p => numeralFaults p.2 p.1)

/-- The faults of a statement. -/
def Statement.faults (limits : RangeLimits) (w : Statement) : List Error :=
  match w.form with
  | .definitions clauses => clauses.flatMap fun c => c.elements.faults limits w.line
  | .showAll => []
  | .comprehension c => c.faults limits w.line

end Written

section Reading

open Written

variable (limits : RangeLimits) (line : Nat)

theorem readDecimal_checked (text : String) : Checked (numeralFaults line text) (readDecimal text line) := by
  unfold numeralFaults readDecimal
  cases Decimal.parse? text with
  | none => exact .error _ _
  | some d => exact .ok d

theorem readBound_checked (text : String) : Checked (limits.endFaults line text) (limits.readBound line text) := by
  unfold RangeLimits.endFaults RangeLimits.readBound readDecimal
  cases Decimal.parse? text with
  | none => exact .error _ _
  | some d =>
    show Checked (if limits.admits d = true then _ else _) (if limits.admits d = true then _ else _)
    split
    · exact .ok d
    · exact .error _ _

/-- Up to an end within the limits there is no overflow. -/
theorem rangeValues_checked (a : Decimal) {b : Decimal} (hb : limits.admits b = true) :
    Checked [] (rangeValues line a b) := by
  have hupper : b.toRat ≤ 2 ^ 64 :=
    (le_abs_self b.toRat).trans ((RangeLimits.abs_toRat_of_admits hb).trans (by norm_num))
  obtain ⟨ds, hds, -⟩ := Decimal.exists_range? a hupper
  rw [rangeValues, hds]
  exact .ok _

theorem literal_checked (l : Literal) : Checked (l.numerals.flatMap (numeralFaults line)) (l.value line) := by
  cases l with
  | number t =>
    rw [Literal.numerals, List.flatMap_singleton]
    exact (readDecimal_checked line t).map Value.number
  | text t => exact .ok _

theorem values_checked (es : Elements) : Checked (es.faults limits line) (es.values limits line) := by
  cases es with
  | listed items => exact Checked.mapM (literal_checked line) items
  | between lower upper =>
    refine (readBound_checked limits line lower).bind fun a _ => ?_
    exact (readBound_checked limits line upper).bind fun b hb =>
      rangeValues_checked limits line a (RangeLimits.admits_of_readBound hb)
  | above lower =>
    exact (readBound_checked limits line lower).bind fun a _ => rangeValues_checked limits line a limits.admits_upper
  | below upper =>
    exact (readBound_checked limits line upper).bind fun b hb =>
      rangeValues_checked limits line limits.lower (RangeLimits.admits_of_readBound hb)

theorem binding_checked (b : Binding) :
    Checked (b.source.elements.flatMap (Elements.faults limits line)) (b.toList limits line) := by
  obtain ⟨var, source⟩ := b
  cases source with
  | list name => exact .ok _
  | inline es =>
    rw [Source.elements, List.flatMap_singleton]
    exact (values_checked limits line es).map fun vs => NamedList.mk var vs none

theorem predicate_checked (p : Written.Predicate) : Checked (numeralFaults line p.threshold) (p.read line) :=
  (readDecimal_checked line p.threshold).map fun d => Predicate.mk p.operand p.relation d line

theorem mapLiterals_checked (e : Expr String) :
    Checked (e.literals.flatMap fun p => numeralFaults p.2 p.1) (e.mapLiterals readDecimal) := by
  induction e with
  | literal v n =>
    rw [Expr.literals, List.flatMap_singleton]
    exact (readDecimal_checked n v).map (Expr.literal · n)
  | var x n => exact .ok _
  | binary op l r n ihl ihr =>
    rw [Expr.literals, List.flatMap_append]
    exact ihl.bind fun x _ => ihr.map (Expr.binary op x · n)
  | negate e n ih => exact ih.map (Expr.negate · n)
  | group e n ih => exact ih.map (Expr.group · n)

theorem read_checked (c : Written.Comprehension) : Checked (c.faults limits line) (c.read limits line) := by
  obtain ⟨result, transform, bindings, predicates⟩ := c
  cases transform with
  | none => exact .error _ _
  | some e =>
    refine (Checked.mapM (binding_checked limits line) bindings).bind fun bs _ => ?_
    refine (Checked.mapM (predicate_checked line) predicates).bind fun ps _ => ?_
    exact (mapLiterals_checked e).map fun x => Comprehension.mk result bs x ps line

/-- **A statement fails with the first of its faults.** -/
theorem ofWritten_checked (w : Written.Statement) : Checked (w.faults limits) (Statement.ofWritten limits w) := by
  obtain ⟨form, n⟩ := w
  cases form with
  | definitions clauses =>
    refine Checked.map (Checked.mapM (fun c => ?_) clauses) Statement.definitions
    exact (values_checked limits n c.elements).map fun vs => NamedList.mk c.name vs none
  | showAll => exact .ok _
  | comprehension c => exact (read_checked limits n c).map Statement.comprehension

end Reading

/-! ## Faults and well-formed statements -/

section Faults

open Written

variable {limits : RangeLimits} {line : Nat} {e : Error}

theorem mem_numeralFaults {text : String} :
    e ∈ numeralFaults line text ↔ Decimal.parse? text = none ∧ e = ⟨.malformedNumber text, line⟩ := by
  unfold numeralFaults
  split <;> simp [*]

theorem not_admits_iff {d : Decimal} :
    limits.admits d = false ↔ d.toRat < limits.low.toInt ∨ limits.high.toInt < d.toRat := by
  rw [← Bool.not_eq_true, RangeLimits.admits_iff, not_and_or, not_le, not_le]

theorem mem_endFaults {text : String} :
    e ∈ limits.endFaults line text ↔
      (Decimal.parse? text = none ∧ e = ⟨.malformedNumber text, line⟩) ∨
        ∃ d, Decimal.parse? text = some d ∧ (d.toRat < limits.low.toInt ∨ limits.high.toInt < d.toRat) ∧
          e = ⟨.rangeOutOfBounds text limits.lower limits.upper, line⟩ := by
  unfold RangeLimits.endFaults
  cases Decimal.parse? text with
  | none => simp
  | some d => cases hd : limits.admits d <;> simp [← not_admits_iff, hd]

/-- The faults of elements are those of their numerals and ends. -/
theorem mem_elements_faults {es : Elements} :
    e ∈ es.faults limits line ↔
      (∃ text ∈ es.numerals, Decimal.parse? text = none ∧ e = ⟨.malformedNumber text, line⟩) ∨
        ∃ text ∈ es.ends, ∃ d, Decimal.parse? text = some d ∧
          (d.toRat < limits.low.toInt ∨ limits.high.toInt < d.toRat) ∧
            e = ⟨.rangeOutOfBounds text limits.lower limits.upper, line⟩ := by
  have hrange : e ∈ es.ends.flatMap (limits.endFaults line) ↔
      (∃ text ∈ es.ends, Decimal.parse? text = none ∧ e = ⟨.malformedNumber text, line⟩) ∨
        ∃ text ∈ es.ends, ∃ d, Decimal.parse? text = some d ∧
          (d.toRat < limits.low.toInt ∨ limits.high.toInt < d.toRat) ∧
            e = ⟨.rangeOutOfBounds text limits.lower limits.upper, line⟩ := by
    simp only [List.mem_flatMap, mem_endFaults, and_or_left, exists_or]
  cases es with
  | listed items =>
    have hnumerals : (Elements.listed items).faults limits line =
        (Elements.listed items).numerals.flatMap (numeralFaults line) := List.flatMap_assoc.symm
    rw [hnumerals]
    simp [List.mem_flatMap, mem_numeralFaults, Elements.ends]
  | between lower upper => exact hrange
  | above lower => exact hrange
  | below upper => exact hrange

/-- The faults of a statement with all its parts are those of its lists and ranges and of its other numerals. -/
theorem faults_eq {w : Written.Statement} (h : ∀ c, w.form = .comprehension c → c.transform ≠ none) :
    w.faults limits = w.form.elements.flatMap (Elements.faults limits w.line) ++
      (w.form.looseNumerals w.line).flatMap fun p => numeralFaults p.2 p.1 := by
  obtain ⟨form, n⟩ := w
  cases form with
  | definitions clauses =>
    simp only [Written.Statement.faults, Form.elements, Form.looseNumerals, List.flatMap_map, List.flatMap_nil,
      List.append_nil]
  | showAll => rfl
  | comprehension c =>
    obtain ⟨x, hx⟩ := Option.ne_none_iff_exists'.mp (h c rfl)
    simp only [Written.Statement.faults, Written.Comprehension.faults, Form.elements, Form.looseNumerals, hx,
      List.flatMap_append, List.flatMap_map, List.flatMap_assoc, Option.map_some, Option.getD_some]

/-- The faults that are found are faults, and all faults of a statement with all its parts are found. -/
theorem mem_faults {w : Written.Statement} (h : ∀ c, w.form = .comprehension c → c.transform ≠ none) :
    e ∈ w.faults limits ↔ w.Fault limits e := by
  rw [faults_eq h, List.mem_append]
  simp only [List.mem_flatMap, mem_elements_faults, mem_numeralFaults]
  constructor
  · rintro (⟨es, hes, ⟨text, htext, hparse, rfl⟩ | ⟨text, htext, d, hparse, hd, rfl⟩⟩ | ⟨p, hp, hparse, rfl⟩)
    · refine .malformedNumber (List.mem_append_left _ ?_) hparse
      exact List.mem_flatMap.mpr ⟨es, hes, List.mem_map_of_mem htext⟩
    · exact .outOfBounds (List.mem_flatMap.mpr ⟨es, hes, htext⟩) hparse hd
    · exact .malformedNumber (List.mem_append_right _ hp) hparse
  · intro hfault
    cases hfault with
    | missingTransform hform hnone => exact absurd hnone (h _ hform)
    | @malformedNumber text n hmem hparse =>
      rcases List.mem_append.mp hmem with hmem | hmem
      · obtain ⟨es, hes, hmem⟩ := List.mem_flatMap.mp hmem
        obtain ⟨text', htext, hpair⟩ := List.mem_map.mp hmem
        cases hpair
        exact .inl ⟨es, hes, .inl ⟨text, htext, hparse, rfl⟩⟩
      · exact .inr ⟨(text, n), hmem, hparse, rfl⟩
    | @outOfBounds text d hmem hparse hd =>
      obtain ⟨es, hes, htext⟩ := List.mem_flatMap.mp hmem
      exact .inl ⟨es, hes, .inr ⟨text, htext, d, hparse, hd, rfl⟩⟩

theorem fault_of_mem_faults {w : Written.Statement} (h : e ∈ w.faults limits) : w.Fault limits e := by
  by_cases htransform : ∀ c, w.form = .comprehension c → c.transform ≠ none
  · exact (mem_faults htransform).mp h
  · obtain ⟨c, hform, hnone⟩ : ∃ c, w.form = .comprehension c ∧ c.transform = none := by simpa using htransform
    rw [Written.Statement.faults, hform] at h
    dsimp only at h
    rw [Written.Comprehension.faults, hnone, List.mem_singleton] at h
    rw [h]
    exact .missingTransform hform hnone

theorem wellFormed_iff {w : Written.Statement} : w.WellFormed limits ↔ w.faults limits = [] := by
  rw [List.eq_nil_iff_forall_not_mem]
  constructor
  · intro hw e he
    cases fault_of_mem_faults he with
    | missingTransform hform hnone => exact hw.transform _ hform hnone
    | malformedNumber hmem hparse =>
      obtain ⟨d, hd⟩ := hw.numerals _ hmem
      rw [hparse] at hd
      cases hd
    | outOfBounds hmem hparse hd =>
      obtain ⟨hlow, hhigh⟩ := hw.ends _ hmem _ hparse
      rcases hd with hd | hd <;> linarith
  · intro hnone
    have htransform : ∀ c, w.form = .comprehension c → c.transform ≠ none := by
      intro c hform hc
      refine hnone ⟨.missingTransform c.result, w.line⟩ ?_
      rw [Written.Statement.faults, hform]
      dsimp only
      rw [Written.Comprehension.faults, hc]
      exact List.mem_singleton_self _
    have hfault : ∀ e, ¬ w.Fault limits e := fun e he => hnone e ((mem_faults htransform).mpr he)
    refine ⟨fun p hp => ?_, fun text htext d hparse => ?_, htransform⟩
    · refine Option.ne_none_iff_exists'.mp fun hparse => ?_
      exact hfault _ (.malformedNumber hp hparse)
    · rw [← RangeLimits.admits_iff, ← Bool.not_eq_false]
      intro hd
      exact hfault _ (.outOfBounds htext hparse (not_admits_iff.mp hd))

end Faults

/-- **A statement fails for its faults and for nothing else.**  Under any limits it stands for a statement exactly if
all of its numerals are decimals, all ends of its ranges lie within the limits, and it has a transform if it is a
comprehension.  The error it fails with is one of its faults, and so never one of arithmetic. -/
theorem statements_fail_for_faults_only (limits : RangeLimits) (w : Written.Statement) :
    ((∃ st, Statement.ofWritten limits w = .ok st) ↔ w.WellFormed limits) ∧
      ∀ e, Statement.ofWritten limits w = .error e →
        w.Fault limits e ∧ ∀ fault expression, e.cause ≠ .arithmetic fault expression := by
  have hchecked := ofWritten_checked limits w
  refine ⟨hchecked.exists_ok_iff.trans wellFormed_iff.symm, fun e he => ?_⟩
  have hfault := fault_of_mem_faults (hchecked.mem_of_error he)
  refine ⟨hfault, ?_⟩
  cases hfault <;> exact nofun

/-- A range with a fraction and a threshold that is no decimal; without the threshold nothing is wrong. -/
theorem statements_fail_for_faults_only_threshold :
    let c : Written.Comprehension := ⟨"B", some (.var "x" 4), [⟨"x", .inline (.between "1" "2.5")⟩], []⟩
    let w : Written.Statement := ⟨.comprehension { c with predicates := [⟨"x", some .gt, "1e99"⟩] }, 4⟩
    Written.Statement.WellFormed .standard ⟨.comprehension c, 4⟩ ∧ ¬ w.WellFormed .standard ∧
      w.Fault .standard ⟨.malformedNumber "1e99", 4⟩ := by
  intro c w
  have hread : ∃ st, Statement.ofWritten .standard ⟨.comprehension c, 4⟩ = .ok st := ⟨_, rfl⟩
  have hmalformed : Statement.ofWritten .standard w = .error ⟨.malformedNumber "1e99", 4⟩ := by decide +kernel
  obtain ⟨hiff, hfault⟩ := statements_fail_for_faults_only .standard w
  refine ⟨(statements_fail_for_faults_only .standard _).1.mp hread, fun hwell => ?_, (hfault _ hmalformed).1⟩
  obtain ⟨st, hst⟩ := hiff.mpr hwell
  rw [hmalformed] at hst
  cases hst

end Listwise
