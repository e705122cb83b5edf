import Listwise.Proofs.InPlace
import Listwise.Proofs.RangeSteps

/-!
# Wider limits

The limits of ranges are looked at in two places: an end that is written has to lie within them, and an end that is left
out is taken from them.  So what a script without open ranges gives, it gives under wider limits too, unless it gave an
error about the limits.

* `hasOpenRange`: the inputs with a range that is open at one end.
* `Widened r x y`: `y` gives what `x` gives, unless `x` fails for an end outside the limits.
* `readBound_widened`, `values_widened`, `ofWritten_widened`: one end, elements and statements.
* `execute_widened`, `executeEach_widened`: one input, and inputs one after the other.
* `wider_limits_keep_results`: whole scripts.
-/

namespace Listwise

/-! ## Definitions -/

namespace Written

/-- Whether elements are a range with one end left out. -/
def Elements.isOpen : Elements → Bool
  | .above _ => true
  | .below _ => true
  | _ => false

/-- Whether a variable runs through a range with one end left out. -/
def Source.isOpen : Source → Bool
  | .list _ => false
  | .inline es => es.isOpen

/-- Whether a statement has a range with one end left out. -/
def Form.hasOpenRange : Form → Bool
  | .definitions clauses => clauses.any (·.elements.isOpen)
  | .showAll => false
  | .comprehension c => c.bindings.any (·.source.isOpen)

end Written

/-- Whether an input has a range with one end left out; not if it is no statement. -/
def hasOpenRange (input : String) (line : Nat) : Bool :=
  match Written.Statement.parse? input line with
  | .ok (some w) => w.form.hasOpenRange
  | _ => false

/-- Whether an error is about an end of a range outside the limits. -/
def Error.isOutOfBounds (e : Error) : Bool :=
  match e.cause with
  | .rangeOutOfBounds .. => true
  | _ => false

/-- All that is within the one limits is within the others. -/
structure RangeLimits.Within (limits wider : RangeLimits) : Prop where
  low : wider.low ≤ limits.low
  high : limits.high ≤ wider.high

/-- The same lists under wider limits. -/
structure Session.Within (s t : Session) : Prop where
  limits : s.limits.Within t.limits
  store : s.store = t.store

/-- The same error, or values that `r` relates, unless the first is an error about the limits. -/
abbrev Widened {α β : Type} (r : α → β → Prop) : Except Error α → Except Error β → Prop :=
  Related (·.isOutOfBounds = true) Eq r

/-- What does not look at the limits. -/
theorem Widened.refl {α : Type} (x : Except Error α) : Widened (fun a b => b = a) x x := Related.refl (fun _ => rfl) x

/-! ## Statements -/

section Statements

variable {limits wider : RangeLimits}

/-- Wider limits admit what the others do. -/
theorem admits_of_within (h : limits.Within wider) {d : Decimal} (hd : limits.admits d = true) :
    wider.admits d = true := by
  have hlow : (wider.low.toInt : ℚ) ≤ limits.low.toInt := by exact_mod_cast Int64.le_iff_toInt_le.mp h.low
  have hhigh : (limits.high.toInt : ℚ) ≤ wider.high.toInt := by exact_mod_cast Int64.le_iff_toInt_le.mp h.high
  rw [RangeLimits.admits_iff] at hd ⊢
  exact ⟨hlow.trans hd.1, hd.2.trans hhigh⟩

variable (h : limits.Within wider) (line : Nat)
include h

theorem readBound_widened (text : String) :
    Widened (fun d d' => d' = d) (limits.readBound line text) (wider.readBound line text) := by
  refine (Widened.refl (readDecimal text line)).bind_eq fun d => ?_
  by_cases hd : limits.admits d = true
  · rw [if_pos hd, if_pos (admits_of_within h hd)]
    exact .ok rfl
  · rw [if_neg hd]
    refine .excused ?_ _
    rfl

theorem values_widened {es : Written.Elements} (hes : es.isOpen = false) :
    Widened (fun vs vs' => vs' = vs) (es.values limits line) (es.values wider line) := by
  cases es with
  | listed items => exact Widened.refl _
  | between lower upper =>
    refine (readBound_widened h line lower).bind_eq fun lo => ?_
    exact (readBound_widened h line upper).bind_eq fun hi => Widened.refl _
  | above lower => cases hes
  | below upper => cases hes

theorem clause_widened {c : Written.Clause} (hc : c.elements.isOpen = false) :
    Widened (fun l l' => l' = l) (c.toList limits line) (c.toList wider line) :=
  (values_widened h line hc).bind_eq fun _ => .ok rfl

theorem binding_widened {b : Written.Binding} (hb : b.source.isOpen = false) :
    Widened (fun l l' => l' = l) (b.toList limits line) (b.toList wider line) := by
  unfold Written.Binding.toList
  split
  · exact .ok rfl
  · next es hsource =>
    rw [hsource] at hb
    exact (values_widened h line hb).bind_eq fun vs => .ok rfl

theorem read_widened {c : Written.Comprehension} (hc : ∀ b ∈ c.bindings, b.source.isOpen = false) :
    Widened (fun d d' => d' = d) (c.read limits line) (c.read wider line) := by
  unfold Written.Comprehension.read
  split
  · exact .error rfl
  · -- only the bindings have ranges
    refine (Related.mapM_self fun b hb => binding_widened h line (hc b hb)).bind_eq fun bindings => ?_
    exact Widened.refl _

/-- A statement without open ranges is the same under wider limits. -/
theorem ofWritten_widened {w : Written.Statement} (hw : w.form.hasOpenRange = false) :
    Widened (fun st st' => st' = st) (Statement.ofWritten limits w) (Statement.ofWritten wider w) := by
  obtain ⟨form, n⟩ := w
  cases form with
  | showAll => exact .ok rfl
  | definitions clauses =>
    have hclauses : ∀ c ∈ clauses, c.elements.isOpen = false := by
      simpa [Written.Form.hasOpenRange] using hw
    exact (Related.mapM_self fun c hc => clause_widened h n (hclauses c hc)).bind_eq fun lists => .ok rfl
  | comprehension c =>
    have hbindings : ∀ b ∈ c.bindings, b.source.isOpen = false := by
      simpa [Written.Form.hasOpenRange] using hw
    exact (read_widened h n hbindings).bind_eq fun d => .ok rfl

end Statements

/-! ## Inputs -/

namespace Session

section Inputs

variable {s t : Session} (h : s.Within t)
include h

theorem perform_widened (st : Statement) :
    Widened (fun p q => p.1.Within q.1 ∧ q.2 = p.2) (s.perform st) (t.perform st) := by
  cases st with
  | definitions lists => exact .ok ⟨⟨h.limits, congrArg (·.insertAll lists) h.store⟩, rfl⟩
  | showAll => exact .ok ⟨h, congrArg (fun store => [store.render]) h.store.symm⟩
  | comprehension c =>
    have hrun : Widened (fun l l' => l' = l) (c.run s.store) (c.run t.store) := by
      rw [h.store]
      exact Widened.refl _
    exact hrun.bind_eq fun l => .ok ⟨⟨h.limits, congrArg (·.insert l) h.store⟩, rfl⟩

/-- An input without open ranges gives the same under wider limits, unless it fails for an end outside the others. -/
theorem execute_widened {input : String} {line : Nat} (hinput : hasOpenRange input line = false) :
    Widened (fun p q => p.1.Within q.1 ∧ q.2 = p.2) (s.execute input line) (t.execute input line) := by
  unfold hasOpenRange at hinput
  rw [execute, execute]
  cases hparse : Written.Statement.parse? input line with
  | error e => exact .error rfl
  | ok r =>
    cases r with
    | none => exact .ok ⟨h, rfl⟩
    | some w =>
      rw [hparse] at hinput
      exact (ofWritten_widened h.limits hinput).bind_eq fun st => perform_widened h st

/-- Inputs without open ranges leave the same lists under wider limits, show the same texts and stop at the same error,
unless they stop at an end outside the others. -/
theorem executeEach_widened {inputs : List (String × Nat)} (hinputs : ∀ i ∈ inputs, hasOpenRange i.1 i.2 = false) :
    (∃ e, (s.executeEach inputs).error = some e ∧ e.isOutOfBounds = true) ∨
      (t.executeEach inputs).error = (s.executeEach inputs).error ∧
        (t.executeEach inputs).shown = (s.executeEach inputs).shown ∧
        (s.executeEach inputs).session.Within (t.executeEach inputs).session := by
  induction inputs generalizing s t with
  | nil => exact .inr ⟨rfl, rfl, h⟩
  | cons i inputs ih =>
    obtain ⟨input, line⟩ := i
    obtain ⟨hi, hinputs⟩ := List.forall_mem_cons.mp hinputs
    have hexecute := execute_widened h hi
    rw [executeEach, executeEach]
    generalize s.execute input line = x, t.execute input line = y at hexecute
    cases hexecute with
    | error he =>
      subst he
      exact .inr ⟨rfl, rfl, h⟩
    | excused he y => exact .inl ⟨_, rfl, he⟩
    | @ok p q hpq =>
      obtain ⟨s', shown⟩ := p
      obtain ⟨t', shown'⟩ := q
      obtain ⟨hnext, rfl⟩ : s'.Within t' ∧ shown' = shown := hpq
      rcases ih hnext hinputs with hbounds | ⟨herror, hshown, hwithin⟩
      · exact .inl hbounds
      · exact .inr ⟨herror, congrArg (shown' ++ ·) hshown, hwithin⟩

end Inputs

end Session

/-! ## Scripts -/

/-- **Wider limits keep results.**  A script leaves out no end of a range, and under some limits it succeeds, or fails
for anything but an end outside of them.  Then it gives the same under all wider limits: it shows the same texts, or
fails with the same error.  In place it also leaves the same lists, and has shown the same texts before it fails. -/
theorem wider_limits_keep_results {limits wider : RangeLimits} (hlow : wider.low ≤ limits.low)
    (hhigh : limits.high ≤ wider.high) {script : String}
    (hclosed : ∀ i ∈ Session.inputs script, hasOpenRange i.1 i.2 = false)
    (hbounds : ∀ e, runScript limits script = .error e → e.isOutOfBounds = false) :
    runScript wider script = runScript limits script ∧
      ((Environment.start wider).executeScript script).1 = ((Environment.start limits).executeScript script).1 ∧
      ((Environment.start wider).executeScript script).2.store =
        ((Environment.start limits).executeScript script).2.store ∧
      ((Environment.start wider).executeScript script).2.shown =
        ((Environment.start limits).executeScript script).2.shown := by
  have hstart : (Session.start limits).Within (Session.start wider) := ⟨⟨hlow, hhigh⟩, rfl⟩
  rcases Session.executeEach_widened hstart hclosed with ⟨e, he, hout⟩ | ⟨herror, hshown, hwithin⟩
  · have hfails : runScript limits script = .error e := by
      rw [runScript, Session.executeScript, he]
    rw [hbounds e hfails] at hout
    cases hout
  · have hresult : ((Environment.start wider).executeScript script).1 =
        ((Environment.start limits).executeScript script).1 := by
      rw [Environment.executeScript_eq rfl, Environment.executeScript_eq rfl]
      exact congrArg (fun e => Option.elim e (Except.ok ()) Except.error) herror
    have htexts : ((Environment.start wider).executeScript script).2.shown =
        ((Environment.start limits).executeScript script).2.shown := by
      rw [Environment.executeScript_eq rfl, Environment.executeScript_eq rfl]
      exact congrArg ([] ++ ·) hshown
    refine ⟨?_, hresult, ?_, htexts⟩
    · rw [Environment.runScript_eq, Environment.runScript_eq, hresult, htexts]
    · rw [Environment.executeScript_eq rfl, Environment.executeScript_eq rfl]
      exact hwithin.store.symm

/-- Ranges up to the limits, in a definition and in a binding. -/
theorem wider_limits_keep_results_three :
    let limits : RangeLimits := ⟨-10, 10, by decide⟩
    let script := "A=9..10\nB=[x*y|x in A,y in -1..0]\nshow"
    RangeLimits.standard.low ≤ limits.low ∧ limits.high ≤ RangeLimits.standard.high ∧
      (∀ i ∈ Session.inputs script, hasOpenRange i.1 i.2 = false) ∧
      (∀ e, runScript limits script = .error e → e.isOutOfBounds = false) ∧
      runScript .standard script = .ok "A = [9,10]\nB = [-9,0,-10,0]\n" := by
  intro limits script
  have hclosed : ∀ i ∈ Session.inputs script, hasOpenRange i.1 i.2 = false := by decide +kernel
  have hrun : runScript limits script = .ok "A = [9,10]\nB = [-9,0,-10,0]\n" := by decide +kernel
  have hbounds : ∀ e, runScript limits script = .error e → e.isOutOfBounds = false := by
    intro e he
    rw [hrun] at he
    cases he
  have hlow : RangeLimits.standard.low ≤ limits.low := by decide
  have hhigh : limits.high ≤ RangeLimits.standard.high := by decide
  exact ⟨hlow, hhigh, hclosed, hbounds, (wider_limits_keep_results hlow hhigh hclosed hbounds).1.trans hrun⟩

end Listwise
