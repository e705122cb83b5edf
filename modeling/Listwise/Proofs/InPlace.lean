import Listwise.Environment
import Mathlib.Control.Monad.Basic

/-!
# Statements in place

`Environment.run` changes lists as it goes and keeps the changes when it fails.  It still does what `Session.execute`
says, which changes nothing before everything has succeeded: whatever can fail in a statement comes before its first
change.

* `perform_eq`, `run_eq`, `executeLine_after`: a statement, an input, in place and at once.
* `executeEach_eq`, `executeScript_eq`, `runScript_eq`: so are inputs one after the other, and whole scripts.
* `succeeding env inputs`: the inputs that succeed when all are carried out, one after the other.
* `failing_inputs_leave_no_trace`: carrying out these alone comes to the same.
-/

namespace Listwise.Environment

/-! ## One statement -/

section Steps

variable (env : Environment)

/-- The lists of a definition go in one by one. -/
theorem forM_define (lists : List NamedList) :
    (lists.forM define).run.run env = (.ok (), { env with store := env.store.insertAll lists }) := by
  induction lists generalizing env with
  | nil => rfl
  | cons l lists ih => exact ih { env with store := env.store.insert l }

/-- The environment behind a result of its session: what was shown is added, and an error changes nothing. -/
def after (env : Environment) : Except Error (Session × List String) → Except Error Unit × Environment
  | .ok (s, shown) => (.ok (), { env with toSession := s, shown := env.shown ++ shown })
  | .error e => (.error e, env)

theorem after_silent (s : Session) : env.after (.ok (s, [])) = (.ok (), { env with toSession := s }) := by
  rw [after, List.append_nil]

/-- A computation that changes nothing, and may fail, goes before steps in place as it goes before steps at once. -/
theorem run_lift_bind {α : Type} (x : Except Error α) {k : α → Action Unit}
    {f : α → Except Error (Session × List String)} (h : ∀ a, (k a).run.run env = env.after (f a)) :
    (liftM x >>= k : Action Unit).run.run env = env.after (x >>= f) := by
  cases x with
  | error e => rfl
  | ok a => exact h a

theorem run_get_bind (k : Environment → Action Unit) :
    (get >>= k : Action Unit).run.run env = (k env).run.run env := rfl

theorem perform_eq (st : Statement) : (perform st).run.run env = env.after (env.toSession.perform st) := by
  cases st with
  | definitions lists => rw [perform, forM_define, Session.perform, after_silent]
  | showAll => rfl
  | comprehension c =>
    -- the comprehension is over before its list goes in
    refine run_lift_bind env (c.run env.store) fun l => ?_
    exact (after_silent env { env.toSession with store := env.store.insert l }).symm

theorem run_eq (input : String) (line : Nat) :
    (run input line).run.run env = env.after (env.toSession.execute input line) := by
  rw [run, Session.execute]
  refine run_lift_bind env (Written.Statement.parse? input line) fun r => ?_
  cases r with
  | none => exact (after_silent env env.toSession).symm
  | some w =>
    dsimp only
    rw [run_get_bind]
    exact run_lift_bind env (Statement.ofWritten env.limits w) (perform_eq env)

end Steps

/-! ## One input -/

section Inputs

variable {env : Environment} {input : String} {line : Nat}

/-- **An input is carried out in place as it is at once.**  Behind it no statement is being carried out. -/
theorem executeLine_after (env : Environment) (input : String) (line : Nat) :
    env.executeLine input line =
      ((env.after (env.toSession.execute input line)).1,
        { (env.after (env.toSession.execute input line)).2 with activity := .idle }) := by
  have hbusy : ({ env with activity := .evaluating } : Environment).toSession = env.toSession := rfl
  rw [executeLine, run_eq, hbusy]
  cases env.toSession.execute input line <;> rfl

theorem executeLine_eq (hidle : env.activity = .idle) (input : String) (line : Nat) :
    env.executeLine input line = env.after (env.toSession.execute input line) := by
  have hafter : (env.after (env.toSession.execute input line)).2.activity = .idle := by
    cases env.toSession.execute input line <;> exact hidle
  rw [executeLine_after, ← hafter]

theorem activity_executeLine (env : Environment) (input : String) (line : Nat) :
    (env.executeLine input line).2.activity = .idle := rfl

theorem eq_of_executeLine_error (hidle : env.activity = .idle) {env' : Environment} {e : Error}
    (h : env.executeLine input line = (.error e, env')) : env' = env := by
  rw [executeLine_eq hidle] at h
  cases hx : env.toSession.execute input line with
  | error e' =>
    rw [hx] at h
    exact (congrArg Prod.snd h).symm
  | ok r =>
    rw [hx] at h
    cases h

end Inputs

/-! ## Inputs up to the first that fails -/

/-- The environment behind a transcript of its session. -/
def behind (env : Environment) (t : Transcript) : Except Error Unit × Environment :=
  (t.error.elim (.ok ()) .error, { env with toSession := t.session, shown := env.shown ++ t.shown })

section Scripts

variable {env : Environment}

/-- **Inputs are carried out in place as they are at once**, up to the first that fails. -/
theorem executeEach_eq (hidle : env.activity = .idle) (inputs : List (String × Nat)) :
    env.executeEach inputs = env.behind (env.toSession.executeEach inputs) := by
  induction inputs generalizing env with
  | nil => rw [executeEach, Session.executeEach, behind, List.append_nil, Option.elim_none]
  | cons i inputs ih =>
    obtain ⟨input, line⟩ := i
    rw [executeEach, Session.executeEach, executeLine_eq hidle]
    cases env.toSession.execute input line with
    | error e =>
      dsimp only [after]
      rw [behind, List.append_nil, Option.elim_some]
    | ok p =>
      obtain ⟨s, shown⟩ := p
      refine (ih ?_).trans ?_
      · exact hidle
      · dsimp only [behind]
        rw [List.append_assoc]

theorem executeScript_eq (hidle : env.activity = .idle) (script : String) :
    env.executeScript script = env.behind (env.toSession.executeScript script) :=
  executeEach_eq hidle (Session.inputs script)

/-- What a script shows in a session of its own it shows in an environment of its own. -/
theorem runScript_eq (limits : RangeLimits) (script : String) :
    runScript limits script = ((start limits).executeScript script).1.map fun _ =>
      String.join ((start limits).executeScript script).2.shown := by
  rw [executeScript_eq rfl, runScript]
  show _ = Except.map (fun _ => String.join ((Session.start limits).executeScript script).shown)
    (((Session.start limits).executeScript script).error.elim (.ok ()) .error)
  cases ((Session.start limits).executeScript script).error <;> rfl

end Scripts

/-! ## Many inputs -/

/-- Carries out all inputs, whether they fail or not. -/
def attemptEach (env : Environment) : List (String × Nat) → Environment
  | [] => env
  | (input, line) :: rest => (env.executeLine input line).2.attemptEach rest

/-- Of inputs that are all carried out, whether they fail or not, those that succeed. -/
def succeeding (env : Environment) : List (String × Nat) → List (String × Nat)
  | [] => []
  | (input, line) :: rest =>
    match env.executeLine input line with
    | (.ok (), env') => (input, line) :: env'.succeeding rest
    | (.error _, env') => env'.succeeding rest

section Sequences

variable {env : Environment}

theorem activity_attemptEach (hidle : env.activity = .idle) (inputs : List (String × Nat)) :
    (env.attemptEach inputs).activity = .idle := by
  induction inputs generalizing env with
  | nil => exact hidle
  | cons i inputs ih => exact ih (activity_executeLine env i.1 i.2)

/-- The inputs that succeed do so again when the others are left out, and leave the same environment. -/
theorem executeEach_succeeding (hidle : env.activity = .idle) (inputs : List (String × Nat)) :
    env.executeEach (env.succeeding inputs) = (.ok (), env.attemptEach inputs) := by
  induction inputs generalizing env with
  | nil => rfl
  | cons i inputs ih =>
    obtain ⟨input, line⟩ := i
    have hnext := ih (activity_executeLine env input line)
    rw [succeeding, attemptEach]
    cases hx : env.executeLine input line with
    | mk result env' =>
      rw [hx] at hnext
      cases result with
      | ok u =>
        dsimp only
        rw [executeEach, hx]
        exact hnext
      | error e =>
        -- the environment is the same as before the failure
        obtain rfl := eq_of_executeLine_error hidle hx
        exact hnext

/-- **Failing inputs leave no trace.**  Of any inputs, those that succeed when all are carried out succeed again when
the failing ones are left out; they leave the same lists, have shown the same texts, and no statement is being carried
out at the end.  An input that fails, at whatever stage, leaves the environment as it was; and of a definition with
several clauses all are carried out, or none if one of them fails. -/
theorem failing_inputs_leave_no_trace (env : Environment) (hidle : env.activity = .idle) :
    (∀ inputs, env.executeEach (env.succeeding inputs) = (.ok (), env.attemptEach inputs) ∧
      (env.attemptEach inputs).activity = .idle) ∧
    (∀ input line e env', env.executeLine input line = (.error e, env') → env' = env) ∧
    ∀ input line n clauses, Written.Statement.parse? input line = .ok (some ⟨.definitions clauses, n⟩) →
      (∃ lists, clauses.mapM (Written.Clause.toList env.limits n) = .ok lists ∧
        env.executeLine input line = (.ok (), { env with store := env.store.insertAll lists })) ∨
      ∃ e, clauses.mapM (Written.Clause.toList env.limits n) = .error e ∧
        env.executeLine input line = (.error e, env) := by
  refine ⟨fun inputs => ⟨executeEach_succeeding hidle inputs, activity_attemptEach hidle inputs⟩,
    fun input line e env' => eq_of_executeLine_error hidle, ?_⟩
  intro input line n clauses hparse
  have hexecute : env.toSession.execute input line = (do
      let lists ← clauses.mapM (Written.Clause.toList env.limits n)
      return ({ env.toSession with store := env.store.insertAll lists }, [])) := by
    rw [Session.execute, hparse]
    show (Statement.ofWritten env.limits ⟨.definitions clauses, n⟩ >>= env.toSession.perform) = _
    rw [Statement.ofWritten]
    dsimp only
    cases clauses.mapM (Written.Clause.toList env.limits n) <;> rfl
  rw [executeLine_eq hidle, hexecute]
  cases hlists : clauses.mapM (Written.Clause.toList env.limits n) with
  | error e => exact .inr ⟨e, rfl, rfl⟩
  | ok lists =>
    refine .inl ⟨lists, rfl, ?_⟩
    exact after_silent env { env.toSession with store := env.store.insertAll lists }

/-- Five inputs, of which the second fails halfway through its list, the third in its last clause and the fourth at
its second token. -/
theorem failing_inputs_leave_no_trace_five :
    let env := Environment.start .standard
    let inputs := [("A = [1, 2]", 1), ("B = [1 / x | x in [1, 0]]", 2), ("A = [3], C = [1e99]", 3), ("A ?", 7), ("show", 9)]
    env.activity = .idle ∧ env.succeeding inputs = [("A = [1, 2]", 1), ("show", 9)] ∧
      env.executeEach [("A = [1, 2]", 1), ("show", 9)] = (.ok (), env.attemptEach inputs) ∧
      ∃ e, env.executeLine "A = [3], C = [1e99]" 3 = (.error e, env) := by
  intro env inputs
  have hsucceeding : env.succeeding inputs = [("A = [1, 2]", 1), ("show", 9)] := by decide +kernel
  have hparse : Written.Statement.parse? "A = [3], C = [1e99]" 3 =
      .ok (some ⟨.definitions [⟨"A", .listed [.number "3"]⟩, ⟨"C", .listed [.number "1e99"]⟩], 3⟩) := by decide +kernel
  have hmalformed : [Written.Clause.mk "A" (.listed [.number "3"]), ⟨"C", .listed [.number "1e99"]⟩].mapM
      (Written.Clause.toList env.limits 3) = .error ⟨.malformedNumber "1e99", 3⟩ := by decide +kernel
  obtain ⟨hall, -, hclauses⟩ := failing_inputs_leave_no_trace env rfl
  refine ⟨rfl, hsucceeding, hsucceeding ▸ (hall inputs).1, ?_⟩
  rcases hclauses _ _ _ _ hparse with ⟨lists, hlists, -⟩ | ⟨e, -, herror⟩
  · rw [hmalformed] at hlists
    cases hlists
  · exact ⟨e, herror⟩

end Sequences

end Listwise.Environment
