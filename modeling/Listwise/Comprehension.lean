import Listwise.Predicate
import Listwise.Store

/-!
# Comprehensions

A comprehension lets each of its variables run through a list, the first one slowest, and collects the
value of its transform for every combination that satisfies its predicates.

* `sources`: the variables with the numbers they run through.
* `Wheel`, `advance`: one position in every source, stepped like an odometer, the last one fastest.
* `turn`: the loop over the combinations, from one position of the odometer on.
* `run`: the resulting list, or the first error.
-/

namespace Listwise

/-- A comprehension: a binding is a list named for its variable. -/
structure Comprehension where
  result : String
  bindings : List NamedList
  transform : Expr Decimal
  predicates : List Predicate
  line : Nat
  deriving DecidableEq, Repr

/-- A variable and the numbers it runs through. -/
structure Source where
  var : String
  values : Array Decimal
  deriving DecidableEq, Repr

/-- The list that a binding runs through: the stored list it refers to, if it refers to one and has no
elements itself. -/
def Store.resolve (store : Store) (line : Nat) (binding : NamedList) : Except Error NamedList :=
  match binding.reference, binding.elements with
  | some name, [] =>
    match store.get? name with
    | some l => .ok l
    | none => .error ⟨.unknownList name, line⟩
  | _, _ => .ok binding

/-- The elements of a list, all of which have to be numbers. -/
def NamedList.numbers (line : Nat) (l : NamedList) : Except Error (List Decimal) :=
  l.elements.mapM fun
    | .number d => .ok d
    | .text s => .error ⟨.nonNumericElement l.name s, line⟩

/-! ## The odometer -/

/-- A source and the position that is current in it. -/
structure Wheel extends Source where
  position : Fin values.size
  deriving DecidableEq, Repr

namespace Wheel

/-- The wheel of a source at its first position; none if the source is empty. -/
def first? (s : Source) : Option Wheel :=
  if h : 0 < s.values.size then some ⟨s, ⟨0, h⟩⟩ else none

/-- The number at the current position. -/
def value (w : Wheel) : Decimal := w.values[w.position]

/-- The wheel back at its first position. -/
def reset (w : Wheel) : Wheel := ⟨w.toSource, ⟨0, Nat.zero_lt_of_lt w.position.isLt⟩⟩

/-- The wheel one position further; none at the last one. -/
def next? (w : Wheel) : Option Wheel :=
  if h : w.position.val + 1 < w.values.size then some ⟨w.toSource, ⟨w.position.val + 1, h⟩⟩ else none

/-- How many positions follow the current one. -/
def left (w : Wheel) : Nat := w.values.size - 1 - w.position.val

/-- Gives the number at the current position to the variable; an earlier one of its name is hidden. -/
def assign (σ : Assignment) (w : Wheel) : Assignment := (w.var, w.value) :: σ

end Wheel

/-- Steps to the next combination, the last wheel fastest: a wheel at its last position goes back to
its first and carries to the one before.  Gives `false`, and all wheels back at their first positions,
when there is no next combination. -/
def advance : List Wheel → Bool × List Wheel
  | [] => (false, [])
  | w :: ws =>
    match advance ws with
    | (true, ws') => (true, w :: ws')
    | (false, ws') =>
      match w.next? with
      | some w' => (true, w' :: ws')
      | none => (false, w.reset :: ws')

/-- The number of combinations. -/
def combinations : List Wheel → Nat
  | [] => 1
  | w :: ws => w.values.size * combinations ws

/-- How many combinations follow the current one. -/
def remaining : List Wheel → Nat
  | [] => 0
  | w :: ws => w.left * combinations ws + remaining ws

/-- The values that the current positions give to the variables. -/
def assignment (ws : List Wheel) : Assignment := ws.foldl Wheel.assign []

namespace Wheel

theorem left_of_next? {w w' : Wheel} (h : w.next? = some w') :
    w'.values.size = w.values.size ∧ w'.left + 1 = w.left := by
  unfold next? at h
  split at h
  case isTrue hlt =>
    cases h
    refine ⟨rfl, ?_⟩
    simp only [left]
    omega
  case isFalse => cases h

theorem left_of_next?_none {w : Wheel} (h : w.next? = none) :
    w.left = 0 ∧ w.reset.left + 1 = w.values.size := by
  unfold next? at h
  split at h
  case isTrue => cases h
  case isFalse hge =>
    have hlt := w.position.isLt
    simp only [left, reset]
    omega

end Wheel

/-- A step keeps the number of combinations; it uses up one of those that remain, or none remains and
all of them come again. -/
theorem advance_spec (ws : List Wheel) :
    combinations (advance ws).2 = combinations ws ∧
    ((advance ws).1 = true → remaining (advance ws).2 + 1 = remaining ws) ∧
    ((advance ws).1 = false →
      remaining ws = 0 ∧ remaining (advance ws).2 + 1 = combinations ws) := by
  fun_induction advance ws with
  | case1 => exact ⟨rfl, nofun, fun _ => ⟨rfl, rfl⟩⟩
  | case2 w ws ws' hws ih =>
    rw [hws] at ih
    obtain ⟨hc, hr, -⟩ := ih
    have hr : remaining ws' + 1 = remaining ws := hr rfl
    refine ⟨?_, fun _ => ?_, nofun⟩
    · simp only [combinations, hc]
    · simp only [remaining, hc]
      omega
  | case3 w ws ws' hws w' hw ih =>
    rw [hws] at ih
    obtain ⟨hc, -, hr⟩ := ih
    have hr : remaining ws = 0 ∧ remaining ws' + 1 = combinations ws := hr rfl
    obtain ⟨hs, hl⟩ := Wheel.left_of_next? hw
    refine ⟨?_, fun _ => ?_, nofun⟩
    · simp only [combinations, hc, hs]
    · simp only [remaining, hc, ← hl, Nat.succ_mul, hr.1]
      omega
  | case4 w ws ws' hws hw ih =>
    rw [hws] at ih
    obtain ⟨hc, -, hr⟩ := ih
    have hr : remaining ws = 0 ∧ remaining ws' + 1 = combinations ws := hr rfl
    obtain ⟨hz, hl⟩ := Wheel.left_of_next?_none hw
    refine ⟨?_, nofun, fun _ => ⟨?_, ?_⟩⟩
    · simp only [combinations, hc]
      rfl
    · simp only [remaining, hz, hr.1, Nat.zero_mul]
    · simp only [remaining, combinations, hc, ← hl, Nat.succ_mul]
      omega

theorem remaining_advance_lt {ws ws' : List Wheel} (h : advance ws = (true, ws')) :
    remaining ws' < remaining ws := by
  have hr := (advance_spec ws).2.1
  rw [h] at hr
  exact Nat.lt_of_succ_le (Nat.le_of_eq (hr rfl))

namespace Comprehension

/-- The sources of bindings that follow those of the variables `bound`. -/
def sourcesFrom (store : Store) (line : Nat) (bound : List String) :
    List NamedList → Except Error (List Source)
  | [] => .ok []
  | b :: bs => do
    if b.name ∈ bound then .error ⟨.duplicateVariable b.name, line⟩
    else
      let values ← (← store.resolve line b).numbers line
      return ⟨b.name, values.toArray⟩ :: (← sourcesFrom store line (b.name :: bound) bs)

/-- The sources of a comprehension; a variable may be bound once only. -/
def sources (c : Comprehension) (store : Store) : Except Error (List Source) :=
  sourcesFrom store c.line [] c.bindings

/-- Adds to `found` (last first) what one combination yields. -/
def visit (c : Comprehension) (σ : Assignment) (found : List Decimal) :
    Except Error (List Decimal) := do
  if ← Predicate.evalAll σ c.predicates then return (← c.transform.eval σ) :: found
  else return found

/-- Adds to `found` (last first) what the combinations yield from the current one on. -/
def turn (c : Comprehension) (ws : List Wheel) (found : List Decimal) :
    Except Error (List Decimal) := do
  let found ← c.visit (assignment ws) found
  match _h : advance ws with
  | (true, ws') => turn c ws' found
  | (false, _) => return found
termination_by remaining ws
decreasing_by exact remaining_advance_lt _h

/-- The numbers that a comprehension collects from its sources; none if one of them is empty. -/
def collect (c : Comprehension) (ss : List Source) : Except Error (List Decimal) :=
  match ss.mapM Wheel.first? with
  | none => .ok []
  | some ws => return (← c.turn ws []).reverse

/-- The list that a comprehension defines; it is empty if there are no bindings. -/
def run (c : Comprehension) (store : Store) : Except Error NamedList := do
  Predicate.ensureDefined c.predicates
  if c.bindings.isEmpty then return { name := c.result, elements := [] }
  else
    let numbers ← c.collect (← c.sources store)
    return { name := c.result, elements := numbers.map .number }

end Comprehension

end Listwise
