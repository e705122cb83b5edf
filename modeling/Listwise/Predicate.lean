import Listwise.Expr.Eval
import Listwise.Written

/-!
# Predicates

A predicate compares the value of a name with a threshold.  One without a relation is *undefined*: it
can be written down, but it has no truth value.
-/

namespace Listwise

namespace Relation

/-- The sign of a relation. -/
def symbol : Relation → String
  | .eq => "=="
  | .gt => ">"
  | .ge => ">="
  | .lt => "<"
  | .le => "<="

/-- Whether the values of two decimals are so related. -/
def holds : Relation → Decimal → Decimal → Bool
  | .eq, a, b => a ≈ b
  | .gt, a, b => b < a
  | .ge, a, b => b ≤ a
  | .lt, a, b => a < b
  | .le, a, b => a ≤ b

end Relation

/-- `operand relation threshold`, and its line. -/
structure Predicate where
  operand : String
  relation : Option Relation
  threshold : Decimal
  line : Nat
  deriving DecidableEq, Repr

namespace Predicate

/-- The error for a predicate without a relation. -/
def undefined (p : Predicate) : Error := ⟨.undefinedComparison p.operand, p.line⟩

/-- Whether a predicate holds. -/
def eval (σ : Assignment) (p : Predicate) : Except Error Bool :=
  match p.relation with
  | some r => .ok (r.holds (σ.value p.operand) p.threshold)
  | none => .error p.undefined

/-- Refuses the first predicate without a relation. -/
def ensureDefined (ps : List Predicate) : Except Error Unit :=
  match ps.find? (·.relation.isNone) with
  | some p => .error p.undefined
  | none => .ok ()

/-- Whether all predicates hold, tried in order up to the first that does not. -/
def evalEach (σ : Assignment) : List Predicate → Except Error Bool
  | [] => .ok true
  | p :: ps => do if ← p.eval σ then evalEach σ ps else return false

/-- Whether all predicates hold; an undefined one is refused wherever it stands. -/
def evalAll (σ : Assignment) (ps : List Predicate) : Except Error Bool := do
  ensureDefined ps
  evalEach σ ps

end Predicate

end Listwise
