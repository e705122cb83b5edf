import Listwise.Expr.Basic

/-!
# Statements as written

What a statement says before anything is looked up or computed: the numbers are still the texts
that were typed, and a list may be named before it exists.
-/

namespace Listwise

/-- The ways to compare with a threshold. -/
inductive Relation where
  | eq
  | gt
  | ge
  | lt
  | le
  deriving DecidableEq, Repr

namespace Written

/-- An element of a list. -/
inductive Literal where
  | number (text : String)
  | text (text : String)
  deriving DecidableEq, Repr

/-- The elements of a list: one by one, or an inclusive range, open at one end or at none. -/
inductive Elements where
  | listed (items : List Literal)
  | between (lower upper : String)
  | above (lower : String)
  | below (upper : String)
  deriving DecidableEq, Repr

/-- `name = elements`. -/
structure Clause where
  name : String
  elements : Elements
  deriving DecidableEq, Repr

/-- What a variable runs through. -/
inductive Source where
  | list (name : String)
  | inline (elements : Elements)
  deriving DecidableEq, Repr

/-- `var in source`. -/
structure Binding where
  var : String
  source : Source
  deriving DecidableEq, Repr

/-- `operand relation threshold`; the relation may be missing. -/
structure Predicate where
  operand : String
  relation : Option Relation
  threshold : String
  deriving DecidableEq, Repr

/-- `result = [transform | bindings | predicates]`; the transform may be missing. -/
structure Comprehension where
  result : String
  transform : Option (Expr String)
  bindings : List Binding
  predicates : List Predicate
  deriving DecidableEq, Repr

/-- The kinds of statements. -/
inductive Form where
  | definitions (clauses : List Clause)
  | showAll
  | comprehension (c : Comprehension)
  deriving DecidableEq, Repr

/-- A statement and its line. -/
structure Statement where
  form : Form
  line : Nat
  deriving DecidableEq, Repr

end Written

end Listwise
