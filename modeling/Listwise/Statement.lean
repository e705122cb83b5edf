import Listwise.Comprehension
import Listwise.Decimal.Literal
import Listwise.Range

/-!
# Statements

A statement that can be carried out: its numbers are decimals and its ranges are spelled out.
`Statement.ofWritten` makes one of a statement as written, under range limits.
-/

namespace Listwise

/-- A statement that can be carried out. -/
inductive Statement where
  | definitions (lists : List NamedList)
  | showAll
  | comprehension (c : Comprehension)
  deriving DecidableEq, Repr

/-- Reads a literal on a line. -/
def readDecimal (text : String) (line : Nat) : Except Error Decimal :=
  match Decimal.parse? text with
  | some d => .ok d
  | none => .error ⟨.malformedNumber text, line⟩

/-- Reads an end of a range, which has to lie within the limits. -/
def RangeLimits.readBound (limits : RangeLimits) (line : Nat) (text : String) :
    Except Error Decimal := do
  let d ← readDecimal text line
  if limits.admits d then return d
  else .error ⟨.rangeOutOfBounds text limits.lower limits.upper, line⟩

/-- The elements of a range. -/
def rangeValues (line : Nat) (lower upper : Decimal) : Except Error (List Value) :=
  match Decimal.range? lower upper with
  | some ds => .ok (ds.map .number)
  | none => .error ⟨.arithmetic .overflow (lower.toText ++ ".." ++ upper.toText), line⟩

namespace Written

/-- The value of an element. -/
def Literal.value (line : Nat) : Literal → Except Error Value
  | .number t => return .number (← readDecimal t line)
  | .text t => .ok (.text t)

/-- The values that elements spell out. -/
def Elements.values (limits : RangeLimits) (line : Nat) : Elements → Except Error (List Value)
  | .listed items => items.mapM (Literal.value line)
  | .between lower upper => do
    let lo ← limits.readBound line lower
    let hi ← limits.readBound line upper
    rangeValues line lo hi
  | .above lower => do rangeValues line (← limits.readBound line lower) limits.upper
  | .below upper => do rangeValues line limits.lower (← limits.readBound line upper)

/-- The list that a clause defines. -/
def Clause.toList (limits : RangeLimits) (line : Nat) (c : Clause) : Except Error NamedList :=
  return { name := c.name, elements := ← c.elements.values limits line }

/-- The list that a variable runs through, or a reference to it. -/
def Binding.toList (limits : RangeLimits) (line : Nat) (b : Binding) : Except Error NamedList :=
  match b.source with
  | .list name => .ok { name := b.var, elements := [], reference := some name }
  | .inline es => return { name := b.var, elements := ← es.values limits line }

/-- The predicate with its threshold read. -/
def Predicate.read (line : Nat) (p : Predicate) : Except Error Listwise.Predicate :=
  return ⟨p.operand, p.relation, ← readDecimal p.threshold line, line⟩

/-- The comprehension with all its numbers read: bindings first, then predicates, the transform
last. -/
def Comprehension.read (limits : RangeLimits) (line : Nat) (c : Comprehension) :
    Except Error Listwise.Comprehension := do
  match c.transform with
  | none => .error ⟨.missingTransform c.result, line⟩
  | some e =>
    let bindings ← c.bindings.mapM (Binding.toList limits line)
    let predicates ← c.predicates.mapM (Predicate.read line)
    let transform ← e.mapLiterals readDecimal
    return ⟨c.result, bindings, transform, predicates, line⟩

end Written

/-- The statement that a written statement stands for. -/
def Statement.ofWritten (limits : RangeLimits) (w : Written.Statement) :
    Except Error Statement :=
  match w.form with
  | .definitions cs => return .definitions (← cs.mapM (Written.Clause.toList limits w.line))
  | .showAll => .ok .showAll
  | .comprehension c => return .comprehension (← c.read limits w.line)

end Listwise
