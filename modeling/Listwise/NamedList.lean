import Listwise.Decimal.Text

/-!
# Named lists

A value is a decimal or a text; a named list is a sequence of values under a name.  A list may refer
to another one: if it has no elements of its own it then stands for that list.
-/

namespace Listwise

/-- An element of a list. -/
inductive Value where
  | number (d : Decimal)
  | text (s : String)
  deriving DecidableEq, Repr

/-- A number in its shortest form, a text as it is. -/
def Value.render : Value → String
  | .number d => d.canonical.toText
  | .text s => s

/-- A sequence of values under a name. -/
structure NamedList where
  name : String
  elements : List Value
  reference : Option String := none
  deriving DecidableEq, Repr

/-- The list on one line: `name = [a,b,c]`. -/
def NamedList.render (l : NamedList) : String :=
  l.name ++ " = [" ++ ",".intercalate (l.elements.map Value.render) ++ "]"

end Listwise
