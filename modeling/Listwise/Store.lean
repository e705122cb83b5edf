import Listwise.NamedList

/-!
# The store

The lists that have been defined, in the order in which their names first came up.  Defining a name
again replaces its list in place.
-/

namespace Listwise

/-- Defined lists, the oldest name first. -/
structure Store where
  lists : List NamedList
  deriving DecidableEq, Repr

namespace Store

/-- The store without lists. -/
def empty : Store := ⟨[]⟩

/-- The sequence with `l` in place of the list of the same name, or at the end. -/
def put (l : NamedList) : List NamedList → List NamedList
  | [] => [l]
  | x :: xs => if x.name = l.name then l :: xs else x :: put l xs

/-- Defines a list, or replaces the one of its name. -/
def insert (s : Store) (l : NamedList) : Store := ⟨put l s.lists⟩

/-- Defines lists one after the other. -/
def insertAll (s : Store) (ls : List NamedList) : Store := ls.foldl insert s

/-- The list of a name. -/
def get? (s : Store) (name : String) : Option NamedList := s.lists.find? (·.name = name)

/-- The names, the oldest first. -/
def names (s : Store) : List String := s.lists.map (·.name)

/-- All lists, each on a line of its own. -/
def render (s : Store) : String := String.join (s.lists.map fun l => l.render ++ "\n")

end Store

end Listwise
