/-!
# Categories

Node types are sorted into a hierarchy of categories, each known by the path of names that leads
to it.
-/

namespace NodeGraph

/-- A category, by the names on the way to it. -/
structure Category where
  path : List String
deriving DecidableEq, Repr

namespace Category

/-- The last name of the path; empty for the empty path. -/
def name (c : Category) : String := c.path.getLast?.getD ""

/-- The category one level up. A category at the top has none, and neither has the empty path. -/
def parent? (c : Category) : Option Category :=
  if 1 < c.path.length then some ⟨c.path.dropLast⟩ else none

/-- Whether this category lies below the other one, at any depth. -/
def isBelow (c other : Category) : Bool :=
  decide (other.path.length < c.path.length) && other.path.isPrefixOf c.path

/-- The path in one line. -/
def display (c : Category) : String := " > ".intercalate c.path

def control : Category := ⟨["Flow", "Control"]⟩

def action : Category := ⟨["Flow", "Action"]⟩

def locals : Category := ⟨["Flow", "Local"]⟩

def math : Category := ⟨["Math"]⟩

def logic : Category := ⟨["Logic"]⟩

end Category

end NodeGraph
