import NodeGraph.Fault
import NodeGraph.Node.Basic

/-!
# Catalog

A catalog lists prototype nodes under their descriptions and hands out copies of them. It has no
part in running a graph.
-/

namespace NodeGraph

/-- Prototype nodes, in the order they were added. -/
structure Catalog where
  prototypes : List Node

namespace Catalog

/-- Description of a prototype, which depends on its kind alone. -/
def describe (prototype : Node) : Metadata := prototype.kind.metadata

/-- The catalog of every built-in kind of node. -/
def builtin : Catalog := ⟨NodeKind.all.map Node.ofKind⟩

/-- The catalog with further prototypes behind its own. -/
def extend (c : Catalog) (prototypes : List Node) : Catalog := ⟨c.prototypes ++ prototypes⟩

/-- A copy of the first prototype of the type with this name. -/
def create (c : Catalog) (typeName : String) : Except Fault Node :=
  match c.prototypes.find? fun node => (describe node).typeName == typeName with
  | some node => .ok node
  | none => .error (.unknownType typeName)

/-- The prototypes of a category and of all categories below it. -/
def inCategory (c : Catalog) (category : Category) : List Node :=
  c.prototypes.filter fun node =>
    let own := (describe node).category
    own == category || own.isBelow category

end Catalog

/-- A new node of the type with this name. -/
def Node.ofTypeName (typeName : String) : Except Fault Node :=
  match NodeKind.ofTypeName? typeName with
  | some kind => .ok (.ofKind kind)
  | none => .error (.unknownType typeName)

end NodeGraph
