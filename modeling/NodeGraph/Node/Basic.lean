import NodeGraph.Node.Layout
import NodeGraph.Node.Metadata

/-!
# Nodes

A node is a unit of computation with ordered inputs and outputs, laid out by the description of its
kind.
-/

namespace NodeGraph

/-- Whether the body of a pure node is running. A pull that reaches a node while it is computing
has come back to it through a cycle. -/
inductive Activity where
  | idle
  | computing
deriving DecidableEq, Repr

/-- A node of a graph. -/
structure Node where
  /-- Position in the graph that the node was added to. -/
  id : NodeId
  title : String
  kind : NodeKind
  inputs : Array Input
  outputs : Array Output
  activity : Activity := .idle
  /-- Epoch in which a pure node was last computed, or `Epoch.stale`. -/
  computedAt : Int := Epoch.stale
  /-- How often the body ran. -/
  evaluations : Nat := 0

namespace Node

/-- A node that was never wired or run, with the literals of its kind. -/
def ofKind (kind : NodeKind) : Node :=
  let metadata := kind.metadata
  { id := 0
    title := metadata.displayName
    kind
    inputs := (metadata.inputs.map fun spec =>
      { name := spec.name, type := spec.type, literal := spec.literal : Input }).toArray
    outputs := (metadata.outputs.map fun spec =>
      { name := spec.name, type := spec.type : Output }).toArray }

/-- Changes an input; a port that does not exist is left alone. -/
def modifyInput (n : Node) (port : PortId) (f : Input → Input) : Node :=
  { n with inputs := n.inputs.modify port f }

/-- Changes an output; a port that does not exist is left alone. -/
def modifyOutput (n : Node) (port : PortId) (f : Output → Output) : Node :=
  { n with outputs := n.outputs.modify port f }

/-- Sets the literal of an input; a port that does not exist is left alone. -/
def withLiteral (n : Node) (port : PortId) (value : Value) : Node :=
  n.modifyInput port fun input => { input with literal := value }

def withTitle (n : Node) (title : String) : Node := { n with title }

/-- A pure node that reads the local variable `name`. -/
def getLocal (name : String) : Node :=
  (ofKind (.pure .getLocal)).withLiteral Layout.GetLocal.key (.text name)

/-- An action node that sets the local variable `name`, to `value` unless its value is linked. -/
def setLocal (name : String) (value : Value) : Node :=
  ((ofKind (.action .setLocal)).withLiteral Layout.SetLocal.key (.text name)).withLiteral
    Layout.SetLocal.value value

/-- Makes everything the node has read or computed stale. -/
def invalidate (n : Node) : Node :=
  { n with inputs := n.inputs.map Input.invalidate, computedAt := Epoch.stale }

/-- The node as it can be added to a graph: without links and with nothing in progress or current.
Literals, written values and counts stay. -/
def detach (n : Node) : Node :=
  { n with
    inputs := n.inputs.map Input.unlink
    outputs := n.outputs.map fun output => { output with targets := #[] }
    activity := .idle
    computedAt := Epoch.stale }

/-- Writes an output. -/
def write (n : Node) (port : PortId) (value : Value) : Node :=
  n.modifyOutput port fun output => { output with value }

/-- Counts one more run of the body. -/
def countEvaluation (n : Node) : Node := { n with evaluations := n.evaluations + 1 }

end Node

end NodeGraph
