import NodeGraph.Log.Basic
import NodeGraph.Port

/-!
# Events

What a graph writes into its journal while it works, and the log line of each entry.
-/

namespace NodeGraph

/-- An entry in the journal of a graph. -/
inductive Event where
  /-- Every stamp of so many nodes was made stale. -/
  | invalidated (nodes : Nat) (epoch : Int)
  | epochWrapped
  /-- A read for another context than the one the epoch serves. -/
  | contextChanged (epoch : Int)
  | executing (node : NodeId) (title : String) (epoch : Int)
  | printed (line : String)
  /-- A counting loop whose step makes no progress. -/
  | bodySkipped (node : NodeId) (step : Int64)
  /-- A pull came back to a node still being computed. -/
  | pullCycle (node : NodeId) (title : String)
  /-- A program without an entry node was asked to run. -/
  | noEntry
deriving DecidableEq, Repr

namespace Event

def level : Event → Level
  | invalidated .. | epochWrapped | contextChanged _ => .trace
  | executing .. | noEntry => .debug
  | printed _ => .info
  | bodySkipped .. | pullCycle .. => .warn

def text : Event → String
  | invalidated nodes epoch => s!"Invalidated {nodes} nodes at epoch {epoch}"
  | epochWrapped => "Epoch counter wrapped, invalidating all stamps"
  | contextChanged epoch => s!"Context changed within epoch {epoch}, opening a new one"
  | executing node title epoch => s!"Executing node {node} ({title}) in epoch {epoch}"
  | printed line => line
  | bodySkipped node step => s!"For node {node} has step {step.toInt}, skipping its body"
  | pullCycle node title => s!"Pull cycle through node {node} ({title}), using its previous output"
  | noEntry => "Control flow graph has no start node, nothing to run"

def source : Event → LogSource
  | invalidated .. | epochWrapped | contextChanged _ | executing .. | pullCycle .. => .engine
  | printed _ => .printing
  | bodySkipped .. => .countingLoop
  | noEntry => .control

/-- The journal entry as a line of a log. -/
def logLine (e : Event) : LogLine := ⟨e.level, e.source, e.text⟩

end Event

end NodeGraph
