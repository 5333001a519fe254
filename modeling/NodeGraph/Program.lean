import NodeGraph.Engine.Run

/-!
# Programs

A program is an engine with a node at which its runs begin.
-/

namespace NodeGraph

/-- An engine with an entry node, once one is chosen. -/
structure Program where
  engine : Engine
  entry : Option NodeId := none

namespace Program

/-- Chooses the entry node, which must exist. -/
def setEntry (p : Program) (id : NodeId) : Except Fault Program := do
  let _ ← p.engine.graph.node id
  .ok { p with entry := some id }

/-- Runs from the entry node; without one there is nothing to run, and no node is given back. -/
def run (limit : Nat) (p : Program) : Option (Except Fault (Option NodeId) × Program) :=
  match p.entry with
  | none => some (.ok none, { p with engine := p.engine.log .noEntry })
  | some id => (p.engine.execute limit id).map fun (result, engine) =>
    (result.map some, { p with engine })

end Program

end NodeGraph
