import NodeGraph.Engine.Step

/-!
# Runs

A run starts at a node and follows the flow links that each step selects, depth first and left to
right. The tasks still to be done are kept in a list, the next one first. Control graphs need not
come to an end, so a run is given a limit on its steps; below the limit, the limit has no influence.
-/

namespace NodeGraph

/-- A run under way. -/
structure Run where
  machine : Machine
  /-- Tasks still to be done, the next one first. -/
  pending : List Task
  /-- The node at which the last branch ended. -/
  last : NodeId

namespace Run

/-- Does one task; the others come after everything that follows from it. -/
def advance (m : Machine) (task : Task) (rest : List Task) (last : NodeId) : Run :=
  let id := task.node
  match m.perform task with
  | (.follow ports, m) =>
    match m.following id ports with
    | [] => ⟨m, rest, id⟩
    | next => ⟨m, next.map .enter ++ rest, last⟩
  | (.again body frame, m) =>
    ⟨m, (m.following id [body]).map .enter ++ .resume id frame :: rest, last⟩

/-- Does tasks until none is left; `none` when `limit` of them were not enough. -/
def finish : (limit : Nat) → Run → Option Run
  | _, ⟨m, [], last⟩ => some ⟨m, [], last⟩
  | 0, ⟨_, _ :: _, _⟩ => none
  | limit + 1, ⟨m, task :: rest, last⟩ => finish limit (advance m task rest last)

/-- The run that enters a node. -/
def start (m : Machine) (node : NodeId) : Run := ⟨m, [.enter node], node⟩

end Run

/-- Runs from a node; gives the node at which the last branch ended. -/
def Machine.execute (limit : Nat) (m : Machine) (start : NodeId) :
    Option (Except Fault NodeId × Machine) :=
  match m.engine.graph.node start with
  | .error fault => some (.error fault, m)
  | .ok _ => (Run.start m start).finish limit |>.map fun run => (.ok run.last, run.machine)

namespace Engine

/-- Runs from a node for the engine's own context. The run is given a copy of it, and what it has made
of the copy is put in its place at the end, also where the run was refused; until then nothing looks
at the own context. -/
def execute (limit : Nat) (e : Engine) (start : NodeId) :
    Option (Except Fault NodeId × Engine) :=
  (Machine.execute limit ⟨e, e.context⟩ start).map fun (result, m) =>
    (result, { m.engine with context := m.context })

/-- Runs from each node of a list in turn, up to the first that does not exist. The limit holds for
each run. -/
def executeNodes (limit : Nat) : List NodeId → Engine → Option (Except Fault Unit × Engine)
  | [], e => some (.ok (), e)
  | id :: rest, e =>
    match e.execute limit id with
    | none => none
    | some (.error fault, e) => some (.error fault, e)
    | some (.ok _, e) => executeNodes limit rest e

/-- Runs from the nodes linked to each flow output of a list in turn. -/
def executeOutputs (limit : Nat) : List OutputAddr → Engine → Option (Except Fault Unit × Engine)
  | [], e => some (.ok (), e)
  | addr :: rest, e =>
    match e.executeNodes limit (e.graph.successors addr) with
    | none => none
    | some (.error fault, e) => some (.error fault, e)
    | some (.ok _, e) => executeOutputs limit rest e

end Engine

end NodeGraph
