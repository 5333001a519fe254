import NodeGraph.Fault
import NodeGraph.Node.Basic

/-!
# Graphs

A graph is an ordered collection of nodes; a node is known by its position. A link is recorded at
both of its ends: the input knows its source, and the output lists its targets. The operations
here keep the two in step. An input has at most one link, so a new one takes the place of the old.
-/

namespace NodeGraph

/-- A link from an output to an input. -/
structure Link where
  source : OutputAddr
  target : InputAddr
deriving DecidableEq, Repr

/-- Nodes and, in their ports, the links between them. -/
structure Graph where
  nodes : Array Node := #[]

namespace Graph

def size (g : Graph) : Nat := g.nodes.size

def node? (g : Graph) (id : NodeId) : Option Node := g.nodes[id]?

def input? (g : Graph) (addr : InputAddr) : Option Input :=
  (g.node? addr.node).bind (·.inputs[addr.port]?)

def output? (g : Graph) (addr : OutputAddr) : Option Output :=
  (g.node? addr.node).bind (·.outputs[addr.port]?)

/-- The node at a position. -/
def node (g : Graph) (id : NodeId) : Except Fault Node :=
  match g.node? id with
  | some node => .ok node
  | none => .error (.noNode id)

theorem node_eq_ok_iff {g : Graph} {id : NodeId} {node : Node} :
    g.node id = .ok node ↔ g.node? id = some node := by
  unfold Graph.node
  split <;> simp_all

/-- A position has a node exactly when it is below the size of the graph. -/
theorem node_eq_error_iff {g : Graph} {id : NodeId} {fault : Fault} :
    g.node id = .error fault ↔ g.size ≤ id ∧ fault = .noNode id := by
  unfold Graph.node node? size
  by_cases h : id < g.nodes.size
  · simp [Array.getElem?_eq_getElem h, Nat.not_le.mpr h]
  · simp [Nat.not_lt.mp h, eq_comm]

/-- The input at an address. A missing node is reported before a missing port. -/
def input (g : Graph) (addr : InputAddr) : Except Fault Input := do
  let node ← g.node addr.node
  match node.inputs[addr.port]? with
  | some input => .ok input
  | none => .error (.noInput addr)

/-- The output at an address. A missing node is reported before a missing port. -/
def output (g : Graph) (addr : OutputAddr) : Except Fault Output := do
  let node ← g.node addr.node
  match node.outputs[addr.port]? with
  | some output => .ok output
  | none => .error (.noOutput addr)

/-- Value an output holds; none where there is no such output. -/
def outputValue (g : Graph) (addr : OutputAddr) : Value :=
  match g.output? addr with
  | some output => output.value
  | none => .empty

/-- Nodes that read from an output, oldest link first. -/
def successors (g : Graph) (addr : OutputAddr) : List NodeId :=
  match g.output? addr with
  | some output => output.targets.toList.map (·.node)
  | none => []

def modifyNode (g : Graph) (id : NodeId) (f : Node → Node) : Graph := ⟨g.nodes.modify id f⟩

@[simp]
theorem size_modifyNode (g : Graph) (id : NodeId) (f : Node → Node) :
    (g.modifyNode id f).size = g.size := by
  simp [size, modifyNode]

@[simp]
theorem node?_modifyNode (g : Graph) (id other : NodeId) (f : Node → Node) :
    (g.modifyNode id f).node? other =
      if id = other then (g.node? other).map f else g.node? other := by
  simp [node?, modifyNode, Array.getElem?_modify]

def modifyInput (g : Graph) (addr : InputAddr) (f : Input → Input) : Graph :=
  g.modifyNode addr.node fun node => node.modifyInput addr.port f

def modifyOutput (g : Graph) (addr : OutputAddr) (f : Output → Output) : Graph :=
  g.modifyNode addr.node fun node => node.modifyOutput addr.port f

/-- Adds a node at the end; also gives its position. Links it had elsewhere are dropped. -/
def add (g : Graph) (node : Node) : NodeId × Graph :=
  (g.size, ⟨g.nodes.push { node.detach with id := g.size }⟩)

@[simp]
theorem size_add (g : Graph) (node : Node) : (g.add node).2.size = g.size + 1 := by
  simp [size, add]

/-- Adding a node leaves the others as they are. -/
theorem node?_add (g : Graph) (node : Node) (id : NodeId) :
    (g.add node).2.node? id =
      if id = g.size then some { node.detach with id := g.size } else g.node? id := by
  exact Array.getElem?_push

/-- Removes the link into an input at both of its ends. -/
def unlink (g : Graph) (target : InputAddr) : Graph :=
  match (g.input? target).bind (·.source) with
  | some source =>
    (g.modifyInput target Input.unlink).modifyOutput source fun output =>
      { output with targets := output.targets.filter (· != target) }
  | none => g.modifyInput target Input.unlink

@[simp]
theorem size_unlink (g : Graph) (target : InputAddr) : (g.unlink target).size = g.size := by
  unfold unlink
  split <;> simp [modifyInput, modifyOutput]

/-- Records a link at both of its ends. -/
def record (g : Graph) (link : Link) : Graph :=
  (g.modifyInput link.target fun input => { input with source := some link.source }).modifyOutput
    link.source fun output => { output with targets := output.targets.push link.target }

@[simp]
theorem size_record (g : Graph) (link : Link) : (g.record link).size = g.size := by
  simp [record, modifyInput, modifyOutput]

/-- Links an output to an input, in place of any link the input had. Both must exist, and both or
neither must be flow ports; the source is checked first. -/
def connect (g : Graph) (link : Link) : Except Fault Graph := do
  let output ← g.output link.source
  let input ← g.input link.target
  if output.type.linksWith input.type then .ok ((g.unlink link.target).record link)
  else .error (.flowMismatch output.type input.type)

/-- Removes the link into an input; also gives the output it came from. -/
def disconnect (g : Graph) (target : InputAddr) : Except Fault (Option OutputAddr × Graph) := do
  let input ← g.input target
  .ok (input.source, g.unlink target)

/-- Sets the literal of an input. -/
def setLiteral (g : Graph) (addr : InputAddr) (value : Value) : Except Fault Graph := do
  let _ ← g.input addr
  .ok (g.modifyNode addr.node fun node => node.withLiteral addr.port value)

/-- All links, by target node and then by target port. -/
def links (g : Graph) : List Link :=
  g.nodes.toList.flatMap fun node =>
    node.inputs.toList.zipIdx.filterMap fun (input, port) =>
      input.source.map fun source => ⟨source, ⟨node.id, port⟩⟩

/-- Makes everything that was read or computed stale. -/
def invalidate (g : Graph) : Graph := ⟨g.nodes.map Node.invalidate⟩

@[simp]
theorem size_invalidate (g : Graph) : g.invalidate.size = g.size := by
  simp [size, invalidate]

/-- Gives a node another identifier or title, where one is given. -/
def relabel (g : Graph) (id : NodeId) (newId : Option NodeId) (title : Option String) :
    Except Fault Graph := do
  let _ ← g.node id
  .ok (g.modifyNode id fun node =>
    { node with id := newId.getD node.id, title := title.getD node.title })

end Graph

end NodeGraph
