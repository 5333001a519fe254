import NodeGraph.Proofs.Graph.Lookup

/-!
# Views of what evaluation left

A view shows the values and the stamps that evaluation left in a graph in its own way, and all else
as it is. Changes to the wiring do not look at them, so they make of the view of a graph the view of
what they make of the graph (`View.graph_connect` and those after it).
-/

namespace NodeGraph

/-- How the values and stamps in a graph are shown. A stale stamp is shown as stale. -/
structure View where
  cached : Value → Value
  /-- What is shown of the value in an output of a node of this kind. -/
  value : NodeKind → Value → Value
  stamp : Int → Int
  stale : stamp Epoch.stale = Epoch.stale

namespace View

variable (v : View)

def input (i : Input) : Input := { i with cached := v.cached i.cached, stamp := v.stamp i.stamp }

def output (kind : NodeKind) (o : Output) : Output := { o with value := v.value kind o.value }

def node (n : Node) : Node :=
  { n with
    inputs := n.inputs.map v.input
    outputs := n.outputs.map (v.output n.kind)
    computedAt := v.stamp n.computedAt }

def graph (g : Graph) : Graph := g.mapNodes v.node

theorem input_unlink (i : Input) : v.input i.unlink = (v.input i).unlink := by
  simp [input, Input.unlink, v.stale]

section Nodes

variable (n : Node) (port : PortId)

theorem node_modifyInput {f h : Input → Input} (same : ∀ i, v.input (f i) = h (v.input i)) :
    v.node (n.modifyInput port f) = (v.node n).modifyInput port h := by
  simp only [node, Node.modifyInput, map_modify same]

theorem node_modifyOutput {f h : Output → Output}
    (same : ∀ o, v.output n.kind (f o) = h (v.output n.kind o)) :
    v.node (n.modifyOutput port f) = (v.node n).modifyOutput port h := by
  simp only [node, Node.modifyOutput, map_modify same]

theorem node_detach : v.node n.detach = (v.node n).detach := by
  simp [node, Node.detach, Function.comp_def, input_unlink, output, v.stale]

end Nodes

variable (g : Graph)

@[simp]
theorem size_graph : (v.graph g).size = g.size := Graph.size_mapNodes g v.node

@[simp]
theorem node?_graph (id : NodeId) : (v.graph g).node? id = (g.node? id).map v.node :=
  Graph.node?_mapNodes g v.node id

@[simp]
theorem input?_graph (addr : InputAddr) :
    (v.graph g).input? addr = (g.input? addr).map v.input := by
  simp only [Graph.input?, node?_graph]
  cases g.node? addr.node with
  | none => rfl
  | some n => simp [node]

theorem graph_node (id : NodeId) : (v.graph g).node id = (g.node id).map v.node := by
  unfold Graph.node
  rw [node?_graph]
  cases g.node? id <;> rfl

theorem graph_input (addr : InputAddr) :
    (v.graph g).input addr = (g.input addr).map v.input := by
  unfold Graph.input
  rw [graph_node]
  cases g.node addr.node with
  | error fault => rfl
  | ok n =>
    simp only [Except.map, bind, Except.bind, node, Array.getElem?_map]
    cases n.inputs[addr.port]? <;> rfl

theorem map_type_output_graph (addr : OutputAddr) :
    ((v.graph g).output addr).map (·.type) = (g.output addr).map (·.type) := by
  unfold Graph.output
  rw [graph_node]
  cases g.node addr.node with
  | error fault => rfl
  | ok n =>
    simp only [Except.map, bind, Except.bind, node, Array.getElem?_map]
    cases n.outputs[addr.port]? <;> rfl

theorem links_graph : (v.graph g).links = g.links := by
  simp only [Graph.links, graph, Graph.mapNodes, Array.toList_map, List.flatMap_map, node,
    List.zipIdx_map, List.filterMap_map]
  rfl

theorem graph_modifyNode {id : NodeId} {f h : Node → Node}
    (same : ∀ n, g.node? id = some n → v.node (f n) = h (v.node n)) :
    v.graph (g.modifyNode id f) = (v.graph g).modifyNode id h := by
  apply Graph.ext_node?
  intro other
  rw [node?_graph, Graph.node?_modifyNode, Graph.node?_modifyNode, node?_graph]
  split
  case isTrue equal =>
    subst equal
    cases found : g.node? id with
    | none => rfl
    | some n => exact congrArg some (same n found)
  case isFalse => rfl

theorem graph_modifyInput (addr : InputAddr) {f h : Input → Input}
    (same : ∀ i, v.input (f i) = h (v.input i)) :
    v.graph (g.modifyInput addr f) = (v.graph g).modifyInput addr h :=
  v.graph_modifyNode g fun n _ => v.node_modifyInput n addr.port same

theorem graph_modifyOutput (addr : OutputAddr) {f h : Output → Output}
    (same : ∀ kind o, v.output kind (f o) = h (v.output kind o)) :
    v.graph (g.modifyOutput addr f) = (v.graph g).modifyOutput addr h :=
  v.graph_modifyNode g fun n _ => v.node_modifyOutput n addr.port (same n.kind)

theorem graph_invalidate : v.graph g.invalidate = (v.graph g).invalidate := by
  have nodes : ∀ n : Node, v.node n.invalidate = (v.node n).invalidate := by
    intro n
    simp [node, Node.invalidate, Function.comp_def, input, Input.invalidate, v.stale]
  rw [Graph.invalidate_eq_mapNodes, Graph.invalidate_eq_mapNodes, graph, graph,
    Graph.mapNodes_mapNodes g _ _ _ nodes]
  exact (Graph.mapNodes_mapNodes g v.node Node.invalidate _ fun _ => rfl).symm

theorem graph_add (n : Node) : v.graph (g.add n).2 = ((v.graph g).add (v.node n)).2 := by
  simp only [graph, Graph.mapNodes, Graph.add, Graph.size, Array.map_push, Array.size_map,
    ← node_detach]
  rfl

theorem graph_unlink (target : InputAddr) :
    v.graph (g.unlink target) = (v.graph g).unlink target := by
  have unlinked := v.graph_modifyInput g target v.input_unlink
  have source : ((g.input? target).map v.input).bind (·.source) =
      (g.input? target).bind (·.source) := by
    cases g.input? target <;> rfl
  unfold Graph.unlink
  rw [input?_graph, source]
  cases (g.input? target).bind (·.source) with
  | none => exact unlinked
  | some source =>
    dsimp only
    rw [← unlinked]
    apply graph_modifyOutput
    intro kind output
    rfl

theorem graph_record (link : Link) : v.graph (g.record link) = (v.graph g).record link := by
  have linked := v.graph_modifyInput g link.target
    (f := fun input => { input with source := some link.source })
    (h := fun input => { input with source := some link.source }) fun _ => rfl
  unfold Graph.record
  rw [← linked]
  apply graph_modifyOutput
  intro kind output
  rfl

theorem graph_connect (link : Link) :
    (v.graph g).connect link = (g.connect link).map v.graph := by
  have sources := v.map_type_output_graph g link.source
  unfold Graph.connect
  rw [graph_input]
  cases source : g.output link.source with
  | error fault =>
    cases source' : (v.graph g).output link.source <;>
      simp_all [Except.map, bind, Except.bind]
  | ok output =>
    cases source' : (v.graph g).output link.source with
    | error fault => simp_all [Except.map]
    | ok output' =>
      have types : output'.type = output.type := by
        simpa [source, source', Except.map] using sources
      cases g.input link.target with
      | error fault => rfl
      | ok input =>
        simp only [Except.map, bind, Except.bind, types, View.input]
        split
        · rw [← graph_unlink, ← graph_record]
        · rfl

theorem graph_disconnect (target : InputAddr) : (v.graph g).disconnect target =
    (g.disconnect target).map fun r => (r.1, v.graph r.2) := by
  unfold Graph.disconnect
  rw [graph_input]
  cases g.input target with
  | error fault => rfl
  | ok input =>
    simp only [Except.map, bind, Except.bind, graph_unlink]
    rfl

theorem graph_setLiteral (addr : InputAddr) (value : Value) :
    (v.graph g).setLiteral addr value = (g.setLiteral addr value).map v.graph := by
  unfold Graph.setLiteral
  rw [graph_input]
  cases g.input addr with
  | error fault => rfl
  | ok input =>
    refine congrArg Except.ok (v.graph_modifyNode g ?_).symm
    intro n _
    apply v.node_modifyInput n addr.port
    intro input
    rfl

theorem graph_relabel (id : NodeId) (newId : Option NodeId) (title : Option String) :
    (v.graph g).relabel id newId title = (g.relabel id newId title).map v.graph := by
  unfold Graph.relabel
  rw [graph_node]
  cases g.node id with
  | error fault => rfl
  | ok n =>
    refine congrArg Except.ok (v.graph_modifyNode g ?_).symm
    intro n _
    rfl

/-- Invalidation as a view. -/
def allStale : View where
  cached value := value
  value _ value := value
  stamp _ := Epoch.stale
  stale := rfl

theorem graph_allStale : allStale.graph = Graph.invalidate := by
  have nodes : allStale.node = Node.invalidate := by
    funext n
    have outputs : allStale.output n.kind = fun output => output := rfl
    simp only [node, Node.invalidate, outputs, Array.map_id']
    rfl
  funext g
  exact congrArg g.mapNodes nodes

end View

end NodeGraph
