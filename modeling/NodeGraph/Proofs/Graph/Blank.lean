import NodeGraph.Proofs.Graph.Erasure
import NodeGraph.Proofs.Graph.View

/-!
# What pulls leave behind

A pull leaves values in the caches of inputs and in the outputs of pure nodes. A blank graph is one
without these values, but with everything that says which of them are current. Changes to the wiring
do not look at them: they make of a blank graph the blank form of what they make of the graph.
-/

namespace NodeGraph

/-- An input without the value in its cache. -/
def Input.blank (i : Input) : Input := { i with cached := .empty }

/-- A node without the values in the caches of its inputs and, if it is pure, in its outputs. -/
def Node.blank (n : Node) : Node :=
  { n with
    inputs := n.inputs.map Input.blank
    outputs := if n.kind.isPure then n.outputs.map Output.erase else n.outputs }

/-- The view without the values that pulls leave. -/
def View.blank : View where
  cached _ := .empty
  value kind value := if kind.isPure then .empty else value
  stamp := id
  stale := rfl

namespace Node

variable (n : Node)

theorem blank_eq_view : n.blank = View.blank.node n := by
  have outputs : n.outputs.map (View.blank.output n.kind) =
      if n.kind.isPure then n.outputs.map Output.erase else n.outputs := by
    split
    case isTrue pure =>
      apply Array.map_congr_left
      intro output _
      simp [View.output, View.blank, pure, Output.erase]
    case isFalse impure =>
      have same : View.blank.output n.kind = fun output => output := by
        funext output
        simp [View.output, View.blank, impure]
      rw [same, Array.map_id']
  rw [blank, View.node, outputs]
  rfl

/-- What is written into a pure node does not show. -/
theorem blank_write (port : PortId) (value : Value) :
    (n.write port value).blank = if n.kind.isPure then n.blank else n.blank.write port value := by
  have outputs : (n.outputs.modify port fun output => { output with value }).map Output.erase =
      n.outputs.map Output.erase := map_modify_of_eq fun _ => rfl
  cases pure : n.kind.isPure with
  | true => simp [blank, write, modifyOutput, pure, outputs]
  | false => simp [blank, write, modifyOutput, pure]

/-- The skeleton has none of these values. -/
theorem erase_blank : n.blank.erase (fun k => !k.isPure) = n.erase fun k => !k.isPure := by
  simp only [blank, erase, Array.map_map]
  by_cases pure : n.kind.isPure = true <;>
    simp [pure, Function.comp_def, Input.blank, Input.erase, Output.erase]

end Node

namespace Graph

/-- A graph without the values that pulls leave in it. -/
def blank (g : Graph) : Graph := g.mapNodes Node.blank

theorem blank_eq_view : blank = View.blank.graph := by
  funext g
  exact congrArg g.mapNodes (funext Node.blank_eq_view)

variable (g : Graph) {h : Graph}

@[simp]
theorem skeleton_blank : g.blank.skeleton = g.skeleton :=
  mapNodes_mapNodes _ _ _ _ Node.erase_blank

theorem skeleton_eq_of_blank_eq (same : h.blank = g.blank) : h.skeleton = g.skeleton := by
  rw [← skeleton_blank h, same, skeleton_blank]

theorem frame_eq_of_blank_eq (same : h.blank = g.blank) : h.frame = g.frame :=
  frame_eq_of_skeleton_eq (skeleton_eq_of_blank_eq g same)

@[simp]
theorem input?_blank (addr : InputAddr) :
    g.blank.input? addr = (g.input? addr).map Input.blank := by
  rw [blank_eq_view]
  exact View.blank.input?_graph g addr

theorem links_blank : g.blank.links = g.links := by
  rw [blank_eq_view]
  exact View.blank.links_graph g

theorem blank_modifyNode {id : NodeId} {f h : Node → Node}
    (same : ∀ node, g.node? id = some node → (f node).blank = h node.blank) :
    (g.modifyNode id f).blank = g.blank.modifyNode id h := by
  simp only [Node.blank_eq_view] at same
  rw [blank_eq_view]
  exact View.blank.graph_modifyNode g same

theorem blank_modifyInput (addr : InputAddr) {f h : Input → Input}
    (same : ∀ i, (f i).blank = h i.blank) :
    (g.modifyInput addr f).blank = g.blank.modifyInput addr h := by
  rw [blank_eq_view]
  exact View.blank.graph_modifyInput g addr same

theorem blank_invalidate : g.invalidate.blank = g.blank.invalidate := by
  rw [blank_eq_view]
  exact View.blank.graph_invalidate g

theorem blank_add_congr {g h : Graph} (graphs : h.blank = g.blank) {node node' : Node}
    (nodes : node'.blank = node.blank) : (h.add node').2.blank = (g.add node).2.blank := by
  rw [blank_eq_view] at graphs ⊢
  rw [Node.blank_eq_view, Node.blank_eq_view] at nodes
  rw [View.graph_add, View.graph_add, graphs, nodes]

theorem blank_connect (link : Link) : g.blank.connect link = (g.connect link).map blank := by
  rw [blank_eq_view]
  exact View.blank.graph_connect g link

theorem blank_disconnect (target : InputAddr) : g.blank.disconnect target =
    (g.disconnect target).map fun r => (r.1, r.2.blank) := by
  rw [blank_eq_view]
  exact View.blank.graph_disconnect g target

theorem blank_setLiteral (addr : InputAddr) (value : Value) :
    g.blank.setLiteral addr value = (g.setLiteral addr value).map blank := by
  rw [blank_eq_view]
  exact View.blank.graph_setLiteral g addr value

theorem blank_relabel (id : NodeId) (newId : Option NodeId) (title : Option String) :
    g.blank.relabel id newId title = (g.relabel id newId title).map blank := by
  rw [blank_eq_view]
  exact View.blank.graph_relabel g id newId title

end Graph

end NodeGraph
