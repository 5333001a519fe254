import NodeGraph.Engine.Basic
import NodeGraph.Proofs.Graph.Lookup

/-!
# Stamps

A node carries stamps in its inputs and one of its own. A property of all stamps of a graph is
stated once (`Graph.Stamps`): that they were issued, or that none is current.
-/

namespace NodeGraph

/-- A stamp that was given out by the end of this epoch, or means nothing. -/
def Epoch.Issued (e : Epoch) (stamp : Int) : Prop :=
  stamp = Epoch.stale ∨ 0 ≤ stamp ∧ stamp ≤ e.number

theorem Epoch.issued_stale (e : Epoch) : e.Issued Epoch.stale := .inl rfl

theorem Epoch.isCurrent_number {e : Epoch} (h : 0 ≤ e.number) : e.isCurrent e.number = true := by
  have fresh : e.number ≠ Epoch.stale := by
    intro equal
    rw [equal] at h
    simp [Epoch.stale] at h
  simp [Epoch.isCurrent, fresh]

/-- Every stamp of the node has the property. -/
structure Node.Stamps (P : Int → Prop) (n : Node) : Prop where
  node : P n.computedAt
  input : ∀ {port : PortId} {input : Input}, n.inputs[port]? = some input → P input.stamp

/-- A node that is added elsewhere carries no stamp of its past. -/
theorem Node.stamps_detach {P : Int → Prop} (stale : P Epoch.stale) (n : Node) (id : NodeId) :
    Node.Stamps P { n.detach with id } := by
  refine ⟨stale, fun {port input} place => ?_⟩
  simp only [Node.detach, Array.getElem?_map] at place
  obtain ⟨old, _, rfl⟩ := Option.map_eq_some_iff.mp place
  exact stale

/-- Every stamp in the graph has the property. -/
def Graph.Stamps (P : Int → Prop) (g : Graph) : Prop :=
  ∀ id node, g.node? id = some node → node.Stamps P

namespace Node.Stamps

variable {P Q : Int → Prop} {n : Node}

theorem mono (h : n.Stamps P) (sub : ∀ stamp, P stamp → Q stamp) : n.Stamps Q :=
  ⟨sub _ h.node, fun found => sub _ (h.input found)⟩

theorem modifyInput (h : n.Stamps P) {port : PortId} {f : Input → Input}
    (keeps : ∀ i, P i.stamp → P (f i).stamp) : (n.modifyInput port f).Stamps P := by
  refine ⟨h.node, fun {other input} found => ?_⟩
  simp only [Node.modifyInput, Array.getElem?_modify] at found
  split at found
  · obtain ⟨old, place, rfl⟩ := Option.map_eq_some_iff.mp found
    exact keeps old (h.input place)
  · exact h.input found

theorem modifyOutput (h : n.Stamps P) (port : PortId) (f : Output → Output) :
    (n.modifyOutput port f).Stamps P := ⟨h.node, h.input⟩

end Node.Stamps

namespace Graph

variable {P Q : Int → Prop} {g : Graph}

theorem Stamps.mono (h : g.Stamps P) (sub : ∀ stamp, P stamp → Q stamp) : g.Stamps Q :=
  fun id node found => (h id node found).mono sub

theorem stamps_empty (P : Int → Prop) : ({} : Graph).Stamps P := by
  intro id node found
  simp [node?] at found

theorem Stamps.modifyNode (h : g.Stamps P) {id : NodeId} {f : Node → Node}
    (keeps : ∀ node, node.Stamps P → (f node).Stamps P) : (g.modifyNode id f).Stamps P := by
  intro other node found
  rw [node?_modifyNode] at found
  split at found
  · obtain ⟨old, place, rfl⟩ := Option.map_eq_some_iff.mp found
    exact keeps old (h other old place)
  · exact h other node found

/-- A node is added without stamps. -/
theorem Stamps.add (h : g.Stamps P) (stale : P Epoch.stale) (node : Node) :
    (g.add node).2.Stamps P := by
  intro id other found
  rw [node?_add] at found
  split at found
  · obtain rfl := Option.some.inj found
    exact Node.stamps_detach stale node g.size
  · exact h id other found

/-- Invalidation leaves nothing but stale stamps. -/
theorem stamps_invalidate (stale : P Epoch.stale) (g : Graph) : g.invalidate.Stamps P := by
  intro id node found
  rw [invalidate_eq_mapNodes, node?_mapNodes] at found
  obtain ⟨old, _, rfl⟩ := Option.map_eq_some_iff.mp found
  refine ⟨stale, fun {port input} place => ?_⟩
  simp only [Node.invalidate, Array.getElem?_map] at place
  obtain ⟨before, _, rfl⟩ := Option.map_eq_some_iff.mp place
  exact stale

end Graph

/-- Nothing that was read or computed is current. -/
def Engine.Fresh (e : Engine) : Prop := e.graph.Stamps fun stamp => e.epoch.isCurrent stamp = false

namespace Engine.Fresh

variable {e : Engine}

theorem node_stale (fresh : e.Fresh) {id : NodeId} {node : Node}
    (found : e.graph.node? id = some node) : e.epoch.isCurrent node.computedAt ≠ true :=
  ne_true_of_eq_false (fresh id node found).node

theorem input_stale (fresh : e.Fresh) {addr : InputAddr} {input : Input}
    (found : e.graph.input? addr = some input) : e.epoch.isCurrent input.stamp ≠ true := by
  obtain ⟨node, place, port⟩ := Graph.input?_eq_some_iff.mp found
  exact ne_true_of_eq_false ((fresh _ node place).input port)

end Engine.Fresh

end NodeGraph
