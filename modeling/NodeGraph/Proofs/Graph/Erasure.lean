import NodeGraph.Proofs.Graph.Lookup

/-!
# What evaluation leaves alone

Taking away from a graph what evaluation may change leaves its frame: nodes, ports, links and
literals. The skeleton has also the values in the outputs of nodes that are not pure, which control
steps write and pulls only read. Two graphs with one skeleton have one frame (`Graph.frame_eq`).
-/

namespace NodeGraph

/-- An input without its cache. -/
def Input.erase (i : Input) : Input := { i with cached := .empty, stamp := Epoch.stale }

/-- An output without its value. -/
def Output.erase (o : Output) : Output := { o with value := .empty }

/-- A node without caches, stamps and counts; its outputs have values only where `keeps` says so. -/
def Node.erase (keeps : NodeKind → Bool) (n : Node) : Node :=
  { n with
    inputs := n.inputs.map Input.erase
    outputs := if keeps n.kind then n.outputs else n.outputs.map Output.erase
    activity := .idle
    computedAt := Epoch.stale
    evaluations := 0 }

namespace Node

theorem map_modify_of_eq {α β : Type} {xs : Array α} {i : Nat} {f : α → α} {h : α → β}
    (same : ∀ x, h (f x) = h x) : (xs.modify i f).map h = xs.map h := by
  rw [map_modify (h := fun y => y) same]
  apply Array.ext_getElem?
  intro j
  rw [Array.getElem?_modify, Option.map_id', ite_self]

/-- What is read into an input does not show. -/
@[simp]
theorem erase_modifyInput_store (keeps : NodeKind → Bool) (n : Node) (port : PortId) (value : Value)
    (stamp : Int) :
    (n.modifyInput port fun input => input.store value stamp).erase keeps = n.erase keeps := by
  have unseen : (n.inputs.modify port fun input => input.store value stamp).map Input.erase =
      n.inputs.map Input.erase := map_modify_of_eq fun _ => rfl
  simp only [erase, modifyInput, unseen]
  rfl

/-- What is written into an output does not show unless it is kept. -/
theorem erase_write {keeps : NodeKind → Bool} {n : Node} (h : keeps n.kind = false) (port : PortId)
    (value : Value) : (n.write port value).erase keeps = n.erase keeps := by
  have unseen : (n.outputs.modify port fun output => { output with value }).map Output.erase =
      n.outputs.map Output.erase := map_modify_of_eq fun _ => rfl
  simp only [erase, write, modifyOutput, h, Bool.false_eq_true, if_false, unseen]

theorem erase_write_eq (keeps : NodeKind → Bool) (n : Node) (port : PortId) (value : Value) :
    (n.write port value).erase keeps =
      if keeps n.kind then (n.erase keeps).write port value else n.erase keeps := by
  cases kept : keeps n.kind with
  | true => simp [erase, write, modifyOutput, kept]
  | false => simp [erase_write kept]

@[simp]
theorem erase_invalidate (keeps : NodeKind → Bool) (n : Node) :
    n.invalidate.erase keeps = n.erase keeps := by
  simp only [erase, invalidate, Array.map_map]
  rfl

theorem erase_erase (keeps : NodeKind → Bool) (n : Node) :
    (n.erase keeps).erase (fun _ => false) = n.erase fun _ => false := by
  simp only [erase, Bool.false_eq_true, if_false, Array.map_map]
  split <;> simp [Function.comp_def, Input.erase, Output.erase]

end Node

namespace Graph

/-- A graph without caches, stamps and counts, and with output values only where `keeps` says so. -/
def erase (keeps : NodeKind → Bool) (g : Graph) : Graph := g.mapNodes (Node.erase keeps)

/-- Nodes, ports, links and literals. -/
def frame (g : Graph) : Graph := g.erase fun _ => false

/-- The frame, and the values in the outputs of nodes that are not pure. -/
def skeleton (g : Graph) : Graph := g.erase fun k => !k.isPure

variable {g h : Graph} {keeps : NodeKind → Bool}

theorem frame_erase (keeps : NodeKind → Bool) (g : Graph) : (g.erase keeps).frame = g.frame :=
  mapNodes_mapNodes _ _ _ _ (Node.erase_erase keeps)

theorem frame_eq (same : g.erase keeps = h.erase keeps) : g.frame = h.frame := by
  rw [← frame_erase keeps g, same, frame_erase]

theorem frame_eq_of_skeleton_eq (same : g.skeleton = h.skeleton) : g.frame = h.frame :=
  frame_eq same

@[simp]
theorem node?_erase (keeps : NodeKind → Bool) (g : Graph) (id : NodeId) :
    (g.erase keeps).node? id = (g.node? id).map (Node.erase keeps) :=
  node?_mapNodes g _ id

@[simp]
theorem size_erase (keeps : NodeKind → Bool) (g : Graph) : (g.erase keeps).size = g.size :=
  size_mapNodes g _

@[simp]
theorem pureKind?_erase (keeps : NodeKind → Bool) (g : Graph) (id : NodeId) :
    (g.erase keeps).pureKind? id = g.pureKind? id := by
  simp only [pureKind?, node?_erase]
  cases g.node? id <;> rfl

@[simp]
theorem input?_erase (keeps : NodeKind → Bool) (g : Graph) (addr : InputAddr) :
    (g.erase keeps).input? addr = (g.input? addr).map Input.erase := by
  simp only [input?, node?_erase]
  cases g.node? addr.node with
  | none => rfl
  | some node => simp [Node.erase]

@[simp]
theorem source?_erase (keeps : NodeKind → Bool) (g : Graph) (addr : InputAddr) :
    (g.erase keeps).source? addr = g.source? addr := by
  rw [source?, input?_erase, source?]
  cases g.input? addr <;> rfl

theorem source?_eq_of_frame_eq (same : g.frame = h.frame) (addr : InputAddr) :
    g.source? addr = h.source? addr := by
  rw [← source?_erase (fun _ => false) g, ← source?_erase (fun _ => false) h]
  exact congrArg (·.source? addr) same

theorem map_input?_eq_of_frame_eq (same : g.frame = h.frame) (addr : InputAddr) :
    (g.input? addr).map Input.erase = (h.input? addr).map Input.erase := by
  rw [← input?_erase (fun _ => false) g, ← input?_erase (fun _ => false) h]
  exact congrArg (·.input? addr) same

theorem isSome_input?_eq_of_frame_eq (same : g.frame = h.frame) (addr : InputAddr) :
    (g.input? addr).isSome = (h.input? addr).isSome := by
  have kept := congrArg Option.isSome (map_input?_eq_of_frame_eq same addr)
  rwa [Option.isSome_map, Option.isSome_map] at kept

theorem map_kind_eq_of_frame_eq (same : g.frame = h.frame) (id : NodeId) :
    (g.node? id).map (·.kind) = (h.node? id).map (·.kind) := by
  have kinds := congrArg (Option.map Node.kind) (mapNodes_eq_iff.mp same id)
  simpa [Option.map_map, Function.comp_def, Node.erase] using kinds

theorem isSome_node?_eq_of_frame_eq (same : g.frame = h.frame) (id : NodeId) :
    (g.node? id).isSome = (h.node? id).isSome := by
  have kept := congrArg Option.isSome (map_kind_eq_of_frame_eq same id)
  rwa [Option.isSome_map, Option.isSome_map] at kept

theorem pureKind?_eq_of_frame_eq (same : g.frame = h.frame) (id : NodeId) :
    g.pureKind? id = h.pureKind? id := by
  rw [← pureKind?_erase (fun _ => false) g, ← pureKind?_erase (fun _ => false) h]
  exact congrArg (·.pureKind? id) same

theorem output?_erase_of_kept {addr : OutputAddr} {node : Node}
    (found : g.node? addr.node = some node) (kept : keeps node.kind = true) :
    (g.erase keeps).output? addr = g.output? addr := by
  simp only [output?, node?_erase, found]
  simp [Node.erase, kept]

@[simp]
theorem output?_frame (g : Graph) (addr : OutputAddr) :
    g.frame.output? addr = (g.output? addr).map Output.erase := by
  simp only [frame, output?, node?_erase]
  cases g.node? addr.node with
  | none => rfl
  | some node => simp [Node.erase]

theorem map_output?_eq_of_frame_eq (same : g.frame = h.frame) (addr : OutputAddr) :
    (g.output? addr).map Output.erase = (h.output? addr).map Output.erase := by
  rw [← output?_frame, same, output?_frame]

theorem isSome_output?_erase (keeps : NodeKind → Bool) (g : Graph) (addr : OutputAddr) :
    ((g.erase keeps).output? addr).isSome = (g.output? addr).isSome := by
  simp only [output?, node?_erase]
  cases g.node? addr.node with
  | none => rfl
  | some node =>
    simp only [Option.map_some, Option.bind_some, Node.erase]
    split <;> simp

theorem isSome_output?_eq_of_frame_eq (same : g.frame = h.frame) (addr : OutputAddr) :
    (g.output? addr).isSome = (h.output? addr).isSome := by
  rw [← isSome_output?_erase (fun _ => false) g, ← isSome_output?_erase (fun _ => false) h]
  exact congrArg (fun g => (g.output? addr).isSome) same

@[simp]
theorem successors_erase (keeps : NodeKind → Bool) (g : Graph) (addr : OutputAddr) :
    (g.erase keeps).successors addr = g.successors addr := by
  simp only [successors, output?, node?_erase]
  cases g.node? addr.node with
  | none => rfl
  | some node =>
    simp only [Option.map_some, Option.bind_some, Node.erase]
    cases keeps node.kind with
    | true => rfl
    | false =>
      simp only [Bool.false_eq_true, if_false, Array.getElem?_map]
      cases node.outputs[addr.port]? <;> rfl

theorem successors_eq_of_frame_eq (same : g.frame = h.frame) (addr : OutputAddr) :
    g.successors addr = h.successors addr := by
  rw [← successors_erase (fun _ => false) g, ← successors_erase (fun _ => false) h]
  exact congrArg (·.successors addr) same

/-- An output of a node that is not pure holds in the skeleton what it holds in the graph. -/
theorem outputValue_skeleton {addr : OutputAddr} (impure : g.pureKind? addr.node = none) :
    g.skeleton.outputValue addr = g.outputValue addr := by
  unfold outputValue
  cases found : g.node? addr.node with
  | none => simp [skeleton, output?, found]
  | some node =>
    have kept : (fun k : NodeKind => !k.isPure) node.kind = true := by
      simp only [pureKind?, found, Option.bind_some] at impure
      cases kind : node.kind <;> simp_all [NodeKind.pure?, NodeKind.isPure, NodeKind.flowArity]
    rw [skeleton, output?_erase_of_kept found kept]

theorem outputValue_eq_of_skeleton (same : g.skeleton = h.skeleton) {addr : OutputAddr}
    (impure : g.pureKind? addr.node = none) : g.outputValue addr = h.outputValue addr := by
  have impure' : h.pureKind? addr.node = none := by
    rw [← pureKind?_eq_of_frame_eq (frame_eq same), impure]
  rw [← outputValue_skeleton impure, same, outputValue_skeleton impure']

theorem node_erase (keeps : NodeKind → Bool) (g : Graph) (id : NodeId) :
    (g.erase keeps).node id = (g.node id).map (Node.erase keeps) := by
  unfold node
  rw [node?_erase]
  cases g.node? id <;> rfl

/-- Whether an input exists, and which fault says so, does not depend on what was erased. -/
theorem map_input_erase {α : Type} (keeps : NodeKind → Bool) (g : Graph) (addr : InputAddr)
    (a : α) : ((g.erase keeps).input addr).map (fun _ => a) = (g.input addr).map fun _ => a := by
  unfold input
  rw [node_erase]
  cases g.node addr.node with
  | error fault => rfl
  | ok node =>
    simp only [Except.map, bind, Except.bind, Node.erase, Array.getElem?_map]
    cases node.inputs[addr.port]? <;> rfl

theorem map_output_erase {α : Type} (keeps : NodeKind → Bool) (g : Graph) (addr : OutputAddr)
    (a : α) : ((g.erase keeps).output addr).map (fun _ => a) = (g.output addr).map fun _ => a := by
  unfold output
  rw [node_erase]
  cases g.node addr.node with
  | error fault => rfl
  | ok node =>
    simp only [Except.map, bind, Except.bind, Node.erase]
    cases keeps node.kind with
    | true => rfl
    | false =>
      simp only [Bool.false_eq_true, if_false, Array.getElem?_map]
      cases node.outputs[addr.port]? <;> rfl

theorem map_input_eq_of_frame_eq {α : Type} (same : g.frame = h.frame) (addr : InputAddr) (a : α) :
    (g.input addr).map (fun _ => a) = (h.input addr).map fun _ => a := by
  rw [← map_input_erase (fun _ => false) g, ← map_input_erase (fun _ => false) h]
  exact congrArg (fun g => (g.input addr).map fun _ => a) same

theorem map_output_eq_of_frame_eq {α : Type} (same : g.frame = h.frame) (addr : OutputAddr)
    (a : α) : (g.output addr).map (fun _ => a) = (h.output addr).map fun _ => a := by
  rw [← map_output_erase (fun _ => false) g, ← map_output_erase (fun _ => false) h]
  exact congrArg (fun g => (g.output addr).map fun _ => a) same

theorem erase_modifyNode {id : NodeId} {f : Node → Node}
    (same : ∀ node, g.node? id = some node → (f node).erase keeps = node.erase keeps) :
    (g.modifyNode id f).erase keeps = g.erase keeps :=
  mapNodes_modifyNode same

/-- A write shows alike in graphs that are alike. -/
theorem erase_modifyOutput_congr (same : g.erase keeps = h.erase keeps) (addr : OutputAddr)
    (value : Value) :
    (g.modifyOutput addr fun output => { output with value }).erase keeps =
      (h.modifyOutput addr fun output => { output with value }).erase keeps := by
  refine mapNodes_modifyNode_congr same ?_
  intro node node' equal
  have kinds : (node.erase keeps).kind = (node'.erase keeps).kind := by rw [equal]
  change node.kind = node'.kind at kinds
  have written := Node.erase_write_eq keeps node addr.port value
  rw [equal, kinds, ← Node.erase_write_eq] at written
  exact written

@[simp]
theorem erase_invalidate (keeps : NodeKind → Bool) (g : Graph) :
    g.invalidate.erase keeps = g.erase keeps := by
  apply ext_node?
  intro id
  simp only [invalidate_eq_mapNodes, node?_erase, node?_mapNodes, Option.map_map]
  exact congrArg (Option.map · _) (funext (Node.erase_invalidate keeps))

end Graph

end NodeGraph
