import NodeGraph.Proofs.Graph.Erasure
import NodeGraph.Proofs.Graph.Wiring

/-!
# Well-formed graphs

The nodes of a graph have the ports that the description of their kind lists, and every link comes
from an output that exists. Both are matters of the frame (`Graph.wellFormed_erase`), and every
change to the wiring keeps them.
-/

namespace NodeGraph

/-- The node has the inputs and outputs that its kind describes. Literals, links and values are
free. -/
structure Node.LaidOut (n : Node) : Prop where
  inputs : n.inputs.toList.map (fun i => (i.name, i.type)) =
    n.kind.metadata.inputs.map fun spec => (spec.name, spec.type)
  outputs : n.outputs.toList.map (fun o => (o.name, o.type)) =
    n.kind.metadata.outputs.map fun spec => (spec.name, spec.type)

instance (n : Node) : Decidable n.LaidOut :=
  decidable_of_iff
    (n.inputs.toList.map (fun i => (i.name, i.type)) =
        n.kind.metadata.inputs.map (fun spec => (spec.name, spec.type)) ∧
      n.outputs.toList.map (fun o => (o.name, o.type)) =
        n.kind.metadata.outputs.map fun spec => (spec.name, spec.type))
    ⟨fun laid => ⟨laid.1, laid.2⟩, fun laid => ⟨laid.inputs, laid.outputs⟩⟩

namespace Node

@[simp] theorem laidOut_ofKind (kind : NodeKind) : (ofKind kind).LaidOut where
  inputs := by simp [ofKind]
  outputs := by simp [ofKind]

theorem toList_map_modify_of_eq {α β : Type} {xs : Array α} {i : Nat} {f : α → α} {h : α → β}
    (same : ∀ x, h (f x) = h x) : (xs.modify i f).toList.map h = xs.toList.map h := by
  rw [← Array.toList_map, map_modify_of_eq same, Array.toList_map]

namespace LaidOut

variable {n : Node}

theorem modifyInput (laid : n.LaidOut) {port : PortId} {f : Input → Input}
    (same : ∀ i, ((f i).name, (f i).type) = (i.name, i.type)) : (n.modifyInput port f).LaidOut where
  inputs := (toList_map_modify_of_eq same).trans laid.inputs
  outputs := laid.outputs

theorem modifyOutput (laid : n.LaidOut) {port : PortId} {f : Output → Output}
    (same : ∀ o, ((f o).name, (f o).type) = (o.name, o.type)) :
    (n.modifyOutput port f).LaidOut where
  inputs := laid.inputs
  outputs := (toList_map_modify_of_eq same).trans laid.outputs

theorem withLiteral (laid : n.LaidOut) (port : PortId) (value : Value) :
    (n.withLiteral port value).LaidOut := laid.modifyInput fun _ => rfl

@[simp] theorem withLiteral_iff {port : PortId} {value : Value} :
    (n.withLiteral port value).LaidOut ↔ n.LaidOut := by
  have same (i : Input) : ({ i with literal := value }.name, { i with literal := value }.type) =
      (i.name, i.type) := rfl
  exact ⟨fun laid => ⟨(toList_map_modify_of_eq same).symm.trans laid.inputs, laid.outputs⟩,
    fun laid => laid.withLiteral port value⟩

theorem withTitle (laid : n.LaidOut) (title : String) : (n.withTitle title).LaidOut :=
  ⟨laid.inputs, laid.outputs⟩

theorem detach (laid : n.LaidOut) : n.detach.LaidOut where
  inputs := by simpa [Node.detach, Input.unlink, Function.comp_def] using laid.inputs
  outputs := by simpa [Node.detach, Function.comp_def] using laid.outputs

/-- The ports of a pure node: it has one output. -/
theorem size_outputs (laid : n.LaidOut) {kind : PureKind} (pure : n.kind = .pure kind) :
    n.outputs.size = 1 := by
  have count := congrArg List.length laid.outputs
  rw [List.length_map, List.length_map, Array.length_toList, pure] at count
  rw [count]
  cases kind with
  | binary op => cases op <;> rfl
  | getLocal => rfl

end LaidOut

theorem laidOut_erase {keeps : NodeKind → Bool} {n : Node} :
    (n.erase keeps).LaidOut ↔ n.LaidOut := by
  have inputs : (n.erase keeps).inputs.toList.map (fun i => (i.name, i.type)) =
      n.inputs.toList.map fun i => (i.name, i.type) := by
    simp [erase, Input.erase, Function.comp_def]
  have outputs : (n.erase keeps).outputs.toList.map (fun o => (o.name, o.type)) =
      n.outputs.toList.map fun o => (o.name, o.type) := by
    simp only [erase]
    split
    · rfl
    · simp [Output.erase, Function.comp_def]
  constructor
  · intro laid
    exact ⟨inputs ▸ laid.inputs, outputs ▸ laid.outputs⟩
  · intro laid
    exact ⟨inputs.trans laid.inputs, outputs.trans laid.outputs⟩

end Node

/-- Nodes have the ports of their kinds, and links come from outputs that exist. -/
structure Graph.WellFormed (g : Graph) : Prop where
  laidOut : ∀ {id : NodeId} {node : Node}, g.node? id = some node → node.LaidOut
  wired : ∀ {addr : InputAddr} {input : Input} {source : OutputAddr}, g.input? addr = some input →
    input.source = some source → (g.output? source).isSome

namespace Graph

variable {g h : Graph}

theorem wellFormed_empty : ({} : Graph).WellFormed := by
  have absent : ∀ id, ({} : Graph).node? id = none := fun id => by simp [node?]
  exact ⟨fun found => by simp [absent] at found, fun found => by simp [input?, absent] at found⟩

theorem wellFormed_erase {keeps : NodeKind → Bool} :
    (g.erase keeps).WellFormed ↔ g.WellFormed := by
  constructor
  · intro wf
    refine ⟨fun {id node} found => ?_, fun {addr input source} found linked => ?_⟩
    · have place : (g.erase keeps).node? id = some (node.erase keeps) := by
        rw [node?_erase, found, Option.map_some]
      exact Node.laidOut_erase.mp (wf.laidOut place)
    · have place : (g.erase keeps).input? addr = some input.erase := by
        rw [input?_erase, found, Option.map_some]
      rw [← isSome_output?_erase keeps]
      exact wf.wired place linked
  · intro wf
    refine ⟨fun {id node} found => ?_, fun {addr input source} found linked => ?_⟩
    · rw [node?_erase] at found
      obtain ⟨node, place, rfl⟩ := Option.map_eq_some_iff.mp found
      exact Node.laidOut_erase.mpr (wf.laidOut place)
    · rw [input?_erase] at found
      obtain ⟨input, place, rfl⟩ := Option.map_eq_some_iff.mp found
      rw [isSome_output?_erase]
      exact wf.wired place linked

theorem wellFormed_of_frame_eq (same : g.frame = h.frame) (wf : g.WellFormed) : h.WellFormed := by
  have framed : g.frame.WellFormed := wellFormed_erase.mpr wf
  rw [same] at framed
  exact wellFormed_erase.mp framed

/-- The only output of a pure node is its result. -/
theorem WellFormed.isSome_output?_iff (wf : g.WellFormed) {addr : OutputAddr} {kind : PureKind}
    (pure : g.pureKind? addr.node = some kind) :
    (g.output? addr).isSome ↔ addr.port = Layout.result := by
  obtain ⟨node, found, kindEq⟩ := pureKind?_eq_some_iff.mp pure
  have one := (wf.laidOut found).size_outputs kindEq
  rw [output?, found, Option.bind_some, isSome_getElem?]
  show addr.port < node.outputs.size ↔ _
  rw [one, Nat.lt_one_iff]

/-- A link from a pure node comes from its result. -/
theorem WellFormed.port_eq_result (wf : g.WellFormed) {addr : InputAddr} {source : OutputAddr}
    {kind : PureKind} (link : g.source? addr = some source)
    (pure : g.pureKind? source.node = some kind) : source.port = Layout.result := by
  obtain ⟨input, found, linked⟩ := source?_eq_some_iff.mp link
  exact (wf.isSome_output?_iff pure).mp (wf.wired found linked)

theorem isSome_output?_modifyNode {id : NodeId} {f : Node → Node}
    (ports : ∀ node, (f node).outputs.size = node.outputs.size) (addr : OutputAddr) :
    ((g.modifyNode id f).output? addr).isSome = (g.output? addr).isSome := by
  simp only [output?, node?_modifyNode]
  split
  · cases g.node? addr.node with
    | none => rfl
    | some node =>
      simp only [Option.map_some, Option.bind_some]
      rcases Nat.lt_or_ge addr.port node.outputs.size with below | beyond
      · rw [Array.getElem?_eq_getElem (ports node ▸ below), Array.getElem?_eq_getElem below]
        rfl
      · rw [Array.getElem?_eq_none (ports node ▸ beyond), Array.getElem?_eq_none beyond]
  · rfl

@[simp]
theorem isSome_output?_modifyOutput (g : Graph) (source : OutputAddr) (f : Output → Output)
    (addr : OutputAddr) :
    ((g.modifyOutput source f).output? addr).isSome = (g.output? addr).isSome := by
  apply isSome_output?_modifyNode
  intro node
  simp [Node.modifyOutput]

/-- A change to one node keeps a graph well formed if it keeps the ports of the node and links them
only to outputs that exist. -/
theorem WellFormed.modifyNode (wf : g.WellFormed) {id : NodeId} {f : Node → Node}
    (laid : ∀ node, node.LaidOut → (f node).LaidOut)
    (ports : ∀ node, (f node).outputs.size = node.outputs.size)
    (sources : ∀ (node : Node) (port : PortId) (input : Input) (source : OutputAddr),
      (f node).inputs[port]? = some input →
      input.source = some source →
      (∃ old, node.inputs[port]? = some old ∧ old.source = some source) ∨
        (g.output? source).isSome) :
    (g.modifyNode id f).WellFormed := by
  refine ⟨fun {other node} found => ?_, fun {addr input source} found linked => ?_⟩
  · rw [node?_modifyNode] at found
    split at found
    · obtain ⟨old, place, rfl⟩ := Option.map_eq_some_iff.mp found
      exact laid old (wf.laidOut place)
    · exact wf.laidOut found
  · rw [isSome_output?_modifyNode ports]
    obtain ⟨node, place, port⟩ := input?_eq_some_iff.mp found
    rw [node?_modifyNode] at place
    split at place
    · obtain ⟨old, there, rfl⟩ := Option.map_eq_some_iff.mp place
      rcases sources old addr.port input source port linked with ⟨before, port, linked⟩ | given
      · exact wf.wired (input?_eq_some_iff.mpr ⟨old, there, port⟩) linked
      · exact given
    · exact wf.wired (input?_eq_some_iff.mpr ⟨node, place, port⟩) linked

/-- The same for a change to an input of the node. -/
theorem WellFormed.modifyInput (wf : g.WellFormed) {addr : InputAddr} {f : Input → Input}
    (named : ∀ i, ((f i).name, (f i).type) = (i.name, i.type))
    (sources : ∀ i source, (f i).source = some source →
      i.source = some source ∨ (g.output? source).isSome) :
    (g.modifyInput addr f).WellFormed := by
  refine wf.modifyNode (fun node laid => laid.modifyInput named) (fun _ => rfl) ?_
  intro node port input source found linked
  simp only [Node.modifyInput, Array.getElem?_modify] at found
  split at found
  · obtain ⟨old, place, rfl⟩ := Option.map_eq_some_iff.mp found
    rcases sources old source linked with linked | given
    · exact .inl ⟨old, place, linked⟩
    · exact .inr given
  · exact .inl ⟨input, found, linked⟩

theorem WellFormed.modifyOutput (wf : g.WellFormed) {addr : OutputAddr} {f : Output → Output}
    (named : ∀ o, ((f o).name, (f o).type) = (o.name, o.type)) :
    (g.modifyOutput addr f).WellFormed := by
  refine wf.modifyNode (fun node laid => laid.modifyOutput named) (fun _ => ?_) ?_
  · simp [Node.modifyOutput]
  · intro node port input source found linked
    exact .inl ⟨input, found, linked⟩

theorem WellFormed.add (wf : g.WellFormed) {node : Node} (laid : node.LaidOut) :
    (g.add node).2.WellFormed := by
  refine ⟨fun {id other} found => ?_, fun {addr input source} found linked => ?_⟩
  · rw [node?_add] at found
    split at found
    · obtain rfl := Option.some.inj found
      exact ⟨laid.detach.inputs, laid.detach.outputs⟩
    · exact wf.laidOut found
  · obtain ⟨other, place, port⟩ := input?_eq_some_iff.mp found
    rw [node?_add] at place
    split at place
    · obtain rfl := Option.some.inj place
      simp only [Node.detach, Array.getElem?_map] at port
      obtain ⟨old, _, rfl⟩ := Option.map_eq_some_iff.mp port
      simp [Input.unlink] at linked
    · have given := wf.wired (input?_eq_some_iff.mpr ⟨other, place, port⟩) linked
      obtain ⟨output, there⟩ := Option.isSome_iff_exists.mp given
      obtain ⟨from', place', _⟩ := output?_eq_some_iff.mp there
      rwa [output?_add_of_ne (Nat.ne_of_lt (lt_size_of_node? place'))]

theorem WellFormed.unlink (wf : g.WellFormed) (target : InputAddr) :
    (g.unlink target).WellFormed := by
  have removed : (g.modifyInput target Input.unlink).WellFormed :=
    wf.modifyInput (fun _ => rfl) fun i source linked => by simp [Input.unlink] at linked
  unfold Graph.unlink
  split
  · exact removed.modifyOutput fun _ => rfl
  · exact removed

theorem isSome_output?_unlink (target : InputAddr) (addr : OutputAddr) :
    ((g.unlink target).output? addr).isSome = (g.output? addr).isSome := by
  unfold Graph.unlink
  split <;> simp

theorem WellFormed.connect (wf : g.WellFormed) {link : Link} (connected : g.connect link = .ok h) :
    h.WellFormed := by
  obtain ⟨output, _, source, _, _, rfl⟩ := connect_eq_ok_iff.mp connected
  have given : ((g.unlink link.target).output? link.source).isSome := by
    rw [isSome_output?_unlink, source, Option.isSome_some]
  refine WellFormed.modifyOutput ?_ fun _ => rfl
  refine (wf.unlink link.target).modifyInput (fun _ => rfl) ?_
  intro i s linked
  obtain rfl : link.source = s := Option.some.inj linked
  exact .inr given

theorem WellFormed.disconnect (wf : g.WellFormed) {target : InputAddr} {source : Option OutputAddr}
    (disconnected : g.disconnect target = .ok (source, h)) : h.WellFormed := by
  obtain ⟨_, _, _, rfl⟩ := disconnect_eq_ok_iff.mp disconnected
  exact wf.unlink target

theorem WellFormed.setLiteral (wf : g.WellFormed) {addr : InputAddr} {value : Value}
    (changed : g.setLiteral addr value = .ok h) : h.WellFormed := by
  obtain ⟨_, rfl⟩ := setLiteral_eq_ok_iff.mp changed
  exact wf.modifyInput (fun _ => rfl) fun i source linked => .inl linked

theorem WellFormed.relabel (wf : g.WellFormed) {id : NodeId} {newId : Option NodeId}
    {title : Option String} (changed : g.relabel id newId title = .ok h) : h.WellFormed := by
  obtain ⟨_, rfl⟩ := relabel_eq_ok_iff.mp changed
  refine wf.modifyNode (fun node laid => ⟨laid.inputs, laid.outputs⟩) (fun _ => rfl) ?_
  intro node port input source found linked
  exact .inl ⟨input, found, linked⟩

end Graph

end NodeGraph
