import NodeGraph.Proofs.Graph.Lookup

/-!
# What a change to the wiring comes to

Each change either is refused or makes one known change to the graph. No change sets a node to work:
a graph in which nothing is being computed stays like that (`Graph.Quiet`).
-/

namespace NodeGraph.Graph

variable {g h : Graph}

theorem connect_eq_ok_iff {link : Link} : g.connect link = .ok h ↔
    ∃ output input, g.output? link.source = some output ∧ g.input? link.target = some input ∧
      output.type.linksWith input.type = true ∧ (g.unlink link.target).record link = h := by
  simp only [Graph.connect, bind_eq_ok_iff, output_eq_ok_iff, input_eq_ok_iff]
  constructor
  · rintro ⟨output, source, input, target, made⟩
    split at made
    case isTrue types => exact ⟨output, input, source, target, types, Except.ok.inj made⟩
    case isFalse => cases made
  · rintro ⟨output, input, source, target, types, rfl⟩
    exact ⟨output, source, input, target, if_pos types⟩

theorem disconnect_eq_ok_iff {target : InputAddr} {source : Option OutputAddr} :
    g.disconnect target = .ok (source, h) ↔
      ∃ input, g.input? target = some input ∧ input.source = source ∧ g.unlink target = h := by
  simp only [Graph.disconnect, bind_eq_ok_iff, input_eq_ok_iff, Except.ok.injEq, Prod.mk.injEq]

theorem setLiteral_eq_ok_iff {addr : InputAddr} {value : Value} :
    g.setLiteral addr value = .ok h ↔
      (∃ input, g.input? addr = some input) ∧
        g.modifyInput addr (fun input => { input with literal := value }) = h := by
  simp only [Graph.setLiteral, bind_eq_ok_iff, input_eq_ok_iff, Except.ok.injEq, exists_and_right]
  rfl

theorem relabel_eq_ok_iff {id : NodeId} {newId : Option NodeId} {title : Option String} :
    g.relabel id newId title = .ok h ↔
      (∃ node, g.node? id = some node) ∧
        (g.modifyNode id fun node =>
          { node with id := newId.getD node.id, title := title.getD node.title }) = h := by
  simp only [Graph.relabel, bind_eq_ok_iff, node_eq_ok_iff, Except.ok.injEq, exists_and_right]

/-- What the node at a position is doing. -/
def activity? (g : Graph) (id : NodeId) : Option Activity := (g.node? id).map (·.activity)

/-- No node is being computed. -/
def Quiet (g : Graph) : Prop := ∀ id, g.activity? id ≠ some .computing

theorem activity?_modifyNode {id : NodeId} {f : Node → Node}
    (same : ∀ node, (f node).activity = node.activity) (other : NodeId) :
    (g.modifyNode id f).activity? other = g.activity? other := by
  rw [activity?, node?_modifyNode]
  split
  · simp [activity?, Function.comp_def, same]
  · rfl

theorem quiet_empty : ({} : Graph).Quiet := by
  intro id
  simp [activity?, node?]

theorem Quiet.idle (quiet : g.Quiet) {id : NodeId} {node : Node} (found : g.node? id = some node) :
    node.activity = .idle := by
  have never := quiet id
  rw [activity?, found] at never
  cases busy : node.activity with
  | idle => rfl
  | computing => simp [busy] at never

theorem Quiet.of_activity? (quiet : g.Quiet) (same : ∀ id, h.activity? id = g.activity? id) :
    h.Quiet := by
  intro id
  rw [same]
  exact quiet id

theorem Quiet.modifyNode (quiet : g.Quiet) {id : NodeId} {f : Node → Node}
    (same : ∀ node, (f node).activity = node.activity) : (g.modifyNode id f).Quiet :=
  quiet.of_activity? (activity?_modifyNode same)

theorem Quiet.modifyInput (quiet : g.Quiet) (addr : InputAddr) (f : Input → Input) :
    (g.modifyInput addr f).Quiet := by
  apply quiet.modifyNode
  intro node
  rfl

theorem Quiet.modifyOutput (quiet : g.Quiet) (addr : OutputAddr) (f : Output → Output) :
    (g.modifyOutput addr f).Quiet := by
  apply quiet.modifyNode
  intro node
  rfl

theorem Quiet.invalidate (quiet : g.Quiet) : g.invalidate.Quiet := by
  apply quiet.of_activity?
  intro id
  rw [activity?, invalidate_eq_mapNodes, node?_mapNodes, Option.map_map]
  rfl

theorem Quiet.add (quiet : g.Quiet) (node : Node) : (g.add node).2.Quiet := by
  intro id
  rw [activity?, node?_add]
  split
  · simp [Node.detach]
  · exact quiet id

theorem Quiet.unlink (quiet : g.Quiet) (target : InputAddr) : (g.unlink target).Quiet := by
  unfold Graph.unlink
  split
  · exact (quiet.modifyInput _ _).modifyOutput _ _
  · exact quiet.modifyInput _ _

theorem Quiet.connect (quiet : g.Quiet) {link : Link} (connected : g.connect link = .ok h) :
    h.Quiet := by
  obtain ⟨_, _, _, _, _, rfl⟩ := connect_eq_ok_iff.mp connected
  exact ((quiet.unlink _).modifyInput _ _).modifyOutput _ _

theorem Quiet.disconnect (quiet : g.Quiet) {target : InputAddr} {source : Option OutputAddr}
    (disconnected : g.disconnect target = .ok (source, h)) : h.Quiet := by
  obtain ⟨_, _, _, rfl⟩ := disconnect_eq_ok_iff.mp disconnected
  exact quiet.unlink target

theorem Quiet.setLiteral (quiet : g.Quiet) {addr : InputAddr} {value : Value}
    (changed : g.setLiteral addr value = .ok h) : h.Quiet := by
  obtain ⟨_, rfl⟩ := setLiteral_eq_ok_iff.mp changed
  exact quiet.modifyInput _ _

end NodeGraph.Graph
