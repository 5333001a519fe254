import NodeGraph.Proofs.Agreement
import NodeGraph.Proofs.Graph.Lookup

/-!
# What evaluation left and can still be read

A value that was cached with a stale stamp is never read again, and nothing but an answer that shows
the node tells how often its body ran. Taking both away leaves what is live. Every change to the
wiring makes of graphs with the same live part graphs with the same live part
(`Graph.live_connect` and those before and after it).
-/

namespace NodeGraph

/-- An input without a cached value that is not read again. -/
def Input.live (i : Input) : Input :=
  { i with cached := if i.stamp = Epoch.stale then .empty else i.cached }

/-- A node without the values that are not read again and without the count of its runs. -/
def Node.live (n : Node) : Node := { n with inputs := n.inputs.map Input.live, evaluations := 0 }

/-- A change to an input that takes no notice of what is not live. -/
def Input.Blind (f : Input → Input) : Prop := ∀ i, (f i).live = (f i.live).live

namespace Input

@[simp]
theorem live_live (i : Input) : i.live.live = i.live := by
  unfold live
  dsimp only
  split <;> rfl

theorem blind_unlink : Blind unlink := fun _ => rfl

theorem blind_store (value : Value) (stamp : Int) : Blind fun i => i.store value stamp :=
  fun _ => rfl

/-- Links and literals are changed apart from what is cached. -/
theorem blind_of_live {f : Input → Input} (apart : ∀ i, (f i).live = f i.live) : Blind f := by
  intro i
  rw [← apart i, live_live]

end Input

namespace Node

/-- A change to a node that takes no notice of what is not live. -/
def Blind (f : Node → Node) : Prop := ∀ n, (f n).live = (f n.live).live

theorem blind_modifyInput (port : PortId) {f : Input → Input} (blind : Input.Blind f) :
    Blind fun n => n.modifyInput port f := by
  intro n
  have inputs : ∀ inputs : Array Input, (inputs.modify port f).map Input.live =
      (inputs.map Input.live).modify port fun i => (f i).live :=
    fun _ => map_modify (h := fun i => (f i).live) blind
  simp only [live, modifyInput, inputs, Array.map_map, Function.comp_def, Input.live_live]

theorem blind_modifyOutput (port : PortId) (f : Output → Output) :
    Blind fun n => n.modifyOutput port f := by
  intro n
  simp [live, modifyOutput, Function.comp_def]

theorem blind_invalidate : Blind invalidate := by
  intro n
  simp only [live, invalidate, Array.map_map]
  rfl

theorem blind_countEvaluation : Blind countEvaluation := by
  intro n
  simp [live, countEvaluation, Function.comp_def]

/-- What is live alike stays so. -/
theorem Blind.congr {f : Node → Node} (blind : Blind f) {n n' : Node} (same : n'.live = n.live) :
    (f n').live = (f n).live := by
  rw [blind n', same, ← blind n]

end Node

namespace Graph

/-- The graph without the values that are not read again and without the counts of runs. -/
def live (g : Graph) : Graph := g.mapNodes Node.live

@[simp]
theorem size_live (g : Graph) : g.live.size = g.size := size_mapNodes g _

@[simp]
theorem node?_live (g : Graph) (id : NodeId) : g.live.node? id = (g.node? id).map Node.live :=
  node?_mapNodes g _ id

@[simp]
theorem input?_live (g : Graph) (addr : InputAddr) :
    g.live.input? addr = (g.input? addr).map Input.live := by
  simp only [input?, node?_live]
  cases g.node? addr.node with
  | none => rfl
  | some n => simp [Node.live]

@[simp]
theorem output?_live (g : Graph) (addr : OutputAddr) : g.live.output? addr = g.output? addr := by
  simp only [output?, node?_live]
  cases g.node? addr.node <;> rfl

theorem node_live (g : Graph) (id : NodeId) : g.live.node id = (g.node id).map Node.live := by
  unfold node
  rw [node?_live]
  cases g.node? id <;> rfl

theorem input_live (g : Graph) (addr : InputAddr) :
    g.live.input addr = (g.input addr).map Input.live := by
  unfold input
  rw [node_live]
  cases g.node addr.node with
  | error fault => rfl
  | ok n =>
    simp only [Except.map, bind, Except.bind, Node.live, Array.getElem?_map]
    cases n.inputs[addr.port]? <;> rfl

theorem output_live (g : Graph) (addr : OutputAddr) : g.live.output addr = g.output addr := by
  unfold output
  rw [node_live]
  cases g.node addr.node <;> rfl

theorem links_live (g : Graph) : g.live.links = g.links := by
  simp only [links, live, mapNodes, Array.toList_map, List.flatMap_map, Node.live,
    List.zipIdx_map, List.filterMap_map]
  rfl

section Same

variable {g g' : Graph} (same : g'.live = g.live)

include same

theorem size_eq_of_live_eq : g'.size = g.size := by
  rw [← size_live, same, size_live]

theorem map_node?_of_live_eq (id : NodeId) :
    (g'.node? id).map Node.live = (g.node? id).map Node.live := by
  rw [← node?_live, same, node?_live]

theorem map_node_of_live_eq (id : NodeId) :
    (g'.node id).map Node.live = (g.node id).map Node.live := by
  rw [← node_live, same, node_live]

theorem map_input?_of_live_eq (addr : InputAddr) :
    (g'.input? addr).map Input.live = (g.input? addr).map Input.live := by
  rw [← input?_live, same, input?_live]

theorem map_input_of_live_eq (addr : InputAddr) :
    (g'.input addr).map Input.live = (g.input addr).map Input.live := by
  rw [← input_live, same, input_live]

theorem output?_eq_of_live_eq (addr : OutputAddr) : g'.output? addr = g.output? addr := by
  rw [← output?_live, same, output?_live]

theorem output_eq_of_live_eq (addr : OutputAddr) : g'.output addr = g.output addr := by
  rw [← output_live, same, output_live]

theorem links_eq_of_live_eq : g'.links = g.links := by
  rw [← links_live, same, links_live]

theorem live_modifyNode (id : NodeId) {f : Node → Node} (blind : Node.Blind f) :
    (g'.modifyNode id f).live = (g.modifyNode id f).live :=
  mapNodes_modifyNode_congr same fun _ _ => blind.congr

theorem live_modifyInput (addr : InputAddr) {f : Input → Input} (blind : Input.Blind f) :
    (g'.modifyInput addr f).live = (g.modifyInput addr f).live :=
  live_modifyNode same addr.node (Node.blind_modifyInput addr.port blind)

theorem live_modifyOutput (addr : OutputAddr) (f : Output → Output) :
    (g'.modifyOutput addr f).live = (g.modifyOutput addr f).live :=
  live_modifyNode same addr.node (Node.blind_modifyOutput addr.port f)

theorem live_invalidate : g'.invalidate.live = g.invalidate.live := by
  refine mapNodes_eq_iff.mpr fun id => ?_
  have nodes := map_node?_of_live_eq same id
  rw [invalidate_eq_mapNodes, invalidate_eq_mapNodes, node?_mapNodes, node?_mapNodes]
  cases found : g.node? id with
  | none =>
    rw [found, Option.map_none, Option.map_eq_none_iff] at nodes
    rw [nodes]
  | some n =>
    rw [found] at nodes
    obtain ⟨n', found', equal⟩ := Option.map_eq_some_iff.mp nodes
    rw [found']
    exact congrArg some (Node.blind_invalidate.congr equal)

/-- The node that is added may differ in what is dropped when it is added. -/
theorem live_add {n n' : Node}
    (nodes : { n'.detach with id := g.size }.live = { n.detach with id := g.size }.live) :
    (g'.add n').2.live = (g.add n).2.live := by
  refine mapNodes_eq_iff.mpr fun id => ?_
  have old := map_node?_of_live_eq same id
  rw [node?_add, node?_add, size_eq_of_live_eq same]
  split
  · exact congrArg some nodes
  · exact old

theorem source?_eq_of_live_eq (addr : InputAddr) : g'.source? addr = g.source? addr := by
  have sources (g : Graph) : g.live.source? addr = g.source? addr := by
    rw [source?, input?_live, source?]
    cases g.input? addr <;> rfl
  rw [← sources, same, sources]

theorem live_unlink (target : InputAddr) : (g'.unlink target).live = (g.unlink target).live := by
  have source := source?_eq_of_live_eq same target
  have unlinked := live_modifyInput same target Input.blind_unlink
  unfold unlink
  unfold source? at source
  rw [source]
  cases (g.input? target).bind (·.source) with
  | none => exact unlinked
  | some source => exact live_modifyOutput unlinked source _

theorem live_record (link : Link) : (g'.record link).live = (g.record link).live := by
  have linked : Input.Blind fun input => { input with source := some link.source } :=
    Input.blind_of_live (fun _ => rfl)
  exact live_modifyOutput (live_modifyInput same link.target linked) link.source _

theorem live_connect (link : Link) :
    ResultsAgree (fun g g' => g'.live = g.live) (g.connect link) (g'.connect link) := by
  have linked := live_record (live_unlink same link.target) link
  unfold connect
  rw [output_eq_of_live_eq same]
  cases g.output link.source with
  | error fault => exact .refused fault
  | ok output =>
    refine (resultsAgree_of_map_eq (map_input_of_live_eq same link.target)).bind ?_
    intro input input' inputs
    have types := congrArg Input.type inputs
    change input'.type = input.type at types
    rw [types]
    split
    · exact .done linked
    · exact .refused _

theorem live_disconnect (target : InputAddr) :
    ResultsAgree (fun r r' => r'.1 = r.1 ∧ r'.2.live = r.2.live) (g.disconnect target)
      (g'.disconnect target) := by
  refine (resultsAgree_of_map_eq (map_input_of_live_eq same target)).bind fun inputs => .done ?_
  have sources := congrArg Input.source inputs
  exact ⟨sources, live_unlink same target⟩

theorem live_setLiteral (addr : InputAddr) (value : Value) :
    ResultsAgree (fun g g' => g'.live = g.live) (g.setLiteral addr value)
      (g'.setLiteral addr value) := by
  have set : Input.Blind fun input => { input with literal := value } :=
    Input.blind_of_live fun _ => rfl
  exact (resultsAgree_of_map_eq (map_input_of_live_eq same addr)).bind fun _ =>
    .done (live_modifyInput same addr set)

theorem live_relabel (id : NodeId) (newId : Option NodeId) (title : Option String) :
    ResultsAgree (fun g g' => g'.live = g.live) (g.relabel id newId title)
      (g'.relabel id newId title) := by
  have labelled : Node.Blind fun node =>
      { node with id := newId.getD node.id, title := title.getD node.title } := by
    intro n
    simp [Node.live, Function.comp_def]
  exact (resultsAgree_of_map_eq (map_node_of_live_eq same id)).bind fun _ =>
    .done (live_modifyNode same id labelled)

end Same

end Graph

end NodeGraph
