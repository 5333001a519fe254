import NodeGraph.Proofs.Graph.Flow
import NodeGraph.Proofs.Graph.Naive

/-!
# Ports that exist

The nodes of a well-formed graph have as many ports as the descriptions of their kinds list
(`Graph.WellFormed.isSome_input?`, `Graph.WellFormed.isSome_output?`), and among these are the ports
that a pure node reads and writes. Where links are recorded at both of their ends, both ends exist.
-/

namespace NodeGraph

namespace PureKind

variable (kind : PureKind)

theorem lt_of_mem_operands {port : PortId} (member : port ∈ kind.operands) :
    port < kind.metadata.inputs.length := by
  cases kind with
  | binary op =>
    have two : (PureKind.binary op).metadata.inputs.length = 2 := by cases op <;> rfl
    rw [two]
    simp only [operands, List.mem_cons, List.not_mem_nil, or_false] at member
    rcases member with rfl | rfl <;> decide
  | getLocal =>
    obtain rfl := List.mem_singleton.mp member
    decide

end PureKind

namespace Graph

variable {g : Graph} {links : List Link}

theorem kind?_of_pureKind? {id : NodeId} {kind : PureKind} (pure : g.pureKind? id = some kind) :
    g.kind? id = some (.pure kind) := by
  obtain ⟨node, found, isPure⟩ := pureKind?_eq_some_iff.mp pure
  rw [kind?, found, Option.map_some, isPure]

namespace WellFormed

variable (wf : g.WellFormed) {kind : NodeKind}

include wf

theorem isSome_input? {id : NodeId} (found : g.kind? id = some kind) (port : PortId) :
    (g.input? ⟨id, port⟩).isSome ↔ port < kind.metadata.inputs.length := by
  obtain ⟨node, place, rfl⟩ := Option.map_eq_some_iff.mp found
  have count := congrArg List.length (wf.laidOut place).inputs
  rw [List.length_map, List.length_map, Array.length_toList] at count
  rw [input?, place, Option.bind_some, isSome_getElem?, ← count]

theorem isSome_output? {id : NodeId} (found : g.kind? id = some kind) (port : PortId) :
    (g.output? ⟨id, port⟩).isSome ↔ port < kind.metadata.outputs.length := by
  obtain ⟨node, place, rfl⟩ := Option.map_eq_some_iff.mp found
  have count := congrArg List.length (wf.laidOut place).outputs
  rw [List.length_map, List.length_map, Array.length_toList] at count
  rw [output?, place, Option.bind_some, isSome_getElem?, ← count]

theorem isSome_operand {id : NodeId} {kind : PureKind} (pure : g.pureKind? id = some kind)
    {port : PortId} (member : port ∈ kind.operands) : (g.input? ⟨id, port⟩).isSome :=
  (wf.isSome_input? (kind?_of_pureKind? pure) port).mpr (kind.lt_of_mem_operands member)

theorem isSome_result {id : NodeId} {kind : PureKind} (pure : g.pureKind? id = some kind) :
    (g.output? ⟨id, Layout.result⟩).isSome := by
  have pure : g.pureKind? (OutputAddr.mk id Layout.result).node = some kind := pure
  exact (wf.isSome_output?_iff pure).mpr rfl

end WellFormed

theorem isSome_node?_of_input? {addr : InputAddr} (there : (g.input? addr).isSome) :
    (g.node? addr.node).isSome := by
  obtain ⟨input, found⟩ := Option.isSome_iff_exists.mp there
  obtain ⟨node, place, _⟩ := input?_eq_some_iff.mp found
  rw [place, Option.isSome_some]

theorem isSome_node?_of_output? {addr : OutputAddr} (there : (g.output? addr).isSome) :
    (g.node? addr.node).isSome := by
  obtain ⟨output, found⟩ := Option.isSome_iff_exists.mp there
  obtain ⟨node, place, _⟩ := output?_eq_some_iff.mp found
  rw [place, Option.isSome_some]

/-- Every port that the ports of the graph name exists. -/
structure Closed (g : Graph) : Prop where
  source : ∀ {addr : InputAddr} {input : Input} {source : OutputAddr}, g.input? addr = some input →
    input.source = some source → (g.output? source).isSome
  target : ∀ {addr : OutputAddr} {output : Output} {target : InputAddr},
    g.output? addr = some output → target ∈ output.targets → (g.input? target).isSome

/-- Every target that an output lists is an input. -/
theorem Records.isSome_target (records : g.Records links) {addr : OutputAddr} {output : Output}
    (found : g.output? addr = some output) {target : InputAddr} (listed : target ∈ output.targets) :
    (g.input? target).isSome := by
  rw [← Array.mem_toList_iff, records.targets found] at listed
  obtain ⟨link, member, rfl⟩ := List.mem_map.mp listed
  obtain ⟨_, input, _, there, _⟩ := records.joined link (List.mem_filter.mp member).1
  rw [there, Option.isSome_some]

theorem Records.closed (records : g.Records links) (wf : g.WellFormed) : g.Closed where
  source := wf.wired
  target found listed := records.isSome_target found listed

/-- Control goes to nodes that exist. -/
theorem Records.isSome_successor (records : g.Records links) {addr : OutputAddr} {id : NodeId}
    (follows : id ∈ g.successors addr) : (g.node? id).isSome := by
  unfold Graph.successors at follows
  split at follows
  next output found =>
    obtain ⟨target, listed, rfl⟩ := List.mem_map.mp follows
    exact isSome_node?_of_input? (records.isSome_target found (Array.mem_toList_iff.mp listed))
  next => cases follows

end Graph

end NodeGraph
