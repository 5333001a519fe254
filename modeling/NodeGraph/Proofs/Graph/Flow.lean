import Mathlib.Data.Finset.Card
import Mathlib.Data.Finset.Range
import Mathlib.Logic.Relation
import NodeGraph.Proofs.Graph.Links
import NodeGraph.Proofs.Graph.WellFormed

/-!
# Flow links

Control goes from a node to another along a link between flow ports. A node has one flow input at
most, and an input one link at most, so no two nodes lead to the same one
(`Graph.WellFormed.flows_unique`). What can be reached from a node that nothing leads to is
therefore a tree: no flow path returns to where it began (`Graph.Tree.acyclic`), and the nodes that
control goes to from one node have nothing in common (`Graph.Tree.apart`).
-/

namespace NodeGraph

/-- The port is a flow output of nodes of this kind. -/
def NodeKind.FlowOut (k : NodeKind) (port : PortId) : Prop :=
  (k.metadata.outputs[port]?).map (·.type) = some .flow

instance (k : NodeKind) (port : PortId) : Decidable (k.FlowOut port) := by
  unfold NodeKind.FlowOut
  infer_instance

/-- No input but the first is a flow input. -/
theorem NodeKind.type_ne_flow (k : NodeKind) :
    ∀ spec ∈ k.metadata.inputs.tail, spec.type ≠ .flow := by
  cases k with
  | pure kind =>
    cases kind with
    | binary op => cases op <;> simp [metadata, PureKind.metadata]
    | getLocal => decide
  | action kind => cases kind <;> decide
  | control kind => cases kind <;> decide

namespace Graph

variable {g h : Graph} {links : List Link} {a b c d : NodeId}

/-- What kind of node is at a position. -/
def kind? (g : Graph) (id : NodeId) : Option NodeKind := (g.node? id).map (·.kind)

/-- Control can go from the first node to the second: a flow input of the second is linked to the
first. -/
def Flows (g : Graph) (a b : NodeId) : Prop :=
  ∃ port input source, g.input? ⟨b, port⟩ = some input ∧ input.type = .flow ∧
    input.source = some source ∧ source.node = a

/-- Nothing is linked to a flow input of the node. -/
def Entry (g : Graph) (id : NodeId) : Prop :=
  ∀ port input, g.input? ⟨id, port⟩ = some input → input.type = .flow → input.source = none

theorem flows_iff_any : g.Flows a b ↔ ((g.node? b).any fun node => node.inputs.any fun input =>
    input.type == .flow && input.source.any (·.node == a)) = true := by
  simp only [Flows, input?]
  cases g.node? b with
  | none => simp
  | some node =>
    simp only [Option.bind_some, Option.any_some, Array.any_eq_true, Bool.and_eq_true, beq_iff_eq,
      Option.any_eq_true]
    constructor
    · rintro ⟨port, input, source, found, flow, linked, same⟩
      obtain ⟨below, rfl⟩ := Array.getElem?_eq_some_iff.mp found
      exact ⟨port, below, flow, source, linked, same⟩
    · rintro ⟨port, below, flow, source, linked, same⟩
      exact ⟨port, _, source, Array.getElem?_eq_getElem below, flow, linked, same⟩

instance (g : Graph) (a b : NodeId) : Decidable (g.Flows a b) :=
  decidable_of_iff' _ flows_iff_any

theorem entry_iff_all {id : NodeId} : g.Entry id ↔ ((g.node? id).all fun node =>
    node.inputs.all fun input => input.type != .flow || input.source.isNone) = true := by
  simp only [Entry, input?]
  cases g.node? id with
  | none => simp
  | some node =>
    simp only [Option.bind_some, Option.all_some, Array.all_eq_true, Bool.or_eq_true, bne_iff_ne,
      Option.isNone_iff_eq_none]
    constructor
    · intro entry port below
      exact or_iff_not_imp_left.mpr fun flow =>
        entry port _ (Array.getElem?_eq_getElem below) (not_not.mp flow)
    · intro all port input found flow
      obtain ⟨below, rfl⟩ := Array.getElem?_eq_some_iff.mp found
      exact (all port below).resolve_left (not_not.mpr flow)

instance (g : Graph) (id : NodeId) : Decidable (g.Entry id) :=
  decidable_of_iff' _ entry_iff_all

theorem Entry.not_flows (entry : g.Entry b) : ¬ g.Flows a b := by
  rintro ⟨port, input, source, found, flow, linked, _⟩
  rw [entry port input found flow] at linked
  cases linked

theorem Flows.lt_size (flows : g.Flows a b) : b < g.size := by
  obtain ⟨_, _, _, found, _⟩ := flows
  obtain ⟨_, place, _⟩ := input?_eq_some_iff.mp found
  exact lt_size_of_node? place

/-- Links come from nodes that exist. -/
theorem WellFormed.lt_size_of_flows (wf : g.WellFormed) (flows : g.Flows a b) : a < g.size := by
  obtain ⟨_, _, _, found, _, linked, rfl⟩ := flows
  obtain ⟨_, there⟩ := Option.isSome_iff_exists.mp (wf.wired found linked)
  obtain ⟨_, place, _⟩ := output?_eq_some_iff.mp there
  exact lt_size_of_node? place

/-- A flow input is the first input of its node. -/
theorem WellFormed.port_eq_flowIn (wf : g.WellFormed) {addr : InputAddr} {input : Input}
    (found : g.input? addr = some input) (flow : input.type = .flow) :
    addr.port = Layout.flowIn := by
  obtain ⟨node, place, there⟩ := input?_eq_some_iff.mp found
  have listed := congrArg (·[addr.port]?) (wf.laidOut place).inputs
  simp only [List.getElem?_map, Array.getElem?_toList, there, Option.map_some] at listed
  obtain ⟨spec, described, equal⟩ := Option.map_eq_some_iff.mp listed.symm
  have type : spec.type = .flow := (congrArg Prod.snd equal).trans flow
  generalize addr.port = port at described ⊢
  cases port with
  | zero => rfl
  | succ port =>
    rw [← List.getElem?_tail] at described
    exact absurd type (node.kind.type_ne_flow spec (List.mem_of_getElem? described))

/-- An output has the type that the kind of its node describes. -/
theorem WellFormed.type_of_flowOut (wf : g.WellFormed) {addr : OutputAddr} {node : Node}
    {output : Output} (place : g.node? addr.node = some node)
    (found : g.output? addr = some output) (out : node.kind.FlowOut addr.port) :
    output.type = .flow := by
  obtain ⟨other, place', there⟩ := output?_eq_some_iff.mp found
  obtain rfl := Option.some.inj (place.symm.trans place')
  have listed := congrArg (·[addr.port]?) (wf.laidOut place).outputs
  simp only [List.getElem?_map, Array.getElem?_toList, there, Option.map_some] at listed
  obtain ⟨spec, described, equal⟩ := Option.map_eq_some_iff.mp listed.symm
  rw [NodeKind.FlowOut, described, Option.map_some, Option.some.injEq] at out
  exact (congrArg Prod.snd equal).symm.trans out

/-- No two nodes lead to the same one. -/
theorem WellFormed.flows_unique (wf : g.WellFormed) (flows : g.Flows a c) (flows' : g.Flows b c) :
    a = b := by
  obtain ⟨port, input, source, found, flow, linked, rfl⟩ := flows
  obtain ⟨port', input', source', found', flow', linked', rfl⟩ := flows'
  obtain rfl : port = Layout.flowIn := wf.port_eq_flowIn found flow
  obtain rfl : port' = Layout.flowIn := wf.port_eq_flowIn found' flow'
  obtain rfl := Option.some.inj (found.symm.trans found')
  obtain rfl := Option.some.inj (linked.symm.trans linked')
  rfl

section Successors

variable (records : g.Records links) (wf : g.WellFormed) {addr : OutputAddr} {node : Node}
  (place : g.node? addr.node = some node) (out : node.kind.FlowOut addr.port)

include records wf place out

/-- The targets of a flow output are flow inputs. -/
theorem Records.flowIn_of_target {target : InputAddr}
    (listed : target ∈ Link.targetsOf links addr) :
    target.port = Layout.flowIn ∧ g.Flows addr.node target.node := by
  obtain ⟨link, member, rfl⟩ := List.mem_map.mp listed
  obtain ⟨recorded, same⟩ := List.mem_filter.mp member
  obtain rfl : link.source = addr := by simpa using same
  obtain ⟨output, input, found, found', types⟩ := records.joined link recorded
  have flow := (PortType.linksWith_iff.mp types).mp (wf.type_of_flowOut place found out)
  have linked := records.source_iff.mpr recorded
  rw [Graph.source?, found', Option.bind_some] at linked
  exact ⟨wf.port_eq_flowIn found' flow, link.target.port, input, link.source, found', flow, linked,
    rfl⟩

theorem Records.flows_of_successor {id : NodeId} (follows : id ∈ g.successors addr) :
    g.Flows addr.node id := by
  rw [records.successors] at follows
  obtain ⟨target, listed, rfl⟩ := List.mem_map.mp follows
  exact (records.flowIn_of_target wf place out listed).2

/-- Control goes to no node twice from the same output. -/
theorem Records.nodup_successors : (g.successors addr).Nodup := by
  rw [records.successors]
  refine List.Nodup.map_on ?_ (Link.nodup_targetsOf records.unique addr)
  intro target listed target' listed' same
  have port := (records.flowIn_of_target wf place out listed).1
  have port' := (records.flowIn_of_target wf place out listed').1
  cases target
  cases target'
  simp_all

end Successors

/-- Everything that control can reach from the node, the node among it. -/
abbrev Leads (g : Graph) : NodeId → NodeId → Prop := Relation.ReflTransGen g.Flows

/-- A node that nothing leads to, in a graph where no two nodes lead to the same one. -/
structure Tree (g : Graph) (root : NodeId) : Prop where
  entry : g.Entry root
  unique : ∀ {a b c}, g.Flows a c → g.Flows b c → a = b

namespace Tree

variable {root : NodeId} (tree : g.Tree root)

include tree

/-- No flow path returns to where it began. -/
theorem acyclic (reached : g.Leads root a) : ¬ Relation.TransGen g.Flows a a := by
  induction reached with
  | refl =>
    intro cycle
    obtain ⟨_, _, flows⟩ := Relation.TransGen.tail'_iff.mp cycle
    exact tree.entry.not_flows flows
  | @tail a b _ flows ih =>
    intro cycle
    obtain ⟨before, path, flows'⟩ := Relation.TransGen.tail'_iff.mp cycle
    obtain rfl := tree.unique flows flows'
    exact ih (.head' flows path)

/-- Of two nodes from which control can reach the same one, one is reached from the other. -/
theorem leads_or (first : g.Leads a c) (second : g.Leads b c) : g.Leads a b ∨ g.Leads b a := by
  induction first with
  | refl => exact .inr second
  | tail first flows ih =>
    cases second with
    | refl => exact .inl (first.tail flows)
    | tail second flows' =>
      obtain rfl := tree.unique flows flows'
      exact ih second

/-- Two nodes to which control goes from the same one lead to nothing in common. -/
theorem apart (reached : g.Leads root a) (first : g.Flows a b) (second : g.Flows a c)
    (fromFirst : g.Leads b d) (fromSecond : g.Leads c d) : b = c := by
  have parted {b c} (first : g.Flows a b) (second : g.Flows a c) (leads : g.Leads b c) :
      b = c := by
    cases leads with
    | refl => rfl
    | tail path flows =>
      obtain rfl := tree.unique second flows
      exact absurd (.head' first path) (tree.acyclic reached)
  rcases tree.leads_or fromFirst fromSecond with leads | leads
  · exact parted first second leads
  · exact (parted second first leads).symm

end Tree

open Classical in
/-- What control can reach from a node beyond it. -/
noncomputable def beyond (g : Graph) (id : NodeId) : Finset NodeId :=
  (Finset.range g.size).filter fun b => Relation.TransGen g.Flows id b

theorem mem_beyond : b ∈ g.beyond a ↔ Relation.TransGen g.Flows a b := by
  simp only [beyond, Finset.mem_filter, Finset.mem_range, and_iff_right_iff_imp]
  intro path
  obtain ⟨_, _, flows⟩ := Relation.TransGen.tail'_iff.mp path
  exact flows.lt_size

/-- One step along the flow there is less left to reach. -/
theorem Tree.card_beyond_lt {root : NodeId} (tree : g.Tree root) (reached : g.Leads root a)
    (flows : g.Flows a b) : (g.beyond b).card < (g.beyond a).card := by
  apply Finset.card_lt_card
  rw [Finset.ssubset_iff_of_subset]
  · refine ⟨b, mem_beyond.mpr (.single flows), ?_⟩
    intro cycle
    exact tree.acyclic (reached.tail flows) (mem_beyond.mp cycle)
  · intro c member
    exact mem_beyond.mpr (.head flows (mem_beyond.mp member))

/-- What is recorded is a matter of the frame. -/
theorem Records.of_frame_eq (records : g.Records links) (same : h.frame = g.frame) :
    h.Records links where
  source_iff {target source} := by
    rw [source?_eq_of_frame_eq same]
    exact records.source_iff
  unique := records.unique
  targets {addr output} found := by
    have outputs := map_output?_eq_of_frame_eq same addr
    rw [found, Option.map_some] at outputs
    obtain ⟨output', found', equal⟩ := Option.map_eq_some_iff.mp outputs.symm
    have targets := congrArg Output.targets equal
    change output'.targets = output.targets at targets
    rw [← targets]
    exact records.targets found'
  joined link listed := by
    obtain ⟨output, input, found, found', types⟩ := records.joined link listed
    have outputs := map_output?_eq_of_frame_eq same link.source
    have inputs := map_input?_eq_of_frame_eq same link.target
    rw [found, Option.map_some] at outputs
    rw [found', Option.map_some] at inputs
    obtain ⟨output', place, equal⟩ := Option.map_eq_some_iff.mp outputs
    obtain ⟨input', place', equal'⟩ := Option.map_eq_some_iff.mp inputs
    have type := congrArg Output.type equal
    have type' := congrArg Input.type equal'
    change output'.type = output.type at type
    change input'.type = input.type at type'
    exact ⟨output', input', place, place', by rw [type, type', types]⟩
  numbered id node found := by
    have nodes := mapNodes_eq_iff.mp same id
    rw [found, Option.map_some] at nodes
    obtain ⟨node', found', equal⟩ := Option.map_eq_some_iff.mp nodes.symm
    have ids := congrArg Node.id equal
    change node'.id = node.id at ids
    rw [← ids]
    exact records.numbered id node' found'

/-- A literal is no matter of the links. -/
theorem Records.setLiteral (records : g.Records links) {addr : InputAddr} {value : Value}
    (changed : g.setLiteral addr value = .ok h) : h.Records links := by
  obtain ⟨_, rfl⟩ := setLiteral_eq_ok_iff.mp changed
  refine ⟨fun {target source} => ?_, records.unique, fun {addr output} found => ?_, ?_,
    records.numbered.modifyInput _ _⟩
  · rw [← records.source_iff, Graph.source?, input?_modifyInput, Graph.source?]
    split
    · cases g.input? target <;> rfl
    · rfl
  · rw [output?_modifyInput] at found
    exact records.targets found
  · intro link listed
    obtain ⟨output, input, found, found', types⟩ := records.joined link listed
    rw [output?_modifyInput, input?_modifyInput, found, found']
    split
    · exact ⟨output, _, rfl, rfl, types⟩
    · exact ⟨output, input, rfl, rfl, types⟩

end Graph

end NodeGraph
