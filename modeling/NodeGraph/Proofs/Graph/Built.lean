import NodeGraph.Demo
import NodeGraph.Proofs.Engine.Valid
import NodeGraph.Proofs.Graph.Ports

/-!
# Graphs built from nodes and links

A graph that was built by adding nodes and then linking them is known by a plan, which lists the kind
and the literals of each node, and by its links. Every link that joins ports of matching types can be
made (`Engine.Built.exists_build`), and what an input is worth follows from the plan, input by input
(`Graph.Built.naiveInput_of_literal`, `Graph.Built.naiveInput_of_link`).
-/

namespace NodeGraph

/-- What a node is built as. -/
structure Node.Plan where
  kind : NodeKind
  literals : List Value

namespace Node

def plan (n : Node) : Plan := ⟨n.kind, n.inputs.toList.map (·.literal)⟩

theorem plan_modifyInput {f : Input → Input} (same : ∀ i, (f i).literal = i.literal) (n : Node)
    (port : PortId) : (n.modifyInput port f).plan = n.plan :=
  congrArg (Plan.mk n.kind) (toList_map_modify_of_eq same)

theorem plan_detach (n : Node) (id : NodeId) : Node.plan { n.detach with id } = n.plan := by
  simp [plan, detach, Input.unlink, Function.comp_def]

theorem plan_erase (keeps : NodeKind → Bool) (n : Node) : (n.erase keeps).plan = n.plan := by
  simp [plan, erase, Input.erase, Function.comp_def]

end Node

/-- The ports that the link joins exist and match. -/
def Link.joins (plan : List Node.Plan) (link : Link) : Bool :=
  match (plan[link.source.node]?).bind fun p => p.kind.metadata.outputs[link.source.port]?,
    (plan[link.target.node]?).bind fun p => p.kind.metadata.inputs[link.target.port]? with
  | some output, some input => output.type.linksWith input.type
  | _, _ => false

/-- What is recorded after these links were made in order. -/
def Link.recorded (links : List Link) : List Link :=
  links.foldl (fun recorded link => link.put recorded) []

namespace Graph

/-- The graph has the nodes of a plan and the links of a list. -/
structure Built (g : Graph) (plan : List Node.Plan) (links : List Link) : Prop where
  wellFormed : g.WellFormed
  records : g.Records links
  node : ∀ id, (g.node? id).map Node.plan = plan[id]?

variable {g h : Graph} {plan : List Node.Plan} {links : List Link}

theorem built_empty : ({} : Graph).Built [] [] where
  wellFormed := wellFormed_empty
  records := records_empty
  node id := by simp [node?]

theorem map_plan_modifyNode {f : Node → Node} (same : ∀ node, (f node).plan = node.plan)
    (g : Graph) (id other : NodeId) :
    ((g.modifyNode id f).node? other).map Node.plan = (g.node? other).map Node.plan := by
  rw [node?_modifyNode]
  split
  · rw [Option.map_map]
    exact congrFun (congrArg Option.map (funext same)) _
  · rfl

theorem map_plan_modifyInput {f : Input → Input} (same : ∀ i, (f i).literal = i.literal)
    (g : Graph) (addr : InputAddr) (id : NodeId) :
    ((g.modifyInput addr f).node? id).map Node.plan = (g.node? id).map Node.plan :=
  map_plan_modifyNode (fun node => Node.plan_modifyInput same node addr.port) g _ _

theorem map_plan_modifyOutput (g : Graph) (addr : OutputAddr) (f : Output → Output) (id : NodeId) :
    ((g.modifyOutput addr f).node? id).map Node.plan = (g.node? id).map Node.plan := by
  apply map_plan_modifyNode
  exact fun _ => rfl

theorem map_plan_unlink (g : Graph) (target : InputAddr) (id : NodeId) :
    ((g.unlink target).node? id).map Node.plan = (g.node? id).map Node.plan := by
  have input : ((g.modifyInput target Input.unlink).node? id).map Node.plan =
      (g.node? id).map Node.plan := by
    apply map_plan_modifyInput
    exact fun _ => rfl
  unfold Graph.unlink
  split
  · rw [map_plan_modifyOutput, input]
  · exact input

theorem map_plan_record (g : Graph) (link : Link) (id : NodeId) :
    ((g.record link).node? id).map Node.plan = (g.node? id).map Node.plan := by
  rw [record, map_plan_modifyOutput, map_plan_modifyInput]
  exact fun _ => rfl

/-- The outputs of a node have the types that its kind describes. -/
theorem WellFormed.map_type_output? (wf : g.WellFormed) (addr : OutputAddr) :
    (g.output? addr).map (·.type) =
      ((g.kind? addr.node).bind (·.metadata.outputs[addr.port]?)).map (·.type) := by
  unfold output? kind?
  cases place : g.node? addr.node with
  | none => rfl
  | some node =>
    have listed := congrArg (fun ports => ports[addr.port]?.map Prod.snd) (wf.laidOut place).outputs
    simpa [Function.comp_def] using listed

theorem WellFormed.map_type_input? (wf : g.WellFormed) (addr : InputAddr) :
    (g.input? addr).map (·.type) =
      ((g.kind? addr.node).bind (·.metadata.inputs[addr.port]?)).map (·.type) := by
  unfold input? kind?
  cases place : g.node? addr.node with
  | none => rfl
  | some node =>
    have listed := congrArg (fun ports => ports[addr.port]?.map Prod.snd) (wf.laidOut place).inputs
    simpa [Function.comp_def] using listed

namespace Built

theorem kind? (built : g.Built plan links) (id : NodeId) :
    g.kind? id = plan[id]?.map (·.kind) := by
  rw [← built.node, Option.map_map]
  rfl

theorem kind?_eq_some (built : g.Built plan links) {id : NodeId} {kind : NodeKind}
    {literals : List Value} (planned : plan[id]? = some ⟨kind, literals⟩) :
    g.kind? id = some kind := by
  rw [built.kind?, planned, Option.map_some]

theorem of_frame_eq (built : g.Built plan links) (same : h.frame = g.frame) :
    h.Built plan links where
  wellFormed := wellFormed_of_frame_eq same.symm built.wellFormed
  records := built.records.of_frame_eq same
  node id := by
    have plans := congrArg (Option.map Node.plan) (mapNodes_eq_iff.mp same id)
    rw [Option.map_map, Option.map_map] at plans
    rw [← built.node id, ← funext (Node.plan_erase fun _ => false)]
    exact plans

theorem size_eq (built : g.Built plan links) : g.size = plan.length := by
  have absent : plan[g.size]? = none := by
    rw [← built.node, node?_size, Option.map_none]
  have present : ∀ id < g.size, id < plan.length := by
    intro id below
    have there : ((g.node? id).map Node.plan).isSome := by
      rw [Option.isSome_map, node?, isSome_getElem?]
      exact below
    rwa [built.node, isSome_getElem?] at there
  have bound := List.getElem?_eq_none_iff.mp absent
  rcases Nat.lt_or_ge plan.length g.size with less | enough
  · exact absurd (present plan.length less) (Nat.lt_irrefl _)
  · omega

theorem add (built : g.Built plan links) {node : Node} (laid : node.LaidOut) :
    (g.add node).2.Built (plan ++ [node.plan]) links where
  wellFormed := built.wellFormed.add laid
  records := built.records.add node
  node id := by
    rw [node?_add, built.size_eq]
    split
    next last => rw [last, List.getElem?_concat_length, Option.map_some, Node.plan_detach]
    next other =>
      rw [built.node]
      rcases Nat.lt_or_ge id plan.length with below | beyond
      · rw [List.getElem?_append_left below]
      · have past : (plan ++ [node.plan]).length ≤ id := by
          rw [List.length_append, List.length_singleton]
          exact Nat.lt_of_le_of_ne beyond (Ne.symm other)
        rw [List.getElem?_eq_none beyond, List.getElem?_eq_none past]

theorem connect (built : g.Built plan links) {link : Link} (connected : g.connect link = .ok h) :
    h.Built plan (Link.put link links) where
  wellFormed := built.wellFormed.connect connected
  records := built.records.connect connected
  node id := by
    obtain ⟨_, _, _, _, _, rfl⟩ := connect_eq_ok_iff.mp connected
    rw [map_plan_record, map_plan_unlink, built.node]

theorem exists_connect (built : g.Built plan links) {link : Link} (joins : link.joins plan = true) :
    ∃ h, g.connect link = .ok h := by
  have output := built.wellFormed.map_type_output? link.source
  have input := built.wellFormed.map_type_input? link.target
  rw [built.kind?] at output input
  unfold Link.joins at joins
  split at joins
  next there there' =>
    simp only [Option.bind_map, Function.comp_def, there, there', Option.map_some] at output input
    obtain ⟨from_, source, type⟩ := Option.map_eq_some_iff.mp output
    obtain ⟨to_, target, type'⟩ := Option.map_eq_some_iff.mp input
    rw [← type, ← type'] at joins
    exact ⟨_, connect_eq_ok_iff.mpr ⟨from_, to_, source, target, joins, rfl⟩⟩
  · cases joins

section Values

variable (built : g.Built plan links) {locals : Locals} {id : NodeId} {kind : NodeKind}
  {literals : List Value}

include built

/-- An input that is not linked is worth its literal. -/
theorem naiveInput_of_literal (planned : plan[id]? = some ⟨kind, literals⟩) {port : PortId}
    {value : Value} (literal : literals[port]? = some value)
    (unlinked : Link.sourceOf links ⟨id, port⟩ = none) :
    g.naiveInput locals ⟨id, port⟩ = value := by
  obtain ⟨node, place, made⟩ := Option.map_eq_some_iff.mp ((built.node id).trans planned)
  obtain rfl : node.inputs.toList.map (·.literal) = literals := congrArg Node.Plan.literals made
  rw [List.getElem?_map, Array.getElem?_toList] at literal
  obtain ⟨input, there, rfl⟩ := Option.map_eq_some_iff.mp literal
  have found : g.input? ⟨id, port⟩ = some input := input?_eq_some_iff.mpr ⟨node, place, there⟩
  rw [← built.records.source?, Graph.source?, found] at unlinked
  exact inputUsing_of_unlinked found unlinked

theorem naiveInput_of_link {target : InputAddr} {source : OutputAddr}
    (linked : Link.sourceOf links target = some source) :
    g.naiveInput locals target = g.naiveOutput locals source :=
  naiveInput_of_source ((built.records.source? target).trans linked)

theorem pureKind? (planned : plan[id]? = some ⟨kind, literals⟩) :
    g.pureKind? id = kind.pure? := by
  obtain ⟨node, place, made⟩ := Option.map_eq_some_iff.mp ((built.node id).trans planned)
  obtain rfl : node.kind = kind := congrArg Node.Plan.kind made
  rw [Graph.pureKind?, place, Option.bind_some]

/-- What a pure node is worth. -/
theorem naiveOutput_of_pure (acyclic : g.Acyclic) {pure : PureKind}
    (planned : plan[id]? = some ⟨.pure pure, literals⟩) (port : PortId) :
    g.naiveOutput locals ⟨id, port⟩ =
      pure.value locals fun port => g.naiveInput locals ⟨id, port⟩ := by
  have kind : g.pureKind? id = some pure := built.pureKind? planned
  exact (outputUsing_of_pure kind).trans (naiveNode_eq acyclic kind)

/-- Any other node is worth what it wrote last. -/
theorem naiveOutput_of_impure (planned : plan[id]? = some ⟨kind, literals⟩)
    (impure : kind.pure? = none) (port : PortId) :
    g.naiveOutput locals ⟨id, port⟩ = g.outputValue ⟨id, port⟩ :=
  outputUsing_of_impure ((built.pureKind? planned).trans impure)

end Values

end Built

/-- Where every link leads to a node of a higher rank, no pure nodes form a cycle. -/
theorem Records.acyclic (records : g.Records links) (rank : NodeId → Nat)
    (ascends : ∀ link ∈ links, rank link.source.node < rank link.target.node) : g.Acyclic := by
  refine @acyclic_of_lt g rank ?_
  intro source target fed
  obtain ⟨_, _, port, input, from_, found, linked, rfl⟩ := feeds_iff.mp fed
  have source? := source?_eq_some_iff.mpr ⟨input, found, linked⟩
  exact ascends _ (records.source_iff.mp source?)

end Graph

namespace Engine

variable {e : Engine} {plan : List Node.Plan} {links : List Link}

/-- An engine with this context, to which the nodes of a plan were added and these links made. -/
structure Built (context : Context) (plan : List Node.Plan) (links : List Link) (e : Engine) :
    Prop where
  valid : e.Valid
  graph : e.graph.Built plan (Link.recorded links)
  context : e.context = context

theorem built_new (context : Context) (config : Config) :
    Engine.Built context [] [] { context, config } :=
  ⟨.new context config, Graph.built_empty, rfl⟩

namespace Built

variable {context : Context} (built : e.Built context plan links)

include built

theorem addNodes {nodes : List Node} (laid : ∀ node ∈ nodes, node.LaidOut) :
    (nodes.foldl (fun e node => (e.addNode node).2) e).Built context
      (plan ++ nodes.map Node.plan) links := by
  induction nodes generalizing e plan with
  | nil => simpa using built
  | cons node rest ih =>
    have first := laid node List.mem_cons_self
    have added : (e.addNode node).2.Built context (plan ++ [node.plan]) links :=
      ⟨built.valid.addNode first, built.graph.add first, built.context⟩
    have others := ih added fun other member => laid other (List.mem_cons_of_mem node member)
    rwa [List.append_assoc] at others

theorem exists_connect {link : Link} (joins : link.joins plan = true) :
    ∃ e', e.connect link = .ok e' ∧ e'.Built context plan (links ++ [link]) := by
  obtain ⟨graph, connected⟩ := built.graph.exists_connect joins
  have made := connect_eq_ok_iff.mpr ⟨graph, connected, rfl⟩
  refine ⟨_, made, built.valid.connect made, ?_, ?_⟩
  · rw [Link.recorded, List.foldl_append]
    refine (built.graph.connect connected).of_frame_eq ?_
    rw [graph_invalidate]
    exact Graph.erase_invalidate _ _
  · rw [context_invalidate]
    exact built.context

theorem exists_connects {more : List Link} (join : ∀ link ∈ more, link.joins plan = true) :
    ∃ e', more.foldlM Engine.connect e = .ok e' ∧ e'.Built context plan (links ++ more) := by
  induction more generalizing e links with
  | nil => exact ⟨e, rfl, by rwa [List.append_nil]⟩
  | cons link rest ih =>
    obtain ⟨e₁, connected, built₁⟩ := built.exists_connect (join link List.mem_cons_self)
    obtain ⟨e', others, built'⟩ :=
      ih built₁ fun other member => join other (List.mem_cons_of_mem link member)
    refine ⟨e', ?_, by rwa [List.append_assoc] at built'⟩
    rw [List.foldlM_cons, connected]
    exact others

/-- Nodes can always be added, and then links made that join matching ports. -/
theorem exists_build {nodes : List Node} (laid : ∀ node ∈ nodes, node.LaidOut) {more : List Link}
    (join : ∀ link ∈ more, link.joins (plan ++ nodes.map Node.plan) = true) :
    ∃ e', e.build nodes more = .ok e' ∧
      e'.Built context (plan ++ nodes.map Node.plan) (links ++ more) :=
  (built.addNodes laid).exists_connects join

end Built

end Engine

end NodeGraph
