import Mathlib.Data.List.Induction
import NodeGraph.Proofs.Graph.Erasure
import NodeGraph.Proofs.Graph.Links

/-!
# Graphs rebuilt from their links

The list of its links says all there is about the wiring of a graph. Whoever adds the nodes to an
empty graph and makes the links in the order of the list is never refused: the nodes have lost
whatever links they had, all ports are there again, and no link takes the place of an earlier one
(`Graph.Records.exists_connects`). The graph that results is wired like the first one, and gives the
same list (`Graph.rebuild_rewired`).
-/

namespace NodeGraph

/-- The order of inputs: by node and then by port. -/
def InputAddr.Before (a b : InputAddr) : Prop :=
  a.node < b.node ∨ a.node = b.node ∧ a.port < b.port

theorem InputAddr.Before.ne {a b : InputAddr} (before : a.Before b) : a ≠ b := by
  rintro rfl
  rcases before with less | ⟨_, less⟩
  · exact Nat.lt_irrefl _ less
  · exact Nat.lt_irrefl _ less

theorem Link.Before.not_before {a b : Link} (before : a.Before b) : ¬ b.Before a := by
  rintro (after | ⟨same, after⟩)
  · rcases before with less | ⟨same, _⟩
    · exact Nat.lt_asymm less after
    · exact Nat.ne_of_lt after same.symm
  · rcases before with less | ⟨_, less⟩
    · exact Nat.ne_of_lt less same.symm
    · exact Nat.lt_asymm less after

/-- Links that are listed by target go to the targets of an output in order. -/
theorem Link.pairwise_targetsOf {links : List Link} (ordered : links.Pairwise Link.Before)
    (source : OutputAddr) : (Link.targetsOf links source).Pairwise InputAddr.Before := by
  unfold Link.targetsOf
  rw [List.pairwise_map]
  exact ordered.filter _

theorem Link.put_of_free {links : List Link} {link : Link}
    (free : ∀ other ∈ links, other.target ≠ link.target) : link.put links = links ++ [link] := by
  have uncut : Link.cut link.target links = links := by
    refine List.filter_eq_self.mpr ?_
    intro other listed
    exact bne_iff_ne.mpr (free other listed)
  rw [Link.put, uncut]

namespace Graph

/-- A graph without its links and with nothing in progress or current. -/
def bare (g : Graph) : Graph := g.mapNodes Node.detach

/-- The graph of these nodes, which are added in order to the empty one. -/
def ofNodes (nodes : List Node) : Graph := nodes.foldl (fun g node => (g.add node).2) {}

/-- Adds the nodes of a graph to an empty one and makes its links, in the order they are listed. -/
def rebuild (g : Graph) : Except Fault Graph := g.links.foldlM connect (ofNodes g.nodes.toList)

variable {g h : Graph} {links : List Link}

section Bare

theorem bare_modifyInput {f : Input → Input} (same : ∀ i, (f i).unlink = i.unlink) (g : Graph)
    (addr : InputAddr) : (g.modifyInput addr f).bare = g.bare := by
  refine mapNodes_modifyNode ?_
  intro node _
  have inputs : (node.inputs.modify addr.port f).map Input.unlink = node.inputs.map Input.unlink :=
    Node.map_modify_of_eq same
  simp only [Node.detach, Node.modifyInput, inputs]

theorem bare_modifyOutput {f : Output → Output}
    (same : ∀ o, { f o with targets := #[] } = { o with targets := #[] }) (g : Graph)
    (addr : OutputAddr) : (g.modifyOutput addr f).bare = g.bare := by
  refine mapNodes_modifyNode ?_
  intro node _
  have outputs : (node.outputs.modify addr.port f).map (fun o => { o with targets := #[] }) =
      node.outputs.map fun o => { o with targets := #[] } := Node.map_modify_of_eq same
  simp only [Node.detach, Node.modifyOutput, outputs]

theorem bare_unlink (g : Graph) (target : InputAddr) : (g.unlink target).bare = g.bare := by
  have input : (g.modifyInput target Input.unlink).bare = g.bare :=
    bare_modifyInput (f := Input.unlink) (fun _ => rfl) g target
  unfold Graph.unlink
  split
  · rw [bare_modifyOutput, input]
    intro _
    rfl
  · exact input

theorem bare_record (g : Graph) (link : Link) : (g.record link).bare = g.bare := by
  rw [record, bare_modifyOutput, bare_modifyInput]
  · intro _
    rfl
  · intro _
    rfl

theorem bare_connect {link : Link} (connected : g.connect link = .ok h) : h.bare = g.bare := by
  obtain ⟨_, _, _, _, _, rfl⟩ := connect_eq_ok_iff.mp connected
  rw [bare_record, bare_unlink]

theorem bare_bare (g : Graph) : g.bare.bare = g.bare := by
  refine mapNodes_mapNodes _ _ _ _ ?_
  intro node
  simp [Node.detach, Input.unlink, Function.comp_def]

theorem map_type_output?_bare (g : Graph) (addr : OutputAddr) :
    (g.bare.output? addr).map (·.type) = (g.output? addr).map (·.type) := by
  rw [output?, bare, node?_mapNodes, output?]
  cases g.node? addr.node with
  | none => rfl
  | some node => simp [Node.detach, Function.comp_def]

theorem map_type_input?_bare (g : Graph) (addr : InputAddr) :
    (g.bare.input? addr).map (·.type) = (g.input? addr).map (·.type) := by
  rw [input?, bare, node?_mapNodes, input?]
  cases g.node? addr.node with
  | none => rfl
  | some node => simp [Node.detach, Input.unlink, Function.comp_def]

/-- Graphs that differ in their wiring only have the same outputs. -/
theorem exists_output?_of_bare_eq (same : h.bare = g.bare) {addr : OutputAddr} {output : Output}
    (found : g.output? addr = some output) :
    ∃ output', h.output? addr = some output' ∧ output'.type = output.type := by
  have types := map_type_output?_bare h addr
  rw [same, map_type_output?_bare, found] at types
  exact Option.map_eq_some_iff.mp types.symm

theorem exists_input?_of_bare_eq (same : h.bare = g.bare) {addr : InputAddr} {input : Input}
    (found : g.input? addr = some input) :
    ∃ input', h.input? addr = some input' ∧ input'.type = input.type := by
  have types := map_type_input?_bare h addr
  rw [same, map_type_input?_bare, found] at types
  exact Option.map_eq_some_iff.mp types.symm

end Bare

section Nodes

theorem ofNodes_concat (nodes : List Node) (node : Node) :
    ofNodes (nodes ++ [node]) = ((ofNodes nodes).add node).2 := by
  rw [ofNodes, List.foldl_append]
  rfl

theorem size_ofNodes (nodes : List Node) : (ofNodes nodes).size = nodes.length := by
  induction nodes using List.reverseRecOn with
  | nil => rfl
  | append_singleton nodes node ih =>
    rw [ofNodes_concat, size_add, ih, List.length_append, List.length_singleton]

theorem node?_ofNodes (nodes : List Node) (id : NodeId) :
    (ofNodes nodes).node? id = nodes[id]?.map fun node => { node.detach with id } := by
  induction nodes using List.reverseRecOn with
  | nil => rfl
  | append_singleton nodes node ih =>
    rw [ofNodes_concat, node?_add, size_ofNodes, ih]
    split
    next last =>
      subst last
      rw [List.getElem?_concat_length, Option.map_some]
    next other =>
      rcases Nat.lt_or_ge id nodes.length with below | beyond
      · rw [List.getElem?_append_left below]
      · have past : (nodes ++ [node]).length ≤ id := by
          rw [List.length_append, List.length_singleton]
          exact Nat.lt_of_le_of_ne beyond (Ne.symm other)
        rw [List.getElem?_eq_none beyond, List.getElem?_eq_none past]

/-- Nodes are added without the links that they have. -/
theorem records_ofNodes (nodes : List Node) : (ofNodes nodes).Records [] := by
  induction nodes using List.reverseRecOn with
  | nil => exact records_empty
  | append_singleton nodes node ih =>
    rw [ofNodes_concat]
    exact ih.add node

theorem Numbered.ofNodes_eq_bare (numbered : g.Numbered) : ofNodes g.nodes.toList = g.bare := by
  refine ext_node? ?_
  intro id
  rw [node?_ofNodes, bare, node?_mapNodes, Array.getElem?_toList, ← node?]
  cases found : g.node? id with
  | none => rfl
  | some node =>
    obtain rfl := numbered id node found
    rfl

end Nodes

/-- Links can be made one after the other if each joins matching ports and no two go into the same
input, and then all of them are recorded in this order. -/
theorem Records.exists_connects {more : List Link} (records : h.Records links)
    (same : h.bare = g.bare) (unique : ((links ++ more).map (·.target)).Nodup)
    (joined : ∀ link ∈ more, ∃ output input, g.output? link.source = some output ∧
      g.input? link.target = some input ∧ output.type.linksWith input.type = true) :
    ∃ h', more.foldlM Graph.connect h = .ok h' ∧ h'.Records (links ++ more) ∧ h'.bare = g.bare := by
  induction more generalizing h links with
  | nil =>
    rw [List.append_nil]
    exact ⟨h, rfl, records, same⟩
  | cons link rest ih =>
    obtain ⟨output, input, source, target, types⟩ := joined link List.mem_cons_self
    obtain ⟨output', source', type⟩ := exists_output?_of_bare_eq same source
    obtain ⟨input', target', type'⟩ := exists_input?_of_bare_eq same target
    rw [← type, ← type'] at types
    have connected : h.connect link = .ok ((h.unlink link.target).record link) :=
      connect_eq_ok_iff.mpr ⟨output', input', source', target', types, rfl⟩
    have free : ∀ other ∈ links, other.target ≠ link.target := by
      intro other listed
      rw [List.map_append, List.nodup_append] at unique
      exact unique.2.2 _ (List.mem_map_of_mem listed) _ (List.mem_map_of_mem List.mem_cons_self)
    have recorded := records.connect connected
    rw [Link.put_of_free free] at recorded
    rw [List.append_cons] at unique ⊢
    obtain ⟨h', others, records', same'⟩ := ih recorded ((bare_connect connected).trans same) unique
      fun other listed => joined other (List.mem_cons_of_mem link listed)
    refine ⟨h', ?_, records', same'⟩
    rw [List.foldlM_cons, connected]
    exact others

/-- Links that are the same but for their order are listed alike. -/
theorem Records.links_eq (records : h.Records g.links) (numbered : g.Numbered) :
    h.links = g.links := by
  refine records.mirrors.perm.eq_of_pairwise ?_ records.mirrors.ordered (pairwise_links numbered)
  intro a b _ _ before after
  exact absurd after before.not_before

/-- The second graph is wired like the first one. Its outputs list their targets in order. -/
structure Rewires (g h : Graph) : Prop where
  /-- Nodes and ports are the same. -/
  bare : h.bare = g.bare
  source : ∀ target, h.source? target = g.source? target
  targets : ∀ {addr : OutputAddr} {output : Output}, g.output? addr = some output →
    ∃ output', h.output? addr = some output' ∧
      output'.targets.toList.Perm output.targets.toList ∧
      output'.targets.toList.Nodup ∧ output'.targets.toList.Pairwise InputAddr.Before
  links : h.links = g.links

theorem Records.rewires (records : g.Records links) (records' : h.Records g.links)
    (same : h.bare = g.bare) : g.Rewires h where
  bare := same
  source target := by
    refine Option.ext fun source => ?_
    rw [records'.source_iff, mem_links_iff records.numbered]
  targets {addr output} found := by
    obtain ⟨output', found', _⟩ := exists_output?_of_bare_eq same found
    have ordered := Link.pairwise_targetsOf (pairwise_links records.numbered) addr
    refine ⟨output', found', ?_⟩
    rw [records'.targets found', records.targets found]
    exact ⟨(records.mirrors.perm.filter _).map _, ordered.imp InputAddr.Before.ne, ordered⟩
  links := records'.links_eq records.numbered

/-- Whatever is added, connected and disconnected, with whatever arguments, the nodes of the graph
and the list of its links can be put together again without a fault. That gives every input its
source and every output its targets, by node and port, and gives the same list of links. -/
theorem rebuild_rewired (changes : List Rewiring) :
    ∃ h, (rewired changes).1.rebuild = .ok h ∧ (rewired changes).1.Rewires h := by
  have records := records_rewired changes
  generalize (rewired changes).1 = g at records
  generalize (rewired changes).2 = links at records
  have numbered := records.numbered
  have bare : (ofNodes g.nodes.toList).bare = g.bare := by
    rw [numbered.ofNodes_eq_bare, bare_bare]
  have unique : (g.links.map (·.target)).Nodup :=
    (records.mirrors.perm.map _).nodup_iff.mpr records.unique
  obtain ⟨h, made, records', same⟩ := (records_ofNodes g.nodes.toList).exists_connects bare unique
    fun link listed => records.joined link (records.mirrors.perm.mem_iff.mp listed)
  exact ⟨h, made, records.rewires records' same⟩

/-- The output that was linked to the later node first lists that one last in the graph that is put
together again. -/
theorem rebuild_relinking : ∃ h, (rewired relinking).1.rebuild = .ok h ∧
    h.links = [⟨⟨2, 0⟩, ⟨0, 0⟩⟩, ⟨⟨2, 0⟩, ⟨1, 0⟩⟩, ⟨⟨1, 0⟩, ⟨1, 1⟩⟩] ∧
    h.source? ⟨1, 1⟩ = some ⟨1, 0⟩ ∧ h.source? ⟨2, 1⟩ = none ∧
    (rewired relinking).1.successors ⟨2, 0⟩ = [1, 0] ∧ h.successors ⟨2, 0⟩ = [0, 1] := by
  obtain ⟨h, made, rewires⟩ := rebuild_rewired relinking
  have followed : ((rewired relinking).1.rebuild.map fun h => h.successors ⟨2, 0⟩).toOption =
      some [0, 1] := by
    decide +kernel
  rw [made] at followed
  refine ⟨h, made, ?_, ?_, ?_, by decide +kernel, Option.some.inj followed⟩
  · rw [rewires.links]
    decide +kernel
  · rw [rewires.source]
    decide +kernel
  · rw [rewires.source]
    decide +kernel

end Graph

end NodeGraph
