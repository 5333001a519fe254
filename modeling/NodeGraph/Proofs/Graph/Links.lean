import NodeGraph.Proofs.Graph.Wiring
import Mathlib.Data.List.Nodup

/-!
# Wiring as a list of links

A graph records a link at both of its ends. What it records is an ordered list of links: a new link
goes to the end, in place of the one that its input had, and nothing but a connection adds a link.
The list that a history of changes leaves gives the source of each input, the targets of each output
in their order and all the links of the graph, and any two ports that match can be linked next
(`Graph.mirrors_rewired`).
-/

namespace NodeGraph

theorem PortType.linksWith_iff {t u : PortType} :
    t.linksWith u = true ↔ (t = .flow ↔ u = .flow) := by
  cases t <;> cases u <;> decide

namespace Link

/-- Removes the link into an input. -/
def cut (target : InputAddr) (links : List Link) : List Link := links.filter (·.target != target)

/-- Adds a link at the end, in place of the one into its input. -/
def put (link : Link) (links : List Link) : List Link := cut link.target links ++ [link]

/-- Where the link into an input comes from. -/
def sourceOf (links : List Link) (target : InputAddr) : Option OutputAddr :=
  (links.find? (·.target == target)).map (·.source)

/-- Where the links from an output go, in their order. -/
def targetsOf (links : List Link) (source : OutputAddr) : List InputAddr :=
  (links.filter (·.source == source)).map (·.target)

/-- The order of targets: by node and then by port. -/
def Before (a b : Link) : Prop :=
  a.target.node < b.target.node ∨ a.target.node = b.target.node ∧ a.target.port < b.target.port

theorem Before.ne {a b : Link} (before : Before a b) : a ≠ b := by
  rintro rfl
  simp [Before] at before

variable {links : List Link} {link : Link} {target : InputAddr}

theorem mem_cut_iff : link ∈ cut target links ↔ link ∈ links ∧ link.target ≠ target := by
  simp [cut]

theorem nodup_cut (unique : (links.map (·.target)).Nodup) :
    ((cut target links).map (·.target)).Nodup :=
  unique.sublist (List.filter_sublist.map _)

theorem nodup_concat (unique : (links.map (·.target)).Nodup)
    (free : ∀ other ∈ links, other.target ≠ link.target) :
    ((links ++ [link]).map (·.target)).Nodup := by
  rw [List.map_append, List.nodup_append]
  refine ⟨unique, List.nodup_singleton _, ?_⟩
  rintro _ before _ last
  obtain ⟨other, listed, rfl⟩ := List.mem_map.mp before
  obtain rfl := List.mem_singleton.mp last
  exact free other listed

/-- Among links into different inputs, the one into an input is found by its target. -/
theorem sourceOf_eq_some_iff (unique : (links.map (·.target)).Nodup) {source : OutputAddr} :
    sourceOf links target = some source ↔ ⟨source, target⟩ ∈ links := by
  simp only [sourceOf, Option.map_eq_some_iff]
  constructor
  · rintro ⟨link, found, rfl⟩
    obtain rfl : link.target = target := by simpa using List.find?_some found
    exact List.mem_of_find?_eq_some found
  · intro listed
    have some_ : (links.find? (·.target == target)).isSome :=
      List.find?_isSome.mpr ⟨_, listed, beq_self_eq_true target⟩
    obtain ⟨link, found⟩ := Option.isSome_iff_exists.mp some_
    have ends : link.target = target := by simpa using List.find?_some found
    obtain rfl : link = ⟨source, target⟩ :=
      List.inj_on_of_nodup_map unique (List.mem_of_find?_eq_some found) listed ends
    exact ⟨_, found, rfl⟩

theorem targetsOf_cut (source : OutputAddr) :
    targetsOf (cut target links) source = (targetsOf links source).filter (· != target) := by
  simp only [targetsOf, cut, List.filter_map, List.filter_filter, Function.comp_def, Bool.and_comm]

theorem targetsOf_concat (source : OutputAddr) : targetsOf (links ++ [link]) source =
    targetsOf links source ++ if link.source = source then [link.target] else [] := by
  by_cases same : link.source = source <;> simp [targetsOf, same]

theorem nodup_targetsOf (unique : (links.map (·.target)).Nodup) (source : OutputAddr) :
    (targetsOf links source).Nodup := unique.sublist (List.filter_sublist.map _)

end Link

/-- A change to the nodes or the links of a graph. -/
inductive Rewiring where
  | add (node : Node)
  | connect (link : Link)
  | disconnect (target : InputAddr)

/-- Makes a change to a graph and to a list of links. Only connections and disconnections that
succeed change the list, and what is refused changes neither. -/
def Rewiring.apply : Rewiring → Graph × List Link → Graph × List Link
  | .add node, (g, links) => ((g.add node).2, links)
  | .connect link, (g, links) =>
    match g.connect link with
    | .ok h => (h, Link.put link links)
    | .error _ => (g, links)
  | .disconnect target, (g, links) =>
    match g.disconnect target with
    | .ok (_, h) => (h, Link.cut target links)
    | .error _ => (g, links)

namespace Graph

/-- The graph that a history of changes makes of the empty one, and its list of links. -/
def rewired (changes : List Rewiring) : Graph × List Link :=
  changes.foldl (fun state change => change.apply state) ({}, [])

/-- Every node knows its position. -/
def Numbered (g : Graph) : Prop :=
  ∀ (id : NodeId) (node : Node), g.node? id = some node → node.id = id

/-- A graph records a list of links at both of their ends. -/
structure Records (g : Graph) (links : List Link) : Prop where
  source_iff : ∀ {target : InputAddr} {source : OutputAddr},
    g.source? target = some source ↔ ⟨source, target⟩ ∈ links
  unique : (links.map (·.target)).Nodup
  targets : ∀ {addr : OutputAddr} {output : Output},
    g.output? addr = some output → output.targets.toList = Link.targetsOf links addr
  joined : ∀ link ∈ links, ∃ output input, g.output? link.source = some output ∧
    g.input? link.target = some input ∧ output.type.linksWith input.type = true
  numbered : g.Numbered

variable {g h : Graph} {links : List Link}

theorem Numbered.modifyNode (numbered : g.Numbered) {id : NodeId} {f : Node → Node}
    (same : ∀ node, (f node).id = node.id) : (g.modifyNode id f).Numbered := by
  intro other node found
  rw [node?_modifyNode] at found
  split at found
  · obtain ⟨old, place, rfl⟩ := Option.map_eq_some_iff.mp found
    exact (same old).trans (numbered _ _ place)
  · exact numbered _ _ found

theorem Numbered.modifyInput (numbered : g.Numbered) (addr : InputAddr) (f : Input → Input) :
    (g.modifyInput addr f).Numbered := numbered.modifyNode fun _ => rfl

theorem Numbered.modifyOutput (numbered : g.Numbered) (addr : OutputAddr) (f : Output → Output) :
    (g.modifyOutput addr f).Numbered := numbered.modifyNode fun _ => rfl

theorem Numbered.add (numbered : g.Numbered) (node : Node) : (g.add node).2.Numbered := by
  intro id other found
  rw [node?_add] at found
  split at found
  case isTrue last =>
    obtain rfl := Option.some.inj found
    exact last.symm
  case isFalse => exact numbered _ _ found

theorem Numbered.unlink (numbered : g.Numbered) (target : InputAddr) :
    (g.unlink target).Numbered := by
  unfold Graph.unlink
  split
  · exact (numbered.modifyInput _ _).modifyOutput _ _
  · exact numbered.modifyInput _ _

theorem records_empty : ({} : Graph).Records [] := by
  have absent : ∀ id, ({} : Graph).node? id = none := fun id => by simp [node?]
  refine ⟨?_, List.nodup_nil, fun found => ?_, fun _ listed => ?_, fun _ _ found => ?_⟩
  · simp [source?, input?, absent]
  · simp [output?, absent] at found
  · exact absurd listed List.not_mem_nil
  · simp [absent] at found

theorem node?_size (g : Graph) : g.node? g.size = none :=
  Array.getElem?_eq_none (Nat.le_refl _)

/-- No link comes from an output that does not exist. -/
theorem Records.targetsOf_eq_nil (records : g.Records links) {addr : OutputAddr}
    (absent : g.output? addr = none) : Link.targetsOf links addr = [] := by
  simp only [Link.targetsOf, List.map_eq_nil_iff, List.filter_eq_nil_iff, beq_iff_eq]
  rintro link listed rfl
  obtain ⟨_, _, there, _⟩ := records.joined link listed
  simp [absent] at there

theorem Records.add (records : g.Records links) (node : Node) : (g.add node).2.Records links where
  source_iff {target source} := by
    by_cases new : target.node = g.size
    · have unread : (g.add node).2.source? target = none := by
        rw [source?, input?, new, node?_add_self]
        simp [Node.detach, Input.unlink]
      have unlisted : ⟨source, target⟩ ∉ links := fun listed => by
        obtain ⟨_, _, _, found, _⟩ := records.joined _ listed
        simp [input?, new, node?_size] at found
      simp [unread, unlisted]
    · rw [source?, input?_add_of_ne new]
      exact records.source_iff
  unique := records.unique
  targets {addr output} found := by
    by_cases new : addr.node = g.size
    · have absent : g.output? addr = none := by
        rw [output?, new, node?_size, Option.bind_none]
      rw [output?, new, node?_add_self] at found
      simp only [Option.bind_some, Node.detach, Array.getElem?_map] at found
      obtain ⟨_, _, rfl⟩ := Option.map_eq_some_iff.mp found
      exact (records.targetsOf_eq_nil absent).symm
    · rw [output?_add_of_ne new] at found
      exact records.targets found
  joined link listed := by
    obtain ⟨output, input, source, target, types⟩ := records.joined link listed
    obtain ⟨_, from_, _⟩ := output?_eq_some_iff.mp source
    obtain ⟨_, to_, _⟩ := input?_eq_some_iff.mp target
    refine ⟨output, input, ?_, ?_, types⟩
    · rw [output?_add_of_ne (Nat.ne_of_lt (lt_size_of_node? from_)), source]
    · rw [input?_add_of_ne (Nat.ne_of_lt (lt_size_of_node? to_)), target]
  numbered := records.numbered.add node

theorem input?_unlink (g : Graph) (target addr : InputAddr) : (g.unlink target).input? addr =
    if target = addr then (g.input? addr).map Input.unlink else g.input? addr := by
  unfold unlink
  split
  · rw [input?_modifyOutput, input?_modifyInput]
  · rw [input?_modifyInput]

/-- The output that an input reads from loses it as a target. -/
theorem output?_unlink (g : Graph) (target : InputAddr) (addr : OutputAddr) :
    (g.unlink target).output? addr =
      if g.source? target = some addr then
        (g.output? addr).map fun o => { o with targets := o.targets.filter (· != target) }
      else g.output? addr := by
  unfold unlink source?
  cases (g.input? target).bind (·.source) with
  | none => simp
  | some source =>
    simp only [Option.some.injEq]
    rw [output?_modifyOutput, output?_modifyInput]

theorem input?_record (g : Graph) (link : Link) (addr : InputAddr) : (g.record link).input? addr =
    if link.target = addr then
      (g.input? addr).map fun i => { i with source := some link.source }
    else g.input? addr := by
  rw [record, input?_modifyOutput, input?_modifyInput]

theorem output?_record (g : Graph) (link : Link) (addr : OutputAddr) :
    (g.record link).output? addr =
      if link.source = addr then
        (g.output? addr).map fun o => { o with targets := o.targets.push link.target }
      else g.output? addr := by
  rw [record, output?_modifyOutput, output?_modifyInput]

theorem source?_unlink (g : Graph) (target addr : InputAddr) :
    (g.unlink target).source? addr = if target = addr then none else g.source? addr := by
  rw [source?, input?_unlink, source?]
  split
  · cases g.input? addr <;> rfl
  · rfl

theorem Records.unlink (records : g.Records links) (target : InputAddr) :
    (g.unlink target).Records (Link.cut target links) where
  source_iff {addr source} := by
    rw [source?_unlink, Link.mem_cut_iff]
    split
    case isTrue same => simp [same]
    case isFalse other => simp [records.source_iff, Ne.symm other]
  unique := Link.nodup_cut records.unique
  targets {addr output} found := by
    rw [Link.targetsOf_cut]
    rw [output?_unlink] at found
    split at found
    case isTrue linked =>
      obtain ⟨old, place, rfl⟩ := Option.map_eq_some_iff.mp found
      rw [Array.toList_filter, records.targets place]
    case isFalse unlinked =>
      rw [records.targets found, eq_comm, List.filter_eq_self]
      simp only [Link.targetsOf, List.mem_map, List.mem_filter, beq_iff_eq, bne_iff_ne]
      rintro _ ⟨link, ⟨listed, rfl⟩, rfl⟩ rfl
      exact unlinked (records.source_iff.mpr listed)
  joined link kept := by
    obtain ⟨listed, other⟩ := Link.mem_cut_iff.mp kept
    obtain ⟨output, input, source, place, types⟩ := records.joined link listed
    have input' : (g.unlink target).input? link.target = some input := by
      rw [input?_unlink, if_neg (Ne.symm other), place]
    rw [output?_unlink, source]
    split
    · exact ⟨_, input, rfl, input', types⟩
    · exact ⟨output, input, rfl, input', types⟩
  numbered := records.numbered.unlink target

theorem source?_record {target : InputAddr} (g : Graph) (link : Link)
    (there : (g.input? link.target).isSome) : (g.record link).source? target =
      if link.target = target then some link.source else g.source? target := by
  rw [source?, input?_record, source?]
  split
  case isTrue same =>
    obtain ⟨input, found⟩ := Option.isSome_iff_exists.mp there
    simp [← same, found]
  case isFalse => rfl

/-- A link into an input that has none goes to the end. -/
theorem Records.record (records : g.Records links) {link : Link} {output : Output} {input : Input}
    (source : g.output? link.source = some output) (target : g.input? link.target = some input)
    (types : output.type.linksWith input.type = true)
    (free : ∀ other ∈ links, other.target ≠ link.target) :
    (g.record link).Records (links ++ [link]) where
  source_iff {addr from_} := by
    rw [source?_record g link (by rw [target, Option.isSome_some]), List.mem_append,
      List.mem_singleton]
    split
    case isTrue same =>
      have unlisted : ⟨from_, addr⟩ ∉ links := fun listed => free _ listed same.symm
      obtain ⟨from', _⟩ := link
      obtain rfl := same
      simp [unlisted, eq_comm]
    case isFalse other =>
      have different : ⟨from_, addr⟩ ≠ link := fun same => other (same ▸ rfl)
      simp [records.source_iff, different]
  unique := Link.nodup_concat records.unique free
  targets {addr after} found := by
    rw [Link.targetsOf_concat]
    rw [output?_record] at found
    split at found
    case isTrue same =>
      obtain ⟨old, place, rfl⟩ := Option.map_eq_some_iff.mp found
      rw [Array.toList_push, records.targets place, if_pos same]
    case isFalse other => rw [if_neg other, List.append_nil, records.targets found]
  joined other listed := by
    have ports : ∃ output input, g.output? other.source = some output ∧
        g.input? other.target = some input ∧ output.type.linksWith input.type = true := by
      rcases List.mem_append.mp listed with before | last
      · exact records.joined other before
      · obtain rfl := List.mem_singleton.mp last
        exact ⟨output, input, source, target, types⟩
    obtain ⟨output', input', source', target', types'⟩ := ports
    rw [output?_record, input?_record, source', target']
    split <;> split <;> exact ⟨_, _, rfl, rfl, types'⟩
  numbered := (records.numbered.modifyInput _ _).modifyOutput _ _

theorem Records.connect (records : g.Records links) {link : Link}
    (connected : g.connect link = .ok h) : h.Records (Link.put link links) := by
  obtain ⟨output, input, source, target, types, rfl⟩ := connect_eq_ok_iff.mp connected
  have unlinked := records.unlink link.target
  have output' : ∃ output', (g.unlink link.target).output? link.source = some output' ∧
      output'.type = output.type := by
    rw [output?_unlink, source]
    split <;> exact ⟨_, rfl, rfl⟩
  obtain ⟨output', source', type⟩ := output'
  have target' : (g.unlink link.target).input? link.target = some input.unlink := by
    rw [input?_unlink, if_pos rfl, target, Option.map_some]
  refine unlinked.record source' target' ?_ fun other kept => (Link.mem_cut_iff.mp kept).2
  rw [type]
  exact types

/-- Every change keeps a graph and its list of links in step. -/
theorem Records.apply (records : g.Records links) (change : Rewiring) :
    (change.apply (g, links)).1.Records (change.apply (g, links)).2 := by
  cases change with
  | add node => exact records.add node
  | connect link =>
    simp only [Rewiring.apply]
    split
    case h_1 connected => exact records.connect connected
    case h_2 => exact records
  | disconnect target =>
    simp only [Rewiring.apply]
    split
    case h_1 disconnected =>
      obtain ⟨_, _, _, rfl⟩ := disconnect_eq_ok_iff.mp disconnected
      exact records.unlink target
    case h_2 => exact records

theorem records_rewired (changes : List Rewiring) :
    (rewired changes).1.Records (rewired changes).2 := by
  have kept : ∀ state : Graph × List Link, state.1.Records state.2 →
      (changes.foldl (fun state change => change.apply state) state).1.Records
        (changes.foldl (fun state change => change.apply state) state).2 := by
    induction changes with
    | nil => exact fun state records => records
    | cons change changes ih => exact fun state records => ih _ (records.apply change)
  exact kept _ records_empty

/-- A node gives the links into its own inputs. -/
theorem mem_links_iff (numbered : g.Numbered) {link : Link} :
    link ∈ g.links ↔ g.source? link.target = some link.source := by
  obtain ⟨source, id, port⟩ := link
  simp only [links, List.mem_flatMap, List.mem_filterMap, Prod.exists,
    List.mem_zipIdx_iff_getElem?, Array.getElem?_toList, Array.mem_toList_iff,
    Array.mem_iff_getElem?, Option.map_eq_some_iff, source?_eq_some_iff, input?_eq_some_iff]
  constructor
  · rintro ⟨node, ⟨place, found⟩, input, _, there, _, linked, equal⟩
    cases equal
    rw [numbered place node found]
    exact ⟨input, ⟨node, found, there⟩, linked⟩
  · rintro ⟨input, ⟨node, found, there⟩, linked⟩
    refine ⟨node, ⟨id, found⟩, input, port, there, source, linked, ?_⟩
    rw [numbered id node found]

theorem pairwise_links (numbered : g.Numbered) : g.links.Pairwise Link.Before := by
  rw [links, List.pairwise_flatMap]
  constructor
  · intro node _
    rw [List.pairwise_filterMap]
    have ports : node.inputs.toList.zipIdx.Pairwise fun a b => a.2 < b.2 := by
      rw [← List.pairwise_map, List.zipIdx_map_snd]
      exact List.pairwise_lt_range'
    refine ports.imp ?_
    rintro ⟨a, i⟩ ⟨b, j⟩ before l first m second
    obtain ⟨_, _, rfl⟩ := Option.map_eq_some_iff.mp first
    obtain ⟨_, _, rfl⟩ := Option.map_eq_some_iff.mp second
    exact .inr ⟨rfl, before⟩
  · have ids : g.nodes.toList.Pairwise fun a b => a.id < b.id := by
      rw [List.pairwise_iff_getElem]
      intro i j _ _ before
      rw [Array.getElem_toList, Array.getElem_toList, numbered i _ (Array.getElem?_eq_getElem _),
        numbered j _ (Array.getElem?_eq_getElem _)]
      exact before
    refine ids.imp ?_
    intro a b before l first m second
    simp only [List.mem_filterMap, Option.map_eq_some_iff] at first second
    obtain ⟨_, _, _, _, rfl⟩ := first
    obtain ⟨_, _, _, _, rfl⟩ := second
    exact .inl before

/-- The links of a graph are those of a list, and every view of them shows the list in its order. -/
structure Mirrors (g : Graph) (links : List Link) : Prop where
  /-- At most one link goes into an input, and the input reads from where that link comes from. -/
  unique : (links.map (·.target)).Nodup
  source : ∀ target, g.source? target = Link.sourceOf links target
  /-- Taking the link into an input away gives where it came from. -/
  disconnected : ∀ target,
    (g.disconnect target).map (·.1) = (g.input target).map fun _ => Link.sourceOf links target
  targets : ∀ (addr : OutputAddr) (output : Output), g.output? addr = some output →
    output.targets.toList = Link.targetsOf links addr ∧ (Link.targetsOf links addr).Nodup
  successors : ∀ addr, g.successors addr = (Link.targetsOf links addr).map (·.node)
  /-- The graph gives each link once, by target. -/
  perm : g.links.Perm links
  ordered : g.links.Pairwise Link.Before
  /-- Links join ports that exist, a flow port with a flow port and data with data. -/
  joined : ∀ link ∈ links, ∃ output input, g.output? link.source = some output ∧
    g.input? link.target = some input ∧ (output.type = .flow ↔ input.type = .flow)
  /-- And any two such ports can be linked, whatever links they have. -/
  connects_iff : ∀ link, (∃ h, g.connect link = .ok h) ↔ ∃ output input,
    g.output? link.source = some output ∧ g.input? link.target = some input ∧
      (output.type = .flow ↔ input.type = .flow)
  numbered : ∀ (id : NodeId) (node : Node), g.node? id = some node → node.id = id

theorem Records.successors (records : g.Records links) (addr : OutputAddr) :
    g.successors addr = (Link.targetsOf links addr).map (·.node) := by
  unfold Graph.successors
  cases found : g.output? addr with
  | some output => exact congrArg (List.map _) (records.targets found)
  | none => rw [records.targetsOf_eq_nil found, List.map_nil]

theorem Records.source? (records : g.Records links) (target : InputAddr) :
    g.source? target = Link.sourceOf links target := by
  apply Option.ext
  intro source
  rw [Link.sourceOf_eq_some_iff records.unique]
  exact records.source_iff

theorem Records.disconnect (records : g.Records links) (target : InputAddr) :
    (g.disconnect target).map (·.1) =
      (g.input target).map fun _ => Link.sourceOf links target := by
  unfold Graph.disconnect
  cases found : g.input target with
  | error fault => rfl
  | ok input =>
    rw [← records.source? target, Graph.source?, input_eq_ok_iff.mp found]
    rfl

/-- A link can be made between any ports that match. -/
theorem exists_connect_iff {link : Link} : (∃ h, g.connect link = .ok h) ↔ ∃ output input,
    g.output? link.source = some output ∧ g.input? link.target = some input ∧
      (output.type = .flow ↔ input.type = .flow) := by
  simp only [connect_eq_ok_iff, PortType.linksWith_iff]
  constructor
  · rintro ⟨_, output, input, source, target, types, _⟩
    exact ⟨output, input, source, target, types⟩
  · rintro ⟨output, input, source, target, types⟩
    exact ⟨_, output, input, source, target, types, rfl⟩

theorem Records.mirrors (records : g.Records links) : g.Mirrors links where
  unique := records.unique
  source := records.source?
  disconnected := records.disconnect
  targets _ _ found := ⟨records.targets found, Link.nodup_targetsOf records.unique _⟩
  successors := records.successors
  perm := by
    have once : g.links.Nodup := (pairwise_links records.numbered).imp Link.Before.ne
    rw [List.perm_ext_iff_of_nodup once records.unique.of_map]
    intro link
    exact (mem_links_iff records.numbered).trans records.source_iff
  ordered := pairwise_links records.numbered
  joined link listed := by
    obtain ⟨output, input, source, target, types⟩ := records.joined link listed
    exact ⟨output, input, source, target, PortType.linksWith_iff.mp types⟩
  connects_iff _ := exists_connect_iff
  numbered := records.numbered

/-- Whatever is added, connected and disconnected, with whatever arguments, the graph records
exactly the links of the list. -/
theorem mirrors_rewired (changes : List Rewiring) :
    (rewired changes).1.Mirrors (rewired changes).2 := (records_rewired changes).mirrors

/-- Links an input twice, so that the second link takes the place of the first, an output with two
inputs, a node with itself and an input that is unlinked again. A flow port is not linked with a
data port. -/
def relinking : List Rewiring :=
  let sum := Node.ofKind (.pure (.binary (.arithmetic .add)))
  [.add (Node.getLocal "x"), .add sum, .add sum, .add (Node.ofKind (.action .start)),
    .connect ⟨⟨0, 0⟩, ⟨1, 0⟩⟩, .connect ⟨⟨2, 0⟩, ⟨1, 0⟩⟩, .connect ⟨⟨2, 0⟩, ⟨0, 0⟩⟩,
    .connect ⟨⟨1, 0⟩, ⟨1, 1⟩⟩, .connect ⟨⟨0, 0⟩, ⟨2, 1⟩⟩, .disconnect ⟨2, 1⟩,
    .connect ⟨⟨3, 0⟩, ⟨1, 0⟩⟩]

theorem mirrors_relinking :
    (rewired relinking).2 = [⟨⟨2, 0⟩, ⟨1, 0⟩⟩, ⟨⟨2, 0⟩, ⟨0, 0⟩⟩, ⟨⟨1, 0⟩, ⟨1, 1⟩⟩] ∧
      (rewired relinking).1.source? ⟨1, 0⟩ = some ⟨2, 0⟩ ∧
      (rewired relinking).1.source? ⟨2, 1⟩ = none ∧
      (rewired relinking).1.successors ⟨2, 0⟩ = [1, 0] ∧
      (rewired relinking).1.links.Perm (rewired relinking).2 ∧
      ¬ ∃ h, (rewired relinking).1.connect ⟨⟨3, 0⟩, ⟨1, 0⟩⟩ = .ok h := by
  have mirrors := mirrors_rewired relinking
  have listed : (rewired relinking).2 =
      [⟨⟨2, 0⟩, ⟨1, 0⟩⟩, ⟨⟨2, 0⟩, ⟨0, 0⟩⟩, ⟨⟨1, 0⟩, ⟨1, 1⟩⟩] := by
    decide +kernel
  refine ⟨listed, ?_, ?_, ?_, mirrors.perm, ?_⟩
  · rw [mirrors.source, listed]
    rfl
  · rw [mirrors.source, listed]
    rfl
  · rw [mirrors.successors, listed]
    rfl
  · rintro linked
    obtain ⟨output, input, source, target, types⟩ := (mirrors.connects_iff _).mp linked
    have flow : ((rewired relinking).1.output? ⟨3, 0⟩).map (·.type) = some .flow := by
      decide +kernel
    have data : ((rewired relinking).1.input? ⟨1, 0⟩).map (·.type) ≠ some .flow := by
      decide +kernel
    rw [source, Option.map_some, Option.some.injEq] at flow
    rw [target, Option.map_some, ne_eq, Option.some.injEq] at data
    exact data (types.mp flow)

end Graph

end NodeGraph
