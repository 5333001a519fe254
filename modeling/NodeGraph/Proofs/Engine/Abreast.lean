import NodeGraph.Proofs.Engine.Lockstep
import NodeGraph.Proofs.Graph.Blank
import NodeGraph.Proofs.Graph.WellFormed

/-!
# Engines side by side

Two engines that differ in nothing but the values that pulls left in their graphs go on alike, so
values can be compared one by one: those of inputs by one relation, those of pure nodes by another.
If what is computed from related operands is related, then what is current stays related through
every pull (`Engine.Abreast.read`).
-/

namespace NodeGraph.Engine

/-- The engines differ in nothing but the values that pulls left in their graphs. -/
structure Aligned (e e' : Engine) : Prop where
  rest : e' = { e with graph := e'.graph }
  blank : e'.graph.blank = e.graph.blank

/-- What is current is related: values of pure nodes by one relation, cached values of linked inputs
by the other. -/
structure Matching (N : NodeId → Value → Value → Prop) (I : InputAddr → Value → Value → Prop)
    (e e' : Engine) : Prop where
  node : ∀ {id node kind}, e.graph.node? id = some node → node.kind = .pure kind →
    e.epoch.isCurrent node.computedAt = true →
    N id (e.graph.outputValue ⟨id, Layout.result⟩) (e'.graph.outputValue ⟨id, Layout.result⟩)
  input : ∀ {addr input input' source}, e.graph.input? addr = some input →
    e'.graph.input? addr = some input' → input.source = some source →
    e.epoch.isCurrent input.stamp = true → I addr input.cached input'.cached

namespace Aligned

variable {e e' : Engine}

theorem refl (e : Engine) : Aligned e e := ⟨rfl, rfl⟩

theorem exists_eq (h : Aligned e e') :
    ∃ g : Graph, e' = { e with graph := g } ∧ g.blank = e.graph.blank := ⟨_, h.rest, h.blank⟩

theorem epoch (h : Aligned e e') : e'.epoch = e.epoch := by rw [h.rest]

theorem skeleton (h : Aligned e e') : e'.graph.skeleton = e.graph.skeleton :=
  Graph.skeleton_eq_of_blank_eq _ h.blank

theorem frame (h : Aligned e e') : e'.graph.frame = e.graph.frame :=
  Graph.frame_eq_of_blank_eq _ h.blank

theorem map_node? (h : Aligned e e') (id : NodeId) :
    (e'.graph.node? id).map Node.blank = (e.graph.node? id).map Node.blank :=
  Graph.mapNodes_eq_iff.mp h.blank id

theorem map_input? (h : Aligned e e') (addr : InputAddr) :
    (e'.graph.input? addr).map Input.blank = (e.graph.input? addr).map Input.blank := by
  rw [← Graph.input?_blank, h.blank, Graph.input?_blank]

theorem glance (h : Aligned e e') (id : NodeId) : e'.glance id = e.glance id := by
  have seen := congrArg (Option.map fun node =>
    (node.kind, node.title, node.activity, e.epoch.isCurrent node.computedAt)) (h.map_node? id)
  rw [Option.map_map, Option.map_map] at seen
  unfold Engine.glance
  rw [h.epoch]
  exact seen

theorem peek (h : Aligned e e') (addr : InputAddr) : e'.peek addr = e.peek addr := by
  have seen := congrArg (Option.map fun input : Input =>
    (input.source, e.epoch.isCurrent input.stamp)) (h.map_input? addr)
  rw [Option.map_map, Option.map_map] at seen
  unfold Engine.peek
  rw [h.epoch]
  exact seen

/-- The literal of an input is the same on both sides. -/
theorem literal_eq (h : Aligned e e') {addr : InputAddr} {input input' : Input}
    (found : e.graph.input? addr = some input) (found' : e'.graph.input? addr = some input') :
    input'.literal = input.literal := by
  have same := h.map_input? addr
  rw [found, found'] at same
  have literals := congrArg Input.literal (Option.some.inj same)
  exact literals

/-- So is the value in an output of a node that is not pure. -/
theorem outputValue_eq (h : Aligned e e') {addr : OutputAddr}
    (impure : e.graph.pureKind? addr.node = none) :
    e'.graph.outputValue addr = e.graph.outputValue addr :=
  (Graph.outputValue_eq_of_skeleton h.skeleton.symm impure).symm

/-- An update that does not concern the graph is made on both sides. -/
theorem update (h : Aligned e e') {f : Engine → Engine}
    (apart : ∀ e g, f { e with graph := g } = { f e with graph := g })
    (graph : ∀ e, (f e).graph = e.graph) : Aligned (f e) (f e') := by
  obtain ⟨g, rfl, same⟩ := h.exists_eq
  rw [apart e g]
  exact ⟨rfl, same.trans (congrArg Graph.blank (graph e).symm)⟩

theorem count_withGraph (e : Engine) (g : Graph) (update : Statistics → Statistics) :
    Engine.count { e with graph := g } update = { e.count update with graph := g } := by
  unfold Engine.count
  split <;> rfl

theorem count (h : Aligned e e') (update : Statistics → Statistics) :
    Aligned (e.count update) (e'.count update) :=
  h.update (f := fun e => e.count update) (count_withGraph · · update) (graph_count · update)

theorem log (h : Aligned e e') (event : Event) : Aligned (e.log event) (e'.log event) :=
  h.update (f := fun e => e.log event) (fun _ _ => rfl) fun _ => rfl

theorem modifyNode (h : Aligned e e') {id : NodeId} {f f' : Node → Node}
    (same : (e'.graph.modifyNode id f').blank = (e.graph.modifyNode id f).blank) :
    Aligned (e.modifyNode id f) (e'.modifyNode id f') := by
  obtain ⟨g, rfl, -⟩ := h.exists_eq
  exact ⟨rfl, same⟩

theorem store (h : Aligned e e') (addr : InputAddr) (v v' : Value) :
    Aligned (e.store addr v) (e'.store addr v') := by
  have blank : ∀ (g : Graph) (value : Value), (g.modifyInput addr fun input =>
      input.store value e.epoch.number).blank = g.blank.modifyInput addr fun input =>
        { input with stamp := e.epoch.number } := by
    intro g value
    apply g.blank_modifyInput addr
    intro input
    rfl
  unfold Engine.store
  rw [h.epoch]
  apply h.modifyNode
  exact (blank _ _).trans ((congrArg (Graph.modifyInput · addr _) h.blank).trans (blank _ _).symm)

theorem beginComputing (h : Aligned e e') (id : NodeId) :
    Aligned (e.beginComputing id) (e'.beginComputing id) := by
  refine h.modifyNode (Graph.mapNodes_modifyNode_congr h.blank ?_)
  intro node node' equal
  have marked := congrArg (fun n : Node => { n with activity := .computing }) equal
  exact marked

theorem finishComputing (h : Aligned e e') {id : NodeId} {kind : PureKind}
    (pure : e.graph.pureKind? id = some kind) (v v' : Value) :
    Aligned (e.finishComputing id v) (e'.finishComputing id v') := by
  have blank : ∀ (g : Graph) (value : Value), g.pureKind? id = some kind →
      (g.modifyNode id fun node => { node.write Layout.result value with
        activity := .idle, computedAt := e.epoch.number, evaluations := node.evaluations + 1 }).blank =
      g.blank.modifyNode id fun node => { node with
        activity := .idle, computedAt := e.epoch.number, evaluations := node.evaluations + 1 } := by
    intro g value isPure
    refine g.blank_modifyNode ?_
    intro node found
    obtain ⟨other, place, kinds⟩ := Graph.pureKind?_eq_some_iff.mp isPure
    obtain rfl : node = other := Option.some.inj (found.symm.trans place)
    have written := node.blank_write Layout.result value
    rw [if_pos (by rw [kinds]; rfl)] at written
    exact congrArg (fun n : Node => { n with
      activity := .idle, computedAt := e.epoch.number, evaluations := node.evaluations + 1 }) written
  have pure' := Graph.pureKind?_eq_of_frame_eq h.frame id
  rw [pure] at pure'
  unfold Engine.finishComputing
  rw [h.epoch]
  refine (h.modifyNode ?_).count _
  rw [blank _ _ pure', blank _ _ pure, h.blank]

end Aligned

namespace Matching

variable {N : NodeId → Value → Value → Prop} {I : InputAddr → Value → Value → Prop} {e e' : Engine}

/-- Where nothing is current, there is nothing to compare. -/
theorem of_fresh (fresh : e.Fresh) (e' : Engine) : Matching N I e e' where
  node found _ current := absurd current (fresh.node_stale found)
  input found _ _ current := absurd current (fresh.input_stale found)

theorem mono (h : Matching N I e e') {N' : NodeId → Value → Value → Prop}
    {I' : InputAddr → Value → Value → Prop} (nodes : ∀ id v v', N id v v' → N' id v v')
    (inputs : ∀ addr v v', I addr v v' → I' addr v v') : Matching N' I' e e' where
  node found pure current := nodes _ _ _ (h.node found pure current)
  input found found' linked current := inputs _ _ _ (h.input found found' linked current)

theorem of_graph_eq (h : Matching N I e e') {f f' : Engine} (epoch : f.epoch = e.epoch)
    (graph : f.graph = e.graph) (graph' : f'.graph = e'.graph) : Matching N I f f' where
  node := by
    rw [graph, graph', epoch]
    exact h.node
  input := by
    rw [graph, graph', epoch]
    exact h.input

/-- A change to what a node reads or does leaves the values of pure nodes related. -/
theorem node_modifyNode (h : Matching N I e e') {id : NodeId} {f f' : Node → Node}
    (outputs : ∀ node, (f node).outputs = node.outputs)
    (outputs' : ∀ node, (f' node).outputs = node.outputs)
    (kinds : ∀ node, (f node).kind = node.kind)
    (stamps : ∀ node, (f node).computedAt = node.computedAt) {other : NodeId} {node : Node}
    {kind : PureKind} (found : (e.graph.modifyNode id f).node? other = some node)
    (pure : node.kind = .pure kind) (current : e.epoch.isCurrent node.computedAt = true) :
    N other ((e.graph.modifyNode id f).outputValue ⟨other, Layout.result⟩)
      ((e'.graph.modifyNode id f').outputValue ⟨other, Layout.result⟩) := by
  rw [Graph.outputValue_modifyNode outputs, Graph.outputValue_modifyNode outputs']
  rw [Graph.node?_modifyNode] at found
  split at found
  · obtain ⟨old, place, rfl⟩ := Option.map_eq_some_iff.mp found
    exact h.node place ((kinds old).symm.trans pure) (stamps old ▸ current)
  · exact h.node found pure current

theorem store (h : Matching N I e e') {addr : InputAddr} {v v' : Value} (reads : I addr v v') :
    Matching N I (e.store addr v) (e'.store addr v') where
  node found pure current := by
    refine h.node_modifyNode ?_ ?_ ?_ ?_ found pure current <;> intro node <;> rfl
  input {other input input' source} found found' linked current := by
    rw [graph_store, Graph.input?_modifyInput] at found found'
    by_cases same : addr = other
    · subst same
      rw [if_pos rfl] at found found'
      obtain ⟨old, _, rfl⟩ := Option.map_eq_some_iff.mp found
      obtain ⟨old', _, rfl⟩ := Option.map_eq_some_iff.mp found'
      exact reads
    · rw [if_neg same] at found found'
      exact h.input found found' linked current

/-- The same of all that is current, if the change leaves inputs alone as well. -/
theorem modifyNode (h : Matching N I e e') (id : NodeId) {f : Node → Node}
    (inputs : ∀ node, (f node).inputs = node.inputs)
    (outputs : ∀ node, (f node).outputs = node.outputs) (kinds : ∀ node, (f node).kind = node.kind)
    (stamps : ∀ node, (f node).computedAt = node.computedAt) :
    Matching N I (e.modifyNode id f) (e'.modifyNode id f) where
  node found pure current := h.node_modifyNode outputs outputs kinds stamps found pure current
  input found found' linked current := by
    rw [graph_modifyNode, Graph.input?_modifyNode inputs] at found found'
    exact h.input found found' linked current

theorem beginComputing (h : Matching N I e e') (id : NodeId) :
    Matching N I (e.beginComputing id) (e'.beginComputing id) := by
  apply h.modifyNode id <;> intro node <;> rfl

theorem finishComputing (h : Matching N I e e') {id : NodeId} {v v' : Value}
    (there : (e.graph.output? ⟨id, Layout.result⟩).isSome)
    (there' : (e'.graph.output? ⟨id, Layout.result⟩).isSome) (computes : N id v v') :
    Matching N I (e.finishComputing id v) (e'.finishComputing id v') where
  node {other node kind} found pure current := by
    rw [Graph.outputValue_eq, Graph.outputValue_eq, output?_finishComputing,
      output?_finishComputing]
    by_cases same : id = other
    · subst same
      obtain ⟨output, place⟩ := Option.isSome_iff_exists.mp there
      obtain ⟨output', place'⟩ := Option.isSome_iff_exists.mp there'
      rw [if_pos rfl, if_pos rfl, place, place']
      exact computes
    · have unequal : (⟨id, Layout.result⟩ : OutputAddr) ≠ ⟨other, Layout.result⟩ := fun equal =>
        same (OutputAddr.mk.inj equal).1
      rw [graph_finishComputing, Graph.node?_modifyNode_of_ne same] at found
      rw [epoch_finishComputing] at current
      rw [if_neg unequal, if_neg unequal, ← Graph.outputValue_eq, ← Graph.outputValue_eq]
      exact h.node found pure current
  input found found' linked current := by
    rw [input?_finishComputing] at found found'
    rw [epoch_finishComputing] at current
    exact h.input found found' linked current

end Matching

/-- Engines on one graph, as far as pulls leave it alone, with all that is current related. -/
structure Abreast (g : Graph) (N : NodeId → Value → Value → Prop)
    (I : InputAddr → Value → Value → Prop) (e e' : Engine) : Prop where
  aligned : Aligned e e'
  skeleton : e.graph.skeleton = g.skeleton
  matching : Matching N I e e'

/-- Values that are taken from the graph are related, and so is what is taken or computed from
related values. -/
structure Matches (g : Graph) (locals locals' : Locals) (N : NodeId → Value → Value → Prop)
    (I : InputAddr → Value → Value → Prop) : Prop where
  absent : ∀ {addr}, g.input? addr = none → I addr .empty .empty
  literal : ∀ {addr input}, g.input? addr = some input → input.source = none →
    I addr input.literal input.literal
  written : ∀ {addr source}, g.source? addr = some source → g.pureKind? source.node = none →
    I addr (g.outputValue source) (g.outputValue source)
  pulled : ∀ {addr source kind v v'}, g.source? addr = some source →
    g.pureKind? source.node = some kind → N source.node v v' → I addr v v'
  computed : ∀ {id kind operand operand'}, g.pureKind? id = some kind →
    (∀ port ∈ kind.operands, I ⟨id, port⟩ (operand port) (operand' port)) →
    N id (kind.value locals operand) (kind.value locals' operand')

section Pair

variable {g : Graph} {locals locals' : Locals} {N : NodeId → Value → Value → Prop}
  {I : InputAddr → Value → Value → Prop} {e e' : Engine}

theorem Abreast.frame (h : Abreast g N I e e') : e.graph.frame = g.frame :=
  Graph.frame_eq_of_skeleton_eq h.skeleton

/-- What an input reads from its source, once that is settled, is related. -/
theorem Abreast.pulled (h : Abreast g N I e e') (wf : g.WellFormed)
    (matched : Matches g locals locals' N I) {addr : InputAddr} {source : OutputAddr}
    (link : e.graph.source? addr = some source) (settled : e.Settled source.node) :
    I addr (e.graph.outputValue source) (e'.graph.outputValue source) := by
  have link' := link
  rw [Graph.source?_eq_of_frame_eq h.frame] at link'
  have kinds := Graph.pureKind?_eq_of_frame_eq h.frame source.node
  cases pure : g.pureKind? source.node with
  | none =>
    rw [pure] at kinds
    have value : e.graph.outputValue source = g.outputValue source :=
      Graph.outputValue_eq_of_skeleton h.skeleton kinds
    rw [h.aligned.outputValue_eq kinds, value]
    exact matched.written link' pure
  | some kind =>
    rw [pure] at kinds
    obtain ⟨node, found, isPure⟩ := Graph.pureKind?_eq_some_iff.mp kinds
    have value := h.matching.node found isPure (settled node kind found isPure)
    rw [← wf.port_eq_result link' pure] at value
    exact matched.pulled link' pure value

theorem Abreast.count (h : Abreast g N I e e') (update : Statistics → Statistics) :
    Abreast g N I (e.count update) (e'.count update) where
  aligned := h.aligned.count update
  skeleton := by
    rw [graph_count]
    exact h.skeleton
  matching := h.matching.of_graph_eq (epoch_count _ _) (graph_count _ _) (graph_count _ _)

theorem Abreast.log (h : Abreast g N I e e') (event : Event) :
    Abreast g N I (e.log event) (e'.log event) :=
  ⟨h.aligned.log event, h.skeleton, h.matching.of_graph_eq rfl rfl rfl⟩

/-- A pull keeps engines side by side. -/
theorem abreast_pair (wf : g.WellFormed) (matched : Matches g locals locals' N I) :
    PullPair True locals locals' (Abreast g N I) I N where
  glance h := h.aligned.glance
  peek h := h.aligned.peek
  absent {e e' addr} h missing := by
    have same := Graph.map_input?_eq_of_frame_eq h.frame addr
    rw [missing, Option.map_none, eq_comm, Option.map_eq_none_iff] at same
    exact matched.absent same
  unlinked {e e' addr input input'} h found found' unlinked := by
    have same := Graph.map_input?_eq_of_frame_eq h.frame addr
    rw [found, Option.map_some, eq_comm, Option.map_eq_some_iff] at same
    obtain ⟨old, place, equal⟩ := same
    have source := congrArg Input.source equal
    have literal := congrArg Input.literal equal
    change old.source = input.source at source
    change old.literal = input.literal at literal
    rw [h.aligned.literal_eq found found', ← literal]
    exact matched.literal place (source.trans unlinked)
  cached h found found' linked current := h.matching.input found found' linked current
  pulled h link settled := h.pulled wf matched link (settled trivial)
  hit h := h.count _
  miss h := h.count _
  cycle _ _ h := (h.log _).count _
  store h reads := ⟨h.aligned.store _ _ _, (pulled_store _ _ _).skeleton.trans h.skeleton,
    h.matching.store reads⟩
  beginComputing {e e'} id h := by
    have begun : (e.beginComputing id).graph.skeleton = e.graph.skeleton :=
      erase_beginComputing _ e id
    exact ⟨h.aligned.beginComputing id, begun.trans h.skeleton, h.matching.beginComputing id⟩
  operate h pure reads := by
    rw [Graph.pureKind?_eq_of_frame_eq h.frame] at pure
    exact matched.computed pure reads
  finishComputing {e e' id kind v v'} h pure computes := by
    have pure' := pure
    rw [Graph.pureKind?_eq_of_frame_eq h.frame] at pure'
    have there : (g.output? ⟨id, Layout.result⟩).isSome := (wf.isSome_output?_iff pure').mpr rfl
    rw [← Graph.isSome_output?_eq_of_frame_eq h.frame] at there
    have there' := there
    rw [← Graph.isSome_output?_eq_of_frame_eq h.aligned.frame] at there'
    exact ⟨h.aligned.finishComputing pure v v',
      (skeleton_finishComputing pure v).trans h.skeleton,
      h.matching.finishComputing there there' computes⟩

namespace Abreast

variable (h : Abreast g N I e e') (acyclic : g.Acyclic) (wf : g.WellFormed)
  (matched : Matches g locals locals' N I) (quiet : e.graph.Quiet) (nonneg : 0 ≤ e.epoch.number)

include h acyclic wf matched quiet nonneg

/-- What is read is related, and so is what is current afterwards. -/
theorem read (addr : InputAddr) : I addr (e.read locals addr).1 (e'.read locals' addr).1 ∧
    Abreast g N I (e.read locals addr).2 (e'.read locals' addr).2 := by
  obtain ⟨rank, ranks⟩ := Graph.exists_ranks acyclic
  have ranks := ranks.of_frame_eq h.frame.symm
  exact (abreast_pair wf matched).read rank addr h (Graph.size_eq_of_frame_eq h.aligned.frame)
    fun _ => clear_of_quiet quiet nonneg ranks e.graph.size

/-- A node that was brought up to date is settled, and what is current is related. -/
theorem refresh (id : NodeId) : (e.refresh locals id).Settled id ∧
    Abreast g N I (e.refresh locals id) (e'.refresh locals' id) := by
  obtain ⟨rank, ranks⟩ := Graph.exists_ranks acyclic
  have ranks := ranks.of_frame_eq h.frame.symm
  obtain ⟨after, settled⟩ := (abreast_pair wf matched).refresh rank id h
    (Graph.size_eq_of_frame_eq h.aligned.frame)
    fun _ => clear_of_quiet quiet nonneg ranks e.graph.size
  exact ⟨settled trivial, after⟩

/-- The same of a pure node that is computed whether or not it is current. -/
theorem compute {id : NodeId} {kind : PureKind} (pure : e.graph.pureKind? id = some kind) :
    (e.compute locals e.graph.size id kind).Settled id ∧
      Abreast g N I (e.compute locals e.graph.size id kind)
        (e'.compute locals' e'.graph.size id kind) := by
  obtain ⟨rank, ranks⟩ := Graph.exists_ranks acyclic
  have ranks := ranks.of_frame_eq h.frame.symm
  have clear : Clear rank (rank id) e ∧ rank id < e.graph.size :=
    ⟨clear_of_quiet quiet nonneg ranks _, ranks.bound (Graph.lt_size_of_pureKind? pure)⟩
  obtain ⟨after, settled⟩ := (abreast_pair wf matched).compute rank e.graph.size h pure (quiet id)
    fun _ => clear
  rw [Graph.size_eq_of_frame_eq h.aligned.frame]
  exact ⟨settled trivial, after⟩

end Abreast

end Pair

end NodeGraph.Engine
